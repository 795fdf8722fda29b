import CrazySnail.Verified.FailedSubscription
import CrazySnail.Verified.References
import CrazySnail.Verified.RequestBlocks

/-! # References that are conserved

Where no step loses a slot, each slot in use has one owner: a handler, a pending command, or a
callback that the trees lead to (`referencesConserved`).  The client conserves the slots as long
as no handler is overwritten, no callback is given to a command that enters it nowhere, no teardown
finds a record with a callback, and `on_read` neither gives back nor keeps an old reference.
-/

namespace CrazySnail

open Transition World

/-! ## Owners -/

namespace World
variable (w : World)

/-- No record holds a slot. -/
def Unheld : Prop := w.ledger.records = []

/-- Only what the handlers refer to is in the registry. -/
def OnlyHandlers : Prop := ∀ n, (w.lua.slots n).isSome = true ↔ .ref n ∈ w.ledger.handlers

end World

/-- Every slot that was given out is free or has one owner. -/
structure Conserved (w : World) : Prop where
  /-- each slot is free or held, once, and exactly those that are held have a function -/
  accounts : w.lua.Accounts w.ledger.held
  /-- a record that holds a slot is on the command list or in a tree -/
  reached : ∀ id c, w.heap.cb id = some c → c.ref.slot? ≠ none → .heap id ∈ w.wrappers
  /-- an entry of the command list is nowhere else -/
  single : ∀ id, .heap id ∈ w.cc.commandCbList → w.wrappers.count (.heap id) = 1
  /-- an entry is no local variable -/
  pending : .stack ∉ w.cc.commandCbList
  /-- what the lists lead to is alive -/
  alive : ∀ id, .heap id ∈ w.wrappers → w.heap.cb id ≠ none
  /-- and refers to the function that was given to its command -/
  given : ∀ id c, w.heap.cb id = some c → w.lua.rawgeti c.ref = givenTo w.trace id

/-- The step loses no slot, gives none back that is not held, and puts no old reference on the
    command list. -/
def Conserves (w : World) (e : Event) (w' : World) : Prop :=
  Expected w e w' ∧
  match e with
  | .api (.on event _) => ∀ old, overwritten w event = some old →
      w.cc.exited = false ∧ old.slot? = none
  | .api (.command args _) => ∀ argv timers, collect args = .ok argv timers →
      callbackOf args ≠ none → classify (argv.headD []) ≠ .unsubscribe ∧
        ∀ p, classify (argv.headD []) = .subscribe p → ¬w.EntersNothing argv.tail timers
  | .api .exit => w.Unheld
  | .closed h => w.TearsDown h → w.Unheld
  | .resume => ∀ h subMode cb below reader, w.stack = .readLoop h subMode cb :: below →
      redisReaderGetReply w.cc.reader = (reader, .ok, none) → w.cc.flags.disconnecting = false →
      w.cc.flags.monitoring = false
  | _ => True

/-! ## Records that are kept -/

/-- What holds of a record as long as it lives. -/
structure Persists (P : Callback → Prop) : Prop extends OfWrappers P where
  slots : ∀ c channels initialized, P c → P { c with channels, initialized }

/-- A record without wrappers holds no slot. -/
theorem persists_attached : Persists fun c => c.attach = 0 → c.ref.slot? = none where
  attach _ _ hzero := absurd hzero (Nat.succ_ne_zero _)
  detach c h hone hzero := by
    have hless : c.attach - 1 = 0 := hzero
    exact h (by omega)
  slots _ _ _ h := h

theorem persists_slotless : Persists fun c => c.ref.slot? = none where
  attach _ h := h
  detach _ h _ := h
  slots _ _ _ h := h

namespace World
variable {w : World} {P : Callback → Prop}

theorem Records.persist (hP : Persists P) (w : World) (u : Update) (hu : u.part ∉ [.create])
    (h : w.Records P) : (u.apply w).Records P := by
  by_cases hslots : u.part ∈ [.addChannel, .slots]
  · cases u with
    | addChannel id ch =>
      refine h.set id rfl fun c' hc' => ?_
      obtain ⟨c, hc, rfl⟩ := Option.map_eq_some_iff.mp hc'
      exact hP.slots c _ c.initialized (h id c hc)
    | slots id channels all =>
      refine h.set id rfl fun c' hc' => ?_
      obtain ⟨c, hc, rfl⟩ := Option.map_eq_some_iff.mp hc'
      exact hP.slots c _ _ (h id c hc)
    | _ => simp at hslots
  · exact h.count hP.toOfWrappers w u fun hmem =>
      (List.mem_cons.mp hmem).elim (fun heq => hu (List.mem_singleton.mpr heq)) hslots

/-- Only a command makes a record. -/
theorem Records.step (hP : Persists P) {w' : World} {e : Event} (hstep : w.step e = some w')
    (he : ∀ args env, e ≠ .api (.command args env)) (h : w.Records P) : w'.Records P := by
  refine (step_touches hstep).keeps (fun w u hu => Records.persist hP w u hu) ?_ h
  generalize w.stack.head?.map Frame.tag = top
  cases e with
  | api c =>
    cases c with
    | command args env => exact absurd rfl (he args env)
    | _ => rfl
  | resume =>
    cases top with
    | none => rfl
    | some tag => cases tag <;> rfl
  | _ => rfl

/-- Every record with a slot has a wrapper. -/
def Attached (w : World) : Prop := w.Records fun c => c.attach = 0 → c.ref.slot? = none

/-- A pending command has the wrapper of its entry. -/
theorem Attached.pending (h : w.Attached) {kind : Kind} (hkind : kind.pending = true)
    (chs timers : List Bytes) (fn : Option Fn) (flags : Bool) :
    (w.registerCommand kind chs timers fn flags).Attached := by
  have hledger := congrArg Ledger.card (pending_ledger w hkind chs timers fn flags)
  intro id c hid hzero
  have hid' : (w.registerCommand kind chs timers fn flags).ledger.card id =
      some (c.ref, c.attach) := congrArg (Option.map _) hid
  have hcard := hid'.symm.trans (congrFun hledger id)
  dsimp only at hcard
  by_cases hnew : id = w.ledger.next
  -- the new record is made with the wrapper of its entry
  · rw [hnew, Function.update_self, Option.some.injEq] at hcard
    exact absurd ((congrArg Prod.snd hcard).symm.trans hzero) Nat.one_ne_zero
  · rw [Function.update_of_ne hnew] at hcard
    obtain ⟨c₀, hc₀, heq⟩ := Option.map_eq_some_iff.mp hcard.symm
    obtain ⟨href, hattach⟩ := Prod.mk.inj heq
    exact href ▸ h id c₀ hc₀ (hattach.trans hzero)

/-- A callback that is entered somewhere has a wrapper. -/
theorem Attached.entered (h : w.Attached) (hcounts : w.Counts) {argv timers : List Bytes}
    {fn : Option Fn} (hsome : fn ≠ none → ∀ p, classify (argv.headD []) = .subscribe p →
      ¬w.EntersNothing argv.tail timers) (flags : Bool) :
    (w.entered argv timers fn flags).Attached := by
  have hcounts' := entered_counts hcounts argv timers fn flags
  have hnoted : (w.noted (classify (argv.headD [])) argv timers fn).Attached := h
  unfold World.entered at hcounts' ⊢
  cases hkind : classify (argv.headD []) with
  | subscribe p =>
    rw [hkind] at hcounts' hnoted
    obtain ⟨⟨n, hn⟩, -, hother⟩ := registerCommand_record
      (w := w.noted (.subscribe p) argv timers fn) p argv.tail timers fn flags
    intro id c hid hzero
    by_cases hnew : id = (w.noted (.subscribe p) argv timers fn).heap.next
    · subst hnew
      have hattach := Counted.attach hcounts' _ c hid
      obtain rfl := Option.some.inj (hn.symm.trans hid)
      -- a new record without a wrapper is one without a callback: it has been entered otherwise
      by_contra hslot
      have hfn : fn ≠ none := by
        rintro rfl
        exact hslot rfl
      have hentry := registerCommand_entries (w := w.noted (.subscribe p) argv timers fn)
        (hsome hfn p hkind) p fn flags
      exact List.count_eq_zero.mp (hattach.symm.trans hzero) (List.mem_append_right _ hentry)
    · exact hnoted id c ((hother id hnew).symm.trans hid) hzero
  | unsubscribe =>
    rw [hkind] at hnoted
    exact (World.refCallback_touches _ fn).keeps
      (fun w u hu => Records.persist persists_attached w u hu) rfl hnoted
  | monitor | ordinary =>
    rw [hkind] at hnoted
    exact hnoted.pending rfl argv.tail timers fn flags

/-! ## The books without records -/

theorem Unheld.records {lost : List Nat} (h : w.Unheld) (hb : w.ledger.Balanced lost) :
    w.Records fun c => c.ref.slot? = none := by
  intro id c hid
  have hcard : w.ledger.card id = some (c.ref, c.attach) := congrArg (Option.map _) hid
  cases href : c.ref with
  | ref m =>
    have hmem := Ledger.mem_records (hb.lt_next hcard) (href ▸ hcard)
    rw [h] at hmem
    cases hmem
  | noref | refnil => rfl

theorem Records.slotless (h : w.Records fun c => c.ref.slot? = none) (id : Nat) :
    (w.ledger.card id).bind (fun c => c.1.slot?) = none := by
  cases hid : w.heap.cb id with
  | none => simp [World.ledger, hid]
  | some c => simpa [World.ledger, hid] using h id c hid

theorem Records.unheld (h : w.Records fun c => c.ref.slot? = none) : w.Unheld :=
  List.filterMap_eq_nil_iff.mpr fun id _ => h.slotless id

/-- A teardown that finds no slots loses none. -/
theorem Records.destroyed (h : w.Records fun c => c.ref.slot? = none) (d : Ledger) :
    w.ledger.destroyed d = [] := by
  refine List.filterMap_eq_nil_iff.mpr fun id _ => ?_
  split
  · exact h.slotless id
  · rfl

end World

/-! ## Steps -/

/-- The invariant of the runs in which no slot is lost. -/
structure Conserving (w : World) : Prop where
  accounted : Accounted w []
  counts : w.Counts
  attached : w.Attached
  pending : .stack ∉ w.cc.commandCbList

section
variable {w w' : World} {e : Event}

theorem step_attached (hstep : w.step e = some w') (he : Conserves w e w') (hcounts : w.Counts)
    (h : w.Attached) : w'.Attached := by
  by_cases hcommand : ∃ args env, e = .api (.command args env)
  · obtain ⟨args, env, rfl⟩ := hcommand
    obtain ⟨-, hs⟩ := step_cases hstep
    cases hs
    change (w.luaClientCommand args env).Attached
    cases hcollect : collect args with
    | raise | fault =>
      exact (w.luaClientCommand_refused env (by simp [hcollect])).keeps
        (fun w u hu => Records.persist persists_attached w u hu) rfl h
    | ok argv timers =>
      have hentered := h.entered hcounts
        (fun hfn p hkind => (he.2 argv timers hcollect hfn).2 p hkind) env.flags
      rw [luaClientCommand_eq hcollect]
      exact (sendCommand_touches _ _ _ _ _ _).keeps
        (fun w u hu => Records.persist persists_attached w u hu) rfl hentered
  · exact Records.step persists_attached hstep (fun args env heq => hcommand ⟨args, env, heq⟩) h

theorem Update.apply_pending (w : World) (u : Update) (hu : u.part ∉ [.appendStack])
    (h : .stack ∉ w.cc.commandCbList) : .stack ∉ (u.apply w).cc.commandCbList := by
  cases u with
  | appendStack => simp at hu
  | append id => simpa [Update.apply] using h
  | shift => exact fun hmem => h (List.mem_of_mem_tail hmem)
  | clearList => exact List.not_mem_nil
  | names p t => cases p <;> exact h
  | _ => exact h

/-- `on_read` puts its local record on the list only while it monitors. -/
theorem step_pending (hstep : w.step e = some w') (he : Conserves w e w')
    (h : .stack ∉ w.cc.commandCbList) : .stack ∉ w'.cc.commandCbList := by
  have htouches := step_touches hstep
  obtain ⟨-, hs⟩ := step_cases hstep
  cases hs with
  | api c _ => exact htouches.keeps Update.apply_pending (by cases c <;> rfl) h
  | @resume f rest hstack _ =>
    cases f with
    | readLoop h₁ subMode cb =>
      have hround := readLoop_round { w with stack := rest } h₁ subMode cb
      change .stack ∉ (({ w with stack := rest } : World).readLoop h₁ subMode cb).cc.commandCbList
      generalize ({ w with stack := rest } : World).readLoop h₁ subMode cb = w' at hround ⊢
      cases hround with
      | ended hget hdisconnecting =>
        -- the end of the replies: here the local record would be pushed
        have hmonitoring := he.2 h₁ subMode cb rest _ hstack hget hdisconnecting
        unfold endRead
        simp only [hmonitoring, Bool.false_eq_true, if_false]
        split
        · exact h
        · exact h
      | reply _ _ => exact (dispatchReply_touches _ h₁ cb _).keeps Update.apply_pending rfl h
      | subReply _ _ => exact (getAndCallSubCb_touches _ _).keeps Update.apply_pending rfl h
      | _ => exact h
    | _ =>
      rw [hstack] at htouches
      exact htouches.keeps Update.apply_pending rfl h
  | _ => exact htouches.keeps Update.apply_pending rfl h

/-- The condition says that no slot is lost. -/
theorem Conserves.lostBy_eq {lost : List Nat} (he : Conserves w e w') (hstep : w.step e = some w')
    (hb : w.ledger.Balanced lost) : lostBy w e = [] := by
  cases e with
  | api c =>
    cases c with
    | on event fn =>
      change lostByOn w event fn = []
      unfold lostByOn
      cases hold : overwritten w event with
      | none => rfl
      | some old =>
        obtain ⟨hrunning, hslot⟩ := he.2 old hold
        simp [hrunning, hslot]
    | command args env =>
      simp only [lostBy]
      cases hcollect : collect args with
      | ok argv timers =>
        change unentered w argv (callbackOf args) = []
        unfold unentered
        split
        next hkind =>
          cases hfn : callbackOf args with
          | none => rfl
          | some f => exact absurd hkind (he.2 argv timers hcollect (by simp [hfn])).1
        next => rfl
      | _ => rfl
    | exit =>
      simp only [lostBy, hstep, Option.map_some, Option.getD_some]
      exact (Unheld.records he.2 hb).destroyed _
    | _ => rfl
  | closed h₁ =>
    simp only [lostBy, hstep, Option.map_some, Option.getD_some]
    by_cases htears : w.TearsDown h₁
    · exact ((he.2 htears).records hb).destroyed _
    -- a stream is left, so nothing is destroyed
    · obtain ⟨-, hs⟩ := step_cases hstep
      cases hs
      rw [(onDisconnect_quiet htears).ledger rfl]
      exact Ledger.destroyed_of_card rfl
  | _ => rfl

/-- **One step** that loses no slot. -/
theorem Conserving.step (h : Conserving w) (hstep : w.step e = some w') (he : Conserves w e w')
    (hfault : w'.fault = none) : Conserving w' where
  accounted := by
    have haccounted := step_accounted h.accounted hstep he.1 hfault
    rwa [he.lostBy_eq hstep h.accounted.balanced, List.append_nil] at haccounted
  counts := step_counts hstep h.counts
  attached := step_attached hstep he h.counts h.attached
  pending := step_pending hstep he h.pending

theorem conserving_new (ignore : Bool) : Conserving (World.new ignore) where
  accounted := accounted_new ignore
  counts := reachable_counts ⟨ignore, [], rfl⟩
  attached _ _ hid := by cases hid
  pending := List.not_mem_nil

/-! ## The result -/

theorem Conserving.conserved (h : Conserving w) : Conserved w where
  accounts := by
    have haccounts := h.accounted.balanced.accounts
    rw [List.append_nil] at haccounts
    exact ⟨haccounts.slots, haccounts.functions⟩
  reached id c hid hslot := by
    have hattach := Counted.attach h.counts id c hid
    have hne : c.attach ≠ 0 := fun hzero => hslot (h.attached id c hid hzero)
    exact List.count_pos_iff.mp (by omega)
  single id hid := by
    obtain ⟨r, hr⟩ := h.accounted.balanced.single id hid
    obtain ⟨c, hc, heq⟩ := Option.map_eq_some_iff.mp hr
    exact (Counted.attach h.counts id c hc).symm.trans (congrArg Prod.snd heq)
  pending := h.pending
  alive := h.counts.alive
  given id c hid := h.accounted.balanced.named id c.ref c.attach (congrArg (Option.map _) hid)

theorem mem_slots {n : Nat} {rs : List LuaRef} :
    n ∈ rs.flatMap (fun r => r.slot?.toList) ↔ .ref n ∈ rs := by
  rw [List.mem_flatMap]
  constructor
  · rintro ⟨r, hr, hn⟩
    cases r with
    | ref m =>
      obtain rfl : n = m := by simpa [LuaRef.slot?] using hn
      exact hr
    | noref | refnil => cases hn
  · exact fun hr => ⟨_, hr, List.mem_singleton_self n⟩

/-- After the teardown the records are gone, and the handlers are left. -/
theorem Conserving.torn (h : Conserving w) {h₁ : Handle} (hstep : w.step (.closed h₁) = some w')
    (hunheld : w.Unheld) : w'.OnlyHandlers := by
  have hslotless := hunheld.records h.accounted.balanced
  have hbooks : w'.ledger.Balanced [] := by
    obtain ⟨-, hs⟩ := step_cases hstep
    cases hs
    have hdisconnected := onDisconnect_balanced h.accounted.balanced h₁
    rwa [hslotless.destroyed, List.append_nil] at hdisconnected
  have hunheld' : w'.ledger.records = [] :=
    (Records.step persists_slotless hstep (fun _ _ heq => by cases heq) hslotless).unheld
  intro n
  have hn := hbooks.accounts.functions n
  rw [List.append_nil, Ledger.held, hunheld', List.append_nil] at hn
  exact hn.trans mem_slots

end

/-- **References are conserved** in every run that meets the condition, and after a teardown only
    the handlers are left in the registry. -/
theorem referencesConserved {ignore : Bool} {es : List Event} {w : World}
    (hrun : RunsUnder World.step Conserves (World.new ignore) es w) (hfault : w.fault = none) :
    Conserved w ∧ ∀ h w', w.step (.closed h) = some w' → w.TearsDown h →
      Conserves w (.closed h) w' → w'.OnlyHandlers := by
  have hconserving := hrun.invariant (I := fun w => w.fault = none → Conserving w)
    (fun _ _ _ h hstep he hfault => (h (step_cases hstep).1).step hstep he hfault)
    fun _ => conserving_new ignore
  have hw := hconserving hfault
  exact ⟨hw.conserved, fun h w' hstep htears he => hw.torn hstep (he.2 htears)⟩

instance (w : World) : Decidable w.Unheld := inferInstanceAs (Decidable (w.ledger.records = []))

def conservesCheck (w : World) : Event → Bool
  | .api (.on event _) =>
    match overwritten w event with
    | some old => !w.cc.exited && decide (old.slot? = none)
    | none => true
  | .api (.command args _) =>
    match collect args with
    | .ok argv _ =>
      match classify (argv.headD []) with
      | .unsubscribe => (callbackOf args).isNone
      | .subscribe _ => (callbackOf args).isNone || decide (argv.tail ≠ [])
      | _ => true
    | _ => true
  | .api .exit => decide w.Unheld
  | .closed _ => decide w.Unheld
  | .resume => !w.cc.flags.monitoring
  | _ => true

theorem conserves_of_check {w w' : World} {e : Event}
    (h : (expectedCheck w e && conservesCheck w e) = true) : Conserves w e w' := by
  obtain ⟨hexpected, hcheck⟩ := Bool.and_eq_true_iff.mp h
  refine ⟨expected_of_check hexpected, ?_⟩
  cases e with
  | api c =>
    cases c with
    | on event fn =>
      intro old hold
      simpa [conservesCheck, hold] using hcheck
    | command args env =>
      intro argv timers hcollect hfn
      simp only [conservesCheck, hcollect] at hcheck
      refine ⟨fun hkind => ?_, fun p hkind hnothing => ?_⟩
      · rw [hkind] at hcheck
        exact hfn (Option.isNone_iff_eq_none.mp hcheck)
      · rw [hkind] at hcheck
        exact hfn (by simpa [hnothing.1] using hcheck)
    | exit => exact of_decide_eq_true (p := w.Unheld) hcheck
    | _ => trivial
  | closed h₁ => exact fun _ => of_decide_eq_true hcheck
  | resume =>
    intro _ _ _ _ _ _ _ _
    simpa [conservesCheck] using hcheck
  | _ => trivial

/-- An error handler and a command that is answered. -/
def handledPing : List Event :=
  [.api (.on (ascii "error") 1), .api .connect, .connected 0 0, .connected 0 0,
   .api (.command [.string (ascii "ping"), .function 2] ⟨0, false⟩), .written 0 0 0,
   .read 0 (ascii "+PONG\r\n") .noref, .resume, .ret true, .resume]

/-- Then a command that waits for its reply, and a subscription. -/
def handledAndPending : List Event :=
  handledPing ++
    [.api (.command [.string (ascii "get"), .string (ascii "a"), .function 3] ⟨0, false⟩),
     .api (.command [.string (ascii "subscribe"), .string (ascii "b"), .function 4] ⟨0, false⟩)]

/-- The command and the subscription hold their slots; without them a teardown leaves the slot of
    the handler. -/
theorem referencesConserved_held :
    (∃ w, runs (World.new true) handledAndPending = some w ∧ Conserved w ∧
      w.ledger.held = [1, 2, 3]) ∧
      ∃ w w', runs (World.new true) (handledPing ++ [.api .disconnect, .closed 0]) = some w ∧
        w.step (.closed 1) = some w' ∧ w'.OnlyHandlers ∧
        w'.ledger.handlers = [.noref, .ref 1, .noref] := by
  constructor
  · have hrun : (runChecked World.step (fun w e => expectedCheck w e && conservesCheck w e)
        (World.new true) handledAndPending).map (fun w => (w.fault.isNone, w.ledger.held)) =
        some (true, [1, 2, 3]) := by decide +kernel
    obtain ⟨w, hw, hend⟩ := Option.map_eq_some_iff.mp hrun
    obtain ⟨hfault, hheld⟩ := Prod.mk.inj hend
    have hunder := runsUnder_of_checked (C := Conserves) (fun _ _ _ h _ => conserves_of_check h) hw
    exact ⟨w, hunder.run_eq,
      (referencesConserved hunder (Option.isNone_iff_eq_none.mp hfault)).1, hheld⟩
  · have hrun : ((runChecked World.step (fun w e => expectedCheck w e && conservesCheck w e)
        (World.new true) (handledPing ++ [.api .disconnect, .closed 0])).bind fun w =>
          (w.step (.closed 1)).map fun w' => (w, w')).map (fun s => (s.1.fault.isNone,
            (s.1.uv.streams 1).map Stream.data, s.1.cc.streamFlags, decide s.1.Unheld,
            s.2.ledger.handlers)) =
        some (true, some true, ⟨false, true⟩, true, [.noref, .ref 1, .noref]) := by decide +kernel
    obtain ⟨s, hs, hend⟩ := Option.map_eq_some_iff.mp hrun
    obtain ⟨w, hw, hs⟩ := Option.bind_eq_some_iff.mp hs
    obtain ⟨w', hstep, rfl⟩ := Option.map_eq_some_iff.mp hs
    simp only [Prod.mk.injEq] at hend
    obtain ⟨hfault, hdata, hflags, hunheld, hhandlers⟩ := hend
    have hunder := runsUnder_of_checked (C := Conserves) (fun _ _ _ h _ => conserves_of_check h) hw
    have htears : w.TearsDown 1 := ⟨by rw [hdata]; rfl, by simp [hflags]⟩
    have hconserves : Conserves w (.closed 1) w' :=
      ⟨expected_of_check rfl, fun _ => of_decide_eq_true hunheld⟩
    exact ⟨w, w', hunder.run_eq, hstep, (referencesConserved hunder
      (Option.isNone_iff_eq_none.mp hfault)).2 1 w' hstep htears hconserves, hhandlers⟩

/-- A command that is not answered before the connection ends. -/
def unanswered : List Event :=
  [.api .connect, .connected 0 0, .connected 0 0,
   .api (.command [.string (ascii "ping"), .function 1] ⟨0, false⟩), .written 0 0 0,
   .api .disconnect, .closed 0, .closed 1]

/-- Its slot stays in the registry, and nothing holds it. -/
theorem referencesConserved_fails :
    ∃ w, runs (World.new true) unanswered = some w ∧ ¬Conserved w ∧ ¬w.OnlyHandlers := by
  have hrun : (runs (World.new true) unanswered).map
      (fun w => (w.lua.slots 1, w.ledger.held, w.ledger.handlers)) =
      some (some 1, [], [.noref, .noref, .noref]) := by decide +kernel
  obtain ⟨w, hw, hstate⟩ := Option.map_eq_some_iff.mp hrun
  simp only [Prod.mk.injEq] at hstate
  obtain ⟨hslot, hheld, hhandlers⟩ := hstate
  have hused : (w.lua.slots 1).isSome = true := by rw [hslot]; rfl
  refine ⟨w, hw, fun h => ?_, fun h => ?_⟩
  · have hmem := (h.accounts.functions 1).mp hused
    rw [hheld] at hmem
    cases hmem
  · have hmem := (h 1).mp hused
    rw [hhandlers] at hmem
    simp at hmem

end CrazySnail
