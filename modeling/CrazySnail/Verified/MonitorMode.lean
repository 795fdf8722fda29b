import CrazySnail.Verified.SurplusReplies

/-! # Monitor mode

A `monitor` command leaves one record on the list, to be called with every line.  `on_read`
takes it off for the first line and gives its reference back; at the end of a chunk it pushes
the address of its local variable, which is gone when the next chunk comes.  So monitoring
works until the reply loop runs for the first time, and not any more afterwards
(`monitorKept`).
-/

namespace CrazySnail

open Transition World

/-! ## What monitoring is -/

namespace Matching

/-- The matching of the commands `cs` with replies and calls of its own. -/
def within (m : Matching) (cs : List (Nat × Option Fn)) (rs : List Reply)
    (calls : List (Site × Fn × List LuaValue)) : Matching :=
  { m with issued := cs, answered := rs, calls }

end Matching

/-- The commands `cs` wait for their replies, each with a callback of its own, and the client
    does not monitor. -/
def Waiting (w : World) (cs : List (Nat × Option Fn)) : Prop := (w.matching.within cs [] []).Ok

/-- Commands that a run has left without a reply wait for it. -/
theorem Waiting.of_ok {w : World} (h : w.matching.Ok) : Waiting w w.matching.pending where
  answered_le := Nat.zero_le _
  list := h.list
  calls := by cases w.matching.pending <;> rfl
  quiet := h.quiet
  fresh := h.fresh
  nodup := h.nodup
  leads := h.leads
  owned := h.owned

/-- Monitoring since `base`: every line has been passed to the callback, in order, its
    reference is registered, and the list holds live records. -/
structure Monitored (base w : World) (n : Nat) (fn : Fn) : Prop where
  delivered : commandCalls (since base w) =
    (answered (since base w)).map fun r => (.reply, fn, [.nil, pushReply r])
  registered : w.lua.slots n = some fn
  alive : ∀ p ∈ w.cc.commandCbList, (w.heap.deref p).isSome

/-- The client only listens: Lua code calls no method but `on`, the connection lasts, the
    command is written, and what the server sends is well formed. -/
def Listening (w : World) (e : Event) (_ : World) : Prop :=
  match e with
  | .api (.on ..) => True
  | .api _ => False
  | .resume => ∀ h subMode cb, w.stack.head? = some (.readLoop h subMode cb) →
      (redisReaderGetReply w.cc.reader).2.1 = .ok
  | .readError .. => False
  | .written _ status readStart => 0 ≤ status ∧ 0 ≤ readStart
  | .closed _ => False
  | _ => True

/-- The rounds of the reply loop. -/
def loopRounds (w : World) : Event → List Unit
  | .resume =>
    match w.stack with
    | .readLoop .. :: _ => [()]
    | _ => []
  | _ => []

/-! ## Before the first round -/

/-- The record of the monitor command is the only entry, and its reference is its own. -/
def Armed (w : World) (n : Nat) (fn : Fn) : Prop :=
  ∃ id, ({ w.matching with monitoring := false }.within [(id, some fn)] [] []).Ok ∧
    w.matching.ref id = some (.ref n)

/-- Nothing has been read since `base`. -/
structure Untouched (base w : World) (n : Nat) (fn : Fn) : Prop where
  armed : Armed w n fn
  calls : commandCalls w.trace = commandCalls base.trace
  answered : CrazySnail.answered w.trace = CrazySnail.answered base.trace

theorem Untouched.quiet {base w w' : World} {n : Nat} {fn : Fn} (h : Untouched base w n fn)
    (hmatching : w'.matching = w.matching) : Untouched base w' n fn where
  armed := by
    unfold Armed
    rw [hmatching]
    exact h.armed
  calls := (congrArg Matching.calls hmatching).trans h.calls
  answered := (congrArg Matching.answered hmatching).trans h.answered

theorem Untouched.on {base w : World} {n : Nat} {fn : Fn} (h : Untouched base w n fn)
    (event : Bytes) (g : Fn) : Untouched base (w.luaClientOn event g) n fn := by
  have hmatching := luaClientOn_matching w event g
  generalize w.luaClientOn event g = w' at hmatching
  obtain ⟨lua, hlua⟩ : ∃ lua, w'.matching = { w.matching with lua } :=
    hmatching.elim (fun h => ⟨_, h⟩) fun h => ⟨_, h⟩
  obtain ⟨id, hok, href⟩ := h.armed
  refine ⟨⟨id, hok.on (f := g) ?_, (congrFun (congrArg Matching.ref hlua) id).trans href⟩,
    (congrArg Matching.calls hlua).trans h.calls, (congrArg Matching.answered hlua).trans h.answered⟩
  refine hmatching.imp (fun h => ?_) fun h => ?_
  · rw [h]; rfl
  · rw [h]; rfl

/-- An untouched client monitors. -/
theorem Untouched.monitored {base w : World} {n : Nat} {fn : Fn} (h : Untouched base w n fn)
    (htrace : base.trace <+: w.trace) : Monitored base w n fn := by
  obtain ⟨id, hok, href⟩ := h.armed
  have hcalls := h.calls
  have hanswered := h.answered
  rw [← since_eq htrace, commandCalls_append, List.append_right_eq_self] at hcalls
  rw [← since_eq htrace, answered_append, List.append_right_eq_self] at hanswered
  refine ⟨by rw [hcalls, hanswered]; rfl, ?_, fun p hp => ?_⟩
  · have hleads := hok.leads (id, some fn) List.mem_cons_self
    have hslot : w.matching.lua.Leads (w.matching.ref id) (some fn) := hleads
    rw [href] at hslot
    cases hslot with
    | slot hn => exact hn
  · have hlist : w.cc.commandCbList = [.heap id] := hok.list
    rw [hlist, List.mem_singleton] at hp
    subst hp
    obtain ⟨c, hc, -⟩ := Option.map_eq_some_iff.mp href
    exact Option.isSome_iff_exists.mpr ⟨c, hc⟩

/-! ## After the first round -/

/-- The client monitors, and neither leaves nor has left. -/
structure Up (w : World) : Prop where
  monitoring : w.cc.flags.monitoring = true
  staying : w.cc.flags.disconnecting = false

/-- The reply loop is at work. -/
def Looping (w : World) : Prop := ∃ h subMode cb, .readLoop h subMode cb ∈ w.stack

/-- The address of a local variable is on the list, or will be when the reply loop ends. -/
def Stale (w : World) : Prop := w.fault = none → .stack ∈ w.cc.commandCbList ∨ Looping w

theorem Update.apply_up (w : World) (u : Update) (hu : u.part ∉ [.raise .disconnecting, .clearFlags])
    (h : Up w) : Up (u.apply w) := by
  obtain ⟨hmonitoring, hstaying⟩ := h
  cases u with
  | raise t => cases t <;> first | exact ⟨hmonitoring, hstaying⟩ | exact ⟨rfl, hstaying⟩ | simp at hu
  | clearFlags => simp at hu
  | names p t => cases p <;> exact ⟨hmonitoring, hstaying⟩
  | _ => exact ⟨hmonitoring, hstaying⟩

/-- Listening does not end monitoring. -/
theorem Up.step {w w' : World} {e : Event} (h : Up w) (hstep : w.step e = some w')
    (hlistening : Listening w e w') : Up w' := by
  refine (step_touches hstep).keeps (fun w u hu hw => u.apply_up w hu hw) ?_ h
  generalize w.stack.head?.map Frame.tag = top
  cases e with
  | api c => cases c <;> first | rfl | exact hlistening.elim
  | closed => exact hlistening.elim
  | readError => exact hlistening.elim
  | resume =>
    cases top with
    | none => rfl
    | some tag => cases tag <;> rfl
  | _ => rfl

theorem Update.apply_looping (w : World) (u : Update) (hu : u.part ∉ [.pop]) (h : Looping w) :
    Looping (u.apply w) := by
  obtain ⟨h₁, subMode, cb, hmem⟩ := h
  cases u with
  | push f => exact ⟨h₁, subMode, cb, List.mem_cons_of_mem _ hmem⟩
  | pop => simp at hu
  | names p t => cases p <;> exact ⟨h₁, subMode, cb, hmem⟩
  | _ => exact ⟨h₁, subMode, cb, hmem⟩

theorem Touches.looping {ks : List Part} {w w' : World} (ht : Touches ks w w')
    (hks : ks.all (fun k => decide (k ∉ [.pop])) = true) (h : Looping w) : Looping w' :=
  ht.keeps (fun w u hu hw => u.apply_looping w hu hw) hks h

/-- After a reply on the command stream the loop goes on. -/
theorem deliverReply_looping (w : World) (h : Handle) (cb : LuaRef) (r : Reply) :
    Looping (w.deliverReply h cb r) := by
  have hpush : Looping (w.push (.readLoop h false cb)) := ⟨h, false, cb, List.mem_cons_self⟩
  cases cb with
  | noref | refnil => exact hpush
  | ref n =>
    simp only [deliverReply]
    split
    · have hunref : Looping ((w.push (.readLoop h false (.ref n))).unref (.ref n)) := hpush
      exact (pcall_touches _ _ _ _).looping rfl hunref
    · exact hpush

/-- **A round** leaves the address behind, or the loop goes on. -/
theorem Round.stale {w w' : World} {h : Handle} {subMode : Bool} {cb : LuaRef} (hup : Up w)
    (hok : (redisReaderGetReply w.cc.reader).2.1 = .ok) (hround : Round w h subMode cb w') :
    Stale w' := by
  intro hfault
  cases hround with
  | exited =>
    have hcrash := crash_isSome w .deadClient
    rw [hfault] at hcrash
    cases hcrash
  | failed hget _ =>
    rw [hget] at hok
    cases hok
  | stored hget _ =>
    rw [hget] at hok
    cases hok
  | disconnecting _ hdisc =>
    rw [hup.staying] at hdisc
    cases hdisc
  -- the end of the loop puts its local record on the list again
  | @ended reader _ _ =>
    left
    simp only [endRead, hup.monitoring, if_true]
    split <;> exact List.mem_append_right _ (List.mem_singleton_self _)
  | @reply reader r _ _ =>
    right
    obtain ⟨-, heq⟩ | ⟨list, -, heq⟩ | ⟨list, target, heap, -, heq⟩ :=
      (w.replied reader false r).dispatchReply_cases h cb r
    · exact heq ▸ deliverReply_looping _ _ _ _
    · rw [heq] at hfault
      have hcrash := crash_isSome { w.replied reader false r with cc.commandCbList := list }
        .deadCallback
      rw [hfault] at hcrash
      cases hcrash
    · exact heq ▸ deliverReply_looping _ _ _ _
  | subError => exact .inr ⟨h, true, cb, List.mem_cons_self⟩
  | subReply =>
    exact .inr ((getAndCallSubCb_touches _ _).looping rfl ⟨h, true, cb, List.mem_cons_self⟩)

theorem Stale.quiet {w w' : World} (h : Stale w) (hfault : w.fault = none)
    (hlist : w'.cc.commandCbList = w.cc.commandCbList) (hloop : Looping w → Looping w') :
    Stale w' := fun _ => (h hfault).imp (fun hmem => hlist.symm ▸ hmem) hloop

/-! ## Steps -/

/-- The invariant: untouched before the first round, stale afterwards. -/
structure Monitoring (base w : World) (n : Nat) (fn : Fn) (rounds : List Unit) : Prop where
  up : Up w
  before : rounds = [] → Untouched base w n fn
  after : rounds ≠ [] → Stale w

/-- What is not a round of the reply loop changes nothing. -/
theorem Monitoring.quiet {base w w' : World} {n : Nat} {fn : Fn} {rounds : List Unit}
    (h : Monitoring base w n fn rounds) (hup : Up w') (hfault : w.fault = none)
    (hmatching : w'.matching = w.matching) (hloop : Looping w → Looping w') :
    Monitoring base w' n fn (rounds ++ []) := by
  rw [List.append_nil]
  exact ⟨hup, fun hr => (h.before hr).quiet hmatching,
    fun hr => (h.after hr).quiet hfault (congrArg Matching.list hmatching) hloop⟩

theorem Monitoring.step {base w w' : World} {e : Event} {n : Nat} {fn : Fn} {rounds : List Unit}
    (h : Monitoring base w n fn rounds) (hstep : w.step e = some w')
    (hlistening : Listening w e w') : Monitoring base w' n fn (rounds ++ loopRounds w e) := by
  have hup := h.up.step hstep hlistening
  have ht := step_touches hstep
  obtain ⟨hfault, hs⟩ := step_cases hstep
  cases hs with
  | api c _ =>
    cases c with
    | on event g =>
      rw [show loopRounds w (.api (.on event g)) = [] from rfl, List.append_nil]
      refine ⟨hup, fun hr => (h.before hr).on event g, fun hr => ?_⟩
      refine (h.after hr).quiet hfault ?_ (ht.looping rfl)
      exact (luaClientOn_matching w event g).elim (congrArg Matching.list) (congrArg Matching.list)
    | _ => exact hlistening.elim
  -- the loop lies below the Lua function that returns
  | @ret site top rest ok hstack =>
    refine h.quiet hup hfault rfl fun ⟨h₁, subMode, cb, hmem⟩ => ⟨h₁, subMode, cb, ?_⟩
    rw [hstack] at hmem
    exact (List.mem_cons.mp hmem).resolve_left (by simp)
  | @resume f rest hstack _ =>
    rw [hstack] at ht
    cases f with
    | readLoop h₁ subMode cb =>
      have hround := readLoop_round { w with stack := rest } h₁ subMode cb
      rw [show loopRounds w .resume = [()] by simp only [loopRounds, hstack]]
      refine ⟨hup, fun hr => by simp at hr, fun _ => ?_⟩
      exact Round.stale (w := { w with stack := rest }) ⟨h.up.monitoring, h.up.staying⟩
        (hlistening h₁ subMode cb (by rw [hstack]; rfl)) hround
    | _ =>
      rw [show loopRounds w .resume = [] by simp only [loopRounds, hstack]]
      refine h.quiet hup hfault (ht.matching rfl) fun ⟨h₁, subMode, cb, hmem⟩ => ?_
      rw [hstack] at hmem
      have hrest := (List.mem_cons.mp hmem).resolve_left (by simp)
      exact (resume_touches { w with stack := rest } _).looping rfl ⟨h₁, subMode, cb, hrest⟩
  | @written i req status readStart _ _ _ _ _ =>
    exact h.quiet hup hfault (onWrite_sent req hlistening.1 hlistening.2) (ht.looping rfl)
  | readError => exact hlistening.elim
  | closed => exact hlistening.elim
  | read => exact h.quiet hup hfault (ht.matching rfl) (ht.looping rfl)
  | connected => exact h.quiet hup hfault (ht.matching rfl) (ht.looping rfl)
  | tick => exact h.quiet hup hfault (ht.matching rfl) (ht.looping rfl)

/-! ## The command -/

theorem registerCommand_monitor (w : World) (names timers : List Bytes) (fn : Option Fn)
    (flags : Bool) :
    w.registerCommand .monitor names timers fn flags =
      { w.registerCommand .ordinary names timers fn flags with cc.flags.monitoring := true } := by
  cases fn <;> rfl

/-- An accepted monitor command, with no other command waiting. -/
structure MonitorAccepted (w : World) (args : List LuaArg) (env : SendEnv) (fn : Fn)
    (w₀ : World) : Prop where
  idle : Waiting w []
  command : ∃ argv timers, collect args = .ok argv timers ∧
    classify (argv.headD []) = .monitor ∧ callbackOf args = some fn
  sendable : Sendable w.sending false env
  step : w.step (.api (.command args env)) = some w₀

theorem Matching.Ok.silent {m : Matching} (h : m.Ok) : { m with monitoring := false }.Ok := by
  have hquiet := h.quiet
  cases m
  cases hquiet
  exact h

theorem MonitorAccepted.monitoring {w w₀ : World} {args : List LuaArg} {env : SendEnv} {fn : Fn}
    (h : MonitorAccepted w args env fn w₀) : Monitoring w₀ w₀ (w.lua.ref fn).1 fn [] := by
  obtain ⟨argv, timers, hcollect, hkind, hfn⟩ := h.command
  obtain ⟨hfault, hs⟩ := step_cases h.step
  cases hs with
  | api c _ =>
  have hsend : Sendable w.sending (classify (argv.headD [])).subMode env := by
    rw [hkind]
    exact h.sendable
  have hsent := luaClientCommand_sent hcollect hfault hsend
  -- but for its flag, monitor is entered as any other command is
  have hmatching := hsent.matching rfl
  rw [entered, hkind, hfn, registerCommand_monitor] at hmatching
  have hordinary := registerCommand_matching (w.noted .monitor argv timers (some fn)) argv.tail
    timers (some fn) env.flags
  obtain ⟨hok, howned⟩ := h.idle.ref fn
  rw [show (w.matching.within [] [] []).lua = { w.lua with top := 0 } from rfl, Lua.ref_top]
    at hok howned
  have hleads : Lua.Leads { (w.lua.ref fn).2 with top := 0 } (some (.ref (w.lua.ref fn).1))
      (some fn) := .slot (Lua.ref_slots_self w.lua fn)
  have henter := hok.enter hleads howned
  refine ⟨⟨?_, ?_⟩, fun _ => ⟨⟨w.heap.next, ?_, ?_⟩, rfl, rfl⟩, fun hr => absurd rfl hr⟩
  · exact congrArg Matching.monitoring hmatching
  · have hsending := (hsent.sending rfl).trans
      ((w.entered_touches argv timers (callbackOf args) env.flags).sending rfl)
    have hending := (congrArg Sending.ending hsending).trans h.sendable.2.1
    exact (Bool.or_eq_false_iff.mp hending).1
  · change Matching.Ok (Matching.within
      { (w.luaClientCommand args env).matching with monitoring := false } _ _ _)
    rw [hmatching]
    change Matching.Ok (Matching.within
      { ((w.noted .monitor argv timers (some fn)).registerCommand .ordinary argv.tail timers
          (some fn) env.flags).matching with monitoring := false } _ _ _)
    rw [hordinary]
    exact henter.silent
  · change (w.luaClientCommand args env).matching.ref w.heap.next = _
    rw [hmatching]
    change ((w.noted .monitor argv timers (some fn)).registerCommand .ordinary argv.tail timers
      (some fn) env.flags).matching.ref w.heap.next = _
    rw [hordinary]
    exact Function.update_self ..

/-! ## The result -/

/-- **Monitor mode.**  After an accepted monitor command, a client that listens monitors until the
    reply loop runs; when it has run and `on_read` has returned, the client does not any more. -/
theorem monitorKept {w w₀ w₁ : World} {args : List LuaArg} {env : SendEnv} {fn : Fn}
    {es : List Event} (haccepted : MonitorAccepted w args env fn w₀)
    (hrun : RunsUnder World.step Listening w₀ es w₁) (hfault : w₁.fault = none) :
    (outputs World.step loopRounds w₀ es = [] → Monitored w₀ w₁ (w.lua.ref fn).1 fn) ∧
      (w₁.stack = [] → Monitored w₀ w₁ (w.lua.ref fn).1 fn →
        outputs World.step loopRounds w₀ es = []) := by
  have hmonitoring : Monitoring w₀ w₁ (w.lua.ref fn).1 fn
      ([] ++ outputs World.step loopRounds w₀ es) :=
    hrun.invariant_outputs (I := fun w' rounds => Monitoring w₀ w' (w.lua.ref fn).1 fn rounds)
      (fun _ _ _ _ h hstep hlistening => h.step hstep hlistening) haccepted.monitoring
  rw [List.nil_append] at hmonitoring
  refine ⟨fun hnone => ?_, fun hreturned hmonitored => ?_⟩
  · exact (hmonitoring.before hnone).monitored (run_trace hrun.run_eq)
  · by_contra hrounds
    rcases hmonitoring.after hrounds hfault with hstack | ⟨h, subMode, cb, hmem⟩
    · cases hmonitored.alive _ hstack
    · rw [hreturned] at hmem
      cases hmem

/-- A client that connects and asks for monitor mode. -/
def monitorArgs : List LuaArg := [.string (ascii "monitor"), .function 1]

def listeningCheck (w : World) : Event → Bool
  | .api (.on ..) => true
  | .api _ => false
  | .resume =>
    match w.stack with
    | .readLoop .. :: _ => match (redisReaderGetReply w.cc.reader).2.1 with
      | .ok => true
      | .err => false
    | _ => true
  | .readError .. => false
  | .written _ status readStart => decide (0 ≤ status ∧ 0 ≤ readStart)
  | .closed _ => false
  | _ => true

theorem listening_of_check {w w' : World} {e : Event} (h : listeningCheck w e = true) :
    Listening w e w' := by
  cases e with
  | api c =>
    cases c with
    | on => trivial
    | _ => cases h
  | resume =>
    intro h₁ subMode cb htop
    obtain ⟨rest, hstack⟩ := List.head?_eq_some_iff.mp htop
    simp only [listeningCheck, hstack] at h
    split at h
    · assumption
    · cases h
  | written i status readStart =>
    have hle : 0 ≤ status ∧ 0 ≤ readStart := by simpa [listeningCheck] using h
    exact hle
  | readError => cases h
  | closed => cases h
  | _ => trivial

/-- What has been called and read after a monitor command, with the rounds of the reply loop. -/
def monitorServed (es : List Event) : Option (Nat × Nat × Bool × List Unit) :=
  (runChecked World.step successCheck (World.new true)
    [.api .connect, .connected 0 0, .connected 0 0]).bind fun w =>
    if w.matching.pending = [] ∧ sendableCheck w.sending false ⟨0, false⟩ then
      (w.step (.api (.command monitorArgs ⟨0, false⟩))).bind fun w₀ =>
        (runChecked World.step listeningCheck w₀ es).map fun w₁ =>
          ((commandCalls (since w₀ w₁)).length, (answered (since w₀ w₁)).length,
            w₁.fault.isNone, outputs World.step loopRounds w₀ es)
    else none

/-- The states of such a run. -/
theorem monitorServed_run {es : List Event} {called read : Nat} {rounds : List Unit}
    (h : monitorServed es = some (called, read, true, rounds)) :
    ∃ w w₀ w₁, CrazySnail.Reachable w ∧ MonitorAccepted w monitorArgs ⟨0, false⟩ 1 w₀ ∧
      RunsUnder World.step Listening w₀ es w₁ ∧ w₁.fault = none ∧
      outputs World.step loopRounds w₀ es = rounds ∧
      (commandCalls (since w₀ w₁)).length = called ∧
      (answered (since w₀ w₁)).length = read := by
  obtain ⟨w, hw, h⟩ := Option.bind_eq_some_iff.mp h
  rw [Option.ite_none_right_eq_some] at h
  obtain ⟨⟨hpending, hsendable⟩, h⟩ := h
  obtain ⟨w₀, hstep, h⟩ := Option.bind_eq_some_iff.mp h
  obtain ⟨w₁, hw₁, h⟩ := Option.map_eq_some_iff.mp h
  obtain ⟨hcalled, hread, hfault, hrounds⟩ : _ ∧ _ ∧ _ ∧ _ := by simpa using h
  have hunder := runsUnder_of_checked (C := Succeeds)
    (fun _ _ _ h hstep => succeeds_of_check h hstep) hw
  have hok : w.matching.Ok := hunder.invariant (I := fun w => w.matching.Ok)
    (fun _ _ _ h hstep hsucceeds => step_matching h hstep hsucceeds) (matching_new true)
  have hlistening := runsUnder_of_checked (C := Listening)
    (fun _ _ _ h _ => listening_of_check h) hw₁
  refine ⟨w, w₀, w₁, ⟨true, hunder.reachable⟩, ⟨?_, ?_, sendable_of_check hsendable, hstep⟩,
    hlistening, hfault, hrounds, hcalled, hread⟩
  · exact hpending ▸ Waiting.of_ok hok
  · exact ⟨[ascii "monitor"], [], rfl, rfl, rfl⟩

/-- The command has been written, and nothing has been read. -/
theorem monitorKept_silent :
    ∃ w w₀ w₁, MonitorAccepted w monitorArgs ⟨0, false⟩ 1 w₀ ∧
      Monitored w₀ w₁ (w.lua.ref 1).1 1 := by
  have hrun : monitorServed [.written 0 0 0, .read 0 [] .noref] = some (0, 0, true, []) := by
    decide +kernel
  obtain ⟨w, w₀, w₁, -, haccepted, hlistening, hfault, hrounds, -, -⟩ := monitorServed_run hrun
  exact ⟨w, w₀, w₁, haccepted, (monitorKept haccepted hlistening hfault).1 hrounds⟩

/-- Of two lines in a chunk, the callback gets the first. -/
theorem monitorKept_twoLines :
    ∃ w w₀ w₁ es, CrazySnail.Reachable w ∧ MonitorAccepted w monitorArgs ⟨0, false⟩ 1 w₀ ∧
      RunsUnder World.step Listening w₀ es w₁ ∧ w₁.fault = none ∧
      ¬Monitored w₀ w₁ (w.lua.ref 1).1 1 := by
  have hrun : monitorServed [.written 0 0 0, .read 0 (ascii "+OK\r\n+1 ping\r\n") .noref, .resume,
      .ret true, .resume, .resume] = some (1, 2, true, [(), (), ()]) := by decide +kernel
  obtain ⟨w, w₀, w₁, hreachable, haccepted, hlistening, hfault, -, hcalled, hread⟩ :=
    monitorServed_run hrun
  refine ⟨w, w₀, w₁, _, hreachable, haccepted, hlistening, hfault, fun hmonitored => ?_⟩
  have hlength := congrArg List.length hmonitored.delivered
  rw [List.length_map, hcalled, hread] at hlength
  cases hlength

end CrazySnail
