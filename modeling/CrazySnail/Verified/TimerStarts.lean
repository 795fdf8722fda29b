import CrazySnail.Verified.EventDispatch
import CrazySnail.Verified.TimerOwnership

/-! # Timers that are started

The confirmation of a name starts the timers of the records on its list.  An interval that is
subscribed to twice does no harm as long as its timer is started once: every active timer has
its node, if each confirmation starts timers of different intervals, none of which has a timer
that is active (`oneTimerPerNode`).
-/

namespace CrazySnail

open Transition World

/-! ## Slots without a timer -/

/-- The intervals of the timer slots that are not subscribed. -/
def unstarted (chs : List Channel) : List UInt64 :=
  (chs.filter fun ch => ch.timerEvent && !ch.subscribed).map Channel.ikey

namespace World
variable (w : World)

/-- A timer of this interval is active. -/
def Ticks (ikey : UInt64) : Prop := ∃ b t, w.uv.timers b = some t ∧ t.rep = ikey ∧ t.active = true

/-- A record on a list that is not initialized, with its slots. -/
def Waits (list : CallbackEnds) (id : Nat) (chs : List Channel) : Prop :=
  .heap id ∈ list ∧ ∃ c, w.heap.cb id = some c ∧ c.initialized = false ∧ c.channels = chs

/-- The records of a list that are not initialized wait for timers of different intervals, of which
    none has an active timer. -/
structure StartsOnce (list : CallbackEnds) : Prop where
  nodup : ∀ id chs, w.Waits list id chs → (unstarted chs).Nodup
  apart : ∀ id id' chs chs', w.Waits list id chs → w.Waits list id' chs' → id ≠ id' →
    (unstarted chs).Disjoint (unstarted chs')
  quiet : ∀ id chs, w.Waits list id chs → ∀ ikey ∈ unstarted chs, ¬w.Ticks ikey

end World

/-- A confirmation starts no timer beside one that is active, and a write is accepted only while
    the client is not ending. -/
def OneTimerEach (w : World) (e : Event) (_ : World) : Prop :=
  match e with
  | .api (.command args env) => ∀ argv timers, collect args = .ok argv timers →
      w.sending.ending = true → ¬w.sending.Accepts (classify (argv.headD [])).subMode env.error
  | .resume => ∀ h cb below reader stype sname rest, w.stack = .readLoop h true cb :: below →
      redisReaderGetReply w.cc.reader =
        (reader, .ok, some (.array (.string stype :: .string sname :: rest))) →
      subKind stype = .confirmation → w.StartsOnce (w.listFor (isPvariant stype) sname)
  | _ => True

/-! ## Starting a timer -/

namespace World
variable {w : World}

theorem startTimer_ticks {ikey other : UInt64} (hne : other ≠ ikey) (h : ¬w.Ticks other) :
    ¬(w.startTimer ikey).Ticks other := by
  rintro ⟨x, t, hx, hrep, hactive⟩
  have hold : w.uv.timers x = some t → False := fun hx => h ⟨x, t, hx, hrep, hactive⟩
  unfold startTimer at hx
  dsimp only at hx
  cases hleaf : searchTimer ikey w.cc.timers with
  | none =>
    rw [hleaf] at hx
    exact hold hx
  | some leaf =>
    have htimers := w.uv.reqAlloc_pool.2.2.2
    rw [hleaf] at hx
    generalize w.uv.reqAlloc = alloc at htimers hx
    obtain ⟨b, uv⟩ := alloc
    simp only [uvTimerStart, Function.update_apply] at hx
    split at hx
    · cases hx
      exact hne hrep.symm
    · exact hold (htimers ▸ hx)

/-- A timer is started where none of its interval is active. -/
theorem TimersHeld.start (h : w.TimersHeld) {ikey : UInt64} (hquiet : ¬w.Ticks ikey) :
    (w.startTimer ikey).TimersHeld := by
  cases hleaf : searchTimer ikey w.cc.timers with
  | none =>
    have hcrash : Touches [.top, .fault] w (w.startTimer ikey) := by
      unfold World.startTimer
      dsimp only
      rw [hleaf]
      exact .of [.top (w.lua.top + 1), .crash .searchTimerAssert] rfl rfl
    exact h.keep hcrash rfl
  | some leaf =>
    obtain ⟨val, hget⟩ := exists_node ((searchTimer_eq _ _).symm.trans hleaf)
    refine (h.startTimer hget fun x t hdata hx => ?_).1
    obtain ⟨t', ht', hrep, -⟩ := h.started leaf _ val x hget hdata
    obtain rfl := Option.some.inj (hx.symm.trans ht')
    by_contra hactive
    exact hquiet ⟨x, t, hx, hrep, by simpa using hactive⟩

/-- The loop over the slots of a record starts a timer for each of those that have none. -/
theorem TimersHeld.starts (sname : Bytes) {chs : List Channel} (isDone : Bool)
    (hnodup : (unstarted chs).Nodup) (hquiet : ∀ ikey ∈ unstarted chs, ¬w.Ticks ikey)
    (h : w.TimersHeld) :
    (World.confirmChannels sname chs isDone w).2.2.TimersHeld ∧ ∀ ikey ∉ unstarted chs, ¬w.Ticks ikey →
      ¬(World.confirmChannels sname chs isDone w).2.2.Ticks ikey := by
  induction chs generalizing isDone w with
  | nil => exact ⟨h, fun _ _ hno => hno⟩
  | cons ch chs ih =>
    have hsplit : unstarted (ch :: chs) = unstarted [ch] ++ unstarted chs := by
      rw [unstarted, unstarted, unstarted, ← List.map_append, ← List.filter_append,
        List.singleton_append]
    -- the slot alone
    have hone : (confirmChannel sname ch isDone w).2.2.TimersHeld ∧
        ∀ ikey ∉ unstarted [ch], ¬w.Ticks ikey →
          ¬(confirmChannel sname ch isDone w).2.2.Ticks ikey := by
      by_cases hstart : ch.timerEvent = true ∧ ch.subscribed = false
      · obtain ⟨htimer, hsub⟩ := hstart
        have hkeys : unstarted [ch] = [ch.ikey] := by simp [unstarted, htimer, hsub]
        have hworld : (confirmChannel sname ch isDone w).2.2 = w.startTimer ch.ikey := by
          simp [confirmChannel, htimer, hsub]
        have hno := hquiet ch.ikey (by rw [hsplit, hkeys]; exact List.mem_cons_self)
        rw [hworld, hkeys]
        exact ⟨h.start hno, fun ikey hikey => startTimer_ticks (by simpa using hikey)⟩
      · have hworld : (confirmChannel sname ch isDone w).2.2 = w := by
          unfold confirmChannel
          grind
        rw [hworld]
        exact ⟨h, fun _ _ hno => hno⟩
    rw [hsplit] at hnodup hquiet ⊢
    obtain ⟨-, hnodup', hdisjoint⟩ := List.nodup_append.mp hnodup
    have hrest := ih (w := (confirmChannel sname ch isDone w).2.2)
      (confirmChannel sname ch isDone w).2.1 hnodup' (fun ikey hikey => ?_) hone.1
    · refine ⟨hrest.1, fun ikey hikey hno => ?_⟩
      rw [List.mem_append, not_or] at hikey
      exact hrest.2 ikey hikey.2 (hone.2 ikey hikey.1 hno)
    · exact hone.2 ikey (fun hmem => hdisjoint _ hmem _ hikey rfl)
        (hquiet ikey (List.mem_append_right _ hikey))

/-! ## Confirmations -/

theorem StartsOnce.congr {list : CallbackEnds} {w' : World} (h : w.StartsOnce list)
    (hheap : w'.heap = w.heap) (htimers : w'.uv.timers = w.uv.timers) : w'.StartsOnce list := by
  have hwaits : ∀ {id chs}, w'.Waits list id chs → w.Waits list id chs := fun hw =>
    ⟨hw.1, hheap ▸ hw.2⟩
  refine ⟨fun id chs hw => h.nodup id chs (hwaits hw), fun id id' chs chs' hw hw' =>
    h.apart id id' chs chs' (hwaits hw) (hwaits hw'), fun id chs hw ikey hikey => ?_⟩
  rintro ⟨b, t, ht, hrep, hactive⟩
  exact h.quiet id chs (hwaits hw) ikey hikey ⟨b, t, htimers ▸ ht, hrep, hactive⟩

/-- The timer slots of a record that was visited are all subscribed. -/
theorem unstarted_marked (sname : Bytes) (chs : List Channel) (isDone : Bool) :
    unstarted (markSlots sname chs isDone).1 = [] := by
  rw [unstarted, List.map_eq_nil_iff, List.filter_eq_nil_iff]
  intro ch hch
  cases htimer : ch.timerEvent with
  | false => simp
  | true => simp [markSlots_timer hch htimer]

/-- A visit starts the timers of a record, and leaves the others their intervals. -/
theorem StartsOnce.visit {list : CallbackEnds} (h : w.StartsOnce list) (hheld : w.TimersHeld) {id : Nat}
    {c : Callback} (hid : .heap id ∈ list) (hc : w.heap.cb id = some c) (hinit : c.initialized = false)
    (sname : Bytes) :
    ((confirmChannels sname c.channels false w).2.2.marked id sname c).TimersHeld ∧
      ((confirmChannels sname c.channels false w).2.2.marked id sname c).StartsOnce list := by
  have hself : w.Waits list id c.channels := ⟨hid, c, hc, hinit, rfl⟩
  obtain ⟨hheld₁, hticks⟩ := hheld.starts sname false (h.nodup id _ hself) (h.quiet id _ hself)
  have htouches := w.confirmChannels_touches sname c.channels false
  generalize (confirmChannels sname c.channels false w).2.2 = w₁ at hheld₁ hticks htouches ⊢
  have hheap : w₁.heap = w.heap := (startTimer_same htouches).2.2.1
  have hslots : Touches [.slots] w₁ (w₁.marked id sname c) :=
    .of [.slots id (markSlots sname c.channels false).1
      ((markSlots sname c.channels false).1.all Channel.subscribed)] rfl rfl
  refine ⟨hheld₁.keep hslots rfl, ?_⟩
  rw [marked_eq (hheap ▸ hc)]
  -- the record itself waits for nothing more, the others are as before
  have hwaits : ∀ {id' chs'}, World.Waits { w₁ with heap := w₁.heap.update id fun c' =>
      { c' with
        channels := (markSlots sname c.channels false).1
        initialized := c'.initialized ||
          (markSlots sname c.channels false).1.all Channel.subscribed } } list id' chs' →
      unstarted chs' = [] ∨ id' ≠ id ∧ w.Waits list id' chs' := by
    rintro id' chs' ⟨hid', c', hc', hinit', rfl⟩
    simp only [hheap, Heap.update, Heap.set, Function.update_apply] at hc'
    split at hc'
    next heq =>
      rw [hc] at hc'
      cases hc'
      exact .inl (unstarted_marked sname c.channels false)
    next hne => exact .inr ⟨hne, hid', c', hc', hinit', rfl⟩
  refine ⟨fun id' chs' hw => ?_, fun id₁ id₂ chs₁ chs₂ hw₁ hw₂ hne => ?_, fun id' chs' hw ikey hikey => ?_⟩
  · obtain hnil | ⟨-, hw⟩ := hwaits hw
    · rw [hnil]
      exact List.nodup_nil
    · exact h.nodup id' chs' hw
  · obtain hnil | ⟨-, hw₁⟩ := hwaits hw₁
    · rw [hnil]
      exact List.disjoint_nil_left _
    · obtain hnil | ⟨-, hw₂⟩ := hwaits hw₂
      · rw [hnil]
        exact List.disjoint_nil_right _
      · exact h.apart id₁ id₂ chs₁ chs₂ hw₁ hw₂ hne
  · obtain hnil | ⟨hne, hw⟩ := hwaits hw
    · rw [hnil] at hikey
      cases hikey
    · exact hticks ikey (fun hmem => h.apart id id' _ _ hself hw hne.symm hmem hikey)
        (h.quiet id' chs' hw ikey hikey)

/-- A reply on the subscription stream. -/
theorem TimersHeld.getAndCallSubCb (h : w.TimersHeld) (reply : Reply)
    (hstarts : ∀ stype sname rest, reply = .array (.string stype :: .string sname :: rest) →
      subKind stype = .confirmation → w.StartsOnce (w.listFor (isPvariant stype) sname)) :
    (w.getAndCallSubCb reply).TimersHeld := by
  have hdispatched := getAndCallSubCb_dispatched w reply
  generalize w.getAndCallSubCb reply = w' at hdispatched ⊢
  cases hdispatched with
  | ignored _ => exact h
  | malformed _ _ => exact h.keep (crash_touches w _) rfl
  | unknown _ _ _ => exact h.keep (crash_touches w _) rfl
  | unused _ _ _ _ _ => exact h.keep (crash_touches w _) rfl
  | event _ _ _ _ _ => exact h.keep (eventLoop_touches _ _ _ _ _) rfl
  | @confirmation stype sname rest leaf key val hreply hkind hleaf hget _ =>
    have honce := hstarts stype sname rest hreply hkind
    have hlist : w.listFor (isPvariant stype) sname = val.cbList := by
      rw [listFor, search_eq, hleaf, Option.bind_some, hget]
      rfl
    rw [hlist] at honce
    -- between two records of the list only their own timers are started
    have hboth : (confirm sname reply val.cbList w).TimersHeld ∧
        (confirm sname reply val.cbList w).StartsOnce val.cbList := by
      refine confirm_visits (I := fun v => v.TimersHeld ∧ v.StartsOnce val.cbList)
        (fun v fn args hv => ⟨hv.1.keep (pcall_touches v .confirmation fn args) rfl, ?_⟩)
        (fun v f hv => ⟨hv.1.keep (crash_touches v f) rfl, hv.2.congr rfl rfl⟩)
        (fun v id c hid hv hc hinit => hv.2.visit hv.1 hid hc hinit sname) ⟨h, honce⟩
      cases fn <;> exact hv.2.congr rfl rfl
    exact hboth.1

theorem TimersHeld.readLoop (h : w.TimersHeld) {h₁ : Handle} {subMode : Bool} {cb : LuaRef}
    (hstarts : ∀ reader stype sname rest, subMode = true → redisReaderGetReply w.cc.reader =
        (reader, .ok, some (.array (.string stype :: .string sname :: rest))) →
      subKind stype = .confirmation → w.StartsOnce (w.listFor (isPvariant stype) sname)) :
    (w.readLoop h₁ subMode cb).TimersHeld := by
  have hread : ∀ reader, Touches [.reader] w { w with cc.reader := reader } := fun reader =>
    .of [.reader reader] rfl rfl
  have hreader : ∀ reader, ({ w with cc.reader := reader } : World).TimersHeld := fun reader =>
    h.keep (hread reader) rfl
  have hreplied : ∀ reader subMode reply, Touches [.reader, .obs .reply, .frame .readLoop] w
      ((w.replied reader subMode reply).push (.readLoop h₁ true cb)) := fun reader subMode reply =>
    .of [.reader reader, .log (.reply subMode reply), .push (.readLoop h₁ true cb)] rfl rfl
  have hround := readLoop_round w h₁ subMode cb
  generalize w.readLoop h₁ subMode cb = w' at hround ⊢
  cases hround with
  | exited _ => exact h.keep (crash_touches w .deadClient) rfl
  | failed _ _ => exact hreader _
  | @stored reader _ _ _ => exact (hreader reader).keep (crash_touches _ .nullElement) rfl
  | disconnecting _ _ => exact hreader _
  | @ended reader _ _ => exact (hreader reader).keep (endRead_touches _ h₁ subMode) rfl
  | @reply reader reply _ _ =>
    have hlog : Touches [.reader, .obs .reply] w (w.replied reader false reply) :=
      .of [.reader reader, .log (.reply false reply)] rfl rfl
    exact (h.keep hlog rfl).keep (dispatchReply_touches _ h₁ cb reply) rfl
  | subError _ _ => exact h.keep (hreplied _ _ _) rfl
  | @subReply reader reply hget hsub =>
    refine (h.keep (hreplied reader true reply) rfl).getAndCallSubCb reply
      fun stype sname rest hreply hkind => ?_
    have honce := hstarts reader stype sname rest hsub (hreply ▸ hget) hkind
    have hlist : ((w.replied reader true reply).push (.readLoop h₁ true cb)).listFor
        (isPvariant stype) sname = w.listFor (isPvariant stype) sname := by
      cases hp : isPvariant stype <;> rfl
    exact hlist ▸ honce.congr rfl rfl

end World

/-! ## Runs -/

/-- **One step** that starts no timer beside one that is active. -/
theorem step_held {w w' : World} {e : Event} (hreach : CrazySnail.Reachable w)
    (hstep : w.step e = some w') (honce : OneTimerEach w e w') (h : w.TimersHeld) : w'.TimersHeld := by
  have hcounts := reachable_counts hreach
  have htouches := step_touches hstep
  cases (step_cases hstep).2 with
  | api c _ =>
    cases c with
    | on event fn => exact h.keep htouches rfl
    | connect => exact h.of_pool htouches rfl h.holding.luaClientConnect
    -- an entered command holds no new timer; its request is a block of its own
    | command args env =>
      change (w.luaClientCommand args env).TimersHeld
      cases hcollect : collect args with
      | raise | fault => exact h.keep (w.luaClientCommand_refused env (by simp [hcollect])) rfl
      | ok argv timers =>
        have hentered := h.entered argv timers (callbackOf args) env.flags
        rw [luaClientCommand_eq hcollect]
        refine hentered.of_pool (sendCommand_touches _ _ _ _ _ _) rfl
          (hentered.holding.sendCommand _ _ _ ?_)
        rw [(w.entered_touches argv timers (callbackOf args) env.flags).sending rfl]
        exact honce argv timers hcollect
    | disconnect => exact h.keep htouches rfl
    | exit =>
      change w.luaClientExit.TimersHeld
      obtain ht | ⟨-, -, w₁, ht, -, ht'⟩ := luaClientExit_cases w
      · exact h.keep ht rfl
      · exact ((h.keep ht rfl).destroyAll (hcounts.keep ht rfl)).keep ht' rfl
  | ret ok hstack => exact h.keep htouches rfl
  -- only a round of the reply loop can dispatch a confirmation
  | @resume f rest hstack _ =>
    cases f with
    | readLoop h₁ subMode cb =>
      have hpop : Touches [.pop] w { w with stack := rest } :=
        .of [.pop] (by simp [Update.apply, hstack]) rfl
      refine (h.keep hpop rfl).readLoop fun reader stype sname rest' hsub hget hkind => ?_
      subst hsub
      exact (honce h₁ cb rest reader stype sname rest' hstack hget hkind).congr rfl rfl
    | _ =>
      rw [hstack] at htouches
      exact h.keep htouches rfl
  | read h₁ data cb _ _ => exact h.keep htouches rfl
  | readError h₁ nread _ _ _ => exact h.keep htouches rfl
  | @written i req status readStart _ hreq _ _ _ =>
    exact h.of_pool htouches rfl ((h.holding.finish hreq).onWrite status readStart)
  | @connected i req status _ hreq _ _ _ =>
    exact h.of_pool htouches rfl (h.holding.connectCompleted hreq status)
  | closed _ _ _ _ => exact h.closed hcounts hstep
  | @tick b t timeout _ ht hactive => exact (h.fired ht hactive).keep (onTimer_touches _ _ _) rfl

/-- **Timers on their nodes.**  While no confirmation starts a timer beside one that is active,
    active timers belong to nodes, a teardown stops them, and ticks find their nodes. -/
theorem oneTimerPerNode {ignoreSubCmdReply : Bool} {w : World} {es : List Event}
    (hrun : RunsUnder World.step OneTimerEach (World.new ignoreSubCmdReply) es w) :
    TimersOwned w := by
  have hinv := hrun.invariant (I := fun w => CrazySnail.Reachable w ∧ w.TimersHeld)
    (fun _ _ _ h hstep honce => ⟨h.1.extend hstep, step_held h.1 hstep honce h.2⟩)
    ⟨⟨ignoreSubCmdReply, [], rfl⟩, timersHeld_new _⟩
  exact hinv.2.owned hinv.1

/-- No confirmation is dispatched, and the client is not ending. -/
def startsNothing (w : World) : Event → Bool
  | .api (.command ..) => !w.sending.ending
  | .resume =>
    match w.stack with
    | .readLoop _ true _ :: _ => (redisReaderGetReply w.cc.reader).2.2.isNone
    | _ => true
  | _ => true

theorem oneTimerEach_of_check {w w' : World} {e : Event} (h : startsNothing w e = true) :
    OneTimerEach w e w' := by
  cases e with
  | api c =>
    cases c with
    | command args env =>
      intro argv timers _ hending
      simp [startsNothing, hending] at h
    | _ => trivial
  | resume =>
    intro h₁ cb below reader stype sname rest hstack hget _
    simp [startsNothing, hstack, hget] at h
  | _ => trivial

/-- Two subscriptions of the same interval, of which the first is confirmed. -/
def sharedInterval : List Event := sameInterval.take 9

theorem oneTimerPerNode_shared :
    ∃ w, runs (World.new true) sharedInterval = some w ∧ TimersOwned w ∧
      (subscriptions false w.trace).map Subscription.timers =
        [[ascii "__timer@0__:50"], [ascii "__timer@0__:50"]] ∧
      ((w.uv.timers 1).map fun t => (t.active, t.rep)) = some (true, 50) := by
  have hfirst : (runChecked World.step startsNothing (World.new true) (sharedInterval.take 6)).map
      (fun w => (w.stack, (redisReaderGetReply w.cc.reader).2, w.listFor false (ascii "a"),
        (w.heap.cb 0).map fun c => unstarted c.channels, w.uv.timers)) =
      some ([.readLoop 1 true .noref],
        (.ok, some (.array [.string (ascii "subscribe"), .string (ascii "a"), .integer 1])),
        [.heap 0], some [50], fun _ => none) := by rfl
  have hrest : (((runs (World.new true) (sharedInterval.take 6)).bind (·.step .resume)).bind
      (runChecked World.step startsNothing · (sharedInterval.drop 7))).map
        (fun w => ((subscriptions false w.trace).map Subscription.timers,
          (w.uv.timers 1).map fun t => (t.active, t.rep))) =
      some ([[ascii "__timer@0__:50"], [ascii "__timer@0__:50"]], some (true, 50)) := by
    decide +kernel
  obtain ⟨w₁, hw₁, hstate⟩ := Option.map_eq_some_iff.mp hfirst
  simp only [Prod.mk.injEq] at hstate
  obtain ⟨hstack, hreply, hlist, hslots, htimers⟩ := hstate
  have hunder₁ := runsUnder_of_checked (C := OneTimerEach)
    (fun _ _ _ h _ => oneTimerEach_of_check h) hw₁
  rw [show runs (World.new true) (sharedInterval.take 6) = some w₁ from hunder₁.run_eq,
    Option.bind_some] at hrest
  obtain ⟨w, hw, hend⟩ := Option.map_eq_some_iff.mp hrest
  obtain ⟨w₂, hstep, hw₂⟩ := Option.bind_eq_some_iff.mp hw
  have hunder₂ := runsUnder_of_checked (C := OneTimerEach)
    (fun _ _ _ h _ => oneTimerEach_of_check h) hw₂
  -- the confirmation starts the first timer there is
  have honce : OneTimerEach w₁ .resume w₂ := by
    intro h₁ cb below reader stype sname rest hstack' hget _
    have hsome : some (Reply.array (.string stype :: .string sname :: rest)) =
        some (.array [.string (ascii "subscribe"), .string (ascii "a"), .integer 1]) :=
      (congrArg (fun r => r.2.2) hget).symm.trans (congrArg Prod.snd hreply)
    cases hsome
    rw [show isPvariant (ascii "subscribe") = false by decide, hlist]
    have hsingle : ∀ {id chs}, w₁.Waits [.heap 0] id chs → id = 0 ∧ unstarted chs = [50] := by
      rintro id chs ⟨hid, c, hc, -, rfl⟩
      obtain rfl : id = 0 := by simpa using hid
      rw [hc, Option.map_some, Option.some.injEq] at hslots
      exact ⟨rfl, hslots⟩
    refine ⟨fun id chs hw => ?_, fun id id' chs chs' hw hw' hne => ?_, fun id chs hw ikey _ => ?_⟩
    · rw [(hsingle hw).2]
      exact List.nodup_singleton _
    · exact absurd ((hsingle hw).1.trans (hsingle hw').1.symm) hne
    · rintro ⟨b, t, ht, -⟩
      rw [htimers] at ht
      cases ht
  have hunder : RunsUnder World.step OneTimerEach (World.new true)
      (sharedInterval.take 6 ++ .resume :: sharedInterval.drop 7) w :=
    hunder₁.append (.cons hstep honce hunder₂)
  obtain ⟨hsubs, htimer⟩ := Prod.mk.inj hend
  exact ⟨w, hunder.run_eq, oneTimerPerNode hunder, hsubs, htimer⟩

end CrazySnail
