import CrazySnail.Verified.GivenFunctions
import CrazySnail.Verified.TimerOwnership

/-! # Who is served by a timer

While every interval is subscribed to once, the list of a node holds the subscriber of its
interval, a confirmed subscriber has a timer that runs, and every tick calls the functions that the
subscribers of its interval gave, once each (`timersServed`).
-/

namespace CrazySnail

open SearchTree (Tree Path)
open Transition World

/-! ## Subscribers -/

/-- The calls that `on_timer` makes, in order. -/
def timerCalls (trace : List Obs) : List (Fn × List LuaValue) :=
  trace.filterMap fun
    | .call .timer fn args => some (fn, args)
    | _ => none

namespace World
variable (w : World)

/-- The subscriptions that name an interval. -/
def subscribers (ikey : UInt64) : List Subscription :=
  (subscriptions false w.trace ++ subscriptions true w.trace).filter fun s =>
    decide (ikey ∈ s.timers.map timerKey)

/-- The callback of a subscription is initialized. -/
def isReady (s : Subscription) : Bool := ((w.heap.cb s.cb).map Callback.initialized).getD false

/-- The function a subscriber gave, and what it is told at a tick. -/
def tickCall (rep timeout : UInt64) (s : Subscription) : Option (Fn × List LuaValue) :=
  s.fn.map fun fn => (fn, if w.isReady s then timerArgs rep timeout else [notInitialized])

/-- The calls due at an event: at a tick, one for each subscriber of the interval. -/
def tickCalls : Event → List (Fn × List LuaValue)
  | .tick b timeout =>
    match w.uv.timers b with
    | some t =>
      if w.cc.flags.disconnecting then []
      else (w.subscribers t.rep).filterMap (w.tickCall t.rep timeout)
    | none => []
  | _ => []

end World

/-- The steps of a client that subscribes to every interval once, on which no reply finds an old
    reference. -/
def ServesOnce (w : World) (e : Event) (w' : World) : Prop :=
  OncePerInterval w e w' ∧ Expected w e w'

/-- Every channel or pattern of a subscription is confirmed, and there is one. -/
def Subscription.Answered (s : Subscription) (c : Callback) : Prop :=
  s.names ≠ [] ∧ ∀ ch ∈ c.channels, ch.timerEvent = false → ch.subscribed = true

/-- Every subscriber of an interval is served. -/
structure TimersServed (w : World) : Prop where
  /-- every interval has a node, and the list of a node holds all subscribers of its interval -/
  listed : w.cc.exited = false → ∀ p, ∀ s ∈ subscriptions p w.trace, ∀ key ∈ s.timers,
    ∃ leaf val, searchTimer (timerKey key) w.cc.timers = some leaf ∧
      w.cc.timers.get? leaf = some (timerKey key, val) ∧
      val.cbList = (w.subscribers (timerKey key)).map fun s => .heap s.cb
  /-- at most one timer runs for an interval -/
  once : ∀ b b' t t', w.uv.timers b = some t → w.uv.timers b' = some t' → t.active = true →
    t'.active = true → t.rep = t'.rep → b = b'
  /-- a confirmed subscriber is initialized, and its timers run -/
  running : w.cc.exited = false → ∀ p, ∀ s ∈ subscriptions p w.trace,
    ∀ c, w.heap.cb s.cb = some c → s.Answered c → c.initialized = true ∧
      ∀ key ∈ s.timers, timerKey key ≠ 0 →
        ∃ b t, w.uv.timers b = some t ∧ t.rep = timerKey key ∧ t.active = true

/-! ## Records -/

/-- With a name of a record its timers are marked, and with the last slot the record is
    initialized. -/
structure Callback.Prompt (c : Callback) : Prop where
  timers : (∃ ch ∈ c.channels, ch.timerEvent = false ∧ ch.subscribed = true) →
    ∀ ch ∈ c.channels, ch.timerEvent = true → ch.subscribed = true
  initialized : c.channels ≠ [] → (∀ ch ∈ c.channels, ch.subscribed = true) → c.initialized = true

theorem ofRecords_prompt : OfRecords Callback.Prompt where
  fresh ref flags attach slots hslots := by
    refine ⟨?_, fun hne hall => ?_⟩
    · rintro ⟨ch, hch, -, hsub⟩
      rw [hslots ch hch] at hsub
      cases hsub
    · obtain ⟨ch, rest, rfl⟩ := List.exists_cons_of_ne_nil hne
      have hsub := hall ch List.mem_cons_self
      rw [hslots ch List.mem_cons_self] at hsub
      cases hsub
  attach c n h := ⟨h.timers, h.initialized⟩
  marked c sname _ _ :=
    ⟨fun _ ch hch htimer => markSlots_timer hch htimer, fun _ hall => List.all_eq_true.mpr hall⟩

/-! ## The state -/

namespace World
variable {w : World}

theorem mem_subscribers {ikey : UInt64} {s : Subscription} :
    s ∈ w.subscribers ikey ↔ (∃ p, s ∈ subscriptions p w.trace) ∧ ikey ∈ s.timers.map timerKey := by
  rw [subscribers, List.mem_filter, List.mem_append, decide_eq_true_eq]
  refine and_congr_left fun _ => ⟨?_, ?_⟩
  · rintro (hs | hs)
    · exact ⟨false, hs⟩
    · exact ⟨true, hs⟩
  · rintro ⟨_ | _, hs⟩
    · exact .inl hs
    · exact .inr hs

/-- An interval with a node of its own has one subscriber. -/
theorem subscribers_eq (hrecorded : w.Recorded) (hkeyed : Keyed w.cc.timers)
    (hnodes : ∀ p, ∀ s ∈ subscriptions p w.trace, w.HasNodes s) {p : Bool} {s : Subscription}
    (hs : s ∈ subscriptions p w.trace) {key : Bytes} (hkey : key ∈ s.timers) :
    w.subscribers (timerKey key) = [s] := by
  have hnodup : ((subscriptions false w.trace ++ subscriptions true w.trace).map
      Subscription.cb).Nodup := by
    rw [List.map_append]
    exact hrecorded.nodup
  have hmem : s ∈ w.subscribers (timerKey key) :=
    mem_subscribers.mpr ⟨⟨p, hs⟩, List.mem_map_of_mem hkey⟩
  have hsame : ∀ s' ∈ w.subscribers (timerKey key), s' = s := by
    intro s' hs'
    obtain ⟨⟨q, hq⟩, hkey'⟩ := mem_subscribers.mp hs'
    obtain ⟨key', hkey', heq⟩ := List.mem_map.mp hkey'
    obtain ⟨leaf, val, hget, hlist, -⟩ := (hnodes p s hs).node key hkey
    obtain ⟨leaf', val', hget', hlist', -⟩ := (hnodes q s' hq).node key' hkey'
    rw [heq] at hget'
    obtain rfl := Option.some.inj ((hkeyed leaf' _ _ hget').symm.trans (hkeyed leaf _ _ hget))
    rw [hget] at hget'
    obtain ⟨-, rfl⟩ := Prod.mk.inj (Option.some.inj hget')
    rw [hlist] at hlist'
    exact List.inj_on_of_nodup_map hnodup (List.mem_filter.mp hs').1 (List.mem_filter.mp hmem).1
      (CbPtr.heap.inj (List.cons.inj hlist').1).symm
  have hsingle := List.eq_replicate_of_mem hsame
  have hlength : (w.subscribers (timerKey key)).length ≤ 1 := by
    have hfilter : (w.subscribers (timerKey key)).Nodup :=
      (List.Nodup.of_map _ hnodup).filter _
    rw [hsingle] at hfilter
    exact List.nodup_replicate.mp hfilter
  have hpos := List.length_pos_of_mem hmem
  rw [hsingle, show (w.subscribers (timerKey key)).length = 1 by omega]
  rfl

/-- Every node was made by a subscriber of its interval, which is alone on its list. -/
def NodesMade (w : World) : Prop :=
  ∀ leaf ikey val, w.cc.timers.get? leaf = some (ikey, val) →
    ∃ p, ∃ s ∈ subscriptions p w.trace, ikey ∈ s.timers.map timerKey ∧ val.cbList = [.heap s.cb]

theorem nodesMade_null (h : w.cc.timers = .null) : w.NodesMade := by
  intro leaf ikey val hget
  rw [h, Tree.get?_null] at hget
  cases hget

/-- Starting a timer leaves the list of its node alone. -/
theorem NodesMade.keep (h : w.NodesMade) {ks : List Part} {w' : World} (ht : Touches ks w w')
    (hks : ks.all (fun k => decide (k ∉ [.timerTree, .obs .command, .obs .teardown])) = true) :
    w'.NodesMade := by
  have hsubs := ht.subscriptions (all_not_mem_mono (by simp) hks)
  have hupdate : ∀ (v : World) (u : Update), u.part ∉ [.timerTree] →
      (∀ leaf ikey val, v.cc.timers.get? leaf = some (ikey, val) →
        ∃ p, ∃ s ∈ subscriptions p w.trace, ikey ∈ s.timers.map timerKey ∧ val.cbList = [.heap s.cb]) →
      ∀ leaf ikey val, (u.apply v).cc.timers.get? leaf = some (ikey, val) →
        ∃ p, ∃ s ∈ subscriptions p w.trace, ikey ∈ s.timers.map timerKey ∧ val.cbList = [.heap s.cb] := by
    intro v u hu hv
    cases u with
    | timerData p b =>
      intro leaf ikey val hget
      change (v.cc.timers.modify _ p).get? leaf = _ at hget
      rw [Tree.get?_modify] at hget
      obtain ⟨⟨k, val'⟩, hkv, heq⟩ := Option.map_eq_some_iff.mp hget
      obtain ⟨rfl, rfl⟩ := Prod.mk.inj heq
      obtain ⟨q, s, hs, hkey, hlist⟩ := hv leaf _ val' hkv
      refine ⟨q, s, hs, hkey, ?_⟩
      split <;> exact hlist
    | names p t => cases p <;> exact hv
    | timerTree => simp at hu
    | _ => exact hv
  have hnodes := ht.keeps hupdate (all_not_mem_mono (by simp) hks) h
  intro leaf ikey val hget
  obtain ⟨p, s, hs, hmade⟩ := hnodes leaf ikey val hget
  exact ⟨p, s, (hsubs p).symm ▸ hs, hmade⟩

/-- A subscription makes a node for each of its intervals that has none. -/
theorem NodesMade.entered (h : w.NodesMade) (hkeyed : Keyed w.cc.timers) (argv timers : List Bytes)
    (fn : Option Fn) (flags : Bool) : (w.entered argv timers fn flags).NodesMade := by
  cases hkind : classify (argv.headD []) with
  | subscribe q =>
    have hadded := added_foldl w.heap.next hkeyed (timers.map timerKey)
    intro leaf ikey val hget
    rw [w.entered_timers hkind] at hget
    obtain hold | ⟨hkey, -, hval⟩ := hadded.new leaf _ hget
    · obtain ⟨p, s, hs, hmade⟩ := h leaf ikey val hold
      refine ⟨p, s, ?_, hmade⟩
      rw [entered_subscriptions]
      split
      · exact List.mem_append_left _ hs
      · exact hs
    · refine ⟨q, ⟨w.heap.next, argv.tail, timers, fn⟩, ?_, hkey, congrArg NodeVal.cbList hval⟩
      rw [entered_subscriptions, if_pos hkind]
      exact List.mem_append_right _ (List.mem_singleton_self _)
  | unsubscribe | monitor | ordinary =>
    have hother : ∀ p, classify (argv.headD []) ≠ .subscribe p := by
      rw [hkind]
      exact fun _ heq => by cases heq
    intro leaf ikey val hget
    rw [w.entered_timers_other hother] at hget
    obtain ⟨p, s, hs, hmade⟩ := h leaf ikey val hget
    refine ⟨p, s, ?_, hmade⟩
    rw [entered_subscriptions, if_neg (hother p)]
    exact hs

end World

/-- **One step** keeps that every node was made by a subscriber, until the client exits. -/
theorem step_nodesMade {w w' : World} {e : Event} (hreach : CrazySnail.Reachable w)
    (hstep : w.step e = some w') (hkeyed : Keyed w.cc.timers)
    (h : w.cc.exited = false → w.NodesMade) (hexit : w'.cc.exited = false) : w'.NodesMade := by
  have hrunning : w.cc.exited = false := by
    cases hw : w.cc.exited with
    | false => rfl
    | true => rw [Touches.exited (step_touches hstep) hw] at hexit; cases hexit
  have hmade := h hrunning
  cases step_ownership hstep with
  | quiet ht hks => exact hmade.keep ht (all_not_mem_mono (by simp) hks)
  | @command args env argv timers hfault hcollect =>
    rw [luaClientCommand_eq hcollect]
    exact (hmade.entered hkeyed argv timers _ _).keep (sendCommand_touches _ _ _ _ _ _) rfl
  | @teardown h₁ w₁ _ ht heq =>
    rw [heq]
    exact nodesMade_null (teardown_timers ((reachable_counts hreach).keep ht rfl) _ _ _)
  | @exit w₁ _ ht hexit₁ ht' =>
    rw [Touches.exited ht' (Touches.exited (destroyAll_touches _) hexit₁)] at hexit
    cases hexit

/-! ## After `exit` -/

/-- `exit` destroys the timer tree, unless it stops before. -/
theorem luaClientExit_timers {w : World} (hcounts : w.Counts) (hrunning : w.cc.exited = false)
    (hexit : w.luaClientExit.cc.exited = true) : w.luaClientExit.cc.timers = .null := by
  have hclose : ∀ (v : World) h, (v.uvClose h).cc.exited = v.cc.exited := fun v h =>
    (v.uvClose_touches h).exited_eq rfl
  have hfree : ∀ (v : World) h, (v.exitStream h).cc.timers = v.cc.timers := by
    intro v h
    have ht : Touches afterExit v (v.exitStream h) :=
      v.onStream_touches h _ (by simp) fun h _ => (v.freeStream_touches h).mono (by simp)
    exact ht.eq (f := fun w => w.cc.timers) fun w u hu => by cases u <;> simp at hu <;> rfl
  unfold luaClientExit at hexit ⊢
  dsimp only at hexit ⊢
  split at hexit
  · rw [hclose, hrunning] at hexit
    cases hexit
  next hfirst =>
    split at hexit
    · rw [hclose, hclose, hrunning] at hexit
      cases hexit
    next hsecond =>
      rw [if_neg hfirst, if_neg hsecond, hfree, hfree]
      have hclosed := ((w.uvClose_touches w.cc.stream).trans
        (uvClose_touches _ (w.uvClose w.cc.stream).cc.subStream))
      have hdestroyed : ∀ v : World, Touches beforeExit w v → v.destroyAll.cc.timers = .null :=
        fun v hv => congrArg ClientContext.timers (destroyAll_spec (hcounts.keep hv rfl)).2
      refine hdestroyed _ ?_
      exact (((((hclosed.mono (by simp)).step (.unref _) (by simp)).step (.unref _) (by simp)).step
        (.unref _) (by simp)).step (.streamFlags .none) (by simp)).step .exited (by simp)

/-- No timer of a client that has exited is active. -/
def World.Idle (w : World) : Prop :=
  w.cc.exited = true → ∀ b t, w.uv.timers b = some t → t.active = false

/-- Without a start no timer gets active. -/
theorem inactive_keep {w w' : World} {ks : List Part} (ht : Touches ks w w')
    (hks : ks.all (fun k => decide (k ∉ [.timerStart, .fired])) = true)
    (h : ∀ b t, w.uv.timers b = some t → t.active = false) :
    ∀ b t, w'.uv.timers b = some t → t.active = false := by
  refine ht.keeps (I := fun w => ∀ b t, w.uv.timers b = some t → t.active = false)
    (fun v u hu hv => ?_) hks h
  cases u with
  | timerStop b =>
    intro b' t ht'
    simp only [Update.apply, Function.update_apply] at ht'
    split at ht'
    · obtain ⟨t', -, rfl⟩ := Option.map_eq_some_iff.mp ht'
      rfl
    · exact hv b' t ht'
  | reqAlloc =>
    intro b t ht'
    simp only [Update.apply, v.uv.reqAlloc_pool.2.2.2] at ht'
    exact hv b t ht'
  | names p t => cases p <;> exact hv
  | timerStart | fired => simp at hu
  | _ => exact hv

theorem step_idle {w w' : World} {e : Event} (hreach : CrazySnail.Reachable w)
    (hstep : w.step e = some w') (hkept : w'.TimersKept) (h : w.Idle) : w'.Idle := by
  intro hexit
  cases hw : w.cc.exited with
  | false =>
    -- it has exited now
    have htree : w'.cc.timers = .null := by
      by_cases he : e = .api .exit
      · subst he
        cases (step_cases hstep).2 with
        | api c _ => exact luaClientExit_timers (reachable_counts hreach) hw hexit
      · rw [step_exited hstep he, hw] at hexit
        cases hexit
    intro b t ht
    by_contra hactive
    obtain ⟨p, val, hget, -⟩ := hkept.held.active b t ht (by simpa using hactive)
    rw [htree, Tree.get?_null] at hget
    cases hget
  | true =>
    have hnone := h hw
    have htouches := step_touches hstep
    obtain ⟨-, hs⟩ := step_cases hstep
    cases hs with
    | api c _ => cases c <;> exact inactive_keep htouches rfl hnone
    | @resume f rest hstack _ =>
      cases f with
      | readLoop h₁ subMode cb =>
        have hcrash : ({ w with stack := rest } : World).readLoop h₁ subMode cb =
            ({ w with stack := rest } : World).crash .deadClient := by
          simp only [World.readLoop, hw, if_true]
        change ∀ b t, (({ w with stack := rest } : World).readLoop h₁ subMode cb).uv.timers b = _ → _
        rw [hcrash]
        exact hnone
      | _ =>
        rw [hstack] at htouches
        exact inactive_keep htouches rfl hnone
    | @tick b t timeout _ ht hactive =>
      rw [hnone b t ht] at hactive
      cases hactive
    | _ => exact inactive_keep htouches rfl hnone

/-! ## Ticks -/

theorem Update.apply_timerCalls (w : World) (u : Update) (hu : u.part ∉ [.obs (.call .timer)]) :
    timerCalls (u.apply w).trace = timerCalls w.trace := by
  cases u with
  | log o =>
    cases o with
    | call site fn args =>
      cases site <;> simp at hu <;> simp [apply, World.log, timerCalls]
    | _ => simp [apply, World.log, timerCalls]
  | names p t => cases p <;> rfl
  | _ => rfl

theorem Touches.timerCalls {ks : List Part} {w w' : World} (h : Touches ks w w')
    (hks : ks.all (fun k => decide (k ∉ [.obs (.call .timer)])) = true) :
    CrazySnail.timerCalls w'.trace = CrazySnail.timerCalls w.trace :=
  h.same (f := fun w => CrazySnail.timerCalls w.trace) Update.apply_timerCalls hks

/-- `on_timer` goes on behind the first entry of its list. -/
def LaterEntries (stack : List Frame) : Prop :=
  ∀ leaf i rep timeout, Frame.timer leaf i rep timeout ∈ stack → 1 ≤ i

theorem LaterEntries.keep {ks : List Part} {w w' : World} (h : LaterEntries w.stack)
    (ht : Touches ks w w') (hks : ks.all (fun k => decide (k ∉ [.frame .timer])) = true) :
    LaterEntries w'.stack := by
  refine ht.keeps (I := fun w => LaterEntries w.stack) (fun w u hu hw => ?_) hks h
  cases u with
  | push f =>
    intro leaf i rep timeout hmem
    rcases List.mem_cons.mp hmem with rfl | hmem
    · simp at hu
    · exact hw leaf i rep timeout hmem
  | pop => exact fun leaf i rep timeout hmem => hw leaf i rep timeout (List.mem_of_mem_tail hmem)
  | names p t => cases p <;> exact hw
  | _ => exact hw

/-- A round of `on_timer` calls a record that is alive. -/
theorem callEntry_timer {w : World} {id : Nat} {c : Callback} (hc : w.heap.cb id = some c) (f : Frame)
    (args : List LuaValue) :
    timerCalls ((w.push f).callEntry .timer (.heap id) (some args)).trace =
      timerCalls w.trace ++ ((w.lua.rawgeti c.ref).map fun fn =>
        (fn, if c.initialized then args else [notInitialized])).toList := by
  have hcall : ∀ args', timerCalls ((w.push f).pcall .timer (w.lua.rawgeti c.ref) args').trace =
      timerCalls w.trace ++ ((w.lua.rawgeti c.ref).map fun fn => (fn, args')).toList := by
    intro args'
    cases w.lua.rawgeti c.ref <;> simp [pcall, push, timerCalls]
  have hid : (w.push f).heap.deref (.heap id) = some c := hc
  simp only [callEntry, hid]
  split <;> exact hcall _

/-- The invariant of a run that subscribes to every interval once, with the calls it has made. -/
structure ServingTimers (w : World) (calls : List (Fn × List LuaValue)) : Prop where
  reach : CrazySnail.Reachable w
  accounted : w.fault = none → ∃ lost, Accounted w lost
  kept : w.TimersKept
  idle : w.Idle
  made : w.cc.exited = false → w.NodesMade
  later : LaterEntries w.stack
  called : timerCalls w.trace = calls

/-- The timer that fires has a node, whose list is its only subscriber. -/
theorem ServingTimers.node {w : World} {calls : List (Fn × List LuaValue)}
    (h : ServingTimers w calls) {b : Block} {t : UvTimer} (ht : w.uv.timers b = some t)
    (hactive : t.active = true) :
    w.cc.exited = false ∧ ∃ leaf val s c, searchTimer t.rep w.cc.timers = some leaf ∧
      w.cc.timers.get? leaf = some (t.rep, val) ∧ val.cbList = [.heap s.cb] ∧
      w.heap.cb s.cb = some c ∧ w.subscribers t.rep = [s] := by
  have hrunning : w.cc.exited = false := by
    cases hexit : w.cc.exited with
    | false => rfl
    | true => rw [h.idle hexit b t ht] at hactive; cases hactive
  obtain ⟨leaf, val, hget, -⟩ := h.kept.held.active b t ht hactive
  obtain ⟨p, s, hs, hkey, hlist⟩ := h.made hrunning leaf t.rep val hget
  obtain ⟨key, hkey, heq⟩ := List.mem_map.mp hkey
  have hone := subscribers_eq (reachable_recorded h.reach) h.kept.held.keyed (h.kept.nodes hrunning)
    hs hkey
  -- the record is alive, since the node has a wrapper of it
  have hwrapper : CbPtr.heap s.cb ∈ w.wrappers := by
    have hmem : CbPtr.heap s.cb ∈ CrazySnail.wrappers w.cc.timers :=
      mem_wrappers.mpr ⟨leaf, t.rep, val, hget, hlist ▸ List.mem_cons_self⟩
    simp only [World.wrappers, List.mem_append]
    exact .inr (.inr (.inr hmem))
  obtain ⟨c, hc⟩ := Option.ne_none_iff_exists'.mp ((reachable_counts h.reach).alive _ hwrapper)
  exact ⟨hrunning, leaf, val, s, c, (searchTimer_eq _ _).trans (h.kept.held.keyed leaf _ _ hget), hget,
    hlist, hc, heq ▸ hone⟩

/-- **One step.** -/
theorem step_servingTimers {w w' : World} {e : Event} {calls : List (Fn × List LuaValue)}
    (h : ServingTimers w calls) (hstep : w.step e = some w') (honce : ServesOnce w e w') :
    ServingTimers w' (calls ++ w.tickCalls e) := by
  have hkept := step_timers h.reach hstep honce.1 h.kept
  obtain ⟨lost, haccounted⟩ := h.accounted (step_cases hstep).1
  have htouches := step_touches hstep
  have hquiet : ∀ {ks : List Part}, Touches ks w w' →
      ks.all (fun k => decide (k ∉ [.frame .timer])) = true →
      ks.all (fun k => decide (k ∉ [.obs (.call .timer)])) = true → w.tickCalls e = [] →
      LaterEntries w'.stack ∧ timerCalls w'.trace = calls ++ w.tickCalls e := by
    intro ks ht hframes hcalls hnone
    rw [hnone, List.append_nil]
    exact ⟨h.later.keep ht hframes, (ht.timerCalls hcalls).trans h.called⟩
  have hloop : LaterEntries w'.stack ∧ timerCalls w'.trace = calls ++ w.tickCalls e := by
    cases (step_cases hstep).2 with
    | api c _ => cases c <;> exact hquiet htouches rfl rfl rfl
    | @resume f rest hstack _ =>
      cases f with
      | timer leaf i rep timeout =>
        -- behind the first entry nothing is left
        have hlater : LaterEntries rest := fun leaf i rep timeout hmem =>
          h.later leaf i rep timeout (hstack ▸ List.mem_cons_of_mem _ hmem)
        have hi : 1 ≤ i := h.later leaf i rep timeout (hstack ▸ List.mem_cons_self)
        have hend : ∃ f, ({ w with stack := rest } : World).timerLoop leaf i rep timeout =
            { w with stack := rest, fault := f } := by
          unfold timerLoop
          split
          · exact ⟨_, rfl⟩
          next hexit =>
            split
            · exact ⟨_, rfl⟩
            next ikey val hget =>
              obtain ⟨-, s, -, -, hlist⟩ := h.made (by simpa using hexit) leaf ikey val hget
              have hnone : val.cbList[i]? = none := by
                rw [hlist, List.getElem?_eq_none_iff]
                exact hi
              exact ⟨w.fault, by simp only [hnone]⟩
        obtain ⟨f, hend⟩ := hend
        change LaterEntries (({ w with stack := rest } : World).timerLoop leaf i rep timeout).stack ∧ _
        change _ ∧ timerCalls (({ w with stack := rest } : World).timerLoop leaf i rep timeout).trace = _
        rw [hend]
        exact ⟨hlater, h.called.trans (List.append_nil _).symm⟩
      | _ =>
        rw [hstack] at htouches
        exact hquiet htouches rfl rfl rfl
    | @tick b t timeout hstack ht hactive =>
      obtain ⟨hrunning, leaf, val, s, c, hleaf, hget, hlist, hc, hone⟩ := h.node ht hactive
      simp only [World.tickCalls, ht, hone]
      unfold onTimer
      split
      next hdisconnecting =>
        have hdisc : w.cc.flags.disconnecting = true := hdisconnecting
        rw [if_pos hdisc, List.append_nil]
        exact ⟨h.later, h.called⟩
      next hdisconnecting =>
        have hdisc : w.cc.flags.disconnecting = false := Bool.eq_false_iff.mpr hdisconnecting
        have hfirst : (w.fired b t).timerLoop leaf 0 t.rep timeout =
            ((w.fired b t).push (.timer leaf 1 t.rep timeout)).callEntry .timer (.heap s.cb)
              (some (timerArgs t.rep timeout)) := by
          have hget' : (w.fired b t).cc.timers.get? leaf = some (t.rep, val) := hget
          have hrunning' : (w.fired b t).cc.exited = false := hrunning
          simp [timerLoop, hrunning', hget', hlist]
        have hleaf' : searchTimer t.rep (w.fired b t).cc.timers = some leaf := hleaf
        simp only [hleaf', hfirst, hdisc]
        constructor
        · have hpushed : LaterEntries ((w.fired b t).push (.timer leaf 1 t.rep timeout)).stack := by
            intro leaf' i rep timeout' hmem
            rcases List.mem_cons.mp hmem with heq | hmem
            · cases heq
              exact Nat.le_refl 1
            · exact h.later leaf' i rep timeout' hmem
          have hcall := callEntry_touches ((w.fired b t).push (.timer leaf 1 t.rep timeout)) .timer
            (.heap s.cb) (some (timerArgs t.rep timeout)) List.mem_cons_self
            (List.subset_cons_self Part.fault _)
          exact hpushed.keep hcall rfl
        · have hcall : (w.tickCall t.rep timeout s).toList = ((w.lua.rawgeti c.ref).map fun fn =>
              (fn, if c.initialized then timerArgs t.rep timeout else [notInitialized])).toList := by
            -- the record refers to the function that the subscriber gave
            obtain ⟨⟨p, hs⟩, -⟩ := mem_subscribers.mp (hone ▸ List.mem_singleton_self s)
            have hfn := haccounted.subscription_function h.reach hs hc
            rw [World.fnOf, Heap.deref, hc, Option.bind_some] at hfn
            rw [tickCall, isReady, hc, Option.map_some, Option.getD_some, hfn]
          refine (callEntry_timer (w := w.fired b t) hc _ _).trans ?_
          rw [show timerCalls (w.fired b t).trace = calls from h.called]
          refine congrArg (calls ++ ·) (hcall.symm.trans ?_)
          cases htick : w.tickCall t.rep timeout s <;> simp [htick]
    | _ => exact hquiet htouches rfl rfl rfl
  exact ⟨h.reach.extend hstep,
    fun hfault => ⟨_, step_accounted haccounted hstep honce.2 hfault⟩, hkept,
    step_idle h.reach hstep hkept h.idle,
    step_nodesMade h.reach hstep h.kept.held.keyed h.made, hloop.1, hloop.2⟩

/-! ## Runs -/

/-- A confirmed subscriber has been marked as a whole. -/
theorem ServingTimers.running {w : World} {calls : List (Fn × List LuaValue)}
    (h : ServingTimers w calls) (hrunning : w.cc.exited = false) {p : Bool} {s : Subscription}
    (hs : s ∈ subscriptions p w.trace) {c : Callback} (hc : w.heap.cb s.cb = some c)
    (hanswered : s.Answered c) : c.initialized = true ∧ ∀ key ∈ s.timers, timerKey key ≠ 0 →
      ∃ b t, w.uv.timers b = some t ∧ t.rep = timerKey key ∧ t.active = true := by
  obtain ⟨hnames, hall⟩ := hanswered
  have hprompt := reachable_records ofRecords_prompt h.reach s.cb c hc
  have hrecorded := reachable_recorded h.reach
  have hblank : c.channels.map Channel.blank = s.slots := (hrecorded.shaped p s hs).2 c hc
  -- the subscription has a name, whose slot is marked
  obtain ⟨name, names, hnames⟩ := List.exists_cons_of_ne_nil hnames
  have hslot : createChannel name ∈ c.channels.map Channel.blank := by
    rw [hblank, Subscription.slots, hnames]
    exact List.mem_append_left _ List.mem_cons_self
  obtain ⟨ch, hch, hblankch⟩ := List.mem_map.mp hslot
  have hname : ch.timerEvent = false := congrArg Channel.timerEvent hblankch
  have htimers := hprompt.timers ⟨ch, hch, hname, hall ch hch hname⟩
  refine ⟨hprompt.initialized (List.ne_nil_of_mem hch) fun ch' hch' => ?_, fun key hkey hne => ?_⟩
  · cases htimer : ch'.timerEvent with
    | false => exact hall ch' hch' htimer
    | true => exact htimers ch' hch' htimer
  · obtain ⟨leaf, val, hget, -, hholds⟩ := (h.kept.nodes hrunning p s hs).node key hkey
    have hmem : timerKey key ∈ (c.channels.filter Channel.timerEvent).map Channel.ikey := by
      rw [hrecorded.timerSlots hs hc]
      exact List.mem_map_of_mem hkey
    obtain ⟨ch', hch', hikey⟩ := List.mem_map.mp hmem
    obtain ⟨hch', htimer⟩ := List.mem_filter.mp hch'
    have hdata := hholds.2 c hc ch' hch' htimer hikey
    rw [htimers ch' hch' htimer] at hdata
    obtain ⟨b, hb⟩ := Option.isSome_iff_exists.mp hdata.symm
    obtain ⟨t, ht, hrep, hactive⟩ := h.kept.held.started leaf _ val b hget hb
    exact ⟨b, t, ht, hrep, hactive hne⟩

/-- **Timer service.**  While every interval is subscribed to once, every node lists the
    subscribers of its interval, a confirmed subscriber has a timer that runs, and `on_timer` calls
    the functions given by the subscribers of the interval of each tick, once each, and no other. -/
theorem timersServed {ignoreSubCmdReply : Bool} {w : World} {es : List Event}
    (hrun : RunsUnder World.step ServesOnce (World.new ignoreSubCmdReply) es w) :
    TimersServed w ∧
      timerCalls w.trace = outputs World.step World.tickCalls (World.new ignoreSubCmdReply) es := by
  have hnew : ServingTimers (World.new ignoreSubCmdReply) [] :=
    ⟨⟨ignoreSubCmdReply, [], rfl⟩, fun _ => ⟨[], accounted_new _⟩, timersKept .nil,
      (fun h => by cases h), fun _ => nodesMade_null rfl,
      fun _ _ _ _ h => absurd h List.not_mem_nil, rfl⟩
  have hserving : ServingTimers w ([] ++ outputs World.step World.tickCalls _ es) :=
    hrun.invariant_outputs (I := ServingTimers)
      (fun _ _ _ _ h hstep honce => step_servingTimers h hstep honce) hnew
  refine ⟨⟨fun hrunning p s hs key hkey => ?_, fun b b' t t' ht ht' hactive hactive' hrep => ?_,
    fun hrunning p s hs c hc => hserving.running hrunning hs hc⟩, hserving.called⟩
  · obtain ⟨leaf, val, hget, hlist, -⟩ := (hserving.kept.nodes hrunning p s hs).node key hkey
    refine ⟨leaf, val, (searchTimer_eq _ _).trans (hserving.kept.held.keyed leaf _ _ hget), hget, ?_⟩
    rw [subscribers_eq (reachable_recorded hserving.reach) hserving.kept.held.keyed
      (hserving.kept.nodes hrunning) hs hkey]
    exact hlist
  · obtain ⟨leaf, val, hget, hdata⟩ := hserving.kept.held.active b t ht hactive
    obtain ⟨leaf', val', hget', hdata'⟩ := hserving.kept.held.active b' t' ht' hactive'
    have hkeyed := hserving.kept.held.keyed
    rw [← hrep] at hget'
    obtain rfl := Option.some.inj ((hkeyed leaf' _ _ hget').symm.trans (hkeyed leaf _ _ hget))
    rw [hget] at hget'
    obtain ⟨-, rfl⟩ := Prod.mk.inj (Option.some.inj hget')
    exact Option.some.inj (hdata.symm.trans hdata')

/-- Two ticks of a confirmed timer, after the Lua function of the first has returned. -/
def ticked : List Event :=
  confirmedRun false ++ [.tick 1 50, .ret true, .resume, .tick 1 100]

theorem timersServed_ticked :
    ∃ w, runs (World.new true) ticked = some w ∧ TimersServed w ∧
      timerCalls w.trace = outputs World.step World.tickCalls (World.new true) ticked ∧
      (timerCalls w.trace).map Prod.fst = [1, 1] := by
  have hrun : (runChecked World.step (fun w e => onceCheck w e && expectedCheck w e) (World.new true)
      ticked).map (fun w => (timerCalls w.trace).map Prod.fst) = some [1, 1] := by decide +kernel
  obtain ⟨w, hw, hstate⟩ := Option.map_eq_some_iff.mp hrun
  have hunder := runsUnder_of_checked (C := ServesOnce)
    (fun _ _ _ h _ => ⟨oncePerInterval_of_check (Bool.and_eq_true_iff.mp h).1,
      expected_of_check (Bool.and_eq_true_iff.mp h).2⟩) hw
  obtain ⟨hserved, hcalls⟩ := timersServed hunder
  exact ⟨w, hunder.run_eq, hserved, hcalls, hstate⟩

/-- The second subscriber of an interval is not entered into the list of its node. -/
theorem timersServed_fails :
    ∃ w, runs (World.new true) sameInterval = some w ∧ ¬TimersServed w := by
  have hrun : (runs (World.new true) sameInterval).map (fun w => (w.cc.exited,
      subscriptions false w.trace, subscriptions true w.trace,
      ((searchTimer 50 w.cc.timers).bind w.cc.timers.get?).map fun kv => kv.2.cbList)) =
      some (false, [⟨0, [ascii "a"], [ascii "__timer@0__:50"], some 1⟩,
        ⟨1, [ascii "b"], [ascii "__timer@0__:50"], some 2⟩], [], some [.heap 0]) := by
    decide +kernel
  obtain ⟨w, hw, hstate⟩ := Option.map_eq_some_iff.mp hrun
  simp only [Prod.mk.injEq] at hstate
  obtain ⟨hexit, hchannels, hpatterns, hnode⟩ := hstate
  refine ⟨w, hw, fun h => ?_⟩
  obtain ⟨leaf, val, hleaf, hget, hlist⟩ := h.listed hexit false
    ⟨1, [ascii "b"], [ascii "__timer@0__:50"], some 2⟩ (by simp [hchannels]) _ List.mem_cons_self
  have hkey : timerKey (ascii "__timer@0__:50") = 50 := by decide
  rw [hkey] at hleaf hlist
  rw [hleaf, Option.bind_some, hget, Option.map_some, Option.some.injEq] at hnode
  rw [hlist, World.subscribers, hchannels, hpatterns] at hnode
  exact absurd hnode (by decide)

end CrazySnail
