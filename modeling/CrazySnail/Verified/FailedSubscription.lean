import CrazySnail.Verified.Queue
import CrazySnail.Verified.Wrappers

/-! # Traces of failed subscriptions

A subscription is entered into the trees before it is known whether it can be sent, and
nothing takes it out again.  A failed subscription leaves no trace exactly if it enters
nothing: it names no channel, and its intervals have their nodes already
(`failedSubscription`).
-/

namespace CrazySnail

open SearchTree (Tree Path)
open World

namespace World
variable {w : World}

/-- The entries of the lists in the three trees. -/
def treeEntries (w : World) : List CbPtr :=
  CrazySnail.wrappers w.cc.channels ++
    (CrazySnail.wrappers w.cc.patterns ++ CrazySnail.wrappers w.cc.timers)

/-- A command that has failed is as if it had not been there. -/
structure LeavesNoTrace (w w' : World) : Prop where
  channels : w'.cc.channels = w.cc.channels
  patterns : w'.cc.patterns = w.cc.patterns
  timers : w'.cc.timers = w.cc.timers
  /-- no confirmation, event or tick ever finds the record of the command -/
  later : ∀ w'', Transition.Reachable World.step w' w'' → .heap w.heap.next ∉ w''.treeEntries

theorem LeavesNoTrace.treeEntries {w' : World} (h : LeavesNoTrace w w') :
    w'.treeEntries = w.treeEntries := by
  rw [World.treeEntries, World.treeEntries, h.channels, h.patterns, h.timers]

/-! ## What the loops enter -/

/-- What one more wrapper in all is, if the command list is left alone. -/
theorem treeEntries_cons {w' : World} {p : CbPtr} (hlist : w'.cc.commandCbList = w.cc.commandCbList)
    (h : (p :: w.wrappers).Perm w'.wrappers) : (p :: w.treeEntries).Perm w'.treeEntries := by
  have hw : w.wrappers = w.cc.commandCbList ++ w.treeEntries := rfl
  have hw' : w'.wrappers = w.cc.commandCbList ++ w'.treeEntries := by rw [← hlist]; rfl
  rw [hw, hw'] at h
  exact (List.perm_append_left_iff _).mp (List.perm_middle.trans h)

theorem subscribeName_entries (p : Bool) (cb : Nat) (w : World) (name : Bytes) :
    (.heap cb :: w.treeEntries).Perm (subscribeName p cb w name).treeEntries := by
  rw [subscribeName_eq]
  refine treeEntries_cons (by cases p <;> rfl) ?_
  exact wrappers_setNames (w.addChannel cb (createChannel name)) p (wrappers_namesWith _ cb name)

theorem subscribeTimer_entries {key : Bytes} (hnew : searchTimer (timerKey key) w.cc.timers = none)
    (cb : Nat) : (.heap cb :: w.treeEntries).Perm (subscribeTimer cb w key).treeEntries := by
  rw [searchTimer_eq] at hnew
  obtain ⟨kv, hkv⟩ := insert_get? timerCmp_lawful w.cc.timers (timerKey key)
  have hpush := wrappers_push hkv (.heap cb)
  rw [wrappers_insert] at hpush
  rw [subscribeTimer_new hnew]
  exact treeEntries_cons rfl (wrappers_setTimers (w.addChannel cb _) hpush)

theorem subscribeTimer_cc {key : Bytes} (hknown : searchTimer (timerKey key) w.cc.timers ≠ none)
    (cb : Nat) : (subscribeTimer cb w key).cc = w.cc := by
  rw [searchTimer_eq] at hknown
  obtain ⟨leaf, hleaf⟩ := Option.ne_none_iff_exists'.mp hknown
  rw [subscribeTimer_known hleaf]
  rfl

/-- Both loops only add entries. -/
theorem subscribe_entries {ptr : CbPtr} (p : Bool) (cb : Nat) (names timers : List Bytes)
    (h : ptr ∈ w.treeEntries) :
    ptr ∈ (timers.foldl (subscribeTimer cb) (names.foldl (subscribeName p cb) w)).treeEntries := by
  refine subscribe_keeps (I := fun w => ptr ∈ w.treeEntries) (fun w name hw => ?_)
    (fun w key hw => ?_) names timers h
  · exact (subscribeName_entries p cb w name).mem_iff.mp (List.mem_cons_of_mem _ hw)
  · by_cases hnew : searchTimer (timerKey key) w.cc.timers = none
    · exact (subscribeTimer_entries hnew cb).mem_iff.mp (List.mem_cons_of_mem _ hw)
    · rw [treeEntries, subscribeTimer_cc hnew cb]
      exact hw

/-- Where every interval has its node, the timer loop enters nothing. -/
theorem subscribeTimers_cc (cb : Nat) {timers : List Bytes}
    (hknown : ∀ key ∈ timers, searchTimer (timerKey key) w.cc.timers ≠ none) :
    (timers.foldl (subscribeTimer cb) w).cc = w.cc := by
  induction timers generalizing w with
  | nil => rfl
  | cons key timers ih =>
    obtain ⟨hkey, hrest⟩ := List.forall_mem_cons.mp hknown
    have hcc := subscribeTimer_cc hkey cb
    rw [List.foldl_cons, ih (w := subscribeTimer cb w key) (by rw [hcc]; exact hrest), hcc]

/-- An interval without a node brings the callback in. -/
theorem subscribeTimers_entries (cb : Nat) {timers : List Bytes} {key : Bytes} (hkey : key ∈ timers)
    (hnew : searchTimer (timerKey key) w.cc.timers = none) :
    .heap cb ∈ (timers.foldl (subscribeTimer cb) w).treeEntries := by
  induction timers generalizing w with
  | nil => cases hkey
  | cons key' timers ih =>
    rw [List.foldl_cons]
    -- an earlier interval without a node brings the callback in already
    by_cases hnew' : searchTimer (timerKey key') w.cc.timers = none
    · refine subscribe_entries (w := subscribeTimer cb w key') false cb [] timers ?_
      exact (subscribeTimer_entries hnew' cb).mem_iff.mp List.mem_cons_self
    · have hcc := subscribeTimer_cc hnew' cb
      rcases List.mem_cons.mp hkey with rfl | hkey
      · exact absurd hnew hnew'
      · exact ih hkey (by rw [hcc]; exact hnew)

/-- A subscription that names nothing and has no new interval. -/
def EntersNothing (w : World) (names timers : List Bytes) : Prop :=
  names = [] ∧ ∀ key ∈ timers, searchTimer (timerKey key) w.cc.timers ≠ none

theorem registerCommand_cc {names timers : List Bytes} (h : w.EntersNothing names timers) (p : Bool)
    (fn : Option Fn) (flags : Bool) :
    (w.registerCommand (.subscribe p) names timers fn flags).cc = w.cc := by
  obtain ⟨rfl, hknown⟩ := h
  have hcc : ((w.refCallback fn).2.newCallback (w.refCallback fn).1 flags).cc = w.cc :=
    w.refCallback_cc fn
  have hloop := subscribeTimers_cc (w := (w.refCallback fn).2.newCallback (w.refCallback fn).1 flags)
    w.heap.next (by rw [hcc]; exact hknown)
  exact hloop.trans hcc

theorem registerCommand_entries {names timers : List Bytes} (h : ¬w.EntersNothing names timers)
    (p : Bool) (fn : Option Fn) (flags : Bool) : .heap w.heap.next ∈
      (w.registerCommand (.subscribe p) names timers fn flags).treeEntries := by
  have hcc : ((w.refCallback fn).2.newCallback (w.refCallback fn).1 flags).cc = w.cc :=
    w.refCallback_cc fn
  change .heap w.heap.next ∈ (timers.foldl (subscribeTimer w.heap.next)
      (names.foldl (subscribeName p w.heap.next)
        ((w.refCallback fn).2.newCallback (w.refCallback fn).1 flags))).treeEntries
  generalize (w.refCallback fn).2.newCallback (w.refCallback fn).1 flags = w₁ at hcc ⊢
  cases names with
  | nil =>
    simp only [EntersNothing, true_and, not_forall, not_not] at h
    obtain ⟨key, hkey, hnew⟩ := h
    exact subscribeTimers_entries (w := w₁) w.heap.next hkey (by rw [hcc]; exact hnew)
  | cons name names =>
    refine subscribe_entries (w := subscribeName p w.heap.next w₁ name) p _ names timers ?_
    exact (subscribeName_entries p _ w₁ name).mem_iff.mp List.mem_cons_self

end World

theorem Touches.next {ks : List Part} {w w' : World} (h : Touches ks w w') :
    w.heap.next ≤ w'.heap.next :=
  h.preserves (I := fun v => w.heap.next ≤ v.heap.next)
    (fun v u _ hv => hv.trans (u.apply_next v)) (Nat.le_refl _)

theorem Update.apply_trees (w : World) (u : Update)
    (hu : u.part ∉ [.names, .timerTree, .timerData]) :
    ((u.apply w).cc.channels, (u.apply w).cc.patterns, (u.apply w).cc.timers) =
      (w.cc.channels, w.cc.patterns, w.cc.timers) := by
  cases u <;> first | rfl | simp at hu

theorem Touches.trees {ks : List Part} {w w' : World} (h : Touches ks w w')
    (hks : ks.all (fun k => decide (k ∉ [.names, .timerTree, .timerData])) = true) :
    (w'.cc.channels, w'.cc.patterns, w'.cc.timers) =
      (w.cc.channels, w.cc.patterns, w.cc.timers) :=
  h.same (f := fun w => (w.cc.channels, w.cc.patterns, w.cc.timers)) Update.apply_trees hks

namespace World
variable {w : World}

/-! ## Later runs -/

/-- A record that no tree refers to any more. -/
structure Forgotten (w : World) (id : Nat) : Prop where
  old : id < w.heap.next
  absent : .heap id ∉ w.treeEntries

theorem Forgotten.update {id : Nat} (w : World) (u : Update) (hu : u.part ∉ [.names, .timerTree])
    (h : w.Forgotten id) : (u.apply w).Forgotten id := by
  obtain ⟨hold, habsent⟩ := h
  have hnext : w.heap.next ≤ (u.apply w).heap.next := u.apply_next w
  refine ⟨Nat.lt_of_lt_of_le hold hnext, ?_⟩
  cases u with
  | timerData leaf b =>
    simp only [treeEntries, Update.apply, wrappers_timerData]
    exact habsent
  | names p t => simp at hu
  | timerTree => simp at hu
  | _ => exact habsent

theorem Forgotten.keep {id : Nat} {ks : List Part} {w' : World} (h : w.Forgotten id)
    (ht : Touches ks w w') (hks : ks.all (fun k => decide (k ∉ [.names, .timerTree])) = true) :
    w'.Forgotten id :=
  ht.keeps (fun w u hu => Forgotten.update w u hu) hks h

/-- The identifier of a subscription is in use. -/
theorem registerCommand_subscribe_next (w : World) (p : Bool) (names timers : List Bytes)
    (fn : Option Fn) (flags : Bool) :
    w.heap.next < (w.registerCommand (.subscribe p) names timers fn flags).heap.next := by
  have hnew : ((w.refCallback fn).2.newCallback (w.refCallback fn).1 flags).heap.next =
      w.heap.next + 1 := by rw [newCallback, createCallback, refCallback_heap]
  exact Nat.lt_of_lt_of_le (Nat.lt_of_lt_of_eq (Nat.lt_succ_self _) hnew.symm)
    (subscribe_touches _ p w.heap.next names timers).next

theorem Forgotten.subscribe {id cb : Nat} (hcb : id < cb) (p : Bool) (names timers : List Bytes)
    (h : w.Forgotten id) :
    (timers.foldl (subscribeTimer cb) (names.foldl (subscribeName p cb) w)).Forgotten id := by
  have hptr : CbPtr.heap id ≠ .heap cb := fun heq => Nat.ne_of_lt hcb (CbPtr.heap.inj heq)
  have hcons : ∀ w w' : World, w.Forgotten id → Touches subscribeParts w w' →
      (.heap cb :: w.treeEntries).Perm w'.treeEntries → w'.Forgotten id := fun w w' hw ht hperm =>
    ⟨Nat.lt_of_lt_of_le hw.old ht.next,
      fun hmem => (List.mem_cons.mp (hperm.mem_iff.mpr hmem)).elim hptr hw.absent⟩
  refine subscribe_keeps (I := fun w => w.Forgotten id) (fun w name hw => ?_) (fun w key hw => ?_)
    names timers h
  · exact hcons w _ hw (w.subscribeName_touches p cb name) (subscribeName_entries p cb w name)
  · have ht := w.subscribeTimer_touches cb key
    by_cases hnew : searchTimer (timerKey key) w.cc.timers = none
    · exact hcons w _ hw ht (subscribeTimer_entries hnew cb)
    · refine ⟨Nat.lt_of_lt_of_le hw.old ht.next, ?_⟩
      rw [treeEntries, subscribeTimer_cc hnew cb]
      exact hw.absent

/-- Other commands have records of their own. -/
theorem Forgotten.entered {id : Nat} (h : w.Forgotten id) (argv timers : List Bytes)
    (fn : Option Fn) (flags : Bool) : (w.entered argv timers fn flags).Forgotten id := by
  have hnoted : (w.noted (classify (argv.headD [])) argv timers fn).Forgotten id :=
    ⟨h.old, h.absent⟩
  unfold World.entered
  generalize w.noted (classify (argv.headD [])) argv timers fn = w₀ at hnoted ⊢
  generalize classify (argv.headD []) = kind
  cases kind with
  | subscribe p =>
    have href := hnoted.keep (w₀.refCallback_touches fn) rfl
    exact (Forgotten.update _ (.create (w₀.refCallback fn).1 flags) (by simp) href).subscribe
      hnoted.old p _ timers
  | unsubscribe => exact hnoted.keep (registerCommand_other (by simp) _ _ _ _) rfl
  | monitor => exact hnoted.keep (registerCommand_other (by simp) _ _ _ _) rfl
  | ordinary => exact hnoted.keep (registerCommand_other (by simp) _ _ _ _) rfl

/-- The teardown leaves no entries. -/
theorem Forgotten.destroyAll {id : Nat} (hcounts : w.Counts) (h : w.Forgotten id) :
    w.destroyAll.Forgotten id := by
  refine ⟨Nat.lt_of_lt_of_le h.old w.destroyAll_touches.next, ?_⟩
  rw [treeEntries, (destroyAll_spec hcounts).2]
  exact List.not_mem_nil

end World

/-- A record that is forgotten stays forgotten. -/
theorem step_forgotten {w w' : World} {e : Event} {id : Nat} (hstep : w.step e = some w')
    (hcounts : w.Counts) (h : w.Forgotten id) : w'.Forgotten id := by
  cases step_ownership hstep with
  | quiet ht hks => exact h.keep ht (all_not_mem_mono (by simp) hks)
  | @command args env argv timers hfault hcollect =>
    rw [luaClientCommand_eq hcollect]
    exact (h.entered _ _ _ _).keep (sendCommand_touches _ _ _ _ _ _) rfl
  | teardown ht heq =>
    subst heq
    have hdestroyed := (h.keep ht rfl).destroyAll (hcounts.keep ht rfl)
    exact (Forgotten.update _ (.log .teardown) (by simp) hdestroyed).keep
      (callHandler_touches _ _ _ _) rfl
  | exit ht _ ht' => exact ((h.keep ht rfl).destroyAll (hcounts.keep ht rfl)).keep ht' rfl

theorem run_forgotten {w w' : World} {id : Nat} (hcounts : w.Counts) (h : w.Forgotten id)
    (hrun : Transition.Reachable World.step w w') : w'.Forgotten id :=
  (hrun.invariant (I := fun w => w.Counts ∧ w.Forgotten id)
    (fun _ _ _ hw hst => ⟨step_counts hst hw.1, step_forgotten hst hw.1 hw.2⟩) ⟨hcounts, h⟩).2

/-! ## The result -/

/-- **Failed subscriptions.**  A subscription that fails leaves no trace, if and only if it
    names nothing and has no interval that is new. -/
theorem failedSubscription {w w' : World} {args : List LuaArg} {env : SendEnv}
    {argv timers : List Bytes} {p : Bool} {error : LuaValue} (hreach : Reachable w)
    (hstep : w.step (.api (.command args env)) = some w')
    (hcollect : collect args = .ok argv timers) (hkind : classify (argv.headD []) = .subscribe p)
    (hfail : SendFails w.sending true env error) :
    LeavesNoTrace w w' ↔
      argv.tail = [] ∧ ∀ key ∈ timers, searchTimer (timerKey key) w.cc.timers ≠ none := by
  have hcounts := reachable_counts hreach
  have hcounts' := step_counts hstep hcounts
  have hnew : .heap w.heap.next ∉ w.treeEntries := fun hmem =>
    Counted.not_mem_next hcounts (List.mem_append_right _ hmem)
  obtain ⟨hfault, hs⟩ := step_cases hstep
  cases hs
  obtain ⟨w₁, ht, heq⟩ := luaClientCommand_fails hcollect hfault (by rw [hkind]; exact hfail)
  change LeavesNoTrace w (w.luaClientCommand args env) ↔ _
  rw [show World.api w (.command args env) = _ from heq] at hcounts'
  rw [heq]
  have hsend : Touches (writeParts ++ failParts) (w.entered argv timers (callbackOf args) env.flags)
      (w₁.failSend error) :=
    (ht.mono (List.subset_append_left _ _)).trans
      ((w₁.failSend_touches error).mono (List.subset_append_right _ _))
  have htrees := hsend.trees rfl
  simp only [Prod.mk.injEq] at htrees
  obtain ⟨hchannels, hpatterns, htimers⟩ := htrees
  constructor
  · intro h
    -- what has been entered stays in the trees, whatever becomes of the frame
    by_contra hsome
    have hin : .heap w.heap.next ∈ (w.entered argv timers (callbackOf args) env.flags).treeEntries := by
      unfold entered
      rw [hkind]
      exact registerCommand_entries (w := w.noted _ argv timers (callbackOf args)) hsome p _ _
    rw [World.treeEntries, ← hchannels, ← hpatterns, ← htimers] at hin
    exact hnew (h.treeEntries ▸ hin)
  · intro hnothing
    have hcc : (w.entered argv timers (callbackOf args) env.flags).cc = w.cc := by
      unfold entered
      rw [hkind]
      exact registerCommand_cc (w := w.noted _ argv timers (callbackOf args)) hnothing p _ _
    rw [hcc] at hchannels hpatterns htimers
    refine ⟨hchannels, hpatterns, htimers, fun w'' hlater => ?_⟩
    -- nothing was entered, and later commands have records of their own
    have hforgotten : (w₁.failSend error).Forgotten w.heap.next := by
      refine ⟨Nat.lt_of_lt_of_le ?_ hsend.next, ?_⟩
      · unfold entered
        rw [hkind]
        exact registerCommand_subscribe_next (w.noted (.subscribe p) argv timers (callbackOf args))
          p _ _ _ _
      · rw [World.treeEntries, hchannels, hpatterns, htimers]
        exact hnew
    exact (run_forgotten hcounts' hforgotten hlater).absent

/-- A timer subscription that comes too early. -/
def timed : Event := .api (.command [.string (ascii "subscribe"), .string (ascii "__timer@0__:100"),
  .function 1] ⟨0, false⟩)

/-- The first one leaves its node behind; the second one finds it and leaves nothing. -/
theorem failedSubscription_again :
    ∃ w w', runs (World.new true) [timed] = some w ∧ w.step timed = some w' ∧
      LeavesNoTrace w w' := by
  have hrun : (runs (World.new true) [timed]).map
      (fun w => (w.sending.connected, searchTimer 100 w.cc.timers)) = some (false, some []) := by rfl
  obtain ⟨w, hw, hstate⟩ := Option.map_eq_some_iff.mp hrun
  have hagain : ((runs (World.new true) [timed]).bind fun w => w.step timed).isSome = true := by rfl
  rw [hw, Option.bind_some] at hagain
  obtain ⟨w', hw'⟩ := Option.isSome_iff_exists.mp hagain
  simp only [Prod.mk.injEq] at hstate
  refine ⟨w, w', hw, hw', (failedSubscription ⟨true, _, hw⟩ hw'
    (show collect _ = .ok [ascii "subscribe"] [ascii "__timer@0__:100"] from rfl)
    (show classify _ = .subscribe false from rfl) (.notConnected hstate.1)).mpr ⟨rfl, ?_⟩⟩
  rintro key hkey
  obtain rfl := List.mem_singleton.mp hkey
  rw [show timerKey (ascii "__timer@0__:100") = 100 from rfl, hstate.2]
  exact Option.some_ne_none _

/-- A subscription to `a` by the function 1 that comes too early. -/
def early : Event :=
  .api (.command [.string (ascii "subscribe"), .string (ascii "a"), .function 1] ⟨0, false⟩)

/-- Then connect and subscribe the function 2 to `a`; the server confirms it. -/
def subscribedAgain : List Event :=
  [.api .connect, .connected 0 0, .connected 0 0,
   .api (.command [.string (ascii "subscribe"), .string (ascii "a"), .function 2] ⟨0, false⟩),
   .written 0 0 0, .read 1 (ascii "*3\r\n$9\r\nsubscribe\r\n$1\r\na\r\n:1\r\n") .noref, .resume]

/-- The failed subscription takes the confirmation of the other one. -/
theorem failedSubscription_fails :
    ∃ w w' w'', Reachable w ∧ w.step early = some w' ∧
      SendFails w.sending true ⟨0, false⟩ notConnected ∧ ¬LeavesNoTrace w w' ∧
      runs w' subscribedAgain = some w'' ∧
      (calls w''.trace).map (fun c => (c.1, c.2.1)) = [(.confirmation, 1)] := by
  have hfirst : ((World.new false).step early).map (fun w => search (ascii "a") w.cc.channels) =
      some (some []) := by rfl
  obtain ⟨w', hw', hsearch⟩ := Option.map_eq_some_iff.mp hfirst
  have hrest : (((World.new false).step early).bind (runs · subscribedAgain)).map
      (fun w => (calls w.trace).map fun c => (c.1, c.2.1)) = some [(.confirmation, 1)] := by
    decide +kernel
  rw [hw', Option.bind_some] at hrest
  obtain ⟨w'', hw'', hcalls⟩ := Option.map_eq_some_iff.mp hrest
  refine ⟨World.new false, w', w'', ⟨false, [], rfl⟩, hw', .notConnected rfl, ?_, hw'', hcalls⟩
  intro h
  rw [h.channels] at hsearch
  cases hsearch

end CrazySnail
