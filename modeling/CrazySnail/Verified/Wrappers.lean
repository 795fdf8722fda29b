import CrazySnail.Verified.Subscribing
import CrazySnail.Verified.RefCounting

/-! # The wrappers of a client

In every state of a client the records count the wrappers on its list and in its three
trees (`reachable_counted`).  Wrappers come with a command and go with a reply, an error
or the teardown, so every step is one of four kinds (`Ownership`).
-/

namespace CrazySnail

open SearchTree (Tree Path)
open World

/-! ## Kinds of steps -/

/-- The parts that make or destroy wrappers.  (`shift` takes one off the list.) -/
@[simp] def wrapperParts : List Part := [.attach, .detach, .append, .clearList, .names, .timerTree]

/-- The parts of commands and teardowns: wrappers, slots and what the trace says of them. -/
@[simp] def ownershipParts : List Part :=
  wrapperParts ++ [.addChannel, .obs .command, .obs .teardown]

/-- What happens before the trees are destroyed. -/
@[simp] def beforeTeardown : List Part :=
  [.obs .closed, .stream .free, .obs .freed, .streamFlags, .raise .freeing]

@[simp] def beforeExit : List Part :=
  [.obs .uvClose, .fault, .stream .close, .unref, .streamFlags, .exited]

@[simp] def afterExit : List Part := [.fault, .stream .free, .obs .freed]

/-- What a step does to the list and the trees. -/
inductive Ownership (w : World) : Event → World → Prop
  | quiet {e : Event} {w' : World} {ks : List Part} : Touches ks w w' →
      ks.all (fun k => decide (k ∉ ownershipParts)) = true → Ownership w e w'
  | command {args : List LuaArg} {env : SendEnv} {argv timers : List Bytes} :
      w.fault = none → collect args = .ok argv timers →
      Ownership w (.api (.command args env)) (w.luaClientCommand args env)
  | teardown {h : Handle} {w₁ w' : World} : Touches beforeTeardown w w₁ →
      w' = (w₁.destroyAll.log .teardown).callHandler .disconnect w.cc.rDisconnectCb [] →
      Ownership w (.closed h) w'
  | exit {w₁ w' : World} : Touches beforeExit w w₁ → w₁.cc.exited = true →
      Touches afterExit w₁.destroyAll w' → Ownership w (.api .exit) w'

namespace World
variable {w : World}

theorem destroyAll_handlers (w : World) : w.destroyAll.cc.rDisconnectCb = w.cc.rDisconnectCb :=
  w.destroyAll_touches.eq (f := fun w => w.cc.rDisconnectCb) fun w u hu => by
    cases u with
    | names p t => cases p <;> rfl
    | handlers c e d => simp at hu
    | _ => rfl

theorem teardown_eq (w : World) :
    w.teardown = ((Update.apply w (.raise .freeing)).destroyAll.log .teardown).callHandler
      .disconnect w.cc.rDisconnectCb [] := by
  have hhandler := destroyAll_handlers (Update.apply w (.raise .freeing))
  exact congrArg (World.callHandler _ .disconnect · []) hhandler

/-- The close callback of a handle destroys the trees, or leaves the lists alone. -/
theorem onDisconnect_cases (w : World) (h : Handle) :
    Touches (.fault :: beforeTeardown) w ((w.log (.closed h)).onDisconnect h) ∨
      ∃ w₁, Touches beforeTeardown w w₁ ∧ (w.log (.closed h)).onDisconnect h =
        (w₁.destroyAll.log .teardown).callHandler .disconnect w.cc.rDisconnectCb [] := by
  have hfree : Touches beforeTeardown w ((w.log (.closed h)).freeStream h) :=
    .of [.log (.closed h), .stream .free h, .log (.freed h)] rfl rfl
  have hquiet : ∀ {w' : World}, Touches beforeTeardown w w' →
      Touches (.fault :: beforeTeardown) w w' := fun ht => ht.mono (by simp)
  unfold onDisconnect
  dsimp only
  split
  · exact .inl ((hquiet hfree).step (.crash .deadStream) (by simp))
  · generalize (if ((w.log (.closed h)).freeStream h).cc.streamFlags.stream then _ else _) = sf
    have hsf := hfree.step (.streamFlags sf) (by simp)
    split
    · exact .inr ⟨_, hsf.step (.raise .freeing) (by simp), teardown_eq _⟩
    · exact .inl (hquiet hsf)

theorem onDisconnect_ownership (h : Handle) :
    Ownership w (.closed h) ((w.log (.closed h)).onDisconnect h) := by
  obtain ht | ⟨w₁, ht, heq⟩ := onDisconnect_cases w h
  · exact .quiet ht rfl
  · exact .teardown ht heq

/-- `exit` stops at a handle it cannot close, or destroys the trees. -/
theorem luaClientExit_cases (w : World) :
    Touches beforeExit w w.luaClientExit ∨
      (w.uvClose w.cc.stream).fault.isSome = false ∧
        ((w.uvClose w.cc.stream).uvClose (w.uvClose w.cc.stream).cc.subStream).fault.isSome =
          false ∧
        ∃ w₁, Touches beforeExit w w₁ ∧ w₁.cc.exited = true ∧
          Touches afterExit w₁.destroyAll w.luaClientExit := by
  have hclose : ∀ (w : World) h, Touches beforeExit w (w.uvClose h) :=
    fun w h => (w.uvClose_touches h).mono (by simp)
  have hfree : ∀ (w : World) h, Touches afterExit w (w.exitStream h) := fun w h =>
    w.onStream_touches h _ (by simp) fun h _ => (w.freeStream_touches h).mono (by simp)
  unfold luaClientExit
  dsimp only
  split
  · exact .inl (hclose _ _)
  next hfirst =>
    have hboth := (hclose w w.cc.stream).trans (hclose _ (w.uvClose w.cc.stream).cc.subStream)
    split
    · exact .inl hboth
    next hsecond =>
      refine .inr ⟨by simpa using hfirst, by simpa using hsecond, _, ?_, ?_,
        (hfree _ _).trans (hfree _ _)⟩
      · exact ((((hboth.step (.unref _) (by simp)).step (.unref _) (by simp)).step (.unref _)
          (by simp)).step (.streamFlags .none) (by simp)).step .exited (by simp)
      · rfl

theorem luaClientExit_ownership : Ownership w (.api .exit) w.luaClientExit := by
  obtain ht | ⟨-, -, w₁, ht, hexit, ht'⟩ := luaClientExit_cases w
  · exact .quiet ht rfl
  · exact .exit ht hexit ht'

end World

/-- **Every step is of one of the kinds.** -/
theorem step_ownership {w w' : World} {e : Event} (hstep : w.step e = some w') :
    Ownership w e w' := by
  have htouches := step_touches hstep
  obtain ⟨hfault, hs⟩ := step_cases hstep
  cases hs with
  | api c _ =>
    cases c with
    | command args env =>
      change Ownership w _ (w.luaClientCommand args env)
      cases hcollect : collect args with
      | raise | fault => exact .quiet (w.luaClientCommand_refused env (by simp [hcollect])) rfl
      | ok argv timers => exact .command hfault hcollect
    | exit => exact luaClientExit_ownership
    | on event fn => exact .quiet htouches rfl
    | connect => exact .quiet htouches rfl
    | disconnect => exact .quiet htouches rfl
  | closed => exact onDisconnect_ownership _
  | @resume f rest hstack _ =>
    rw [hstack] at htouches
    exact .quiet htouches (by cases f <;> rfl)
  | _ => exact .quiet htouches rfl

/-! ## The count -/

namespace World

/-- All wrappers: those of the command list, the name trees and the timer tree. -/
def wrappers (w : World) : List CbPtr :=
  w.cc.commandCbList ++ (CrazySnail.wrappers w.cc.channels ++
    (CrazySnail.wrappers w.cc.patterns ++ CrazySnail.wrappers w.cc.timers))

/-- The records count the wrappers. -/
def Counts (w : World) : Prop := Counted w.heap w.wrappers

end World

namespace Counted
variable {h : Heap} {ws : List CbPtr}

/-- The address of a local variable is no record. -/
theorem stack_iff : Counted h (.stack :: ws) ↔ Counted h ws := by
  have hcount : ∀ id, (CbPtr.stack :: ws).count (.heap id) = ws.count (.heap id) := fun id =>
    List.count_cons_of_ne (by simp)
  exact ⟨fun hc => ⟨fun id c hid => (hc.attach id c hid).trans (hcount id),
      fun id hid => hc.alive id (List.mem_cons_of_mem _ hid), hc.fresh⟩,
    fun hc => ⟨fun id c hid => (hc.attach id c hid).trans (hcount id).symm,
      fun id hid => hc.alive id (by simpa using hid), hc.fresh⟩⟩

/-- A wrapper is destroyed; one that leads nowhere changes nothing. -/
theorem detach {p : CbPtr} (hc : Counted h (p :: ws)) :
    Counted ((CrazySnail.destroyWrapper h p).getD h) ws := by
  cases p with
  | stack => exact stack_iff.mp hc
  | heap id =>
    obtain ⟨c, -, -, hdestroy, hcounted⟩ := hc.destroy
    rw [hdestroy]
    exact hcounted

end Counted

namespace World
variable {w : World}

/-- The timer of a node is no wrapper. -/
theorem wrappers_timerData (t : NodeT UInt64) (leaf : Path) (b : Block) :
    CrazySnail.wrappers (t.modify (fun v => { v with data := some b }) leaf) =
      CrazySnail.wrappers t := by
  induction t generalizing leaf with
  | null => cases leaf <;> rfl
  | node key val l r ihl ihr =>
    rcases leaf with _ | ⟨_ | _, leaf⟩ <;> simp [Tree.modify, ihl, ihr]

/-- A change elsewhere, or of what the count does not look at. -/
theorem Counts.update (w : World) (u : Update) (hu : u.part ∉ wrapperParts) (h : w.Counts) :
    (u.apply w).Counts := by
  cases u with
  | create r flags => exact Counted.create h r flags
  | addChannel id ch => exact Counted.update h id fun _ => rfl
  | slots id chs all => exact Counted.update h id fun _ => rfl
  | shift =>
    -- the wrapper of the first entry is destroyed with the entry
    unfold Counts wrappers at h ⊢
    cases hlist : w.cc.commandCbList with
    | nil => simpa [Update.apply, shift, hlist] using h
    | cons p list =>
      rw [hlist, List.cons_append] at h
      simpa [Update.apply, shift, hlist] using h.detach
  | appendStack =>
    refine (Counted.stack_iff.mpr h).perm ?_
    simp only [wrappers, Update.apply, List.append_assoc, List.singleton_append]
    exact List.perm_middle.symm
  | timerData leaf b =>
    unfold Counts wrappers at h ⊢
    simpa only [Update.apply, wrappers_timerData] using h
  | names p t => simp at hu
  | attach | detach | append | clearList | timerTree => simp at hu
  | _ => exact h

theorem Counts.keep {ks : List Part} {w' : World} (h : w.Counts) (ht : Touches ks w w')
    (hks : ks.all (fun k => decide (k ∉ wrapperParts)) = true) : w'.Counts :=
  ht.keeps (fun w u hu => Counts.update w u hu) hks h

/-! ### Commands -/

/-- A push of a record that is alive, on a list or a tree. -/
theorem Counts.attach (h : w.Counts) {id : Nat} (hid : w.heap.cb id ≠ none) {w' : World}
    (hheap : w'.heap = w.heap)
    (hperm : (CbPtr.heap id :: w.wrappers).Perm w'.wrappers) : (w'.attach id).Counts := by
  have hpush := (Counted.push h hid).perm hperm
  unfold Counts
  simpa [World.attach, hheap, wrappers] using hpush

/-- A record that is alive stays alive where nothing is destroyed. -/
theorem alive_update {id i : Nat} {h : Heap} {f : Callback → Callback} (hid : h.cb id ≠ none) :
    (h.update i f).cb id ≠ none := by
  by_cases heq : id = i
  · subst heq
    simpa [Heap.update, Heap.set] using hid
  · simpa [Heap.update, Heap.set, heq] using hid

/-- One more wrapper in a name tree is one more wrapper. -/
theorem wrappers_setNames (w : World) (p : Bool) {t : NodeT Bytes} {ptr : CbPtr}
    (h : (CrazySnail.wrappers t).Perm (ptr :: CrazySnail.wrappers (w.names p))) :
    (ptr :: w.wrappers).Perm (w.setNames p t).wrappers := by
  refine List.perm_iff_count.mpr fun a => ?_
  have hcount := h.count_eq a
  rw [List.count_cons] at hcount ⊢
  cases p <;> simp only [names, setNames, wrappers, List.count_append, if_true, if_false,
    Bool.false_eq_true] at hcount ⊢ <;> omega

/-- One more wrapper in the timer tree is one more wrapper. -/
theorem wrappers_setTimers (w : World) {t : NodeT UInt64} {ptr : CbPtr}
    (h : (CrazySnail.wrappers t).Perm (ptr :: CrazySnail.wrappers w.cc.timers)) :
    (ptr :: w.wrappers).Perm { w with cc.timers := t }.wrappers := by
  refine List.perm_iff_count.mpr fun a => ?_
  have hcount := h.count_eq a
  rw [List.count_cons] at hcount ⊢
  simp only [wrappers, List.count_append] at hcount ⊢
  omega

/-- A key that has been inserted has a node. -/
theorem insert_get? {κ : Type} {cmp : κ → κ → Ordering} (hc : SearchTree.Lawful cmp) (t : NodeT κ)
    (k : κ) : ∃ kv, (t.insert cmp k .fresh).1.get? (t.insert cmp k .fresh).2 = some kv := by
  obtain ⟨key, val, hget, -⟩ := Tree.exists_get?_of_lookup (Tree.lookup_insert_self hc t k .fresh)
  exact ⟨_, hget⟩

/-- Entering a name adds one wrapper to its tree. -/
theorem wrappers_namesWith (t : NodeT Bytes) (cb : Nat) (name : Bytes) :
    (CrazySnail.wrappers (namesWith t cb name)).Perm (.heap cb :: CrazySnail.wrappers t) := by
  obtain ⟨kv, hkv⟩ := insert_get? nameCmp_lawful t (strdup name)
  have hpush := wrappers_push hkv (.heap cb)
  rwa [wrappers_insert] at hpush

theorem subscribeName_counts {cb : Nat} (p : Bool) (w : World) (name : Bytes)
    (h : w.Counts ∧ w.heap.cb cb ≠ none) :
    (subscribeName p cb w name).Counts ∧ (subscribeName p cb w name).heap.cb cb ≠ none := by
  obtain ⟨h, hcb⟩ := h
  have hadd : (w.addChannel cb (createChannel name)).Counts :=
    Counts.update w (.addChannel cb _) (by simp) h
  have halive : (w.addChannel cb (createChannel name)).heap.cb cb ≠ none := alive_update hcb
  rw [subscribeName_eq]
  refine ⟨hadd.attach halive (by cases p <;> rfl) ?_, alive_update (by cases p <;> exact halive)⟩
  exact wrappers_setNames (w.addChannel cb (createChannel name)) p (wrappers_namesWith _ cb name)

theorem subscribeTimer_counts {cb : Nat} (w : World) (key : Bytes)
    (h : w.Counts ∧ w.heap.cb cb ≠ none) :
    (subscribeTimer cb w key).Counts ∧ (subscribeTimer cb w key).heap.cb cb ≠ none := by
  obtain ⟨h, hcb⟩ := h
  have hadd : (w.addChannel cb (createTimerChannel (timerKey key))).Counts :=
    Counts.update w (.addChannel cb _) (by simp) h
  have halive : (w.addChannel cb (createTimerChannel (timerKey key))).heap.cb cb ≠ none :=
    alive_update hcb
  cases hleaf : w.cc.timers.lookup timerCmp (timerKey key) with
  | none =>
    obtain ⟨kv, hkv⟩ := insert_get? timerCmp_lawful w.cc.timers (timerKey key)
    have hpush := wrappers_push hkv (.heap cb)
    rw [wrappers_insert] at hpush
    rw [subscribeTimer_new hleaf]
    exact ⟨hadd.attach halive rfl (wrappers_setTimers (w.addChannel cb _) hpush),
      alive_update halive⟩
  | some leaf =>
    rw [subscribeTimer_known hleaf]
    exact ⟨hadd, halive⟩

theorem refCallback_wrappers (w : World) (fn : Option Fn) :
    (w.refCallback fn).2.wrappers = w.wrappers := by
  cases fn <;> rfl

theorem registerCommand_counts (h : w.Counts) (kind : Kind) (names timers : List Bytes)
    (fn : Option Fn) (flags : Bool) :
    (w.registerCommand kind names timers fn flags).Counts := by
  have href : (w.refCallback fn).2.Counts := by
    unfold Counts
    rw [refCallback_heap, refCallback_wrappers]
    exact h
  have hnext : (w.refCallback fn).2.heap.next = w.heap.next :=
    congrArg Heap.next (w.refCallback_heap fn)
  have hnew : ∀ w' : World, w'.Counts → w'.heap.next = w.heap.next → ∀ ref,
      (w'.newCallback ref flags).Counts ∧ (w'.newCallback ref flags).heap.cb w.heap.next ≠ none := by
    intro w' hw' hnext' ref
    exact ⟨Counts.update w' (.create ref flags) (by simp) hw',
      by simp [newCallback, createCallback, hnext']⟩
  -- an entry of the command list is one more wrapper
  have hpush : ∀ w' : World, w'.Counts → w'.heap.cb w.heap.next ≠ none →
      ({ w' with cc.commandCbList := w'.cc.commandCbList ++ [CbPtr.heap w.heap.next] }.attach
        w.heap.next).Counts := by
    intro w' hw' halive
    refine hw'.attach halive rfl ?_
    simp only [wrappers, List.append_assoc, List.singleton_append]
    exact List.perm_middle.symm
  unfold registerCommand
  generalize hr : w.refCallback fn = r at href hnext ⊢
  obtain ⟨ref, w₁⟩ := r
  cases kind with
  | subscribe p =>
    have hnew₁ := hnew w₁ href hnext ref
    exact (subscribe_keeps (I := fun w' => w'.Counts ∧ w'.heap.cb w.heap.next ≠ none)
      (subscribeName_counts p) subscribeTimer_counts names timers hnew₁).1
  | unsubscribe => exact href
  | monitor =>
    have hnew₁ := hnew _ (Counts.update w₁ (.raise .monitoring) (by simp) href) hnext ref
    exact hpush _ hnew₁.1 hnew₁.2
  | ordinary =>
    have hnew₁ := hnew w₁ href hnext ref
    exact hpush _ hnew₁.1 hnew₁.2

theorem entered_counts (h : w.Counts) (argv timers : List Bytes) (fn : Option Fn) (flags : Bool) :
    (w.entered argv timers fn flags).Counts :=
  registerCommand_counts (w := w.noted _ argv timers fn) h _ _ _ _ _

/-! ### Teardown -/

theorem destroyWrapper_heap (w : World) (p : CbPtr) :
    (w.destroyWrapper p).heap = (CrazySnail.destroyWrapper w.heap p).getD w.heap := by
  unfold destroyWrapper
  split
  next h => rw [h, Option.getD_some]
  next h => rw [h, Option.getD_none]; rfl

theorem destroyList_counted {list ws : List CbPtr} (h : Counted w.heap (list ++ ws)) :
    Counted (w.destroyList list).heap ws := by
  unfold destroyList
  induction list generalizing w with
  | nil => exact h
  | cons p list ih =>
    rw [List.foldl_cons]
    refine ih ?_
    rw [destroyWrapper_heap]
    exact h.detach

theorem destroyTree_counted {κ : Type} {root : NodeT κ} {ws : List CbPtr}
    (h : Counted w.heap (CrazySnail.wrappers root ++ ws)) :
    Counted (w.destroyTree root).heap ws := by
  unfold destroyTree
  unfold CrazySnail.wrappers at h
  generalize postorder root = vs at h ⊢
  induction vs generalizing w with
  | nil => exact h
  | cons v vs ih =>
    rw [List.foldl_cons]
    refine ih ?_
    rw [List.flatMap_cons, List.append_assoc] at h
    unfold destroyNode
    cases v.data with
    | none => exact destroyList_counted h
    | some b => exact destroyList_counted (w := { w with uv := w.uv.stopTimer b }) h

/-- The destruction of a tree leaves the client alone. -/
theorem destroyTree_cc {κ : Type} (w : World) (root : NodeT κ) : (w.destroyTree root).cc = w.cc :=
  (w.destroyTree_touches root).eq (f := World.cc) fun w u hu => by
    cases u <;> simp at hu <;> rfl

theorem destroyList_cc (w : World) (list : CallbackEnds) : (w.destroyList list).cc = w.cc :=
  (w.destroyList_touches list).eq (f := World.cc) fun w u hu => by
    cases u <;> simp at hu <;> rfl

/-- The nodes of the three trees. -/
def nodes (w : World) : List NodeVal :=
  postorder w.cc.channels ++ postorder w.cc.patterns ++ postorder w.cc.timers

/-- **Rule** for the destruction of the trees: what is said of the nodes that are left, without
    a look at the client itself, holds of none in the end. -/
theorem destroyAll_rule {I : List NodeVal → World → Prop}
    (hcc : ∀ vs w cc, I vs w → I vs { w with cc })
    (hnode : ∀ v vs w, I (v :: vs) w → I vs (w.destroyNode v))
    (hlist : ∀ w list, I [] w → I [] (w.destroyList list)) (h : I w.nodes w) : I [] w.destroyAll := by
  have htree : ∀ {κ : Type} (t : NodeT κ) vs w, I (postorder t ++ vs) w → I vs (w.destroyTree t) := by
    intro κ t vs w h
    unfold destroyTree
    generalize postorder t = us at h ⊢
    induction us generalizing w with
    | nil => exact h
    | cons v us ih => exact ih _ (hnode v _ _ h)
  have hstart : I (postorder w.cc.channels ++ (postorder w.cc.patterns ++
      (postorder w.cc.timers ++ []))) w := by
    rw [List.append_nil, ← List.append_assoc]
    exact h
  have hchannels := htree w.cc.channels _ w hstart
  unfold destroyAll
  generalize hw₁ : w.destroyTree w.cc.channels = w₁ at hchannels ⊢
  have hcc₁ : w₁.cc = w.cc := hw₁ ▸ destroyTree_cc w _
  dsimp only
  rw [hcc₁]
  have hpatterns := htree w.cc.patterns _ _ (hcc _ w₁ { w.cc with channels := .null } hchannels)
  generalize hw₂ : { w₁ with cc := { w.cc with channels := .null } }.destroyTree w.cc.patterns = w₂
    at hpatterns ⊢
  have hcc₂ : w₂.cc = { w.cc with channels := .null } := hw₂ ▸ destroyTree_cc _ _
  rw [hcc₂]
  dsimp only
  have htimers := htree w.cc.timers _ _
    (hcc _ w₂ { w.cc with channels := .null, patterns := .null } hpatterns)
  generalize { w₂ with cc := { w.cc with channels := .null, patterns := .null } }.destroyTree
    w.cc.timers = w₃ at htimers ⊢
  exact hcc _ _ _ (hlist _ _ (hcc _ w₃ { w₃.cc with timers := .null } htimers))

/-- Nothing is left, neither wrappers nor trees. -/
theorem destroyAll_spec (h : w.Counts) :
    w.destroyAll.Counts ∧ w.destroyAll.cc =
      { w.cc with channels := .null, patterns := .null, timers := .null, commandCbList := [] } := by
  have hchannels : Counted (w.destroyTree w.cc.channels).heap
      (CrazySnail.wrappers w.cc.patterns ++
        (CrazySnail.wrappers w.cc.timers ++ w.cc.commandCbList)) := by
    refine destroyTree_counted (Counted.perm h ?_)
    simp only [wrappers]
    refine List.perm_append_comm.trans ?_
    simp only [List.append_assoc]
    exact List.Perm.refl _
  unfold destroyAll
  generalize hw₁ : w.destroyTree w.cc.channels = w₁ at hchannels ⊢
  have hcc₁ : w₁.cc = w.cc := hw₁ ▸ destroyTree_cc w _
  dsimp only
  rw [hcc₁]
  have hpatterns : Counted ({ w₁ with cc := { w.cc with channels := .null } }.destroyTree
      w.cc.patterns).heap (CrazySnail.wrappers w.cc.timers ++ w.cc.commandCbList) :=
    destroyTree_counted hchannels
  generalize hw₂ : { w₁ with cc := { w.cc with channels := .null } }.destroyTree w.cc.patterns = w₂
    at hpatterns ⊢
  have hcc₂ : w₂.cc = { w.cc with channels := .null } := hw₂ ▸ destroyTree_cc _ _
  rw [hcc₂]
  dsimp only
  have htimers : Counted ({ w₂ with cc := { w.cc with channels := .null, patterns := .null } }.destroyTree
      w.cc.timers).heap (w.cc.commandCbList ++ []) := by
    rw [List.append_nil]
    exact destroyTree_counted hpatterns
  generalize hw₃ : { w₂ with cc := { w.cc with channels := .null, patterns := .null } }.destroyTree
    w.cc.timers = w₃ at htimers ⊢
  have hcc₃ : w₃.cc = { w.cc with channels := .null, patterns := .null } := hw₃ ▸ destroyTree_cc _ _
  rw [hcc₃]
  dsimp only
  have hlist := destroyList_counted (w := { w₃ with cc :=
    { w.cc with channels := .null, patterns := .null, timers := .null } }) htimers
  have hcc := destroyList_cc { w₃ with cc :=
    { w.cc with channels := .null, patterns := .null, timers := .null } } w.cc.commandCbList
  refine ⟨?_, by rw [hcc]⟩
  unfold Counts wrappers
  simpa [hcc] using hlist

end World

/-- **The records count the wrappers in every step.** -/
theorem step_counts {w w' : World} {e : Event} (hstep : w.step e = some w') (h : w.Counts) :
    w'.Counts := by
  cases step_ownership hstep with
  | quiet ht hks => exact h.keep ht (all_not_mem_mono (List.subset_append_left _ _) hks)
  | @command args env argv timers hfault hcollect =>
    rw [luaClientCommand_eq hcollect]
    exact (entered_counts h _ _ _ _).keep (sendCommand_touches _ _ _ _ _ _) rfl
  | teardown ht heq =>
    subst heq
    have hlog := Counts.update _ (.log .teardown) (by simp) (destroyAll_spec (h.keep ht rfl)).1
    exact hlog.keep (callHandler_touches _ _ _ _) rfl
  | exit ht _ ht' => exact ((destroyAll_spec (h.keep ht rfl)).1).keep ht' rfl

/-- **Reference counting in a client.** -/
theorem reachable_counts {w : World} (h : Reachable w) : w.Counts := by
  obtain ⟨ignore, hreach⟩ := h
  exact hreach.invariant (I := World.Counts) (fun _ _ _ hw hst => step_counts hst hw)
    ⟨fun _ _ h => (Option.some_ne_none _ h.symm).elim, fun _ h => absurd h List.not_mem_nil,
      fun _ _ => rfl⟩

end CrazySnail
