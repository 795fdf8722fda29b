import CrazySnail.CallbackLists
import CrazySnail.Verified.RefCounting

/-! # The callback lists are queues

`Linked s q` says that the memory holds the lists `q`.  Every call keeps it
(`Linked.step`), and on the way does to the lists what the list functions of `Cb` do
(`run_refines`): a wrapper in memory is an entry of the list.  The records count the
wrappers of all lists, which is why `destroy_wrapper` never meets a record that is gone.
-/

namespace CrazySnail

open LinkedQueue

/-- The wrappers on each list, oldest first, and what they hold. -/
abbrev Pending := Nat → List (Addr × CbPtr)

namespace Pending

/-- What a call should do to the lists. -/
def after (q : Pending) : ListOp → Pending
  | .push list (some a) cb => Function.update q list (q list ++ [(a, cb)])
  | .shift list _ => Function.update q list (q list).tail
  | .destroy list => Function.update q list []
  | _ => q

/-- No wrapper is on two lists. -/
def Apart (q : Pending) : Prop :=
  ∀ i j, i ≠ j → ∀ a ∈ addresses (q i), a ∉ addresses (q j)

/-- The entries of the lists. -/
def entries (q : Pending) (list : Nat) : CallbackEnds := (q list).map Prod.snd

variable {q : Pending} {list : Nat} {cells : List (Addr × CbPtr)}

theorem Apart.update (h : q.Apart)
    (hcells : ∀ j, j ≠ list → ∀ a ∈ addresses cells, a ∉ addresses (q j)) :
    Apart (Function.update q list cells) := by
  intro i j hij a hi hj
  by_cases hil : i = list
  · subst hil
    rw [Function.update_self] at hi
    rw [Function.update_of_ne hij.symm] at hj
    exact hcells j hij.symm a hi hj
  · rw [Function.update_of_ne hil] at hi
    by_cases hjl : j = list
    · subst hjl
      rw [Function.update_self] at hj
      exact hcells i hij a hj hi
    · rw [Function.update_of_ne hjl] at hj
      exact h i j hij a hi hj

theorem entries_update : entries (Function.update q list cells) =
    Function.update q.entries list (cells.map Prod.snd) := by
  funext i
  simp only [entries, Function.update_apply]
  split <;> rfl

end Pending

/-- One list has changed. -/
theorem isQueue_update {m : Memory CbPtr} {ends : Nat → Ends} {e : Ends} {q : Pending} {list : Nat}
    {cells : List (Addr × CbPtr)} (hlist : IsQueue m e cells)
    (hother : ∀ i, i ≠ list → IsQueue m (ends i) (q i)) (i : Nat) :
    IsQueue m (Function.update ends list e i) (Function.update q list cells i) := by
  by_cases hi : i = list
  · subst hi
    rwa [Function.update_self, Function.update_self]
  · rw [Function.update_of_ne hi, Function.update_of_ne hi]
    exact hother i hi

/-- The wrappers on each list that the calls pushed and did not remove. -/
def pendingAfter (ops : List ListOp) : Pending := ops.foldl Pending.after fun _ => []

/-! ## The invariant -/

/-- The memory holds the lists `q`. -/
structure Linked (s : ListStore) (q : Pending) : Prop where
  queue : ∀ list, IsQueue s.wrappers (s.ends list) (q list)
  apart : q.Apart
  counted : Counted s.heap (contents s.wrappers)
  heapOnly : ∀ p ∈ contents s.wrappers, ∃ id, p = .heap id

theorem linked_start : Linked .start fun _ => [] where
  queue _ := .empty
  apart _ _ _ _ ha := absurd ha List.not_mem_nil
  counted := {
    attach := fun _ _ h => by cases h
    alive := fun _ h => absurd h List.not_mem_nil
    fresh := fun _ _ => rfl }
  heapOnly _ h := absurd h List.not_mem_nil

namespace Linked
variable {s s' : ListStore} {q : Pending} {list : Nat} {a : Addr} {p : CbPtr}
  {rest : List (Addr × CbPtr)}

/-- The lists stay when only records change. -/
theorem withHeap {heap : Heap} (h : Linked s q) (hcounted : Counted heap (contents s.wrappers)) :
    Linked { s with heap } q :=
  ⟨h.queue, h.apart, hcounted, h.heapOnly⟩

/-! ### `push_cb` -/

/-- All that `push_cb` of a new wrapper can fail at is the record. -/
theorem pushCb_eq (h : Linked s q) (ha : a ∉ s.wrappers) (list : Nat) (cb : CbPtr) :
    ∃ e m', (s.wrapCb (some a) cb).2.2.pushCb list a = ((ListStore.attach s.heap cb).map fun heap =>
        { s with wrappers := m', heap }.setEnds list e) ∧
      (∀ i, IsQueue m' ((s.setEnds list e).ends i)
        (Function.update q list (q list ++ [(a, cb)]) i)) ∧
      (contents m').Perm (cb :: contents s.wrappers) := by
  have hfresh : ∀ i, a ∉ addresses (q i) := fun i hi => ha ((h.queue i).chain.allocated a hi)
  -- the new wrapper lies apart from the lists
  have hold : ∀ i, IsQueue (s.wrappers.insert a ⟨cb, none⟩) (s.ends i) (q i) := fun i =>
    (h.queue i).frame fun b hb => AList.lookup_insert_ne fun heq => hfresh i (heq ▸ hb)
  obtain ⟨m', hlink, hqueue, hlookup, hperm, hframe⟩ :=
    (hold list).link (AList.lookup_insert _) (hfresh list)
  refine ⟨⟨if (s.ends list).head = none then some a else (s.ends list).head, some a⟩, m', ?_,
    isQueue_update hqueue fun i hi => ?_, ?_⟩
  · simp only [ListStore.wrapCb, ListStore.pushCb, hlink, hlookup, Option.bind_eq_bind,
      Option.bind_some]
    cases ListStore.attach s.heap cb <;> rfl
  · exact (hold i).frame fun b hb => hframe b (h.apart i list hi b hb)
  · rwa [contents_insert ha] at hperm

/-- **`push_cb`** of a new wrapper for a record that is alive. -/
theorem pushCb (h : Linked s q) (ha : a ∉ s.wrappers) {id : Nat} (hid : s.heap.cb id ≠ none)
    (list : Nat) :
    ∃ s', (s.wrapCb (some a) (.heap id)).2.2.pushCb list a = some s' ∧
      Linked s' (Function.update q list (q list ++ [(a, .heap id)])) ∧
      s'.heap = (CrazySnail.pushCb (q.entries list) s.heap (.heap id)).2 := by
  obtain ⟨e, m', hpush, hqueue, hperm⟩ := h.pushCb_eq ha list (.heap id)
  obtain ⟨c, hc⟩ := Option.ne_none_iff_exists'.mp hid
  refine ⟨_, by rw [hpush, ListStore.attach, hc]; rfl, ⟨hqueue, ?_, ?_, fun p hp => ?_⟩, rfl⟩
  · refine h.apart.update fun j hj b hb => ?_
    rw [addresses_append, List.mem_append] at hb
    obtain hb | hb := hb
    · exact h.apart list j hj.symm b hb
    · obtain rfl : b = a := List.mem_singleton.mp hb
      exact fun hmem => ha ((h.queue j).chain.allocated b hmem)
  · exact (h.counted.push hid).perm hperm.symm
  · obtain rfl | hp := List.mem_cons.mp (hperm.mem_iff.mp hp)
    · exact ⟨id, rfl⟩
    · exact h.heapOnly p hp

/-! ### Taking off the first wrapper -/

/-- What `shift_cb` and the loop of `destroy_list` do to a list that is not empty. -/
theorem unlink (h : Linked s q) (hlist : q list = (a, p) :: rest) :
    (s.ends list).head = some a ∧ ∃ next c heap, s.wrappers.lookup a = some ⟨p, next⟩ ∧
      s.heap.deref p = some c ∧ CrazySnail.destroyWrapper s.heap p = some heap ∧
      Linked
        ({ s with wrappers := s.wrappers.erase a, heap }.setEnds list
          ⟨next, if some a = (s.ends list).tail then none else (s.ends list).tail⟩)
        (Function.update q list rest) := by
  have hqueue := h.queue list
  rw [hlist] at hqueue
  obtain ⟨hhead, next, hcell, hrest⟩ := hqueue.unlink
  have hperm := contents_erase hcell
  obtain ⟨id, rfl⟩ := h.heapOnly p (hperm.mem_iff.mpr List.mem_cons_self)
  obtain ⟨c, hc, -, hdestroy, hcounted⟩ := (h.counted.perm hperm).destroy
  refine ⟨hhead, next, c, _, hcell, hc, hdestroy, isQueue_update hrest fun i hi => ?_, ?_, hcounted,
    fun p hp => ?_⟩
  · refine (h.queue i).frame fun b hb => AList.lookup_erase_ne fun heq => ?_
    -- the wrapper is on no other list
    refine h.apart i list hi b hb ?_
    rw [hlist, heq]
    exact List.mem_cons_self
  · refine h.apart.update fun j hj b hb => h.apart list j hj.symm b ?_
    rw [hlist]
    exact List.mem_cons_of_mem _ hb
  · exact h.heapOnly p (hperm.mem_iff.mpr (List.mem_cons_of_mem _ hp))

/-! ### `shift_cb` -/

theorem shiftCb_empty (h : Linked s q) (hlist : q list = []) (target : Option Callback) :
    s.shiftCb list target = some (SNAIL_ERR, target, s) := by
  have hhead := (h.queue list).head_eq_none_iff.mpr hlist
  simp [ListStore.shiftCb, hhead]

/-- **`shift_cb`** takes off the oldest wrapper and copies its record. -/
theorem shiftCb (h : Linked s q) (hlist : q list = (a, p) :: rest) (target : Option Callback) :
    ∃ c s', s.heap.deref p = some c ∧
      s.shiftCb list target = some (SNAIL_OK, target.map fun _ => c, s') ∧
      Linked s' (Function.update q list rest) ∧ s'.wrappers = s.wrappers.erase a ∧
      CrazySnail.shiftCb (q.entries list) s.heap = .ok (rest.map Prod.snd) c s'.heap := by
  obtain ⟨hhead, next, c, heap, hcell, hc, hdestroy, hlinked⟩ := h.unlink hlist
  refine ⟨c, _, hc, ?_, hlinked, rfl, ?_⟩
  · simp [ListStore.shiftCb, ListStore.destroyWrapper, hhead, hcell, hc, hdestroy]
    rfl
  · simp [CrazySnail.shiftCb, Pending.entries, hlist, hc, hdestroy]

/-! ### `destroy_list` -/

/-- The loop, in a store that would be in order if `head` led to `temp`. -/
theorem destroyLoop {cells : List (Addr × CbPtr)} {n : Nat} {e : Ends}
    (h : Linked (s.setEnds list e) (Function.update q list cells)) (hn : cells.length ≤ n) :
    ∃ s', ListStore.destroyLoop n s e.head = some s' ∧
      Linked (s'.setEnds list .empty) (Function.update q list []) ∧
      (cells.map Prod.snd).foldlM CrazySnail.destroyWrapper s.heap = some s'.heap := by
  have hself : Function.update q list cells list = cells := Function.update_self ..
  have hqueue := h.queue list
  rw [s.setEnds_ends, hself] at hqueue
  induction cells generalizing s n e with
  | nil =>
    have he : e = .empty := by
      have hhead := hqueue.head_eq_none_iff.mpr rfl
      have htail := hqueue.tail_eq_none_iff.mpr rfl
      cases e
      subst hhead htail
      rfl
    subst he
    refine ⟨s, ?_, h, rfl⟩
    cases n <;> rfl
  | cons c cells ih =>
    obtain ⟨n, rfl⟩ : ∃ k, n = k + 1 := Nat.exists_eq_succ_of_ne_zero fun hzero => by
      rw [hzero] at hn
      exact Nat.not_succ_le_zero _ hn
    obtain ⟨hhead, next, -, heap, hcell, -, hdestroy, hlinked⟩ := h.unlink (a := c.1) (p := c.2) hself
    rw [s.setEnds_ends] at hhead
    rw [s.setEnds_wrappers] at hcell
    rw [s.setEnds_heap] at hdestroy
    rw [Function.update_idem] at hlinked
    -- one round: the wrapper is freed, the pointers of the list are left as they were
    have hlinked' : Linked ({ s with wrappers := s.wrappers.erase c.1, heap }.setEnds list
        ⟨next, if some c.1 = e.tail then none else e.tail⟩) (Function.update q list cells) := by
      simpa [ListStore.setEnds] using hlinked
    have hqueue' := hlinked'.queue list
    rw [ListStore.setEnds_ends, Function.update_self] at hqueue'
    obtain ⟨s', hloop, hdone, hheap⟩ :=
      ih hlinked' (Nat.le_of_succ_le_succ hn) (Function.update_self ..) hqueue'
    refine ⟨s', ?_, hdone, ?_⟩
    · rw [hhead]
      simpa [ListStore.destroyLoop, ListStore.destroyWrapper, hcell, hdestroy] using hloop
    · rw [List.map_cons, List.foldlM_cons, hdestroy]
      exact hheap

/-- **`destroy_list`** comes to the end of the list, and empties it. -/
theorem destroyList (h : Linked s q) (list : Nat) :
    ∃ s', s.destroyList list = some s' ∧ Linked s' (Function.update q list []) ∧
      (q.entries list).foldlM CrazySnail.destroyWrapper s.heap = some s'.heap := by
  have hstart : Linked (s.setEnds list (s.ends list)) (Function.update q list (q list)) := by
    rw [s.setEnds_eq_self, Function.update_eq_self]
    exact h
  obtain ⟨s', hloop, hdone, hheap⟩ := hstart.destroyLoop (h.queue list).chain.length_le
  refine ⟨s'.setEnds list .empty, ?_, hdone, hheap⟩
  rw [ListStore.destroyList, hloop]
  rfl

end Linked

/-! ## Refinement -/

/-- The lists as the rest of the model has them. -/
structure Lists where
  lists : Nat → CallbackEnds
  heap : Heap

namespace Lists

/-- A call by the functions of `Cb`. -/
def step (l : Lists) : ListOp → Option Lists
  | .create ref flags => some { l with heap := (createCallback l.heap ref flags).2 }
  | .write id ref initialized channels =>
    some { l with heap := l.heap.update id fun c => { ref, initialized, attach := c.attach, channels } }
  | .push _ none _ => some l
  | .push list (some _) cb =>
    let (entries, heap) := pushCb (l.lists list) l.heap cb
    some { lists := Function.update l.lists list entries, heap }
  | .shift list _ =>
    match shiftCb (l.lists list) l.heap with
    | .empty => some l
    | .ok rest _ heap => some { lists := Function.update l.lists list rest, heap }
    | .dead _ => none
  | .destroy list =>
    ((l.lists list).foldlM destroyWrapper l.heap).map fun heap =>
      { lists := Function.update l.lists list [], heap }

end Lists

/-- What a call needs: fresh memory from `malloc`, and a record that is alive. -/
def ListStore.Enabled (s : ListStore) : ListOp → Prop
  | .push _ (some a) cb => a ∉ s.wrappers ∧ s.heap.deref cb ≠ none
  | .write id _ _ _ => s.heap.cb id ≠ none
  | _ => True

/-- What the rest of the model sees of the memory. -/
def ListStore.view (s : ListStore) (q : Pending) : Lists := ⟨q.entries, s.heap⟩

theorem ListStore.view_update (s : ListStore) (q : Pending) (list : Nat)
    (cells : List (Addr × CbPtr)) : s.view (Function.update q list cells) =
      ⟨Function.update q.entries list (cells.map Prod.snd), s.heap⟩ :=
  congrArg (Lists.mk · _) Pending.entries_update

namespace Linked
variable {s s' : ListStore} {q : Pending} {op : ListOp}

/-- **One call** keeps the lists linked, and does what the functions of `Cb` do. -/
theorem step (h : Linked s q) (henabled : s.Enabled op) :
    ∃ s', s.step op = some s' ∧ Linked s' (q.after op) ∧
      (s.view q).step op = some (s'.view (q.after op)) := by
  cases op with
  | create ref flags => exact ⟨_, rfl, h.withHeap (h.counted.create ref flags), rfl⟩
  | write id ref initialized channels =>
    obtain ⟨c, hc⟩ := Option.ne_none_iff_exists'.mp henabled
    refine ⟨_, by rw [ListStore.step, hc]; rfl, h.withHeap ?_, rfl⟩
    exact h.counted.update id fun _ => rfl
  | push list malloc cb =>
    cases malloc with
    | none => exact ⟨s, rfl, h, rfl⟩
    | some a =>
      obtain ⟨ha, hcb⟩ := henabled
      cases cb with
      | stack => exact absurd rfl hcb
      | heap id =>
        obtain ⟨s', hpush, hlinked, hheap⟩ := h.pushCb ha hcb list
        refine ⟨s', ?_, hlinked, ?_⟩
        · rw [ListStore.step, if_neg (by simpa using ha)]
          exact hpush
        · rw [Pending.after, s'.view_update, hheap, List.map_append]
          rfl
  | shift list target =>
    cases hlist : q list with
    | nil =>
      have hq : q.after (.shift list target) = q :=
        Function.update_eq_self_iff.mpr (by rw [hlist]; rfl)
      refine ⟨s, by rw [ListStore.step, h.shiftCb_empty hlist]; rfl, hq.symm ▸ h, ?_⟩
      simp [hq, Lists.step, ListStore.view, Pending.entries, hlist, CrazySnail.shiftCb]
    | cons c rest =>
      obtain ⟨cb, s', -, hshift, hlinked, -, hview⟩ := h.shiftCb (a := c.1) (p := c.2) hlist target
      have hq : q.after (.shift list target) = Function.update q list rest := by
        simp [Pending.after, hlist]
      refine ⟨s', by rw [ListStore.step, hshift]; rfl, hq.symm ▸ hlinked, ?_⟩
      have hlists : (s.view q).lists list = q.entries list := rfl
      have hheap : (s.view q).heap = s.heap := rfl
      rw [Lists.step, hlists, hheap, hview, hq, s'.view_update]
      rfl
  | destroy list =>
    obtain ⟨s', hdestroy, hlinked, hview⟩ := h.destroyList list
    refine ⟨s', hdestroy, hlinked, ?_⟩
    have hlists : (s.view q).lists list = q.entries list := rfl
    have hheap : (s.view q).heap = s.heap := rfl
    rw [Lists.step, hlists, hheap, hview, Pending.after, s'.view_update]
    rfl

/-- Nothing else can go wrong. -/
theorem step_ne_none_iff (h : Linked s q) : s.step op ≠ none ↔ s.Enabled op := by
  constructor
  · intro hstep
    cases op with
    | create | shift | destroy => trivial
    | write id => exact fun hid => hstep (by rw [ListStore.step, hid]; rfl)
    | push list malloc cb =>
      cases malloc with
      | none => trivial
      | some a =>
        have ha : a ∉ s.wrappers := fun hmem => hstep (if_pos (by simpa using hmem))
        refine ⟨ha, fun hcb => hstep ?_⟩
        obtain ⟨e, m', hpush, -⟩ := h.pushCb_eq ha list cb
        have hattach : ListStore.attach s.heap cb = none := by
          cases cb with
          | stack => rfl
          | heap id => exact congrArg (Option.map _) hcb
        rw [ListStore.step, if_neg (by simpa using ha)]
        exact hpush.trans (by rw [hattach]; rfl)
  · intro henabled
    obtain ⟨s', hstep, -⟩ := h.step henabled
    rw [hstep]
    exact Option.some_ne_none s'

/-- **Runs** keep the lists linked, and do what the functions of `Cb` do. -/
theorem run {ops : List ListOp} (h : Linked s q)
    (hrun : Transition.run ListStore.step s ops = some s') :
    Linked s' (ops.foldl Pending.after q) ∧
      Transition.run Lists.step (s.view q) ops = some (s'.view (ops.foldl Pending.after q)) := by
  induction ops generalizing s q with
  | nil =>
    cases hrun
    exact ⟨h, rfl⟩
  | cons op ops ih =>
    rw [Transition.run_cons, Option.bind_eq_some_iff] at hrun
    obtain ⟨t, hstep, hrest⟩ := hrun
    have henabled : s.Enabled op := h.step_ne_none_iff.mp (hstep ▸ Option.some_ne_none t)
    obtain ⟨t', hstep', hlinked, hview⟩ := h.step henabled
    obtain rfl := Option.some.inj (hstep'.symm.trans hstep)
    rw [List.foldl_cons, Transition.run_cons, hview]
    exact ih hlinked hrest

end Linked

/-! ## First in, first out -/

/-- The list holds `waiting`, oldest first, and `shift_cb` serves it in this order. -/
structure IsFifo (s : ListStore) (list : Nat) (waiting : List (Addr × CbPtr)) : Prop where
  chain : Chain s.wrappers (s.ends list).head waiting
  ends : (s.ends list).head = none ↔ (s.ends list).tail = none
  last : ∀ t, (s.ends list).tail = some t →
    ∃ cb front, waiting = front ++ [(t, cb)] ∧ s.wrappers.lookup t = some ⟨cb, none⟩
  shift_empty : waiting = [] → ∀ target, s.shiftCb list target = some (SNAIL_ERR, target, s)
  shift_oldest : ∀ a p rest, waiting = (a, p) :: rest → ∀ target, ∃ c s',
    s.heap.deref p = some c ∧ s.shiftCb list target = some (SNAIL_OK, target.map fun _ => c, s') ∧
      Chain s'.wrappers (s'.ends list).head rest ∧ a ∉ s'.wrappers

theorem Linked.isFifo {s : ListStore} {q : Pending} (h : Linked s q) (list : Nat) :
    IsFifo s list (q list) where
  chain := (h.queue list).chain
  ends := (h.queue list).head_eq_none_iff.trans (h.queue list).tail_eq_none_iff.symm
  last _ := (h.queue list).last
  shift_empty := h.shiftCb_empty
  shift_oldest a p rest hlist target := by
    obtain ⟨c, s', hc, hshift, hlinked, hwrappers, -⟩ := h.shiftCb hlist target
    have hchain := (hlinked.queue list).chain
    rw [Function.update_self] at hchain
    refine ⟨c, s', hc, hshift, hchain, ?_⟩
    rw [hwrappers]
    exact fun hmem => (AList.mem_erase.mp hmem).1 rfl

/-- **Every list is a queue** after any calls on any of the lists: it holds what was pushed
    on it and not removed.  Calls with fresh memory and a living record never fail. -/
theorem callbackQueue {ops : List ListOp} {s : ListStore}
    (h : Transition.run ListStore.step .start ops = some s) :
    (∀ list, IsFifo s list (pendingAfter ops list)) ∧ ∀ op, s.step op ≠ none ↔ s.Enabled op := by
  have hlinked : Linked s (pendingAfter ops) := (linked_start.run h).1
  exact ⟨hlinked.isFifo, fun op => hlinked.step_ne_none_iff⟩

/-- Two records on a list; the second push takes the address that the shift gave back. -/
def reusedAddress : List ListOp :=
  [.create (.ref 1) false, .create (.ref 2) false, .push 0 (some 7) (.heap 0), .shift 0 none,
    .push 0 (some 7) (.heap 1), .push 1 (some 8) (.heap 1), .shift 1 none, .destroy 1]

theorem callbackQueue_reused : ∃ s, Transition.run ListStore.step .start reusedAddress = some s ∧
    (∀ list, IsFifo s list (pendingAfter reusedAddress list)) ∧
    pendingAfter reusedAddress 0 = [(7, .heap 1)] ∧ pendingAfter reusedAddress 1 = [] :=
  ⟨_, rfl, (callbackQueue rfl).1, rfl, rfl⟩

end CrazySnail
