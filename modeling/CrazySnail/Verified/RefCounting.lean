import CrazySnail.Verified.NameTree
import CrazySnail.Library.Run

/-! # Reference counting of callbacks

`Counted h ws` says that the records of the heap count the wrappers `ws`.  Every
operation of `cb.c` keeps it for the wrappers of all lists and trees together, in
whatever order they are filled and torn down (`callbacks_counted`).
-/

namespace CrazySnail

open SearchTree (Tree Path Side)

/-! ## Counting -/

/-- Every record counts its wrappers among `ws`, and every wrapper leads to a record. -/
structure Counted (h : Heap) (ws : List CbPtr) : Prop where
  attach : ∀ id c, h.cb id = some c → c.attach = ws.count (.heap id)
  alive : ∀ id, .heap id ∈ ws → h.cb id ≠ none
  fresh : ∀ id, h.next ≤ id → h.cb id = none

namespace Counted
variable {h : Heap} {ws ws' : List CbPtr}

theorem perm (hc : Counted h ws) (hp : ws.Perm ws') : Counted h ws' where
  attach id c hid := (hc.attach id c hid).trans (hp.count_eq _)
  alive id hid := hc.alive id (hp.mem_iff.mpr hid)
  fresh := hc.fresh

theorem not_mem_next (hc : Counted h ws) : CbPtr.heap h.next ∉ ws := fun hmem =>
  hc.alive _ hmem (hc.fresh _ (Nat.le_refl _))

/-- A new record has no wrapper. -/
theorem create (hc : Counted h ws) (ref : LuaRef) (flags : Bool) :
    Counted (createCallback h ref flags).2 ws where
  attach id c hid := by
    simp only [createCallback, Function.update_apply] at hid
    split at hid
    next heq =>
      cases hid
      exact (List.count_eq_zero.mpr (heq ▸ hc.not_mem_next)).symm
    · exact hc.attach id c hid
  alive id hid := by
    have hne : id ≠ h.next := fun heq => hc.not_mem_next (heq ▸ hid)
    simpa [createCallback, hne] using hc.alive id hid
  fresh id hid := by
    have hlt : h.next < id := hid
    simpa [createCallback, hlt.ne'] using hc.fresh id hlt.le

/-- A change of a record that leaves the count alone. -/
theorem update (hc : Counted h ws) (id : Nat) {f : Callback → Callback}
    (hf : ∀ c, (f c).attach = c.attach) : Counted (h.update id f) ws where
  attach id' c hid := by
    simp only [Heap.update, Heap.set, Function.update_apply] at hid
    split at hid
    next heq =>
      obtain ⟨c', hc', rfl⟩ := Option.map_eq_some_iff.mp hid
      rw [hf, heq]
      exact hc.attach id c' hc'
    · exact hc.attach id' c hid
  alive id' hid := by
    by_cases heq : id' = id
    · subst heq
      simpa [Heap.update, Heap.set] using hc.alive id' hid
    · simpa [Heap.update, Heap.set, heq] using hc.alive id' hid
  fresh id' hid := by
    by_cases heq : id' = id
    · subst heq
      simpa [Heap.update, Heap.set] using hc.fresh id' hid
    · simpa [Heap.update, Heap.set, heq] using hc.fresh id' hid

/-- `wrap_cb` and `push_cb` of a record that is alive. -/
theorem push (hc : Counted h ws) {id : Nat} (hid : h.cb id ≠ none) :
    Counted (h.update id fun c => { c with attach := c.attach + 1 }) (.heap id :: ws) where
  attach id' c hid' := by
    simp only [Heap.update, Heap.set, Function.update_apply] at hid'
    split at hid'
    next heq =>
      subst heq
      obtain ⟨c', hc', rfl⟩ := Option.map_eq_some_iff.mp hid'
      rw [List.count_cons_self, ← hc.attach _ c' hc']
    next hne =>
      rw [List.count_cons_of_ne (by simpa using Ne.symm hne)]
      exact hc.attach id' c hid'
  alive id' hid' := by
    by_cases heq : id' = id
    · subst heq
      simpa [Heap.update, Heap.set] using hid
    · have hmem : CbPtr.heap id' ∈ ws := by simpa [heq] using hid'
      simpa [Heap.update, Heap.set, heq] using hc.alive id' hmem
  fresh id' hid' := by
    by_cases heq : id' = id
    · subst heq
      exact absurd (hc.fresh _ hid') hid
    · simpa [Heap.update, Heap.set, heq] using hc.fresh id' hid'

/-- **`destroy_wrapper`** finds the record alive and destroys it with the last wrapper. -/
theorem destroy {id : Nat} (hc : Counted h (.heap id :: ws)) :
    ∃ c, h.cb id = some c ∧ (c.attach = 1 ↔ CbPtr.heap id ∉ ws) ∧
      destroyWrapper h (.heap id) =
        some (h.set id (if c.attach = 1 then none else some { c with attach := c.attach - 1 })) ∧
      Counted (h.set id (if c.attach = 1 then none else some { c with attach := c.attach - 1 })) ws := by
  obtain ⟨c, hid⟩ := Option.ne_none_iff_exists'.mp (hc.alive id List.mem_cons_self)
  have hattach : c.attach = ws.count (.heap id) + 1 := by
    rw [hc.attach id c hid, List.count_cons_self]
  have hlast : c.attach = 1 ↔ CbPtr.heap id ∉ ws := by
    rw [hattach, ← List.count_eq_zero]
    omega
  refine ⟨c, hid, hlast, by simp [destroyWrapper, hid], ?_, ?_, ?_⟩
  · intro id' c' hid'
    simp only [Heap.set, Function.update_apply] at hid'
    split at hid'
    next heq =>
      subst heq
      split at hid'
      · cases hid'
      · cases hid'
        simp [hattach]
    next hne =>
      rw [hc.attach id' c' hid', List.count_cons_of_ne (by simpa using Ne.symm hne)]
  · intro id' hmem
    by_cases heq : id' = id
    · subst heq
      have hnot : c.attach ≠ 1 := fun h1 => hlast.mp h1 hmem
      simp [Heap.set, hnot]
    · simpa [Heap.set, heq] using hc.alive id' (List.mem_cons_of_mem _ hmem)
  · intro id' hid'
    have hne : id' ≠ id := by
      rintro rfl
      simp [hc.fresh _ hid'] at hid
    simpa [Heap.set, hne] using hc.fresh id' hid'

end Counted

/-! ## The wrappers of a tree -/

/-- The wrappers of all nodes. -/
def wrappers {κ : Type} (t : NodeT κ) : List CbPtr := (postorder t).flatMap NodeVal.cbList

section
variable {κ : Type}

@[simp] theorem wrappers_null : wrappers (.null : NodeT κ) = [] := rfl

@[simp] theorem wrappers_node (key : κ) (val : NodeVal) (l r : NodeT κ) :
    wrappers (.node key val l r) = wrappers l ++ wrappers r ++ val.cbList := by
  simp [wrappers, postorder]

/-- A new node has no wrapper. -/
@[simp] theorem wrappers_insert (cmp : κ → κ → Ordering) (t : NodeT κ) (k : κ) :
    wrappers (t.insert cmp k .fresh).1 = wrappers t := by
  induction t with
  | null => rfl
  | node key val l r ihl ihr =>
    rw [Tree.insert_node]
    split <;> simp [ihl, ihr]

/-- One node and the others. -/
theorem postorder_split {t : NodeT κ} {p : Path} {key : κ} {val : NodeVal}
    (h : t.get? p = some (key, val)) :
    ∃ rest, ∀ f : NodeVal → NodeVal, (postorder (t.modify f p)).Perm (f val :: rest) := by
  induction t generalizing p with
  | null => simp at h
  | node nkey v l r ihl ihr =>
    rcases p with _ | ⟨_ | _, p⟩
    · cases h
      refine ⟨postorder l ++ postorder r, fun f => ?_⟩
      rw [Tree.modify, postorder]
      exact List.perm_append_comm
    · obtain ⟨rest, hrest⟩ := ihl h
      refine ⟨rest ++ (postorder r ++ [v]), fun f => ?_⟩
      rw [Tree.modify, postorder, List.append_assoc]
      exact (hrest f).append_right _
    · obtain ⟨rest, hrest⟩ := ihr h
      refine ⟨rest ++ (postorder l ++ [v]), fun f => ?_⟩
      rw [Tree.modify, postorder]
      refine (List.perm_append_comm.append_right _).trans ?_
      rw [List.append_assoc]
      exact (hrest f).append_right _

/-- The wrappers of one node and those of the others. -/
theorem wrappers_split {t : NodeT κ} {p : Path} {key : κ} {val : NodeVal}
    (h : t.get? p = some (key, val)) :
    ∃ rest, ∀ f : NodeVal → NodeVal,
      (wrappers (t.modify f p)).Perm ((f val).cbList ++ rest) := by
  obtain ⟨rest, hrest⟩ := postorder_split h
  exact ⟨rest.flatMap NodeVal.cbList, fun f => (hrest f).flatMap_right NodeVal.cbList⟩

theorem modify_id (t : NodeT κ) (p : Path) : t.modify id p = t := by
  induction t generalizing p with
  | null => cases p <;> rfl
  | node key val l r ihl ihr =>
    rcases p with _ | ⟨_ | _, p⟩ <;> simp [Tree.modify, ihl, ihr]

/-- A wrapper of a tree hangs at a node. -/
theorem mem_wrappers {t : NodeT κ} {q : CbPtr} :
    q ∈ wrappers t ↔ ∃ p key val, t.get? p = some (key, val) ∧ q ∈ val.cbList := by
  constructor
  · intro h
    induction t with
    | null => cases h
    | node key val l r ihl ihr =>
      rw [wrappers_node, List.mem_append, List.mem_append] at h
      rcases h with (h | h) | h
      · obtain ⟨p, hp⟩ := ihl h
        exact ⟨.left :: p, hp⟩
      · obtain ⟨p, hp⟩ := ihr h
        exact ⟨.right :: p, hp⟩
      · exact ⟨[], key, val, rfl, h⟩
  · rintro ⟨p, key, val, hget, hq⟩
    obtain ⟨rest, hrest⟩ := wrappers_split hget
    have hself := hrest id
    rw [modify_id, id] at hself
    exact hself.mem_iff.mpr (List.mem_append_left _ hq)

/-- A push on a node adds a wrapper. -/
theorem wrappers_push {t : NodeT κ} {p : Path} {kv : κ × NodeVal} (h : t.get? p = some kv)
    (ptr : CbPtr) : (wrappers (t.modify (.push ptr) p)).Perm (ptr :: wrappers t) := by
  obtain ⟨rest, hrest⟩ := wrappers_split (show t.get? p = some (kv.1, kv.2) from h)
  have hold := hrest id
  rw [modify_id] at hold
  refine (hrest (.push ptr)).trans (.trans ?_ (hold.symm.cons ptr))
  simp only [NodeVal.push, id, List.append_assoc, List.singleton_append]
  exact List.perm_middle

end

/-! ## Frees -/

/-- A block that is given back: a channel of a record, or the record. -/
inductive Freed where
  | channel (cb slot : Nat)
  | callback (cb : Nat)
deriving DecidableEq

/-- The frees of `destroy_callback`: the channels, then the record. -/
def destroyCallback (id : Nat) (c : Callback) : List Freed :=
  (List.range c.channels.length).map (.channel id) ++ [.callback id]

/-- The frees of `destroy_wrapper`. -/
def frees (h : Heap) : CbPtr → List Freed
  | .stack => []
  | .heap id =>
    match h.cb id with
    | none => []
    | some c => if c.attach = 1 then destroyCallback id c else []

/-- The records, and the blocks freed so far, oldest first. -/
structure Store where
  heap : Heap
  freed : List Freed

namespace Store

/-- `destroy_wrapper`; `none` when it reads a record that is not alive. -/
def destroyWrapper (s : Store) (p : CbPtr) : Option Store :=
  (CrazySnail.destroyWrapper s.heap p).map fun heap => ⟨heap, s.freed ++ frees s.heap p⟩

/-- `destroy_list` -/
def destroyList (s : Store) (list : CallbackEnds) : Option Store := list.foldlM destroyWrapper s

/-- `destroy_tree` -/
def destroyTree {κ : Type} (s : Store) (root : NodeT κ) : Option Store :=
  (postorder root).foldlM (fun s v => s.destroyList v.cbList) s

end Store

/-- The memory is in order: `sizes` lists the number of channels of each record made so
    far, `pushed` tells which of them have had a wrapper, and `ws` are the wrappers. -/
structure Tracked (sizes : List Nat) (pushed : Nat → Prop) (s : Store) (ws : List CbPtr) : Prop where
  counted : Counted s.heap ws
  heapOnly : ∀ p ∈ ws, ∃ id, p = .heap id
  next : s.heap.next = sizes.length
  size : ∀ id c, s.heap.cb id = some c → sizes[id]? = some c.channels.length
  gone : ∀ id, .callback id ∈ s.freed ↔ id < s.heap.next ∧ s.heap.cb id = none
  channels : ∀ id slot, .channel id slot ∈ s.freed ↔
    .callback id ∈ s.freed ∧ ∃ n, sizes[id]? = some n ∧ slot < n
  once : s.freed.Nodup
  kept : ∀ id, pushed id ↔ .callback id ∈ s.freed ∨ .heap id ∈ ws

namespace Tracked
variable {sizes : List Nat} {pushed : Nat → Prop} {s : Store} {ws ws' : List CbPtr}

theorem perm (h : Tracked sizes pushed s ws) (hp : ws.Perm ws') : Tracked sizes pushed s ws' :=
  { h with
    counted := h.counted.perm hp
    heapOnly := fun p hmem => h.heapOnly p (hp.mem_iff.mpr hmem)
    kept := fun id => (h.kept id).trans (or_congr_right hp.mem_iff) }

theorem lt_next (h : Tracked sizes pushed s ws) {id : Nat} (hid : s.heap.cb id ≠ none) :
    id < s.heap.next :=
  Nat.lt_of_not_le fun hle => hid (h.counted.fresh id hle)

/-- A block of a record that is alive is not freed. -/
theorem not_freed (h : Tracked sizes pushed s ws) {id : Nat} (hid : s.heap.cb id ≠ none) :
    .callback id ∉ s.freed ∧ ∀ slot, .channel id slot ∉ s.freed := by
  have hnot : .callback id ∉ s.freed := fun hmem => hid ((h.gone id).mp hmem).2
  exact ⟨hnot, fun slot hmem => hnot ((h.channels id slot).mp hmem).1⟩

/-- **One wrapper** is destroyed: its record goes with the last one, once. -/
theorem destroyWrapper {id : Nat} (h : Tracked sizes pushed s (.heap id :: ws)) :
    ∃ s', s.destroyWrapper (.heap id) = some s' ∧ Tracked sizes pushed s' ws := by
  obtain ⟨c, hid, hlast, hdestroy, hcounted⟩ := h.counted.destroy
  have hsome : s.heap.cb id ≠ none := by simp [hid]
  obtain ⟨hnot, hnotChannel⟩ := h.not_freed hsome
  have hheapOnly : ∀ p ∈ ws, ∃ id, p = .heap id := fun p hp =>
    h.heapOnly p (List.mem_cons_of_mem _ hp)
  by_cases h1 : c.attach = 1
  · -- the record goes, with all its channels
    have hother : ∀ {id'}, id' ≠ id → (s.heap.set id none).cb id' = s.heap.cb id' := by
      intro id' hne
      simp [Heap.set, hne]
    have hself : (s.heap.set id none).cb id = none := by simp [Heap.set]
    rw [if_pos h1] at hdestroy hcounted
    refine ⟨⟨s.heap.set id none, s.freed ++ destroyCallback id c⟩, ?_, ?_⟩
    · simp [Store.destroyWrapper, hdestroy, frees, hid, h1]
    have hcallback : ∀ id', .callback id' ∈ s.freed ++ destroyCallback id c ↔
        .callback id' ∈ s.freed ∨ id' = id := by
      intro id'
      simp [destroyCallback]
    exact {
      counted := hcounted
      heapOnly := hheapOnly
      next := h.next
      size := fun id' c' hid' => by
        by_cases heq : id' = id
        · rw [heq, hself] at hid'; cases hid'
        · exact h.size id' c' (hother heq ▸ hid')
      gone := fun id' => by
        rw [hcallback]
        by_cases heq : id' = id
        · subst heq
          simp [h.lt_next hsome, Heap.set]
        · simp only [heq, or_false]
          rw [h.gone, hother heq]
          rfl
      channels := fun id' slot => by
        have hmem : .channel id' slot ∈ s.freed ++ destroyCallback id c ↔
            .channel id' slot ∈ s.freed ∨ id' = id ∧ slot < c.channels.length := by
          simp [destroyCallback, and_comm, eq_comm]
        rw [hmem, hcallback]
        by_cases heq : id' = id
        · subst heq
          simp [hnotChannel slot, h.size _ c hid]
        · simpa [heq] using h.channels id' slot
      once := by
        refine List.nodup_append'.mpr ⟨h.once, ?_, ?_⟩
        · refine List.nodup_append'.mpr ⟨?_, by simp, by simp⟩
          exact List.nodup_range.map fun a b hab => by cases hab; rfl
        · intro x hx hx'
          simp only [destroyCallback, List.mem_append, List.mem_map, List.mem_singleton] at hx'
          obtain ⟨slot, -, rfl⟩ | rfl := hx'
          · exact hnotChannel slot hx
          · exact hnot hx
      kept := fun id' => by
        rw [h.kept, hcallback, List.mem_cons]
        by_cases heq : id' = id
        · simp [heq]
        · simp [heq] }
  · have hmem : CbPtr.heap id ∈ ws := by
      by_contra hmem
      exact h1 (hlast.mpr hmem)
    rw [if_neg h1] at hdestroy hcounted
    refine ⟨⟨s.heap.set id (some { c with attach := c.attach - 1 }), s.freed⟩, ?_, ?_⟩
    · simp [Store.destroyWrapper, hdestroy, frees, hid, h1]
    exact { h with
      counted := hcounted
      heapOnly := hheapOnly
      size := fun id' c' hid' => by
        simp only [Heap.set, Function.update_apply] at hid'
        split at hid'
        next heq =>
          cases hid'
          exact heq ▸ h.size id c hid
        · exact h.size id' c' hid'
      gone := fun id' => by
        rw [h.gone]
        by_cases heq : id' = id
        · subst heq
          simp [Heap.set, hid]
        · simp [Heap.set, heq]
      kept := fun id' => by
        rw [h.kept, List.mem_cons]
        refine or_congr_right ⟨fun hor => ?_, .inr⟩
        obtain heq | hmem' := hor
        · exact heq ▸ hmem
        · exact hmem' }

/-- **`destroy_list`** destroys its wrappers one by one. -/
theorem destroyList {list : CallbackEnds} (h : Tracked sizes pushed s (list ++ ws)) :
    ∃ s', s.destroyList list = some s' ∧ Tracked sizes pushed s' ws := by
  induction list generalizing s with
  | nil => exact ⟨s, rfl, h⟩
  | cons p list ih =>
    obtain ⟨id, rfl⟩ := h.heapOnly p (by simp)
    obtain ⟨s₁, hs₁, h₁⟩ := h.destroyWrapper
    obtain ⟨s', hs', h'⟩ := ih h₁
    exact ⟨s', by simp [Store.destroyList, hs₁, ← hs'], h'⟩

/-- **`destroy_tree`** destroys the list of every node. -/
theorem destroyTree {κ : Type} {root : NodeT κ}
    (h : Tracked sizes pushed s (wrappers root ++ ws)) :
    ∃ s', s.destroyTree root = some s' ∧ Tracked sizes pushed s' ws := by
  unfold Store.destroyTree
  unfold wrappers at h
  generalize postorder root = vs at h ⊢
  induction vs generalizing s with
  | nil => exact ⟨s, rfl, h⟩
  | cons v vs ih =>
    rw [List.flatMap_cons, List.append_assoc] at h
    obtain ⟨s₁, hs₁, h₁⟩ := h.destroyList
    obtain ⟨s', hs', h'⟩ := ih h₁
    exact ⟨s', by simp [hs₁, ← hs'], h'⟩

end Tracked

/-! ## A program over `cb.c` -/

/-- The lists and trees of a program, with the memory behind them.  `dead` is set when an
    operation reads a record that is not alive. -/
structure Family where
  store : Store
  lists : List CallbackEnds
  names : List (NodeT Bytes)
  timers : List (NodeT UInt64)
  dead : Bool

/-- A list of the program: one of its own, or the one of a node. -/
inductive Place where
  | list (i : Nat)
  | name (t : Nat) (leaf : Path)
  | timer (t : Nat) (leaf : Path)
deriving DecidableEq

/-- The operations.  `create` fills all channel slots of the record it makes. -/
inductive Op where
  | create (ref : LuaRef) (flags : Bool) (channels : List Channel)
  | insert (t : Nat) (key : Bytes)
  | insertTimer (t : Nat) (key : UInt64)
  /-- `wrap_cb` and `push_cb` -/
  | push (place : Place) (cb : Nat)
  | shift (place : Place)
  | destroyList (place : Place)
  | destroyNames (t : Nat)
  | destroyTimers (t : Nat)
deriving DecidableEq

namespace Family

/-- Empty lists and trees, as many as the program likes. -/
def empty (lists names timers : Nat) : Family where
  store := ⟨.empty, []⟩
  lists := .replicate lists []
  names := .replicate names .null
  timers := .replicate timers .null
  dead := false

/-- The wrappers over all lists and trees. -/
def wrappers (f : Family) : List CbPtr :=
  f.lists.flatten ++ f.names.flatMap CrazySnail.wrappers ++ f.timers.flatMap CrazySnail.wrappers

/-- The list at a place. -/
def list? (f : Family) : Place → Option CallbackEnds
  | .list i => f.lists[i]?
  | .name t leaf => (f.names[t]?.bind fun root => root.get? leaf).map fun kv => kv.2.cbList
  | .timer t leaf => (f.timers[t]?.bind fun root => root.get? leaf).map fun kv => kv.2.cbList

/-- Put another list at a place. -/
def setList (f : Family) (list : CallbackEnds) : Place → Family
  | .list i => { f with lists := f.lists.set i list }
  | .name t leaf =>
    { f with names := f.names.modify t fun root =>
        root.modify (fun v => { v with cbList := list }) leaf }
  | .timer t leaf =>
    { f with timers := f.timers.modify t fun root =>
        root.modify (fun v => { v with cbList := list }) leaf }

def die (f : Family) : Family := { f with dead := true }

/-- One operation; `none` when there is no such list or tree.  A program pushes a record it
    has made and that has not been freed. -/
def step (f : Family) : Op → Option Family
  | .create ref flags channels =>
    let (id, heap) := createCallback f.store.heap ref flags
    some { f with store.heap := heap.update id fun c => { c with channels } }
  | .insert t key =>
    if t < f.names.length then
      some { f with names := f.names.modify t fun root => (CrazySnail.insert root key).1 }
    else none
  | .insertTimer t key =>
    if t < f.timers.length then
      some { f with timers := f.timers.modify t fun root => (CrazySnail.insertTimer root key).2.1 }
    else none
  | .push place id =>
    (f.list? place).bind fun list =>
      if id < f.store.heap.next ∧ .callback id ∉ f.store.freed then
        if (f.store.heap.cb id).isSome then
          let (list, heap) := pushCb list f.store.heap (.heap id)
          some { f.setList list place with store := { f.store with heap } }
        else some f.die
      else none
  | .shift place =>
    (f.list? place).map fun list =>
      match shiftCb list f.store.heap with
      | .empty => f
      | .dead _ => f.die
      | .ok rest _ heap =>
        { f.setList rest place with
          store := ⟨heap, f.store.freed ++ (list.head?.elim [] (frees f.store.heap))⟩ }
  | .destroyList place =>
    (f.list? place).map fun list =>
      match f.store.destroyList list with
      | none => f.die
      | some store => { f.setList [] place with store }
  | .destroyNames t =>
    f.names[t]?.map fun root =>
      match f.store.destroyTree root with
      | none => f.die
      | some store => { f with store, names := f.names.set t .null }
  | .destroyTimers t =>
    f.timers[t]?.map fun root =>
      match f.store.destroyTree root with
      | none => f.die
      | some store => { f with store, timers := f.timers.set t .null }

end Family

/-- The numbers of channels of the records made. -/
def sizes (ops : List Op) : List Nat :=
  ops.filterMap fun
    | .create _ _ channels => some channels.length
    | _ => none

/-- A record has had a wrapper. -/
def Pushed (ops : List Op) (id : Nat) : Prop := ∃ place, Op.push place id ∈ ops

/-! ## Places -/

/-- The part of a list that does not come from one entry. -/
theorem flatMap_split {α β : Type} (g : α → List β) {l : List α} {i : Nat} {a : α}
    (h : l[i]? = some a) :
    ∃ rest, ∀ b, ((l.set i b).flatMap g).Perm (g b ++ rest) := by
  obtain ⟨hi, rfl⟩ := List.getElem?_eq_some_iff.mp h
  refine ⟨(l.take i).flatMap g ++ (l.drop (i + 1)).flatMap g, fun b => ?_⟩
  rw [List.set_eq_take_append_cons_drop, if_pos hi, List.flatMap_append, List.flatMap_cons,
    ← List.append_assoc, ← List.append_assoc]
  exact List.perm_append_comm.append_right _

theorem modify_eq_set {α : Type} {l : List α} {i : Nat} {a : α} (f : α → α)
    (h : l[i]? = some a) : l.modify i f = l.set i (f a) := by
  obtain ⟨hi, rfl⟩ := List.getElem?_eq_some_iff.mp h
  apply List.ext_getElem?
  intro j
  rw [List.getElem?_modify, List.getElem?_set]
  by_cases hij : i = j
  · subst hij
    simp [hi]
  · simp [hij]

theorem set_self {α : Type} {l : List α} {i : Nat} {a : α} (h : l[i]? = some a) :
    l.set i a = l := by
  obtain ⟨hi, rfl⟩ := List.getElem?_eq_some_iff.mp h
  exact List.set_getElem_self hi

namespace Family

/-- The wrappers of one tree of several, split at a node. -/
theorem trees_split {κ : Type} {trees : List (NodeT κ)} {t : Nat} {leaf : Path}
    {list : CallbackEnds}
    (h : (trees[t]?.bind fun root => root.get? leaf).map (fun kv => kv.2.cbList) = some list) :
    ∃ rest, (trees.flatMap CrazySnail.wrappers).Perm (list ++ rest) ∧ ∀ list',
      ((trees.modify t fun root => root.modify (fun v => { v with cbList := list' }) leaf).flatMap
        CrazySnail.wrappers).Perm (list' ++ rest) := by
  obtain ⟨kv, hkv, rfl⟩ := Option.map_eq_some_iff.mp h
  obtain ⟨root, hroot, hget⟩ := Option.bind_eq_some_iff.mp hkv
  obtain ⟨inner, hinner⟩ := CrazySnail.wrappers_split (show root.get? leaf = some (kv.1, kv.2) from hget)
  obtain ⟨outer, houter⟩ := flatMap_split CrazySnail.wrappers hroot
  have hold := (houter root).trans ((modify_id root leaf ▸ hinner id).append_right outer)
  rw [set_self hroot, List.append_assoc] at hold
  refine ⟨inner ++ outer, hold, fun list' => ?_⟩
  rw [modify_eq_set _ hroot, ← List.append_assoc]
  exact (houter _).trans ((hinner _).append_right outer)

/-- **The wrappers of a place and the others.** -/
theorem wrappers_split {f : Family} {place : Place} {list : CallbackEnds}
    (h : f.list? place = some list) :
    ∃ rest, f.wrappers.Perm (list ++ rest) ∧
      ∀ list', (f.setList list' place).wrappers.Perm (list' ++ rest) := by
  cases place with
  | list i =>
    obtain ⟨rest, hrest⟩ := flatMap_split id h
    have hold := hrest list
    rw [set_self h] at hold
    simp only [← List.flatten_eq_flatMap, id] at hold hrest
    refine ⟨rest ++ f.names.flatMap CrazySnail.wrappers ++ f.timers.flatMap CrazySnail.wrappers,
      ?_, fun list' => ?_⟩
    · simpa only [wrappers, List.append_assoc] using
        hold.append_right (f.names.flatMap CrazySnail.wrappers ++
          f.timers.flatMap CrazySnail.wrappers)
    · simpa only [wrappers, setList, List.append_assoc] using
        (hrest list').append_right (f.names.flatMap CrazySnail.wrappers ++
          f.timers.flatMap CrazySnail.wrappers)
  | name t leaf =>
    obtain ⟨rest, hold, hrest⟩ := trees_split h
    refine ⟨rest ++ (f.lists.flatten ++ f.timers.flatMap CrazySnail.wrappers),
      ?_, fun list' => ?_⟩
    · refine (List.perm_append_comm.append_right _).trans ?_
      simpa only [List.append_assoc] using
        hold.append_right (f.lists.flatten ++ f.timers.flatMap CrazySnail.wrappers)
    · refine (List.perm_append_comm.append_right _).trans ?_
      simpa only [setList, List.append_assoc] using
        (hrest list').append_right (f.lists.flatten ++ f.timers.flatMap CrazySnail.wrappers)
  | timer t leaf =>
    obtain ⟨rest, hold, hrest⟩ := trees_split h
    refine ⟨rest ++ (f.lists.flatten ++ f.names.flatMap CrazySnail.wrappers),
      ?_, fun list' => ?_⟩
    · refine List.perm_append_comm.trans ?_
      simpa only [List.append_assoc] using
        hold.append_right (f.lists.flatten ++ f.names.flatMap CrazySnail.wrappers)
    · refine List.perm_append_comm.trans ?_
      simpa only [setList, List.append_assoc] using
        (hrest list').append_right (f.lists.flatten ++ f.names.flatMap CrazySnail.wrappers)

@[simp] theorem setList_store (f : Family) (list : CallbackEnds) (place : Place) :
    (f.setList list place).store = f.store := by cases place <;> rfl

@[simp] theorem setList_dead (f : Family) (list : CallbackEnds) (place : Place) :
    (f.setList list place).dead = f.dead := by cases place <;> rfl

end Family

/-! ## The result -/

namespace Tracked
variable {sizes : List Nat} {pushed : Nat → Prop} {s : Store} {ws : List CbPtr}

/-- `create_callback`, with all slots filled. -/
theorem create (h : Tracked sizes pushed s ws) (ref : LuaRef) (flags : Bool)
    (channels : List Channel) :
    Tracked (sizes ++ [channels.length]) pushed
      { s with heap := (createCallback s.heap ref flags).2.update s.heap.next
                  (fun c => { c with channels := channels }) } ws := by
  have hold : ∀ {id}, id < s.heap.next →
      ((createCallback s.heap ref flags).2.update s.heap.next
        fun c => { c with channels := channels }).cb id = s.heap.cb id := by
    intro id hid
    simp [createCallback, Heap.update, Heap.set, hid.ne]
  have hsizes : ∀ {id}, id < s.heap.next → (sizes ++ [channels.length])[id]? = sizes[id]? := by
    intro id hid
    exact List.getElem?_append_left (h.next ▸ hid)
  have hnew : ∀ {id}, .callback id ∈ s.freed → id < s.heap.next := fun hid => ((h.gone _).mp hid).1
  exact {
    counted := (h.counted.create ref flags).update _ fun _ => rfl
    heapOnly := h.heapOnly
    next := by simp [createCallback, Heap.update, Heap.set, h.next]
    size := fun id c hid => by
      obtain hlt | heq | hgt := Nat.lt_trichotomy id s.heap.next
      · rw [hsizes hlt]
        exact h.size id c (hold hlt ▸ hid)
      · subst heq
        simp only [createCallback, Heap.update, Heap.set, Function.update_self, Option.map_some,
          Option.some.injEq] at hid
        subst hid
        simp [h.next]
      · simp [createCallback, Heap.update, Heap.set, hgt.ne', h.counted.fresh id hgt.le] at hid
    gone := fun id => by
      rw [h.gone]
      obtain hlt | heq | hgt := Nat.lt_trichotomy id s.heap.next
      · rw [hold hlt]
        exact and_congr_left' ⟨fun _ => Nat.lt_succ_of_lt hlt, fun _ => hlt⟩
      · subst heq
        simp [createCallback, Heap.update, Heap.set]
      · refine ⟨fun hand => absurd hand.1 hgt.not_gt, fun hand => ?_⟩
        exact absurd hand.1 (Nat.not_lt.mpr hgt)
    channels := fun id slot => by
      rw [h.channels]
      exact and_congr_right fun hid => by rw [hsizes (hnew hid)]
    once := h.once
    kept := h.kept }

/-- `push_cb` of a record that is alive. -/
theorem push (h : Tracked sizes pushed s ws) {id : Nat} (hid : s.heap.cb id ≠ none) :
    Tracked sizes (fun i => pushed i ∨ i = id)
      { s with heap := s.heap.update id fun c => { c with attach := c.attach + 1 } }
      (.heap id :: ws) := by
  have hnone : ∀ i, (s.heap.update id fun c => { c with attach := c.attach + 1 }).cb i = none ↔
      s.heap.cb i = none := by
    intro i
    by_cases heq : i = id
    · subst heq
      simp [Heap.update, Heap.set]
    · simp [Heap.update, Heap.set, heq]
  exact { h with
    counted := h.counted.push hid
    heapOnly := fun p hp => by
      obtain rfl | hp := List.mem_cons.mp hp
      · exact ⟨id, rfl⟩
      · exact h.heapOnly p hp
    size := fun i c hi => by
      simp only [Heap.update, Heap.set, Function.update_apply] at hi
      split at hi
      next heq =>
        obtain ⟨c', hc', rfl⟩ := Option.map_eq_some_iff.mp hi
        exact heq ▸ h.size _ c' hc'
      · exact h.size i c hi
    gone := fun i => (h.gone i).trans (and_congr_right' (hnone i).symm)
    kept := fun i => by
      simp only [h.kept i, List.mem_cons, CbPtr.heap.injEq]
      tauto }

end Tracked

theorem sizes_snoc (ops : List Op) (op : Op) : sizes (ops ++ [op]) = sizes ops ++ sizes [op] :=
  List.filterMap_append

theorem pushed_snoc (ops : List Op) (op : Op) (id : Nat) :
    Pushed (ops ++ [op]) id ↔ Pushed ops id ∨ ∃ place, op = .push place id := by
  simp only [Pushed, List.mem_append, List.mem_singleton, exists_or, eq_comm]

namespace Family

/-- The invariant. -/
structure Sound (ops : List Op) (f : Family) : Prop where
  dead : f.dead = false
  tracked : Tracked (sizes ops) (Pushed ops) f.store f.wrappers

theorem sound_empty (lists names timers : Nat) : Sound [] (empty lists names timers) where
  dead := rfl
  tracked := by
    have hnone : (empty lists names timers).wrappers = [] := by
      simp [wrappers, empty]
    rw [hnone]
    exact {
      counted := ⟨fun _ _ h => (Option.some_ne_none _ h.symm).elim, by simp, fun _ _ => rfl⟩
      heapOnly := by simp
      next := rfl
      size := fun _ _ h => (Option.some_ne_none _ h.symm).elim
      gone := by simp [empty, Heap.empty]
      channels := by simp [empty]
      once := List.nodup_nil
      kept := by simp [Pushed, empty] }

/-- An operation that makes no record and pushes none. -/
theorem Sound.of_tracked {ops : List Op} {op : Op} {f : Family} (hdead : f.dead = false)
    (h : Tracked (sizes ops) (Pushed ops) f.store f.wrappers) (hsizes : sizes [op] = [])
    (hpush : ∀ place id, op ≠ .push place id) : Sound (ops ++ [op]) f := by
  refine ⟨hdead, ?_⟩
  rw [sizes_snoc, hsizes, List.append_nil]
  exact { h with
    kept := fun id => (pushed_snoc ops op id).trans (by simp [hpush, h.kept id]) }

/-- **Every operation keeps the counts.** -/
theorem Sound.step {ops : List Op} {f f' : Family} (h : Sound ops f) (op : Op)
    (hstep : f.step op = some f') : Sound (ops ++ [op]) f' := by
  obtain ⟨hdead, htracked⟩ := h
  cases op with
  | create ref flags channels =>
    cases hstep
    refine ⟨hdead, ?_⟩
    have hnew := htracked.create ref flags channels
    rw [sizes_snoc]
    exact { hnew with
      kept := fun id => (pushed_snoc ops _ id).trans (.trans (by simp) (htracked.kept id)) }
  | insert t key =>
    simp only [Family.step, Option.ite_none_right_eq_some, Option.some.injEq] at hstep
    obtain ⟨ht, rfl⟩ := hstep
    -- a new node has an empty list, so the wrappers are those of before
    refine .of_tracked hdead ?_ rfl (by simp)
    have hroot : f.names[t]? = some f.names[t] := List.getElem?_eq_getElem ht
    obtain ⟨rest, hrest⟩ := flatMap_split CrazySnail.wrappers hroot
    refine htracked.perm ?_
    have hnames : (f.names.flatMap CrazySnail.wrappers).Perm
        ((f.names.modify t fun root => (CrazySnail.insert root key).1).flatMap
          CrazySnail.wrappers) := by
      rw [modify_eq_set _ hroot, insert_eq]
      have hold := hrest f.names[t]
      rw [set_self hroot] at hold
      refine hold.trans ?_
      simpa using (hrest (f.names[t].insert nameCmp (strdup key) .fresh).1).symm
    exact (hnames.append_left _).append_right _
  | insertTimer t key =>
    simp only [Family.step, Option.ite_none_right_eq_some, Option.some.injEq] at hstep
    obtain ⟨ht, rfl⟩ := hstep
    refine .of_tracked hdead ?_ rfl (by simp)
    have hroot : f.timers[t]? = some f.timers[t] := List.getElem?_eq_getElem ht
    obtain ⟨rest, hrest⟩ := flatMap_split CrazySnail.wrappers hroot
    refine htracked.perm ?_
    have htimers : (f.timers.flatMap CrazySnail.wrappers).Perm
        ((f.timers.modify t fun root => (CrazySnail.insertTimer root key).2.1).flatMap
          CrazySnail.wrappers) := by
      rw [modify_eq_set _ hroot, insertTimer_eq]
      have hold := hrest f.timers[t]
      rw [set_self hroot] at hold
      refine hold.trans ?_
      simpa using (hrest (f.timers[t].insert timerCmp key .fresh).1).symm
    exact htimers.append_left _
  | push place id =>
    obtain ⟨list, hlist, hpush⟩ := Option.bind_eq_some_iff.mp hstep
    simp only [Option.ite_none_right_eq_some] at hpush
    obtain ⟨⟨hlt, hfreed⟩, hpush⟩ := hpush
    have halive : f.store.heap.cb id ≠ none := fun hnone =>
      hfreed ((htracked.gone id).mpr ⟨hlt, hnone⟩)
    rw [if_pos (Option.isSome_iff_ne_none.mpr halive)] at hpush
    cases hpush
    -- one more entry on this list, the other lists as they were
    obtain ⟨rest, hold, hset⟩ := wrappers_split hlist
    refine ⟨by simpa using hdead, ?_⟩
    have hperm : (CbPtr.heap id :: f.wrappers).Perm
        (f.setList (list ++ [.heap id]) place).wrappers := by
      have hnew := hset (list ++ [.heap id])
      rw [List.append_assoc] at hnew
      exact ((hold.cons _).trans List.perm_middle.symm).trans hnew.symm
    have hnew := (htracked.push halive).perm hperm
    rw [sizes_snoc, show sizes [.push place id] = [] from rfl, List.append_nil]
    exact { hnew with
      kept := fun i => (pushed_snoc ops _ i).trans (.trans (by simp [eq_comm]) (hnew.kept i)) }
  | shift place =>
    obtain ⟨list, hlist, rfl⟩ := Option.map_eq_some_iff.mp hstep
    obtain ⟨rest, hold, hset⟩ := wrappers_split hlist
    have htracked' := htracked.perm hold
    cases list with
    | nil => exact .of_tracked hdead htracked rfl (by simp)
    | cons p tail =>
      -- the first entry goes, and its record with the last wrapper
      obtain ⟨id, rfl⟩ := htracked'.heapOnly p (by simp)
      obtain ⟨store, hstore, hnew⟩ := htracked'.destroyWrapper
      obtain ⟨heap, hheap, rfl⟩ := Option.map_eq_some_iff.mp hstore
      obtain ⟨c, hc⟩ := Option.ne_none_iff_exists'.mp
        (htracked'.counted.alive id List.mem_cons_self)
      have hshift : shiftCb (.heap id :: tail) f.store.heap = .ok tail c heap := by
        simp [shiftCb, Heap.deref, hc, hheap]
      simp only [hshift]
      exact .of_tracked (by simpa using hdead) (hnew.perm (hset tail).symm) rfl (by simp)
  | destroyList place =>
    obtain ⟨list, hlist, rfl⟩ := Option.map_eq_some_iff.mp hstep
    obtain ⟨rest, hold, hset⟩ := wrappers_split hlist
    obtain ⟨store, hstore, hnew⟩ := (htracked.perm hold).destroyList
    simp only [hstore]
    exact .of_tracked (by simpa using hdead) (hnew.perm (hset []).symm) rfl (by simp)
  | destroyNames t =>
    obtain ⟨root, hroot, rfl⟩ := Option.map_eq_some_iff.mp hstep
    obtain ⟨rest, hrest⟩ := flatMap_split CrazySnail.wrappers hroot
    have hold := hrest root
    rw [set_self hroot] at hold
    -- bring the wrappers of this tree to the front: they are destroyed one by one
    have hsplit : f.wrappers.Perm (CrazySnail.wrappers root ++
        (rest ++ (f.lists.flatten ++ f.timers.flatMap CrazySnail.wrappers))) := by
      refine (List.perm_append_comm.append_right _).trans ?_
      simpa only [List.append_assoc] using
        hold.append_right (f.lists.flatten ++ f.timers.flatMap CrazySnail.wrappers)
    obtain ⟨store, hstore, hnew⟩ := (htracked.perm hsplit).destroyTree
    simp only [hstore]
    refine .of_tracked hdead (hnew.perm ?_) rfl (by simp)
    refine .trans ?_ (List.perm_append_comm.append_right _)
    simpa only [List.append_assoc, wrappers_null, List.nil_append] using
      (hrest .null).symm.append_right (f.lists.flatten ++ f.timers.flatMap CrazySnail.wrappers)
  | destroyTimers t =>
    obtain ⟨root, hroot, rfl⟩ := Option.map_eq_some_iff.mp hstep
    obtain ⟨rest, hrest⟩ := flatMap_split CrazySnail.wrappers hroot
    have hold := hrest root
    rw [set_self hroot] at hold
    have hsplit : f.wrappers.Perm (CrazySnail.wrappers root ++
        (rest ++ (f.lists.flatten ++ f.names.flatMap CrazySnail.wrappers))) := by
      refine List.perm_append_comm.trans ?_
      simpa only [List.append_assoc] using
        hold.append_right (f.lists.flatten ++ f.names.flatMap CrazySnail.wrappers)
    obtain ⟨store, hstore, hnew⟩ := (htracked.perm hsplit).destroyTree
    simp only [hstore]
    refine .of_tracked hdead (hnew.perm ?_) rfl (by simp)
    refine .trans ?_ List.perm_append_comm
    simpa only [List.append_assoc, wrappers_null, List.nil_append] using
      (hrest .null).symm.append_right (f.lists.flatten ++ f.names.flatMap CrazySnail.wrappers)

/-- What reference counting promises after the operations `ops`. -/
structure CountsExactly (ops : List Op) (f : Family) : Prop where
  /-- no operation has read a record that was freed -/
  alive : f.dead = false
  attach : ∀ id c, f.store.heap.cb id = some c → c.attach = f.wrappers.count (.heap id)
  /-- nothing is freed twice -/
  once : f.store.freed.Nodup
  /-- a record is freed as soon as it has lost its last wrapper, and not before -/
  record : ∀ id, .callback id ∈ f.store.freed ↔ Pushed ops id ∧ .heap id ∉ f.wrappers
  /-- its channels are freed with it, all of them -/
  channels : ∀ id slot, .channel id slot ∈ f.store.freed ↔
    .callback id ∈ f.store.freed ∧ ∃ n, (sizes ops)[id]? = some n ∧ slot < n
  /-- what is not freed is allocated -/
  allocated : ∀ id, f.store.heap.cb id = none ↔
    (sizes ops).length ≤ id ∨ .callback id ∈ f.store.freed
  /-- nothing is left when everything is destroyed -/
  teardown : (∀ list ∈ f.lists, list = []) → (∀ root ∈ f.names, root = .null) →
    (∀ root ∈ f.timers, root = .null) → ∀ id, Pushed ops id → f.store.heap.cb id = none

end Family

/-- **Callbacks are counted exactly**, whatever is done with the lists and trees. -/
theorem callbacks_counted {lists names timers : Nat} {ops : List Op} {f : Family}
    (hrun : Transition.run Family.step (Family.empty lists names timers) ops = some f) :
    f.CountsExactly ops := by
  have hsound : f.Sound ops := by
    induction ops using List.reverseRecOn generalizing f with
    | nil =>
      cases hrun
      exact Family.sound_empty lists names timers
    | append_singleton ops op ih =>
      rw [Transition.run_append] at hrun
      obtain ⟨g, hg, hstep⟩ := Option.bind_eq_some_iff.mp hrun
      refine (ih hg).step op ?_
      simpa [Transition.run_cons] using hstep
  obtain ⟨hdead, htracked⟩ := hsound
  -- a record is freed when it has been pushed and no wrapper is left
  have hrecord : ∀ id, .callback id ∈ f.store.freed ↔ Pushed ops id ∧ .heap id ∉ f.wrappers := by
    intro id
    rw [htracked.kept]
    constructor
    · intro hid
      refine ⟨.inl hid, fun hmem => ?_⟩
      exact htracked.counted.alive id hmem ((htracked.gone id).mp hid).2
    · rintro ⟨hid | hmem, hnot⟩
      · exact hid
      · exact absurd hmem hnot
  have hallocated : ∀ id, f.store.heap.cb id = none ↔
      (sizes ops).length ≤ id ∨ .callback id ∈ f.store.freed := by
    intro id
    rw [htracked.gone, ← htracked.next]
    constructor
    · intro hid
      by_cases hlt : id < f.store.heap.next
      · exact .inr ⟨hlt, hid⟩
      · exact .inl (Nat.not_lt.mp hlt)
    · rintro (hle | hand)
      · exact htracked.counted.fresh id hle
      · exact hand.2
  refine ⟨hdead, htracked.counted.attach, htracked.once, hrecord, htracked.channels, hallocated, ?_⟩
  intro hlists hnames htimers id hid
  -- once all lists are empty nothing that was pushed is alive
  have hnone : f.wrappers = [] := by
    simp only [Family.wrappers, List.append_eq_nil_iff, List.flatten_eq_nil_iff,
      List.flatMap_eq_nil_iff]
    refine ⟨⟨hlists, fun root hroot => ?_⟩, fun root hroot => ?_⟩
    · rw [hnames root hroot, wrappers_null]
    · rw [htimers root hroot, wrappers_null]
  exact (hallocated id).mpr (.inr ((hrecord id).mpr ⟨hid, by simp [hnone]⟩))

/-- A record on two lists and twice in a tree, torn down from all sides. -/
def sharedOps : List Op :=
  [.create (.ref 1) false [createChannel (ascii "a"), createChannel (ascii "b")],
   .insert 0 (ascii "a"), .push (.name 0 []) 0, .push (.list 0) 0, .insert 0 (ascii "a"),
   .push (.name 0 []) 0, .push (.list 1) 0, .shift (.list 0), .destroyNames 0, .shift (.list 1)]

theorem callbacks_counted_shared :
    ∃ f, Transition.run Family.step (Family.empty 2 1 0) sharedOps = some f ∧
      f.CountsExactly sharedOps ∧
      f.store.freed = [.channel 0 0, .channel 0 1, .callback 0] := by
  have hrun : (Transition.run Family.step (Family.empty 2 1 0) sharedOps).map
      (fun f => f.store.freed) = some [.channel 0 0, .channel 0 1, .callback 0] := by decide
  obtain ⟨f, hf, hfreed⟩ := Option.map_eq_some_iff.mp hrun
  exact ⟨f, hf, callbacks_counted hf, hfreed⟩

end CrazySnail
