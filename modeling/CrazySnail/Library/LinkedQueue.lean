import Mathlib

/-! # Linked queues

A singly linked list with a pointer to its first and to its last cell: cells are linked
in at the tail and come off at the head.  The cells of all lists live in one finite
memory, and the address of a cell that was freed may be given out again.

`Chain m p cells` reads a list off the memory.  Such a reading is unique, so a chain
never visits a cell twice (`Chain.nodup`), and a change elsewhere does not affect it
(`Chain.frame`).
-/

namespace LinkedQueue

abbrev Addr := Nat

structure Cell (α : Type*) where
  item : α
  next : Option Addr
deriving DecidableEq

/-- The cells that are allocated. -/
abbrev Memory (α : Type*) := AList fun _ : Addr => Cell α

/-- The two pointers of a list; `none` is the null pointer. -/
structure Ends where
  head : Option Addr
  tail : Option Addr
deriving DecidableEq

namespace Ends

def empty : Ends := ⟨none, none⟩

end Ends

/-- The cells visited from `p` on, with their items, up to the null pointer. -/
inductive Chain {α : Type*} (m : Memory α) : Option Addr → List (Addr × α) → Prop
  | nil : Chain m none []
  | cons {a : Addr} {cell : Cell α} {cells : List (Addr × α)} :
      m.lookup a = some cell → Chain m cell.next cells →
      Chain m (some a) ((a, cell.item) :: cells)

section
variable {α : Type*} {m m' : Memory α} {p : Option Addr} {a t : Addr} {x y : α}
  {cells rest front : List (Addr × α)}

/-- The addresses of the cells. -/
def addresses (cells : List (Addr × α)) : List Addr := cells.map Prod.fst

@[simp] theorem addresses_nil : addresses ([] : List (Addr × α)) = [] := rfl

@[simp] theorem addresses_cons (c : Addr × α) : addresses (c :: cells) = c.1 :: addresses cells :=
  rfl

@[simp] theorem addresses_append : addresses (cells ++ rest) = addresses cells ++ addresses rest :=
  List.map_append

/-! ## Chains -/

namespace Chain

theorem eq_none (h : Chain m p []) : p = none := by
  cases h
  rfl

theorem cons_inv (h : Chain m p ((a, x) :: rest)) :
    p = some a ∧ ∃ next, m.lookup a = some ⟨x, next⟩ ∧ Chain m next rest := by
  cases h with
  | cons hcell hrest => exact ⟨rfl, _, hcell, hrest⟩

theorem head_eq (h : Chain m p cells) : p = (addresses cells).head? := by
  cases h <;> rfl

/-- A chain depends on the cells that it visits only. -/
theorem frame (h : Chain m p cells) (hm : ∀ b ∈ addresses cells, m'.lookup b = m.lookup b) :
    Chain m' p cells := by
  induction h with
  | nil => exact .nil
  | cons hcell _ ih =>
    refine .cons ((hm _ List.mem_cons_self).trans hcell) (ih fun b hb => ?_)
    exact hm b (List.mem_cons_of_mem _ hb)

theorem unique {cells' : List (Addr × α)} (h : Chain m p cells) (h' : Chain m p cells') :
    cells = cells' := by
  induction h generalizing cells' with
  | nil =>
    cases h'
    rfl
  | cons hcell _ ih =>
    cases h' with
    | cons hcell' hrest' =>
      obtain rfl := Option.some.inj (hcell.symm.trans hcell')
      rw [ih hrest']

/-- What is visited from a cell in the middle on. -/
theorem suffix (h : Chain m p (front ++ (a, x) :: rest)) : Chain m (some a) ((a, x) :: rest) := by
  induction front generalizing p with
  | nil =>
    obtain ⟨rfl, -⟩ := cons_inv h
    exact h
  | cons c front ih =>
    obtain ⟨-, _, -, hrest⟩ := cons_inv h
    exact ih hrest

theorem nodup (h : Chain m p cells) : (addresses cells).Nodup := by
  induction h with
  | nil => exact List.nodup_nil
  | @cons a cell cells hcell hrest ih =>
    refine List.nodup_cons.mpr ⟨fun hmem => ?_, ih⟩
    -- visited again, the cell would start a chain that is a proper part of itself
    obtain ⟨⟨b, y⟩, hb, rfl⟩ := List.mem_map.mp hmem
    obtain ⟨front, rest, rfl⟩ := List.append_of_mem hb
    have heq := congrArg List.length ((Chain.cons hcell hrest).unique hrest.suffix)
    simp only [List.length_cons, List.length_append] at heq
    omega

/-- The cells of a chain are allocated. -/
theorem allocated (h : Chain m p cells) : ∀ b ∈ addresses cells, b ∈ m := by
  induction h with
  | nil => exact fun b hb => absurd hb List.not_mem_nil
  | cons hcell _ ih =>
    refine List.forall_mem_cons.mpr ⟨?_, ih⟩
    exact AList.lookup_isSome.mp (Option.isSome_of_eq_some hcell)

/-- A chain is no longer than the memory has cells. -/
theorem length_le (h : Chain m p cells) : cells.length ≤ m.entries.length := by
  have hsub : addresses cells ⊆ m.keys := fun b hb => AList.mem_keys.mp (h.allocated b hb)
  have hle := (List.subperm_of_subset h.nodup hsub).length_le
  simpa [addresses, AList.keys, List.keys] using hle

theorem last_lookup (h : Chain m p (front ++ [(t, y)])) : m.lookup t = some ⟨y, none⟩ := by
  obtain ⟨-, next, hcell, hnil⟩ := cons_inv h.suffix
  rw [hcell, hnil.eq_none]

/-- Link a new cell behind the last one. -/
theorem snoc (h : Chain m p (front ++ [(t, y)])) (ht : m'.lookup t = some ⟨y, some a⟩)
    (ha : m'.lookup a = some ⟨x, none⟩)
    (hm : ∀ b ∈ addresses front, m'.lookup b = m.lookup b) :
    Chain m' p (front ++ [(t, y)] ++ [(a, x)]) := by
  induction front generalizing p with
  | nil =>
    obtain ⟨rfl, -⟩ := cons_inv h
    exact .cons ht (.cons ha .nil)
  | cons c front ih =>
    obtain ⟨rfl, next, hcell, hrest⟩ := cons_inv h
    have hrest' := ih hrest fun b hb => hm b (List.mem_cons_of_mem _ hb)
    exact .cons ((hm _ List.mem_cons_self).trans hcell) hrest'

end Chain

/-! ## Contents of a memory -/

/-- The items of all cells. -/
def contents (m : Memory α) : List α := m.entries.map fun c => c.2.item

theorem contents_insert {cell : Cell α} (ha : a ∉ m) :
    contents (m.insert a cell) = cell.item :: contents m := by
  rw [contents, AList.entries_insert_of_notMem ha]
  rfl

theorem contents_erase {cell : Cell α} (ha : m.lookup a = some cell) :
    (contents m).Perm (cell.item :: contents (m.erase a)) := by
  have hmem : a ∈ m.entries.keys := AList.lookup_isSome.mp (Option.isSome_of_eq_some ha)
  obtain ⟨cell', l₁, l₂, -, hsplit, herase⟩ := List.exists_of_kerase hmem
  have hentry : (⟨a, cell'⟩ : Sigma fun _ : Addr => Cell α) ∈ m.entries := by
    rw [hsplit]
    exact List.mem_append_right _ List.mem_cons_self
  have hcell : m.lookup a = some cell' := List.mem_dlookup m.nodupKeys hentry
  obtain rfl := Option.some.inj (ha.symm.trans hcell)
  have hrest : (m.erase a).entries = l₁ ++ l₂ := herase
  rw [contents, contents, hrest, hsplit, List.map_append, List.map_append, List.map_cons]
  exact List.perm_middle

/-- `a->next = next`; `none` when `a` is not allocated. -/
def setNext (m : Memory α) (a : Addr) (next : Option Addr) : Option (Memory α) :=
  (m.lookup a).map fun cell => m.insert a { cell with next }

/-- Link `a` in behind the cell that `tail` leads to. -/
def linkTail (m : Memory α) (tail : Option Addr) (a : Addr) : Option (Memory α) :=
  tail.elim (some m) fun t => setNext m t (some a)

theorem contents_setNext {next : Option Addr} (h : setNext m a next = some m') :
    (contents m').Perm (contents m) := by
  obtain ⟨cell, hcell, rfl⟩ := Option.map_eq_some_iff.mp h
  refine .trans ?_ (contents_erase hcell).symm
  rw [contents, AList.entries_insert]
  exact .refl _

end

/-! ## Queues -/

/-- The list between the two pointers consists of `cells`. -/
structure IsQueue {α : Type*} (m : Memory α) (e : Ends) (cells : List (Addr × α)) : Prop where
  chain : Chain m e.head cells
  tail : e.tail = (addresses cells).getLast?

namespace IsQueue
variable {α : Type*} {m m' : Memory α} {e : Ends} {a : Addr} {x : α} {cells rest : List (Addr × α)}

theorem empty : IsQueue m .empty [] := ⟨.nil, rfl⟩

theorem frame (h : IsQueue m e cells) (hm : ∀ b ∈ addresses cells, m'.lookup b = m.lookup b) :
    IsQueue m' e cells := ⟨h.chain.frame hm, h.tail⟩

theorem head_eq_none_iff (h : IsQueue m e cells) : e.head = none ↔ cells = [] := by
  rw [h.chain.head_eq, List.head?_eq_none_iff]
  exact List.map_eq_nil_iff

theorem tail_eq_none_iff (h : IsQueue m e cells) : e.tail = none ↔ cells = [] := by
  rw [h.tail, List.getLast?_eq_none_iff]
  exact List.map_eq_nil_iff

/-- The tail pointer leads to the last cell, which ends the chain. -/
theorem last (h : IsQueue m e cells) {t : Addr} (ht : e.tail = some t) :
    ∃ y front, cells = front ++ [(t, y)] ∧ m.lookup t = some ⟨y, none⟩ := by
  obtain rfl | ⟨front, ⟨b, y⟩, rfl⟩ := List.eq_nil_or_concat' cells
  · rw [h.tail_eq_none_iff.mpr rfl] at ht
    cases ht
  · have htail := h.tail
    rw [ht, addresses_append, addresses_cons, List.getLast?_append] at htail
    obtain rfl : t = b := Option.some.inj htail
    exact ⟨y, front, rfl, h.chain.last_lookup⟩

/-! ### Linking in at the tail -/

/-- The new cell `a` becomes the successor of the last one, if there is one. -/
theorem link (h : IsQueue m e cells) (ha : m.lookup a = some ⟨x, none⟩)
    (hnew : a ∉ addresses cells) :
    ∃ m', linkTail m e.tail a = some m' ∧
      IsQueue m' ⟨if e.head = none then some a else e.head, some a⟩ (cells ++ [(a, x)]) ∧
      m'.lookup a = some ⟨x, none⟩ ∧ (contents m').Perm (contents m) ∧
      ∀ b ∉ addresses cells, m'.lookup b = m.lookup b := by
  obtain rfl | ⟨front, ⟨t, y⟩, rfl⟩ := List.eq_nil_or_concat' cells
  · -- the first cell: both pointers lead to it
    rw [h.tail_eq_none_iff.mpr rfl, h.head_eq_none_iff.mpr rfl]
    exact ⟨m, rfl, ⟨.cons ha .nil, rfl⟩, ha, .refl _, fun _ _ => rfl⟩
  · have htail : e.tail = some t := by simp [h.tail]
    have hhead : e.head ≠ none := fun hnone => by
      simpa using h.head_eq_none_iff.mp hnone
    have hlast := h.chain.last_lookup
    have hset : setNext m t (some a) = some (m.insert t ⟨y, some a⟩) := by
      rw [setNext, hlast, Option.map_some]
    have hold : ∀ b, b ≠ t → (m.insert t ⟨y, some a⟩).lookup b = m.lookup b := fun b hb =>
      AList.lookup_insert_ne hb
    have hat : a ≠ t := fun heq => hnew (by simp [heq])
    have hnodup := h.chain.nodup
    rw [addresses_append, addresses_cons, List.nodup_append] at hnodup
    rw [htail, if_neg hhead]
    refine ⟨_, hset, ⟨?_, ?_⟩, (hold a hat).trans ha, contents_setNext hset, fun b hb => ?_⟩
    · refine h.chain.snoc (AList.lookup_insert _) ((hold a hat).trans ha) fun b hb => ?_
      exact hold b (hnodup.2.2 b hb t List.mem_cons_self)
    · simp
    · exact hold b fun heq => hb (by simp [heq])

/-! ### Taking off at the head -/

/-- The first cell is freed; if it was the last one too, nothing is left. -/
theorem unlink (h : IsQueue m e ((a, x) :: rest)) :
    e.head = some a ∧ ∃ next, m.lookup a = some ⟨x, next⟩ ∧
      IsQueue (m.erase a) ⟨next, if some a = e.tail then none else e.tail⟩ rest := by
  obtain ⟨hhead, next, hcell, hrest⟩ := h.chain.cons_inv
  have hnot : a ∉ addresses rest := (List.nodup_cons.mp h.chain.nodup).1
  refine ⟨hhead, next, hcell, hrest.frame fun b hb => ?_, ?_⟩
  · exact AList.lookup_erase_ne fun heq => hnot (heq ▸ hb)
  · have htail := h.tail
    rw [addresses_cons, List.getLast?_cons] at htail
    cases hlast : (addresses rest).getLast? with
    | none => simp [htail, hlast]
    | some t =>
      have hne : a ≠ t := fun heq => hnot (heq ▸ List.mem_of_getLast? hlast)
      simp [htail, hlast, hne]

end IsQueue

end LinkedQueue
