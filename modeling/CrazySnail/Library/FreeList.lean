import Mathlib

/-! # Free lists

An allocator that hands out the block freed last, or a new one if there is none.  Blocks
are numbered in the order in which they were made.  `held` lists the blocks somebody owns,
once for every owner: with `Exclusive` no block has two owners or is owned while it is free,
and with `Conserved` no block is lost either.
-/

namespace FreeListPool

structure FreeList where
  free : List Nat
  next : Nat

namespace FreeList

/-- Hand out a block. -/
def alloc (p : FreeList) : Nat × FreeList :=
  match p.free with
  | b :: rest => (b, { p with free := rest })
  | [] => (p.next, { p with next := p.next + 1 })

/-- Take a block back. -/
def release (p : FreeList) (b : Nat) : FreeList := { p with free := b :: p.free }

/-- Every block has one owner, or none and it may be free. -/
structure Exclusive (p : FreeList) (held : List Nat) : Prop where
  nodup : (p.free ++ held).Nodup
  made : ∀ b ∈ p.free ++ held, b < p.next

/-- Every block ever made is free or has one owner. -/
def Conserved (p : FreeList) (held : List Nat) : Prop :=
  (p.free ++ held).Perm (List.range p.next)

variable {p : FreeList} {held held' : List Nat} {b : Nat}

/-! ## Exclusive ownership -/

namespace Exclusive

theorem perm (h : p.Exclusive held) (hperm : held.Perm held') : p.Exclusive held' := by
  have hall : (p.free ++ held).Perm (p.free ++ held') := hperm.append_left _
  exact ⟨hall.nodup_iff.mp h.nodup, fun b hb => h.made b (hall.mem_iff.mpr hb)⟩

/-- What is handed out gets an owner. -/
theorem alloc (h : p.Exclusive held) : p.alloc.2.Exclusive (p.alloc.1 :: held) := by
  unfold FreeList.alloc
  cases hfree : p.free with
  | nil =>
    obtain ⟨hnodup, hmade⟩ := h
    rw [hfree, List.nil_append] at hnodup hmade
    exact ⟨List.nodup_cons.mpr ⟨fun hmem => Nat.lt_irrefl _ (hmade _ hmem), hnodup⟩,
      List.forall_mem_cons.mpr
        ⟨Nat.lt_succ_self _, fun b hb => Nat.lt_succ_of_lt (hmade b hb)⟩⟩
  | cons b rest =>
    obtain ⟨hnodup, hmade⟩ := h
    rw [hfree] at hnodup hmade
    have hall : (b :: rest ++ held).Perm (rest ++ b :: held) := List.perm_middle.symm
    exact ⟨hall.nodup_iff.mp hnodup, fun x hx => hmade x (hall.mem_iff.mpr hx)⟩

/-- An owner gives its block back. -/
theorem release (h : p.Exclusive (b :: held)) : (p.release b).Exclusive held := by
  have hall : (p.free ++ b :: held).Perm (b :: p.free ++ held) := List.perm_middle
  exact ⟨hall.nodup_iff.mp h.nodup, fun x hx => h.made x (hall.mem_iff.mpr hx)⟩

/-- An owner forgets its block. -/
theorem lose (h : p.Exclusive (b :: held)) : p.Exclusive held :=
  ⟨h.nodup.sublist ((List.sublist_cons_self b held).append_left _),
    fun x hx => h.made x (((List.sublist_cons_self b held).append_left _).subset hx)⟩

theorem not_held_of_free (h : p.Exclusive held) (hb : b ∈ p.free) : b ∉ held :=
  fun hheld => List.disjoint_of_nodup_append h.nodup hb hheld

/-- The next block handed out has no owner and is not on the list any more. -/
theorem alloc_fresh (h : p.Exclusive held) : p.alloc.1 ∉ held ∧ p.alloc.1 ∉ p.alloc.2.free := by
  have hnodup := h.alloc.nodup
  rw [List.nodup_append, List.nodup_cons] at hnodup
  exact ⟨hnodup.2.1.1, fun hmem => hnodup.2.2 _ hmem _ List.mem_cons_self rfl⟩

end Exclusive

/-! ## Conservation -/

namespace Conserved

/-- What is handed out gets an owner; the count of blocks follows the count of owners. -/
theorem alloc (h : p.Conserved held) : p.alloc.2.Conserved (p.alloc.1 :: held) ∧
    p.alloc.2.next ≤ max p.next (held.length + 1) := by
  unfold FreeList.alloc
  cases hfree : p.free with
  | nil =>
    rw [Conserved, hfree, List.nil_append] at h
    have hlength := h.length_eq
    rw [List.length_range] at hlength
    refine ⟨?_, by rw [hlength]; exact Nat.le_max_right _ _⟩
    change (p.next :: held).Perm (List.range (p.next + 1))
    rw [List.range_succ]
    exact (h.cons p.next).trans (List.perm_append_singleton _ _).symm
  | cons b rest =>
    rw [Conserved, hfree] at h
    exact ⟨List.perm_middle.trans h, Nat.le_max_left _ _⟩

/-- An owner gives its block back. -/
theorem release (h : p.Conserved (b :: held)) : (p.release b).Conserved held :=
  List.perm_middle.symm.trans h

end Conserved

end FreeList

end FreeListPool
