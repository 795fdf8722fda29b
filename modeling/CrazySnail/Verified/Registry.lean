import CrazySnail.Client

/-! # References in the Lua registry

`luaL_ref` takes slots from a free list and `luaL_unref` returns them.  The references
somebody holds are distinct and none of them is free (`Owned`), so a reference keeps its
function until its owner gives it back.
-/

namespace CrazySnail

/-- The slot of a reference. -/
def LuaRef.slot? : LuaRef → Option Nat
  | .ref n => some n
  | _ => none

namespace Lua

/-- The slots `ns` are in use, each by one owner. -/
structure Owned (l : Lua) (ns : List Nat) : Prop where
  nodup : (l.free ++ ns).Nodup
  bound : ∀ n ∈ l.free ++ ns, n ≤ l.size

variable {l : Lua} {ns : List Nat}

theorem owned_empty : Owned .empty [] := ⟨List.nodup_nil, by simp [empty]⟩

/-- An owner that forgets its slot does no harm. -/
theorem Owned.drop {n : Nat} (h : l.Owned (n :: ns)) : l.Owned ns := by
  have hsub : l.free ++ ns ⊆ l.free ++ n :: ns :=
    List.append_subset.mpr ⟨List.subset_append_left _ _,
      fun m hm => List.mem_append_right _ (List.mem_cons_of_mem _ hm)⟩
  refine ⟨?_, fun m hm => h.bound m (hsub hm)⟩
  exact h.nodup.sublist ((List.Sublist.refl _).append (List.sublist_cons_self n ns))

theorem Owned.perm {ns' : List Nat} (h : l.Owned ns) (hp : ns.Perm ns') : l.Owned ns' := by
  have hperm : (l.free ++ ns).Perm (l.free ++ ns') := hp.append_left l.free
  exact ⟨hperm.nodup_iff.mp h.nodup, fun m hm => h.bound m (hperm.mem_iff.mpr hm)⟩

theorem Owned.not_free {n : Nat} (h : l.Owned ns) (hn : n ∈ ns) : n ∉ l.free := fun hfree =>
  (List.nodup_append.mp h.nodup).2.2 n hfree n hn rfl

/-- The slot `luaL_ref` gives out is in nobody's use. -/
theorem Owned.ref_not_mem (h : l.Owned ns) (f : Fn) : (l.ref f).1 ∉ ns := by
  unfold ref
  split
  next n free hfree =>
    exact fun hn => h.not_free hn (hfree ▸ List.mem_cons_self)
  · intro hn
    have := h.bound _ (List.mem_append_right _ hn)
    omega

theorem Owned.ref (h : l.Owned ns) (f : Fn) : (l.ref f).2.Owned ((l.ref f).1 :: ns) := by
  obtain ⟨hnodup, hbound⟩ := h
  unfold Lua.ref
  split
  next n free hfree =>
    rw [hfree] at hnodup hbound
    have hperm : (free ++ n :: ns).Perm (n :: free ++ ns) := List.perm_middle
    exact ⟨hperm.nodup_iff.mpr hnodup, fun m hm => hbound m (hperm.mem_iff.mp hm)⟩
  next hfree =>
    rw [hfree] at hnodup hbound
    refine ⟨?_, ?_⟩
    · simp only [hfree, List.nil_append, List.nodup_cons] at hnodup ⊢
      refine ⟨fun hn => ?_, hnodup⟩
      have := hbound _ hn
      omega
    · intro m hm
      simp only [hfree, List.nil_append, List.mem_cons] at hm ⊢
      rcases hm with rfl | hm
      · exact Nat.le_refl _
      · exact Nat.le_succ_of_le (hbound m hm)

theorem Owned.head_not_mem {n : Nat} (h : l.Owned (n :: ns)) : n ∉ ns :=
  (List.nodup_cons.mp (List.nodup_append.mp h.nodup).2.1).1

theorem Owned.unref {n : Nat} (h : l.Owned (n :: ns)) : (l.unref (.ref n)).Owned ns := by
  have hperm : (l.free ++ n :: ns).Perm (n :: l.free ++ ns) := List.perm_middle
  exact ⟨hperm.nodup_iff.mp h.nodup, fun m hm => h.bound m (hperm.mem_iff.mpr hm)⟩

/-! ## Functions -/

@[simp] theorem ref_slots_self (l : Lua) (f : Fn) : (l.ref f).2.slots (l.ref f).1 = some f := by
  unfold ref
  split <;> exact Function.update_self ..

theorem ref_slots_of_ne {n : Nat} (f : Fn) (h : n ≠ (l.ref f).1) :
    (l.ref f).2.slots n = l.slots n := by
  unfold ref at h ⊢
  split at h <;> exact Function.update_of_ne h ..

theorem unref_slots_of_ne {m n : Nat} (h : m ≠ n) : (l.unref (.ref n)).slots m = l.slots m :=
  Function.update_of_ne h ..

end Lua

end CrazySnail
