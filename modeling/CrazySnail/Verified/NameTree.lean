import CrazySnail.Cb

/-! # The trees of `cb.c` are search trees

The name tree compares as many characters as the key looked for has, so a key matches
every name it is a prefix of.  `nameCmp` is that comparison; with it, and with the
order of the intervals for the timer tree, the functions of `cb.c` are the operations of
the library.
-/

namespace CrazySnail

open SearchTree (Tree Path Side Lawful)

/-! ## The comparison of names -/

/-- How `insert` and `search` compare a key with the key of a node. -/
def nameCmp (key nkey : Bytes) : Ordering := strncmp key nkey (strlen key)

@[simp] theorem strlen_nil : strlen [] = 0 := rfl

theorem strlen_cons {c : Byte} (hc : c ≠ 0) (s : Bytes) : strlen (c :: s) = strlen s + 1 := by
  simp [strlen, strdup, hc]

@[simp] theorem strdup_strdup (s : Bytes) : strdup (strdup s) = strdup s := by
  simp [strdup, List.takeWhile_takeWhile]

@[simp] theorem strlen_strdup (s : Bytes) : strlen (strdup s) = strlen s := by
  rw [strlen, strdup_strdup, strlen]

/-- A C string ends where its terminator is. -/
theorem strncmp_strdup (s t : Bytes) (n : Nat) : strncmp (strdup s) t n = strncmp s t n := by
  induction n generalizing s t with
  | zero => rfl
  | succ n ih =>
    cases s with
    | nil => rfl
    | cons c s =>
      by_cases hc : c = 0
      · subst hc; simp [strdup, strncmp]
      · have hd : strdup (c :: s) = c :: strdup s := by simp [strdup, hc]
        simp only [hd, strncmp, List.headD_cons, List.tail_cons, ih]
        rfl

theorem strncmp_self (s : Bytes) (n : Nat) : strncmp s s n = .eq := by
  induction n generalizing s with
  | zero => rfl
  | succ n ih =>
    have hirrefl : ¬s.headD 0 < s.headD 0 := UInt8.lt_irrefl _
    simp only [strncmp, if_neg hirrefl, ih, ite_self]

/-- Equal up to the length of the shorter string, two strings differ from a third one at
    the same place. -/
theorem strncmp_absorb {k k' m : Bytes} (hk : strncmp k k' (strlen k) = .eq)
    (hm : strncmp k m (strlen k) ≠ .eq) :
    strncmp k' m (strlen k') = strncmp k m (strlen k) := by
  induction k generalizing k' m with
  | nil => exact absurd rfl hm
  | cons c k ih =>
    by_cases hc : c = 0
    · subst hc; exact absurd rfl hm
    · rw [strlen_cons hc] at hk hm ⊢
      -- k and k' have the same first character
      obtain ⟨hhead, htail⟩ : k'.headD 0 = c ∧ strncmp k k'.tail (strlen k) = .eq := by
        simp only [strncmp, List.headD_cons, List.tail_cons, hc, if_false] at hk
        split at hk
        · cases hk
        · split at hk
          · cases hk
          next hlt hgt => exact ⟨UInt8.le_antisymm (UInt8.not_lt.mp hlt) (UInt8.not_lt.mp hgt), hk⟩
      cases k' with
      | nil => exact absurd hhead.symm hc
      | cons c' k' =>
        obtain rfl : c' = c := hhead
        rw [strlen_cons hc]
        simp only [strncmp, List.headD_cons, List.tail_cons, hc, if_false] at hm htail ⊢
        split
        · rfl
        · split
          · rfl
          next hlt hgt =>
            simp only [hlt, hgt, if_false] at hm
            exact ih htail hm

theorem strdup_eq (s : Bytes) :
    strdup s = if s.headD 0 = 0 then [] else s.headD 0 :: strdup s.tail := by
  cases s with
  | nil => rfl
  | cons c s => by_cases hc : c = 0 <;> simp [strdup, hc]

/-- Comparing `n` characters compares that much of the C strings. -/
theorem strncmp_eq_iff (s t : Bytes) (n : Nat) :
    strncmp s t n = .eq ↔ (strdup s).take n = (strdup t).take n := by
  induction n generalizing s t with
  | zero => simp [strncmp]
  | succ n ih =>
    rw [strdup_eq s, strdup_eq t, strncmp]
    generalize s.headD 0 = a
    generalize t.headD 0 = b
    by_cases hab : a = b
    · subst hab
      by_cases ha : a = 0
      · simp [ha]
      · simp [ha, UInt8.lt_irrefl, ih]
    · have hcmp : (if a < b then Ordering.lt else if b < a then .gt else if a = 0 then .eq
          else strncmp s.tail t.tail n) ≠ .eq := by
        rcases UInt8.lt_or_lt_of_ne hab with hlt | hgt
        · simp [hlt]
        · simp [hgt, UInt8.not_lt.mpr (UInt8.le_of_lt hgt)]
      refine iff_of_false hcmp fun heq => ?_
      by_cases ha : a = 0 <;> by_cases hb : b = 0 <;> simp [ha, hb] at heq
      · exact hab (ha.trans hb.symm)
      · exact hab heq.1

/-- `strncmp` with a whole C string is a test for a prefix. -/
theorem strncmp_prefix {s p : Bytes} (hp : (0 : Byte) ∉ p) :
    strncmp s p (strlen p) = .eq ↔ p <+: s := by
  have hne : ∀ c ∈ p, (decide (c ≠ 0)) = true := fun c hc =>
    decide_eq_true fun heq => hp (heq ▸ hc)
  have hdup : strdup p = p := List.takeWhile_eq_self_iff.mpr hne
  rw [strncmp_eq_iff, strlen, hdup, List.take_length]
  constructor
  · intro h
    rw [← h]
    exact (List.take_prefix _ _).trans (List.takeWhile_prefix _)
  · rintro ⟨t, rfl⟩
    rw [strdup, List.takeWhile_append_of_pos hne, List.take_left]

theorem strcmp_eq_iff {s t : Bytes} : strcmp s t = .eq ↔ strdup s = strdup t := by
  have hs : (strdup s).length ≤ s.length := (List.takeWhile_sublist _).length_le
  have ht : (strdup t).length ≤ t.length := (List.takeWhile_sublist _).length_le
  rw [strcmp, strncmp_eq_iff, List.take_of_length_le (by omega), List.take_of_length_le (by omega)]

/-- The comparison of names is fit for a search tree. -/
theorem nameCmp_lawful : Lawful nameCmp where
  refl k := strncmp_self k _
  absorb hk hm := strncmp_absorb hk hm

theorem nameCmp_strdup (k m : Bytes) : nameCmp (strdup k) m = nameCmp k m := by
  rw [nameCmp, strlen_strdup, strncmp_strdup, nameCmp]

/-! ## The name tree -/

/-- `insert` inserts the key up to its terminator. -/
theorem insert_eq (t : NodeT Bytes) (key : Bytes) :
    insert t key = t.insert nameCmp (strdup key) .fresh := by
  induction t with
  | null => rfl
  | node nkey val l r ihl ihr =>
    have hcmp : strncmp key nkey (strlen key) = nameCmp key nkey := rfl
    simp only [insert, Tree.insert, nameCmp_strdup, hcmp, ← ihl, ← ihr]
    cases nameCmp key nkey <;> rfl

theorem search_eq (key : Bytes) (t : NodeT Bytes) : search key t = t.lookup nameCmp key := by
  induction t with
  | null => rfl
  | node nkey val l r ihl ihr =>
    have hcmp : strncmp key nkey (strlen key) = nameCmp key nkey := rfl
    simp only [search, Tree.lookup, hcmp, ← ihl, ← ihr]
    cases nameCmp key nkey <;> rfl

theorem lookup_strdup (key : Bytes) (t : NodeT Bytes) :
    t.lookup nameCmp (strdup key) = t.lookup nameCmp key := by
  induction t with
  | null => rfl
  | node nkey val l r ihl ihr => simp only [Tree.lookup, nameCmp_strdup, ihl, ihr]

/-! ## The timer tree -/

/-- How `insert_timer` and `search_timer` compare intervals. -/
def timerCmp (key ikey : UInt64) : Ordering :=
  if key < ikey then .lt else if key > ikey then .gt else .eq

theorem timerCmp_eq_iff {key ikey : UInt64} : timerCmp key ikey = .eq ↔ key = ikey := by
  unfold timerCmp
  constructor
  · intro h
    split at h
    · cases h
    · split at h
      · cases h
      next hlt hgt => exact UInt64.le_antisymm (UInt64.not_lt.mp hgt) (UInt64.not_lt.mp hlt)
  · rintro rfl
    simp [UInt64.lt_irrefl]

theorem timerCmp_lawful : Lawful timerCmp where
  refl _ := timerCmp_eq_iff.mpr rfl
  absorb hk _ := by rw [timerCmp_eq_iff.mp hk]

/-- `insert_timer` inserts the interval; it reports `2` for a new node. -/
theorem insertTimer_eq (t : NodeT UInt64) (key : UInt64) :
    insertTimer t key =
      (if t.lookup timerCmp key = none then 2 else SNAIL_OK, t.insert timerCmp key .fresh) := by
  induction t with
  | null => rfl
  | node ikey val l r ihl ihr =>
    simp only [insertTimer, Tree.insert_node, Tree.lookup_node, ihl, ihr, timerCmp]
    split
    · simp
    · split <;> simp

theorem searchTimer_eq (key : UInt64) (t : NodeT UInt64) :
    searchTimer key t = t.lookup timerCmp key := by
  induction t with
  | null => rfl
  | node ikey val l r ihl ihr =>
    rw [searchTimer, Tree.lookup_node, ihl, ihr]
    by_cases heq : key = ikey
    · rw [if_pos heq, timerCmp_eq_iff.mpr heq]
    · rw [if_neg heq]
      by_cases hlt : key < ikey
      · rw [if_pos hlt, timerCmp, if_pos hlt]
      · have hgt : key > ikey := by
          rw [gt_iff_lt, UInt64.lt_iff_le_and_ne]
          exact ⟨UInt64.not_lt.mp hlt, fun h => heq h.symm⟩
        rw [if_neg hlt, timerCmp, if_neg hlt, if_pos hgt]

end CrazySnail
