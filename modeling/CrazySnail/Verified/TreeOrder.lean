import CrazySnail.Verified.NameTree

/-! # The trees are ordered

The keys of a name tree are strictly increasing under `strcmp`, although `insert` compares
no more characters than the new key has: where that much tells two names apart, it tells
them apart as `strcmp` does.  A name is found where it was inserted (`names_ordered`).  The
timer tree is a map from intervals to nodes (`timers_map`).
-/

namespace CrazySnail

open SearchTree (Tree Path)

/-! ## The order of names -/

theorem byte_trichotomy (a b : Byte) : a < b ∨ a = b ∨ b < a := by
  by_cases heq : a = b
  · exact .inr (.inl heq)
  · exact (UInt8.lt_or_lt_of_ne heq).imp id .inr

theorem strncmp_lt_iff (s t : Bytes) (n : Nat) :
    strncmp s t (n + 1) = .lt ↔ s.headD 0 < t.headD 0 ∨
      s.headD 0 = t.headD 0 ∧ s.headD 0 ≠ 0 ∧ strncmp s.tail t.tail n = .lt := by
  rw [strncmp]
  generalize s.headD 0 = a
  generalize t.headD 0 = b
  rcases byte_trichotomy a b with hlt | rfl | hgt
  · simp [hlt]
  · by_cases ha : a = 0 <;> simp [ha, UInt8.lt_irrefl]
  · have hnot : ¬a < b := UInt8.lt_asymm hgt
    simp [hgt, hnot, (UInt8.ne_of_lt hgt).symm]

theorem strncmp_swap (s t : Bytes) (n : Nat) : strncmp t s n = (strncmp s t n).swap := by
  induction n generalizing s t with
  | zero => rfl
  | succ n ih =>
    rw [strncmp, strncmp]
    generalize s.headD 0 = a
    generalize t.headD 0 = b
    rcases byte_trichotomy a b with hlt | rfl | hgt
    · simp [hlt, UInt8.lt_asymm hlt]
    · by_cases ha : a = 0 <;> simp [ha, UInt8.lt_irrefl, ih s.tail t.tail]
    · simp [hgt, UInt8.lt_asymm hgt]

theorem strncmp_lt_trans {s t u : Bytes} {n : Nat} (hst : strncmp s t n = .lt)
    (htu : strncmp t u n = .lt) : strncmp s u n = .lt := by
  induction n generalizing s t u with
  | zero => cases hst
  | succ n ih =>
    rw [strncmp_lt_iff] at hst htu ⊢
    rcases hst with hlt | ⟨heq, hne, hst⟩
    · rcases htu with hlt' | ⟨heq', -, -⟩
      · exact .inl (UInt8.lt_trans hlt hlt')
      · exact .inl (heq' ▸ hlt)
    · rcases htu with hlt' | ⟨heq', -, htu⟩
      · exact .inl (heq ▸ hlt')
      · exact .inr ⟨heq.trans heq', hne, ih hst htu⟩

/-- A difference stays when more characters are compared. -/
theorem strncmp_lt_mono {s t : Bytes} {n m : Nat} (hnm : n ≤ m) (h : strncmp s t n = .lt) :
    strncmp s t m = .lt := by
  induction n generalizing s t m with
  | zero => cases h
  | succ n ih =>
    obtain ⟨m, rfl⟩ : ∃ m', m = m' + 1 := ⟨m - 1, by omega⟩
    rw [strncmp_lt_iff] at h ⊢
    exact h.imp id fun ⟨heq, hne, h⟩ => ⟨heq, hne, ih (Nat.le_of_succ_le_succ hnm) h⟩

/-- `strcmp` finds what any number of characters tells apart. -/
theorem strcmp_lt_iff {s t : Bytes} : strcmp s t = .lt ↔ ∃ n, strncmp s t n = .lt := by
  refine ⟨fun h => ⟨_, h⟩, fun ⟨n, h⟩ => ?_⟩
  cases hcmp : strcmp s t with
  | lt => rfl
  | eq =>
    rw [strcmp_eq_iff] at hcmp
    have heq : strncmp s t n = .eq := (strncmp_eq_iff s t n).mpr (by rw [hcmp])
    rw [heq] at h
    cases h
  | gt =>
    -- one of the two comparisons looks further than the other
    have hgt : strncmp t s (max s.length t.length + 1) = .lt := by
      rw [strncmp_swap s t, show strncmp s t _ = .gt from hcmp]
      rfl
    have hlt := strncmp_lt_mono (Nat.le_max_left n (max s.length t.length + 1)) h
    have hgt := strncmp_lt_mono (Nat.le_max_right n (max s.length t.length + 1)) hgt
    rw [strncmp_swap s t, hlt] at hgt
    cases hgt

theorem strcmp_lt_trans {s t u : Bytes} (hst : strcmp s t = .lt) (htu : strcmp t u = .lt) :
    strcmp s u = .lt := by
  obtain ⟨n, hn⟩ := strcmp_lt_iff.mp hst
  obtain ⟨m, hm⟩ := strcmp_lt_iff.mp htu
  exact strcmp_lt_iff.mpr ⟨max n m, strncmp_lt_trans (strncmp_lt_mono (Nat.le_max_left n m) hn)
    (strncmp_lt_mono (Nat.le_max_right n m) hm)⟩

theorem nameCmp_lt {k m : Bytes} (h : nameCmp k m = .lt) : strcmp k m = .lt :=
  strcmp_lt_iff.mpr ⟨_, h⟩

theorem nameCmp_gt {k m : Bytes} (h : nameCmp k m = .gt) : strcmp m k = .lt := by
  refine strcmp_lt_iff.mpr ⟨strlen k, ?_⟩
  rw [strncmp_swap k m, show strncmp k m _ = .gt from h]
  rfl

/-! ## Names -/

/-- The tree after these calls of `insert`, oldest first. -/
def insertAll (names : List Bytes) : NodeT Bytes :=
  names.foldl (fun t name => (insert t name).1) .null

theorem insertAll_append (names more : List Bytes) :
    insertAll (names ++ more) = more.foldl (fun t name => (insert t name).1) (insertAll names) :=
  List.foldl_append

theorem insertAll_snoc (names : List Bytes) (name : Bytes) :
    insertAll (names ++ [name]) = (insert (insertAll names) name).1 :=
  insertAll_append names [name]

/-- The keys are in the order of `strcmp`. -/
theorem insertAll_ordered (names : List Bytes) :
    (insertAll names).keys.Pairwise fun s t => strcmp s t = .lt := by
  induction names using List.reverseRecOn with
  | nil => exact List.Pairwise.nil
  | append_singleton names name ih =>
    rw [insertAll_snoc, insert_eq]
    exact Tree.pairwise_keys_insert (fun s t => strcmp s t = .lt) (fun _ _ _ => strcmp_lt_trans)
      (fun _ _ => nameCmp_lt) (fun _ _ => nameCmp_gt) ih _ _

/-- Later calls move nothing. -/
theorem insertAll_keeps {names : List Bytes} {name : Bytes} {leaf : Path} {kv : Bytes × NodeVal}
    (hsearch : search name (insertAll names) = some leaf)
    (hget : (insertAll names).get? leaf = some kv) (more : List Bytes) :
    search name (insertAll (names ++ more)) = some leaf ∧
      (insertAll (names ++ more)).get? leaf = some kv := by
  induction more using List.reverseRecOn with
  | nil => exact ⟨by rwa [List.append_nil], by rwa [List.append_nil]⟩
  | append_singleton more next ih =>
    obtain ⟨ihsearch, ihget⟩ := ih
    rw [search_eq] at ihsearch ⊢
    rw [← List.append_assoc, insertAll_snoc, insert_eq, Tree.lookup_insert nameCmp_lawful, ihsearch]
    exact ⟨rfl, Tree.get?_insert_of_get? _ _ ihget⟩

/-- A name is found where it was inserted. -/
theorem search_insert (t : NodeT Bytes) (name : Bytes) :
    search name (insert t name).1 = some (insert t name).2 ∧
      ∃ kv, (insert t name).1.get? (insert t name).2 = some kv := by
  have hself : (insert t name).1.lookup nameCmp name = some (insert t name).2 := by
    rw [insert_eq, ← lookup_strdup]
    exact Tree.lookup_insert_self nameCmp_lawful t (strdup name) .fresh
  obtain ⟨key, val, hget, -⟩ := Tree.exists_get?_of_lookup hself
  exact ⟨(search_eq _ _).trans hself, (key, val), hget⟩

/-- **The name tree is ordered and lookups are stable.**  Whatever is inserted before and
    after, the keys are strictly increasing, and a name is found at the node that its own
    insertion stored, which is the same for all its insertions. -/
theorem names_ordered (names : List Bytes) :
    (insertAll names).keys.Pairwise (fun s t => strcmp s t = .lt) ∧
      ∀ before name after, names = before ++ name :: after →
        ∃ leaf kv, insert (insertAll before) name = (insertAll (before ++ [name]), leaf) ∧
          (insertAll (before ++ [name])).get? leaf = some kv ∧
          search name (insertAll names) = some leaf ∧ (insertAll names).get? leaf = some kv ∧
          ∀ before' after', names = before' ++ name :: after' →
            (insert (insertAll before') name).2 = leaf := by
  refine ⟨insertAll_ordered names, ?_⟩
  -- what an insertion stores stays where it is
  have hfound : ∀ before name after, names = before ++ name :: after →
      ∃ kv, (insertAll (before ++ [name])).get? (insert (insertAll before) name).2 = some kv ∧
        search name (insertAll names) = some (insert (insertAll before) name).2 ∧
        (insertAll names).get? (insert (insertAll before) name).2 = some kv := by
    rintro before name after rfl
    obtain ⟨hsearch, kv, hget⟩ := search_insert (insertAll before) name
    rw [← insertAll_snoc] at hsearch hget
    have hkeeps := insertAll_keeps hsearch hget after
    rw [← List.append_cons] at hkeeps
    exact ⟨kv, hget, hkeeps⟩
  intro before name after hnames
  obtain ⟨kv, hget, hsearch, hlast⟩ := hfound before name after hnames
  refine ⟨(insert (insertAll before) name).2, kv, ?_, hget, hsearch, hlast, ?_⟩
  · rw [insertAll_snoc]
  · intro before' after' hnames'
    obtain ⟨-, -, hsearch', -⟩ := hfound before' name after' hnames'
    exact Option.some.inj (hsearch'.symm.trans hsearch)

/-! ## Intervals -/

/-- The tree after these calls of `insert_timer`, oldest first. -/
def insertTimers (keys : List UInt64) : NodeT UInt64 :=
  keys.foldl (fun t key => (insertTimer t key).2.1) .null

theorem insertTimers_snoc (keys : List UInt64) (key : UInt64) :
    insertTimers (keys ++ [key]) = (insertTimer (insertTimers keys) key).2.1 := by
  simp [insertTimers]

theorem timerCmp_lt {key ikey : UInt64} (h : timerCmp key ikey = .lt) : key < ikey := by
  unfold timerCmp at h
  split at h
  · assumption
  · split at h <;> cases h

theorem timerCmp_gt {key ikey : UInt64} (h : timerCmp key ikey = .gt) : ikey < key := by
  unfold timerCmp at h
  split at h
  · cases h
  · split at h
    · assumption
    · cases h

/-- The intervals are in order. -/
theorem insertTimers_ordered (keys : List UInt64) : (insertTimers keys).keys.Pairwise (· < ·) := by
  induction keys using List.reverseRecOn with
  | nil => exact List.Pairwise.nil
  | append_singleton keys key ih =>
    rw [insertTimers_snoc, insertTimer_eq]
    exact Tree.pairwise_keys_insert (· < ·) (fun _ _ _ => UInt64.lt_trans)
      (fun _ _ => timerCmp_lt) (fun _ _ => timerCmp_gt) ih _ _

/-- The nodes are those of the inserted intervals, each with an empty list and found by its
    interval. -/
theorem insertTimers_get? {keys : List UInt64} {p : Path} {key : UInt64} {val : NodeVal}
    (h : (insertTimers keys).get? p = some (key, val)) :
    key ∈ keys ∧ val = .fresh ∧ (insertTimers keys).lookup timerCmp key = some p := by
  induction keys using List.reverseRecOn with
  | nil =>
    rw [insertTimers, List.foldl_nil, Tree.get?_null] at h
    cases h
  | append_singleton keys new ih =>
    rw [insertTimers_snoc, insertTimer_eq] at h ⊢
    obtain hold | ⟨-, hp, hkv⟩ := Tree.get?_insert_cases h
    · obtain ⟨hmem, hval, hlookup⟩ := ih hold
      refine ⟨List.mem_append_left _ hmem, hval, ?_⟩
      rw [Tree.lookup_insert timerCmp_lawful, hlookup]
    · obtain ⟨rfl, rfl⟩ := Prod.mk.inj hkv
      refine ⟨List.mem_append_right _ (List.mem_singleton_self _), rfl, ?_⟩
      rw [hp]
      exact Tree.lookup_insert_self timerCmp_lawful _ _ _

/-- A search for an interval fails exactly if it was not inserted. -/
theorem insertTimers_lookup (keys : List UInt64) (key : UInt64) :
    (insertTimers keys).lookup timerCmp key = none ↔ key ∉ keys := by
  constructor
  · intro hnone
    induction keys using List.reverseRecOn with
    | nil => exact List.not_mem_nil
    | append_singleton keys new ih =>
      rw [insertTimers_snoc, insertTimer_eq, Tree.lookup_insert timerCmp_lawful] at hnone
      cases hlookup : (insertTimers keys).lookup timerCmp key with
      | some p =>
        rw [hlookup] at hnone
        cases hnone
      | none =>
        simp only [hlookup, timerCmp_eq_iff] at hnone
        rw [List.mem_append, List.mem_singleton, not_or]
        exact ⟨ih hlookup, fun heq => by rw [if_pos heq] at hnone; cases hnone⟩
  · intro hkey
    by_contra hne
    obtain ⟨p, hp⟩ := Option.ne_none_iff_exists'.mp hne
    obtain ⟨key', val, hget, heq⟩ := Tree.exists_get?_of_lookup hp
    obtain rfl := timerCmp_eq_iff.mp heq
    exact hkey (insertTimers_get? hget).1

/-- `leaf` is the only node of its interval. -/
theorem insertTimers_node {keys : List UInt64} {key : UInt64} (hkey : key ∈ keys) :
    ∃ leaf, searchTimer key (insertTimers keys) = some leaf ∧
      ∀ p val, (insertTimers keys).get? p = some (key, val) ↔ p = leaf ∧ val = .fresh := by
  have hne : (insertTimers keys).lookup timerCmp key ≠ none :=
    fun h => (insertTimers_lookup keys key).mp h hkey
  obtain ⟨leaf, hleaf⟩ := Option.ne_none_iff_exists'.mp hne
  obtain ⟨key', val', hget, heq⟩ := Tree.exists_get?_of_lookup hleaf
  obtain rfl := timerCmp_eq_iff.mp heq
  obtain ⟨-, rfl, -⟩ := insertTimers_get? hget
  refine ⟨leaf, by rw [searchTimer_eq, hleaf], fun p val => ⟨fun h => ?_, ?_⟩⟩
  · obtain ⟨-, hval, hp⟩ := insertTimers_get? h
    exact ⟨Option.some.inj (hp.symm.trans hleaf), hval⟩
  · rintro ⟨rfl, rfl⟩
    exact hget

/-- **The timer tree is a map** from the intervals inserted so far to nodes. -/
theorem timers_map (keys : List UInt64) (key : UInt64) :
    ∃ status leaf, insertTimer (insertTimers keys) key =
        (status, insertTimers (keys ++ [key]), leaf) ∧
      (insertTimers (keys ++ [key])).keys.Pairwise (· < ·) ∧
      (status = 2 ↔ key ∉ keys) ∧
      (key ∉ keys → (insertTimers keys).get? leaf = none ∧
        ∀ p, p ≠ leaf → (insertTimers (keys ++ [key])).get? p = (insertTimers keys).get? p) ∧
      (key ∈ keys → status = SNAIL_OK ∧ insertTimers (keys ++ [key]) = insertTimers keys) ∧
      (∀ p val, (insertTimers (keys ++ [key])).get? p = some (key, val) ↔
        p = leaf ∧ val = .fresh) ∧
      searchTimer key (insertTimers (keys ++ [key])) = some leaf ∧
      ∀ key' ∈ keys ++ [key], ∃ leaf',
        searchTimer key' (insertTimers (keys ++ [key])) = some leaf' ∧
        ∀ p val, (insertTimers (keys ++ [key])).get? p = some (key', val) ↔
          p = leaf' ∧ val = .fresh := by
  have hnew : key ∈ keys ++ [key] := List.mem_append_right _ (List.mem_singleton_self key)
  have hsnoc : insertTimers (keys ++ [key]) =
      ((insertTimers keys).insert timerCmp key .fresh).1 := by
    rw [insertTimers_snoc, insertTimer_eq]
  have hself : searchTimer key (insertTimers (keys ++ [key])) =
      some ((insertTimers keys).insert timerCmp key .fresh).2 := by
    rw [hsnoc, searchTimer_eq]
    exact Tree.lookup_insert_self timerCmp_lawful _ _ _
  -- the node that was returned is the one that is found
  obtain ⟨leaf, hleaf, honly⟩ := insertTimers_node hnew
  obtain rfl := Option.some.inj (hleaf.symm.trans hself)
  refine ⟨_, _, (insertTimer_eq _ _).trans (by rw [hsnoc]), insertTimers_ordered _, ?_, ?_, ?_,
    honly, hself, fun key' => insertTimers_node⟩
  · rw [← insertTimers_lookup keys key]
    cases (insertTimers keys).lookup timerCmp key <;> simp [SNAIL_OK]
  · intro hkey
    rw [hsnoc]
    exact ⟨(Tree.get?_insert_new _ ((insertTimers_lookup keys key).mpr hkey)).1,
      fun p => Tree.get?_insert_of_ne⟩
  · intro hkey
    have hne : (insertTimers keys).lookup timerCmp key ≠ none :=
      fun h => (insertTimers_lookup keys key).mp h hkey
    obtain ⟨p, hp⟩ := Option.ne_none_iff_exists'.mp hne
    rw [if_neg hne, hsnoc, Tree.insert_of_lookup hp]
    exact ⟨rfl, rfl⟩

end CrazySnail
