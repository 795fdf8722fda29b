import Mathlib

/-! # Unbalanced search trees addressed by paths

Binary trees that grow at their leaves and are searched by a three-way comparison
`cmp : κ → κ → Ordering` of the key looked for with the key of a node.  `cmp` need
not be an order: all that is asked (`Lawful`) is that a key matches itself, and
that whatever a key matches turns the same way as that key at every node the key
itself passes.  Comparisons that cut the searched key short ("is a prefix of")
satisfy this although they are no equality.

A node is addressed by its path from the root, which no later insertion changes.
The main result is `lookup_registerAll`: after any sequence of registrations a
lookup ends at the node of the *first* registered key that it matches, and that
node has collected exactly the registrations with the same first match.
-/

namespace SearchTree

/-- The two sides of a node. -/
inductive Side where
  | left
  | right
deriving DecidableEq, Repr

/-- The address of a node: the turns that lead to it from the root. -/
abbrev Path := List Side

inductive Tree (κ α : Type*) where
  | null : Tree κ α
  | node (key : κ) (val : α) (left right : Tree κ α) : Tree κ α
deriving DecidableEq, Repr

variable {κ α β : Type*}

namespace Tree

/-- The key and the value at an address. -/
def get? : Tree κ α → Path → Option (κ × α)
  | .null, _ => none
  | .node key val _ _, [] => some (key, val)
  | .node _ _ l _, .left :: p => l.get? p
  | .node _ _ _ r, .right :: p => r.get? p

/-- Change the value at an address. -/
def modify (f : α → α) : Tree κ α → Path → Tree κ α
  | .null, _ => .null
  | .node key val l r, [] => .node key (f val) l r
  | .node key val l r, .left :: p => .node key val (l.modify f p) r
  | .node key val l r, .right :: p => .node key val l (r.modify f p)

/-- The values of a tree in the order of an in-order walk. -/
def vals : Tree κ α → List α
  | .null => []
  | .node _ val l r => l.vals ++ val :: r.vals

/-- The keys of a tree in the order of an in-order walk. -/
def keys : Tree κ α → List κ
  | .null => []
  | .node key _ l r => l.keys ++ key :: r.keys

/-- The address a search for `k` ends at; `none` when it runs off the tree. -/
def lookup (cmp : κ → κ → Ordering) (k : κ) : Tree κ α → Option Path
  | .null => none
  | .node key _ l r =>
    match cmp k key with
    | .eq => some []
    | .lt => (lookup cmp k l).map (.left :: ·)
    | .gt => (lookup cmp k r).map (.right :: ·)

/-- Insert `k`: the tree with a node `fresh` where the search for `k` ran off, or
    the tree unchanged; and the address where the search now ends. -/
def insert (cmp : κ → κ → Ordering) (k : κ) (fresh : α) : Tree κ α → Tree κ α × Path
  | .null => (.node k fresh .null .null, [])
  | .node key val l r =>
    match cmp k key with
    | .eq => (.node key val l r, [])
    | .lt => let (l', p) := insert cmp k fresh l; (.node key val l' r, .left :: p)
    | .gt => let (r', p) := insert cmp k fresh r; (.node key val l r', .right :: p)

end Tree

/-- What a comparison owes a search tree. -/
structure Lawful (cmp : κ → κ → Ordering) : Prop where
  /-- A key matches itself. -/
  refl : ∀ k, cmp k k = .eq
  /-- A key that `k` matches turns as `k` does wherever `k` passes. -/
  absorb : ∀ {k k' m}, cmp k k' = .eq → cmp k m ≠ .eq → cmp k' m = cmp k m

namespace Lawful
variable {cmp : κ → κ → Ordering}

theorem trans (h : Lawful cmp) {k k' m : κ} (hk : cmp k k' = .eq) (hm : cmp k' m = .eq) :
    cmp k m = .eq := by
  by_contra hne
  exact hne (h.absorb hk hne ▸ hm)

end Lawful

namespace Tree

/-! ## Addresses and values -/

@[simp] theorem get?_null (p : Path) : (null : Tree κ α).get? p = none := by cases p <;> rfl

theorem get?_modify (f : α → α) (t : Tree κ α) (p q : Path) :
    (t.modify f p).get? q = (t.get? q).map fun kv => (kv.1, if q = p then f kv.2 else kv.2) := by
  induction t generalizing p q with
  | null => cases p <;> simp [modify]
  | node key val l r ihl ihr =>
    cases p with
    | nil => rcases q with _ | ⟨_ | _, q⟩ <;> simp [modify, get?]
    | cons s p => rcases s <;> rcases q with _ | ⟨_ | _, q⟩ <;> simp [modify, get?, ihl, ihr]

/-! ## Searching -/

section
variable {cmp : κ → κ → Ordering}

@[simp] theorem lookup_null (k : κ) : (null : Tree κ α).lookup cmp k = none := rfl

theorem lookup_node (k key : κ) (val : α) (l r : Tree κ α) :
    (node key val l r).lookup cmp k =
      match cmp k key with
      | .eq => some []
      | .lt => (l.lookup cmp k).map (.left :: ·)
      | .gt => (r.lookup cmp k).map (.right :: ·) := rfl

/-- Values play no part in a search. -/
@[simp] theorem lookup_modify (f : α → α) (t : Tree κ α) (p : Path) (k : κ) :
    (t.modify f p).lookup cmp k = t.lookup cmp k := by
  induction t generalizing p with
  | null => cases p <;> rfl
  | node key val l r ihl ihr =>
    rcases p with _ | ⟨_ | _, p⟩ <;> simp [modify, lookup_node, ihl, ihr]

/-- A search ends at a node whose key it matches. -/
theorem exists_get?_of_lookup {t : Tree κ α} {k : κ} {p : Path} (h : t.lookup cmp k = some p) :
    ∃ key val, t.get? p = some (key, val) ∧ cmp k key = .eq := by
  induction t generalizing p with
  | null => cases h
  | node key val l r ihl ihr =>
    rw [lookup_node] at h
    split at h
    · cases h; exact ⟨key, val, rfl, by assumption⟩
    · obtain ⟨q, hq, rfl⟩ := Option.map_eq_some_iff.mp h
      exact ihl hq
    · obtain ⟨q, hq, rfl⟩ := Option.map_eq_some_iff.mp h
      exact ihr hq

/-- The key of the node at which a search ends leads to the same node. -/
theorem lookup_key (hc : Lawful cmp) {t : Tree κ α} {k key : κ} {val : α} {p : Path}
    (h : t.lookup cmp k = some p) (hp : t.get? p = some (key, val)) :
    t.lookup cmp key = some p := by
  obtain ⟨key', val', hp', hkey⟩ := exists_get?_of_lookup h
  obtain ⟨rfl, rfl⟩ : key' = key ∧ val' = val := by rw [hp] at hp'; cases hp'; exact ⟨rfl, rfl⟩
  clear hp'
  induction t generalizing p with
  | null => cases h
  | node m v l r ihl ihr =>
    rw [lookup_node] at h ⊢
    split at h
    · -- the search ends here, so `key` is the key of this node
      cases h; cases hp
      rw [hc.refl]
    · obtain ⟨q, hq, rfl⟩ := Option.map_eq_some_iff.mp h
      have hm : cmp key' m = .lt := (hc.absorb hkey (by simp [*])).trans (by assumption)
      simp only [hm, ihl hq hp, Option.map_some]
    · obtain ⟨q, hq, rfl⟩ := Option.map_eq_some_iff.mp h
      have hm : cmp key' m = .gt := (hc.absorb hkey (by simp [*])).trans (by assumption)
      simp only [hm, ihr hq hp, Option.map_some]

/-! ## Inserting -/

theorem insert_node (k : κ) (fresh : α) (key : κ) (val : α) (l r : Tree κ α) :
    (node key val l r).insert cmp k fresh =
      match cmp k key with
      | .eq => (node key val l r, [])
      | .lt => (node key val (l.insert cmp k fresh).1 r, .left :: (l.insert cmp k fresh).2)
      | .gt => (node key val l (r.insert cmp k fresh).1, .right :: (r.insert cmp k fresh).2) := by
  rw [insert]

/-- A key that is found is not inserted again. -/
theorem insert_of_lookup {t : Tree κ α} {k : κ} {fresh : α} {p : Path}
    (h : t.lookup cmp k = some p) : t.insert cmp k fresh = (t, p) := by
  induction t generalizing p with
  | null => cases h
  | node key val l r ihl ihr =>
    rw [lookup_node] at h
    rw [insert_node]
    cases hk : cmp k key <;> rw [hk] at h
    case eq => cases h; rfl
    case lt =>
      obtain ⟨q, hq, rfl⟩ := Option.map_eq_some_iff.mp h
      simp [ihl hq]
    case gt =>
      obtain ⟨q, hq, rfl⟩ := Option.map_eq_some_iff.mp h
      simp [ihr hq]

/-- Insertion leaves every node where it is. -/
theorem get?_insert_of_get? {t : Tree κ α} {p : Path} {kv : κ × α} (k : κ) (fresh : α)
    (h : t.get? p = some kv) : (t.insert cmp k fresh).1.get? p = some kv := by
  induction t generalizing p with
  | null => simp at h
  | node key val l r ihl ihr =>
    rw [insert_node]
    split
    · exact h
    · rcases p with _ | ⟨_ | _, p⟩
      · exact h
      · exact ihl h
      · exact h
    · rcases p with _ | ⟨_ | _, p⟩
      · exact h
      · exact h
      · exact ihr h

/-- A key that is not found gets a node of its own, where there was none. -/
theorem get?_insert_new {t : Tree κ α} {k : κ} (fresh : α) (h : t.lookup cmp k = none) :
    t.get? (t.insert cmp k fresh).2 = none ∧
      (t.insert cmp k fresh).1.get? (t.insert cmp k fresh).2 = some (k, fresh) := by
  induction t with
  | null => exact ⟨rfl, rfl⟩
  | node key val l r ihl ihr =>
    rw [lookup_node] at h
    rw [insert_node]
    cases hk : cmp k key <;> rw [hk] at h
    case eq => cases h
    case lt => exact ihl (Option.map_eq_none_iff.mp h)
    case gt => exact ihr (Option.map_eq_none_iff.mp h)

/-- The only node an insertion can add is the one of its key. -/
theorem get?_insert_cases {t : Tree κ α} {k : κ} {fresh : α} {p : Path} {kv : κ × α}
    (h : (t.insert cmp k fresh).1.get? p = some kv) :
    t.get? p = some kv ∨
      (t.lookup cmp k = none ∧ p = (t.insert cmp k fresh).2 ∧ kv = (k, fresh)) := by
  induction t generalizing p with
  | null =>
    -- only the subtree that k goes to has changed
    rcases p with _ | ⟨_ | _, p⟩
    · cases h; exact .inr ⟨rfl, rfl, rfl⟩
    · simp [insert, get?] at h
    · simp [insert, get?] at h
  | node key val l r ihl ihr =>
    rw [insert_node] at h ⊢
    rw [lookup_node]
    cases hk : cmp k key with
    | eq => rw [hk] at h; exact .inl h
    | lt =>
      rw [hk] at h
      rcases p with _ | ⟨_ | _, p⟩
      · exact .inl h
      · rcases ihl h with hold | ⟨hnew, rfl, rfl⟩
        · exact .inl hold
        · exact .inr ⟨by simp [hnew], rfl, rfl⟩
      · exact .inl h
    | gt =>
      rw [hk] at h
      rcases p with _ | ⟨_ | _, p⟩
      · exact .inl h
      · exact .inl h
      · rcases ihr h with hold | ⟨hnew, rfl, rfl⟩
        · exact .inl hold
        · exact .inr ⟨by simp [hnew], rfl, rfl⟩

/-- **A search after an insertion.**  A search that succeeded ends where it did; one
    that failed ends at the new node exactly when it matches the new key. -/
theorem lookup_insert (hc : Lawful cmp) (t : Tree κ α) (k k' : κ) (fresh : α) :
    (t.insert cmp k' fresh).1.lookup cmp k =
      match t.lookup cmp k with
      | some p => some p
      | none => if cmp k k' = .eq then some (t.insert cmp k' fresh).2 else none := by
  induction t with
  | null => cases h : cmp k k' <;> simp [insert, lookup_node, h]
  | node key val l r ihl ihr =>
    rw [insert_node, lookup_node]
    cases hk : cmp k key with
    | eq => cases hk' : cmp k' key <;> simp [lookup_node, hk]
    | lt =>
      by_cases hkk : cmp k k' = .eq
      -- a key that k matches goes the same way as k
      · have hk' : cmp k' key = .lt := (hc.absorb hkk (by simp [hk])).trans hk
        simp only [hk', lookup_node, hk, ihl, hkk, if_true]
        cases l.lookup cmp k <;> rfl
      · cases hk' : cmp k' key with
        | eq => simp only [lookup_node, hk, hkk, if_false]; cases l.lookup cmp k <;> rfl
        | lt => simp only [lookup_node, hk, ihl, hkk, if_false]; cases l.lookup cmp k <;> rfl
        | gt => simp only [lookup_node, hk, hkk, if_false]; cases l.lookup cmp k <;> rfl
    | gt =>
      by_cases hkk : cmp k k' = .eq
      · have hk' : cmp k' key = .gt := (hc.absorb hkk (by simp [hk])).trans hk
        simp only [hk', lookup_node, hk, ihr, hkk, if_true]
        cases r.lookup cmp k <;> rfl
      · cases hk' : cmp k' key with
        | eq => simp only [lookup_node, hk, hkk, if_false]; cases r.lookup cmp k <;> rfl
        | lt => simp only [lookup_node, hk, hkk, if_false]; cases r.lookup cmp k <;> rfl
        | gt => simp only [lookup_node, hk, ihr, hkk, if_false]; cases r.lookup cmp k <;> rfl

/-- An inserted key is found where the insertion said. -/
theorem lookup_insert_self (hc : Lawful cmp) (t : Tree κ α) (k : κ) (fresh : α) :
    (t.insert cmp k fresh).1.lookup cmp k = some (t.insert cmp k fresh).2 := by
  rw [lookup_insert hc]
  cases h : t.lookup cmp k with
  | some p => simp only [insert_of_lookup h]
  | none => simp only [hc.refl, if_true]

/-- A node is the only one at its place: an insertion changes nothing elsewhere. -/
theorem get?_insert_of_ne {t : Tree κ α} {k : κ} {fresh : α} {p : Path}
    (h : p ≠ (t.insert cmp k fresh).2) : (t.insert cmp k fresh).1.get? p = t.get? p := by
  cases hp : t.get? p with
  | some kv => exact get?_insert_of_get? k fresh hp
  | none =>
    by_contra hne
    obtain ⟨kv, hkv⟩ := Option.ne_none_iff_exists'.mp hne
    obtain hold | ⟨-, heq, -⟩ := get?_insert_cases hkv
    · rw [hp] at hold
      cases hold
    · exact h heq

/-! ## Order -/

theorem mem_keys_insert {t : Tree κ α} {k x : κ} {fresh : α}
    (h : x ∈ (t.insert cmp k fresh).1.keys) : x = k ∨ x ∈ t.keys := by
  induction t with
  | null => exact .inl (List.mem_singleton.mp h)
  | node key val l r ihl ihr =>
    rw [insert_node] at h
    cases hk : cmp k key with
    | eq =>
      rw [hk] at h
      exact .inr h
    | lt =>
      rw [hk] at h
      simp only [keys, List.mem_append, List.mem_cons] at h ⊢
      rcases h with h | h
      · exact (ihl h).imp id .inl
      · exact .inr (.inr h)
    | gt =>
      rw [hk] at h
      simp only [keys, List.mem_append, List.mem_cons] at h ⊢
      rcases h with h | h | h
      · exact .inr (.inl h)
      · exact .inr (.inr (.inl h))
      · exact (ihr h).imp id fun h => .inr (.inr h)

/-- **Insertion keeps the order of the keys**, if the comparison agrees with the order where
    it tells two keys apart. -/
theorem pairwise_keys_insert (lt : κ → κ → Prop) (htrans : ∀ a b c, lt a b → lt b c → lt a c)
    (hlt : ∀ k m, cmp k m = .lt → lt k m) (hgt : ∀ k m, cmp k m = .gt → lt m k)
    {t : Tree κ α} (h : t.keys.Pairwise lt) (k : κ) (fresh : α) :
    (t.insert cmp k fresh).1.keys.Pairwise lt := by
  induction t with
  | null => exact List.pairwise_singleton _ _
  | node key val l r ihl ihr =>
    rw [insert_node]
    rw [keys, List.pairwise_append, List.pairwise_cons] at h
    obtain ⟨hl, ⟨hkey, hr⟩, hcross⟩ := h
    cases hk : cmp k key with
    | eq =>
      rw [keys, List.pairwise_append, List.pairwise_cons]
      exact ⟨hl, ⟨hkey, hr⟩, hcross⟩
    | lt =>
      rw [keys, List.pairwise_append, List.pairwise_cons]
      -- the new key is before the node, and so before all keys to its right
      refine ⟨ihl hl, ⟨hkey, hr⟩, fun x hx y hy => ?_⟩
      rcases mem_keys_insert hx with rfl | hx
      · rcases List.mem_cons.mp hy with rfl | hy
        · exact hlt _ _ hk
        · exact htrans _ _ _ (hlt _ _ hk) (hkey y hy)
      · exact hcross x hx y hy
    | gt =>
      rw [keys, List.pairwise_append, List.pairwise_cons]
      refine ⟨hl, ⟨fun y hy => ?_, ihr hr⟩, fun x hx y hy => ?_⟩
      · rcases mem_keys_insert hy with rfl | hy
        · exact hgt _ _ hk
        · exact hkey y hy
      · rcases List.mem_cons.mp hy with rfl | hy
        · exact hcross x hx _ List.mem_cons_self
        · rcases mem_keys_insert hy with rfl | hy
          · exact htrans _ _ _ (hcross x hx key List.mem_cons_self) (hgt _ _ hk)
          · exact hcross x hx y (List.mem_cons_of_mem _ hy)

end

end Tree

/-! ## Registering items under keys

A registration inserts its key and pushes an item on the node reached. -/

section Registration

variable (cmp : κ → κ → Ordering) (fresh : α) (push : β → α → α)

/-- Insert the key and push the item on the node reached. -/
def register (t : Tree κ α) (s : κ × β) : Tree κ α :=
  (t.insert cmp s.1 fresh).1.modify (push s.2) (t.insert cmp s.1 fresh).2

/-- All registrations, oldest first. -/
def registerAll (subs : List (κ × β)) : Tree κ α :=
  subs.foldl (register cmp fresh push) .null

/-- The first registered key that `k` matches. -/
def firstMatch (subs : List (κ × β)) (k : κ) : Option κ :=
  (subs.map Prod.fst).find? fun m => cmp k m = .eq

variable {cmp fresh push}

theorem registerAll_snoc (subs : List (κ × β)) (s : κ × β) :
    registerAll cmp fresh push (subs ++ [s]) =
      register cmp fresh push (registerAll cmp fresh push subs) s := by
  simp [registerAll]

theorem firstMatch_snoc (subs : List (κ × β)) (s : κ × β) (k : κ) :
    firstMatch cmp (subs ++ [s]) k =
      match firstMatch cmp subs k with
      | some m => some m
      | none => if cmp k s.1 = .eq then some s.1 else none := by
  simp only [firstMatch, List.map_append, List.map_cons, List.map_nil, List.find?_append]
  cases List.find? (fun m => decide (cmp k m = .eq)) (subs.map Prod.fst) with
  | some m => rfl
  | none => by_cases h : cmp k s.1 = .eq <;> simp [h]

theorem firstMatch_mem {subs : List (κ × β)} {k m : κ} (h : firstMatch cmp subs k = some m) :
    m ∈ subs.map Prod.fst ∧ cmp k m = .eq :=
  ⟨List.mem_of_find?_eq_some h, by simpa using List.find?_some h⟩

theorem firstMatch_eq_none {subs : List (κ × β)} {k : κ} :
    firstMatch cmp subs k = none ↔ ∀ m ∈ subs.map Prod.fst, cmp k m ≠ .eq := by
  simp [firstMatch, List.find?_eq_none]

/-- Every registered key has a first match. -/
theorem firstMatch_isSome (hc : Lawful cmp) {subs : List (κ × β)} {s : κ × β} (hs : s ∈ subs) :
    ∃ m, firstMatch cmp subs s.1 = some m := by
  cases h : firstMatch cmp subs s.1 with
  | some m => exact ⟨m, rfl⟩
  | none =>
    exact absurd (hc.refl s.1) (firstMatch_eq_none.mp h s.1 (List.mem_map_of_mem hs))

/-- A first match is its own first match. -/
theorem firstMatch_idem (hc : Lawful cmp) {subs : List (κ × β)} {k m : κ}
    (h : firstMatch cmp subs k = some m) : firstMatch cmp subs m = some m := by
  induction subs using List.reverseRecOn with
  | nil => cases h
  | append_singleton subs s ih =>
    rw [firstMatch_snoc] at h ⊢
    cases hk : firstMatch cmp subs k with
    | some m' =>
      rw [hk] at h; cases h
      rw [ih hk]
    | none =>
      rw [hk] at h
      by_cases hks : cmp k s.1 = .eq
      · obtain rfl : s.1 = m := by simpa [hks] using h
        -- nothing older matches `k`, hence nothing older matches the new key
        have hnone : firstMatch cmp subs s.1 = none := firstMatch_eq_none.mpr fun x hx hsx =>
          firstMatch_eq_none.mp hk x hx (hc.trans hks hsx)
        simp [hnone, hc.refl]
      · simp [hks] at h

variable (items : α → List β)

/-- The registrations that share their first match with `m`. -/
def sharing [DecidableEq κ] (cmp : κ → κ → Ordering) (subs : List (κ × β)) (m : κ) : List β :=
  (subs.filter fun s => firstMatch cmp subs s.1 = some m).map Prod.snd

theorem sharing_snoc [DecidableEq κ] (hc : Lawful cmp) (subs : List (κ × β)) (s : κ × β) (m : κ) :
    sharing cmp (subs ++ [s]) m =
      sharing cmp subs m ++ (if firstMatch cmp (subs ++ [s]) s.1 = some m then [s.2] else []) := by
  have hold : ∀ x ∈ subs, firstMatch cmp (subs ++ [s]) x.1 = firstMatch cmp subs x.1 := by
    intro x hx
    obtain ⟨y, hy⟩ := firstMatch_isSome hc hx
    rw [firstMatch_snoc, hy]
  simp only [sharing, List.filter_append, List.map_append]
  congr 1
  · congr 1
    exact List.filter_congr fun x hx => by rw [hold x hx]
  · by_cases h : firstMatch cmp (subs ++ [s]) s.1 = some m <;> simp [h]

/-- A first match has registrations that share it. -/
theorem sharing_ne_nil [DecidableEq κ] (hc : Lawful cmp) {subs : List (κ × β)} {k m : κ}
    (h : firstMatch cmp subs k = some m) : sharing cmp subs m ≠ [] := by
  obtain ⟨s, hs, hkey⟩ := List.mem_map.mp (firstMatch_mem h).1
  have hmem : s.2 ∈ sharing cmp subs m := List.mem_map_of_mem
    (List.mem_filter.mpr ⟨hs, decide_eq_true (by rw [hkey]; exact firstMatch_idem hc h)⟩)
  exact List.ne_nil_of_mem hmem

/-- **Lookup after registration.**  A search runs off the tree exactly when no
    registered key is matched; otherwise it ends at the node of the first match,
    which holds the items of all registrations with that first match, in order. -/
theorem lookup_registerAll [DecidableEq κ] (hc : Lawful cmp)
    (hfresh : items fresh = []) (hpush : ∀ b a, items (push b a) = items a ++ [b])
    (subs : List (κ × β)) (k : κ) :
    match (registerAll cmp fresh push subs).lookup cmp k with
    | none => firstMatch cmp subs k = none
    | some p => ∃ m val, (registerAll cmp fresh push subs).get? p = some (m, val) ∧
        firstMatch cmp subs k = some m ∧ items val = sharing cmp subs m := by
  induction subs using List.reverseRecOn generalizing k with
  | nil => rfl
  | append_singleton subs s ih =>
    rw [registerAll_snoc]
    generalize registerAll cmp fresh push subs = t at ih ⊢
    obtain ⟨n, x⟩ := s
    simp only [register, Tree.lookup_modify, Tree.lookup_insert hc, firstMatch_snoc]
    have hn := ih n
    have hk := ih k
    cases hlk : t.lookup cmp k with
    | some p =>
      rw [hlk] at hk
      obtain ⟨m, val, hget, hfirst, hitems⟩ := hk
      have hget' : (t.insert cmp n fresh).1.get? p = some (m, val) :=
        Tree.get?_insert_of_get? n fresh hget
      refine ⟨m, if p = (t.insert cmp n fresh).2 then push x val else val, ?_, ?_, ?_⟩
      · simp [Tree.get?_modify, hget']
      · simp [hfirst]
      · rw [sharing_snoc hc, firstMatch_snoc]
        -- the new item lands on this node exactly when its key has this first match
        cases hln : t.lookup cmp n with
        | some q =>
          rw [hln] at hn
          obtain ⟨m', val', hget₂, hfirst₂, -⟩ := hn
          simp only [Tree.insert_of_lookup hln, hfirst₂]
          by_cases hpq : p = q
          · subst hpq
            obtain rfl : m = m' := by rw [hget] at hget₂; cases hget₂; rfl
            simp [hpush, hitems]
          · have hne : m' ≠ m := by
              rintro rfl
              have h1 := Tree.lookup_key hc hlk hget
              have h2 := Tree.lookup_key hc hln hget₂
              rw [h1] at h2; cases h2; exact hpq rfl
            simp [hpq, hne, hitems]
        | none =>
          rw [hln] at hn
          have hpq : p ≠ (t.insert cmp n fresh).2 := by
            rintro rfl
            rw [(Tree.get?_insert_new fresh hln).1] at hget; cases hget
          have hne : n ≠ m := by
            rintro rfl
            have h1 := Tree.lookup_key hc hlk hget
            rw [hln] at h1; cases h1
          simp [hpq, hn, hc.refl, hne, hitems]
    | none =>
      rw [hlk] at hk
      simp only [hk]
      by_cases hkn : cmp k n = .eq
      · simp only [hkn, if_true]
        -- the key is new: an older match of it would be an older match of `k`
        have hnone : firstMatch cmp subs n = none := firstMatch_eq_none.mpr fun y hy hny =>
          firstMatch_eq_none.mp hk y hy (hc.trans hkn hny)
        have hln : t.lookup cmp n = none := by
          cases hln : t.lookup cmp n with
          | none => rfl
          | some q => rw [hln] at hn; obtain ⟨m, _, _, hm, _⟩ := hn; rw [hnone] at hm; cases hm
        refine ⟨n, push x fresh, ?_, rfl, ?_⟩
        · simp [Tree.get?_modify, (Tree.get?_insert_new fresh hln).2]
        · have hempty : sharing cmp subs n = [] := by
            simp only [sharing, List.map_eq_nil_iff, List.filter_eq_nil_iff, decide_eq_true_eq]
            intro y _ hy
            exact firstMatch_eq_none.mp hk n (firstMatch_mem hy).1 hkn
          rw [sharing_snoc hc, firstMatch_snoc, hempty, hnone]
          simp [hc.refl, hpush, hfresh]
      · simp only [hkn, if_false]

/-! ### Later registrations -/

theorem firstMatch_append (subs new : List (κ × β)) (k : κ) :
    firstMatch cmp (subs ++ new) k = (firstMatch cmp subs k).or (firstMatch cmp new k) := by
  simp only [firstMatch, List.map_append, List.find?_append]

/-- Whether a key shares a first match does not depend on later registrations. -/
theorem firstMatch_append_eq {subs : List (κ × β)} {m : κ}
    (hm : firstMatch cmp subs m = some m) (new : List (κ × β)) (k : κ) :
    firstMatch cmp (subs ++ new) k = some m ↔ firstMatch cmp subs k = some m := by
  rw [firstMatch_append]
  cases hk : firstMatch cmp subs k with
  | some m' => simp
  | none =>
    rw [Option.none_or]
    refine iff_of_false (fun hnew => ?_) (by simp)
    exact firstMatch_eq_none.mp hk m (firstMatch_mem hm).1 (firstMatch_mem hnew).2

/-- Later registrations come after the older ones. -/
theorem sharing_append [DecidableEq κ] {subs : List (κ × β)} {m : κ}
    (hm : firstMatch cmp subs m = some m) (new : List (κ × β)) :
    sharing cmp (subs ++ new) m = sharing cmp subs m ++
      (new.filter fun s => firstMatch cmp subs s.1 = some m).map Prod.snd := by
  simp only [sharing, List.filter_append, List.map_append, firstMatch_append_eq hm]

theorem lookup_register (hc : Lawful cmp) {t : Tree κ α} {k : κ} {p : Path}
    (h : t.lookup cmp k = some p) (s : κ × β) : (register cmp fresh push t s).lookup cmp k = some p := by
  rw [register, Tree.lookup_modify, Tree.lookup_insert hc, h]

/-- A search that succeeds is not changed by later registrations. -/
theorem lookup_registerAll_append (hc : Lawful cmp) {subs : List (κ × β)} {k : κ} {p : Path}
    (h : (registerAll cmp fresh push subs).lookup cmp k = some p) (new : List (κ × β)) :
    (registerAll cmp fresh push (subs ++ new)).lookup cmp k = some p := by
  induction new using List.reverseRecOn with
  | nil => rwa [List.append_nil]
  | append_singleton new s ih =>
    rw [← List.append_assoc, registerAll_snoc]
    exact lookup_register hc ih s

end Registration

end SearchTree
