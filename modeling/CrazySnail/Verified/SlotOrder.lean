import CrazySnail.Verified.NameTree
import CrazySnail.Verified.Subscriptions

/-! # Slots in the order of the commands

`slotsNamed` lists the slots for a name in the order in which the commands brought them.
The entries on the list of the name are in the same order (`sharing_registrations`).
-/

namespace CrazySnail

open SearchTree (firstMatch sharing)

/-- The slots of a subscription for a name: its record and their places. -/
def Subscription.slotsNamed (s : Subscription) (name : Bytes) : List (Nat × Nat) :=
  (s.names.zipIdx.filter fun x => decide (strdup x.1 = strdup name)).map fun x => (s.cb, x.2)

/-- The slots for a name in the order of the commands. -/
def slotsNamed (subs : List Subscription) (name : Bytes) : List (Nat × Nat) :=
  subs.flatMap (·.slotsNamed name)

/-! ## Places -/

/-- An element of a concatenation is in one of the parts. -/
theorem flatMap_getElem? {α β : Type*} (f : α → List β) {l : List α} {i : Nat} {b : β}
    (h : (l.flatMap f)[i]? = some b) :
    ∃ pre a post j, l = pre ++ a :: post ∧ i = (pre.flatMap f).length + j ∧ (f a)[j]? = some b := by
  induction l generalizing i with
  | nil => simp at h
  | cons a l ih =>
    rw [List.flatMap_cons] at h
    by_cases hi : i < (f a).length
    · rw [List.getElem?_append_left hi] at h
      exact ⟨[], a, l, i, rfl, by simp, h⟩
    · rw [List.getElem?_append_right (by omega)] at h
      obtain ⟨pre, a', post, j, rfl, hj, hb⟩ := ih h
      refine ⟨a :: pre, a', post, j, rfl, ?_, hb⟩
      rw [List.flatMap_cons, List.length_append]
      omega

theorem Subscription.mem_slotsNamed {s : Subscription} {name : Bytes} {slot : Nat × Nat} :
    slot ∈ s.slotsNamed name ↔
      slot.1 = s.cb ∧ ∃ n, s.names[slot.2]? = some n ∧ strdup n = strdup name := by
  simp only [slotsNamed, List.mem_map, List.mem_filter, List.mem_zipIdx_iff_getElem?,
    decide_eq_true_eq]
  constructor
  · rintro ⟨x, ⟨hx, hname⟩, rfl⟩
    exact ⟨rfl, x.1, hx, hname⟩
  · rintro ⟨hcb, n, hn, hname⟩
    exact ⟨(n, slot.2), ⟨hn, hname⟩, by rw [← hcb]⟩

/-- The places of a subscription grow. -/
theorem Subscription.slotsNamed_pairwise (s : Subscription) (name : Bytes) :
    (s.slotsNamed name).Pairwise fun a b => a.2 < b.2 := by
  have hplaces : s.names.zipIdx.Pairwise fun a b => a.2 < b.2 := by
    rw [← List.pairwise_map (f := Prod.snd), List.zipIdx_map_snd]
    exact List.pairwise_lt_range'
  exact List.pairwise_map.mpr (hplaces.filter _)

theorem slotsNamed_snoc (subs : List Subscription) (s : Subscription) (name : Bytes) :
    slotsNamed (subs ++ [s]) name = slotsNamed subs name ++ s.slotsNamed name := by
  simp [slotsNamed]

theorem slotsNamed_congr {name name' : Bytes} (h : strdup name = strdup name')
    (subs : List Subscription) : slotsNamed subs name = slotsNamed subs name' := by
  simp only [slotsNamed, Subscription.slotsNamed, h]

theorem mem_slotsNamed {subs : List Subscription} {name : Bytes} {slot : Nat × Nat} :
    slot ∈ slotsNamed subs name ↔ ∃ s ∈ subs, slot.1 = s.cb ∧
      ∃ n, s.names[slot.2]? = some n ∧ strdup n = strdup name := by
  simp only [slotsNamed, List.mem_flatMap, Subscription.mem_slotsNamed]

/-- The subscription of a slot.  The slots for the name in earlier subscriptions, and in
    earlier places of this one, come before it. -/
theorem slotsNamed_getElem? {subs : List Subscription} {name : Bytes} {i : Nat} {slot : Nat × Nat}
    (h : (slotsNamed subs name)[i]? = some slot) :
    ∃ pre s post, subs = pre ++ s :: post ∧ slot ∈ s.slotsNamed name ∧
      ∀ slot', slot' ∈ slotsNamed pre name ∨ slot' ∈ s.slotsNamed name ∧ slot'.2 < slot.2 →
        ∃ i' < i, (slotsNamed subs name)[i']? = some slot' := by
  obtain ⟨pre, s, post, j, rfl, rfl, hj⟩ := flatMap_getElem? _ h
  have happend : slotsNamed (pre ++ s :: post) name =
      slotsNamed pre name ++ (s.slotsNamed name ++ slotsNamed post name) := by
    simp [slotsNamed]
  refine ⟨pre, s, post, rfl, List.mem_of_getElem? hj, ?_⟩
  rintro slot' (hpre | ⟨hs, hlt⟩)
  · obtain ⟨i', hi', rfl⟩ := List.mem_iff_getElem.mp hpre
    refine ⟨i', Nat.lt_of_lt_of_le hi' (Nat.le_add_right _ _), ?_⟩
    rw [happend, List.getElem?_append_left hi', List.getElem?_eq_getElem hi']
  · obtain ⟨j', hj', rfl⟩ := List.mem_iff_getElem.mp hs
    obtain ⟨hlen, rfl⟩ := List.getElem?_eq_some_iff.mp hj
    -- the places grow with the position
    have hjj : j' < j := by
      by_contra hge
      rcases Nat.eq_or_lt_of_le (Nat.le_of_not_lt hge) with rfl | hgt
      · exact Nat.lt_irrefl _ hlt
      · exact Nat.lt_asymm hlt
          (List.pairwise_iff_getElem.mp (s.slotsNamed_pairwise name) j j' hlen hj' hgt)
    refine ⟨(slotsNamed pre name).length + j', Nat.add_lt_add_left hjj _, ?_⟩
    rw [happend, List.getElem?_append_right (Nat.le_add_right _ _), Nat.add_sub_cancel_left,
      List.getElem?_append_left hj', List.getElem?_eq_getElem hj']

/-- Distinct records have distinct slots. -/
theorem slotsNamed_nodup {subs : List Subscription} (h : (subs.map Subscription.cb).Nodup)
    (name : Bytes) : (slotsNamed subs name).Nodup := by
  refine List.nodup_flatMap.mpr ⟨fun s _ => ?_, ?_⟩
  · exact (s.slotsNamed_pairwise name).imp fun hlt heq => Nat.ne_of_lt hlt (congrArg Prod.snd heq)
  · refine (List.pairwise_map.mp h).imp fun hne slot hs hs' => hne ?_
    exact (Subscription.mem_slotsNamed.mp hs).1.symm.trans (Subscription.mem_slotsNamed.mp hs').1

/-! ## Entries -/

theorem firstMatch_strdup {β : Type*} (subs : List (Bytes × β)) (k : Bytes) :
    firstMatch nameCmp subs (strdup k) = firstMatch nameCmp subs k := by
  simp only [firstMatch, nameCmp_strdup]

/-- Before the first entry of a subscription on the list of its name, the entries belong to
    earlier subscriptions. -/
theorem sharing_registrations {pre post : List Subscription} {s : Subscription} {name m : Bytes}
    (hname : ∃ n ∈ s.names, strdup n = strdup name)
    (hm : firstMatch nameCmp (registrations (pre ++ s :: post)) name = some m) :
    ∃ before after, sharing nameCmp (registrations (pre ++ s :: post)) m =
        before ++ .heap s.cb :: after ∧ ∀ q ∈ before, ∃ s' ∈ pre, q = .heap s'.cb := by
  obtain ⟨n, hn, hdup⟩ := hname
  have hown : ∀ {s' : Subscription} {x : Bytes × CbPtr}, x ∈ s'.entries → x.2 = .heap s'.cb := by
    intro s' x hx
    obtain ⟨_, -, rfl⟩ := List.mem_map.mp hx
    rfl
  generalize hregs : registrations (pre ++ s :: post) = regs at hm ⊢
  have happend : regs = registrations pre ++ (s.entries ++ registrations post) := by
    rw [← hregs]
    simp [registrations]
  have hentry : (strdup n, CbPtr.heap s.cb) ∈
      s.entries.filter fun x => firstMatch nameCmp regs x.1 = some m := by
    refine List.mem_filter.mpr ⟨List.mem_map_of_mem hn, decide_eq_true ?_⟩
    rw [hdup, firstMatch_strdup, hm]
  unfold sharing
  generalize (fun x : Bytes × CbPtr => decide (firstMatch nameCmp regs x.1 = some m)) = shares
    at hentry
  rw [happend, List.filter_append, List.filter_append, List.map_append, List.map_append]
  cases hfilter : s.entries.filter shares with
  | nil =>
    rw [hfilter] at hentry
    cases hentry
  | cons x xs =>
    have hx : x.2 = .heap s.cb := hown (List.mem_filter.mp (hfilter ▸ List.mem_cons_self)).1
    refine ⟨((registrations pre).filter shares).map Prod.snd,
      xs.map Prod.snd ++ ((registrations post).filter shares).map Prod.snd, ?_, fun q hq => ?_⟩
    · rw [List.map_cons, hx, List.cons_append]
    · obtain ⟨y, hy, rfl⟩ := List.mem_map.mp hq
      obtain ⟨s', hs', hy'⟩ := List.mem_flatMap.mp (List.mem_filter.mp hy).1
      exact ⟨s', hs', hown hy'⟩

end CrazySnail
