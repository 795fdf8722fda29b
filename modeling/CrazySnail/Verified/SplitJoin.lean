import CrazySnail.Verified.SplitArgs

/-! # Strings are split at a separator

`sdssplitlen` finds the one way to cut a string at the occurrences of a separator from left
to right, and `sdsjoinsds` puts the parts together again (`splitlenJoin`).  The array of tokens
always has room for the next one, as long as the doubled number of its slots is an `int`: up to
2^30 tokens.
-/

namespace CrazySnail

/-- The parts of a string between the occurrences of a separator, found from left to right. -/
inductive Splits (sep : Bytes) : Bytes → List Bytes → Prop
  | last {t : Bytes} : ¬sep <:+: t → Splits sep t [t]
  /-- the first occurrence is the one behind `t` -/
  | cons {t rest : Bytes} {ts : List Bytes} : (∀ i < t.length, ¬sep <+: (t ++ sep).drop i) →
      Splits sep rest ts → Splits sep (t ++ sep ++ rest) (t :: ts)

namespace Splits
variable {sep s t t' rest : Bytes} {ts ts' : List Bytes}

theorem ne_nil (h : Splits sep s ts) : ts ≠ [] := by
  cases h <;> exact List.cons_ne_nil _ _

/-- The parts make the string. -/
theorem intercalate_eq (h : Splits sep s ts) : sep.intercalate ts = s := by
  induction h with
  | last _ => simp [List.intercalate]
  | @cons t rest ts _ hrest ih =>
    obtain ⟨t', ts, rfl⟩ := List.exists_cons_of_ne_nil hrest.ne_nil
    rw [← ih]
    simp [List.intercalate]

/-- The first occurrence of the separator does not come earlier in another splitting. -/
theorem le_of_first (h : ∀ i < t.length, ¬sep <+: (t ++ sep).drop i)
    (hs : t ++ sep <+: s) (hs' : t' ++ sep <+: s) : t.length ≤ t'.length := by
  by_contra hlt
  rw [Nat.not_le] at hlt
  refine h t'.length hlt ?_
  -- both stand at the same place of `s`
  have hleft : sep <+: s.drop t'.length := by
    have hdrop := hs'.drop t'.length
    rwa [List.drop_left] at hdrop
  refine List.prefix_of_prefix_length_le hleft (hs.drop t'.length) ?_
  rw [List.length_drop, List.length_append]
  omega

/-- **There is one way only.** -/
theorem unique (h : Splits sep s ts) (h' : Splits sep s ts') : ts = ts' := by
  induction h generalizing ts' with
  | @last s hnone =>
    cases h' with
    | last _ => rfl
    | @cons t rest _ _ _ => exact absurd ⟨t, rest, rfl⟩ hnone
  | @cons t rest ts hfirst _ ih =>
    generalize hs : t ++ sep ++ rest = s at h'
    cases h' with
    | last hnone => exact absurd ⟨t, rest, hs⟩ hnone
    | @cons t' rest' ts' hfirst' hrest' =>
      have hpre : t ++ sep <+: t' ++ sep ++ rest' := ⟨rest, hs⟩
      have hpre' : t' ++ sep <+: t' ++ sep ++ rest' := ⟨rest', rfl⟩
      have hlen : t.length = t'.length :=
        (le_of_first hfirst hpre hpre').antisymm (le_of_first hfirst' hpre' hpre)
      rw [List.append_assoc, List.append_assoc] at hs
      obtain ⟨rfl, htail⟩ := List.append_inj hs hlen
      obtain rfl := List.append_cancel_left htail
      rw [ih hrest']

end Splits

/-- What the loop relies on: there is room for one more token, and no separator starts between
    `start` and `j`. -/
structure SplitState.Ready (v : SplitState) (s sep : Bytes) : Prop where
  room : v.tokens.length + 1 ≤ v.slots
  start : v.start ≤ v.j
  bound : v.j ≤ s.length
  none : ∀ i, v.start ≤ i → i < v.j → ¬sep <+: s.drop i

theorem SplitState.Ready.roomy {v : SplitState} {s sep : Bytes} (h : v.Ready s sep) :
    v.room.tokens = v.tokens ∧ v.room.start = v.start ∧ v.room.j = v.j ∧
      v.tokens.length + 2 ≤ v.room.slots := by
  have hroom := h.room
  unfold SplitState.room
  split
  · refine ⟨rfl, rfl, rfl, ?_⟩
    dsimp only
    omega
  · exact ⟨rfl, rfl, rfl, by omega⟩

/-- What is found at `j` ends the first part. -/
theorem SplitState.Ready.splits {v : SplitState} {s sep : Bytes} {ts : List Bytes}
    (h : v.Ready s sep) (hsep : sep <+: s.drop v.j)
    (hts : Splits sep (s.drop (v.j + sep.length)) ts) :
    Splits sep (s.drop v.start) ((s.take v.j).drop v.start :: ts) := by
  obtain ⟨rest, hrest⟩ := hsep
  have htail : s.drop (v.j + sep.length) = rest := by
    rw [← List.drop_drop, ← hrest, List.drop_left]
  have hwhole : s.drop v.start = (s.take v.j).drop v.start ++ sep ++ rest := by
    have hlen : v.start ≤ (s.take v.j).length := by
      rw [List.length_take, Nat.min_eq_left h.bound]
      exact h.start
    rw [List.append_assoc, hrest, ← List.drop_append_of_le_length hlen, List.take_append_drop]
  rw [htail] at hts
  rw [hwhole]
  refine .cons (fun i hi hfound => ?_) hts
  rw [List.length_drop, List.length_take, Nat.min_eq_left h.bound] at hi
  refine h.none (v.start + i) (Nat.le_add_right _ _) (by omega) ?_
  rw [← List.drop_drop, hwhole]
  exact hfound.trans (List.IsPrefix.drop (List.prefix_append _ _) i)

/-- Where no separator fits any more, the last part is left. -/
theorem SplitState.Ready.last {v : SplitState} {s sep : Bytes} (h : v.Ready s sep)
    (hend : s.length < v.j + sep.length) : Splits sep (s.drop v.start) [s.drop v.start] := by
  refine .last fun ⟨front, rest, hfound⟩ => ?_
  have hlen := congrArg List.length hfound
  rw [List.length_append, List.length_append, List.length_drop] at hlen
  have hstart := h.start.trans h.bound
  refine h.none (v.start + front.length) (Nat.le_add_right _ _) (by omega) ⟨rest, ?_⟩
  rw [← List.drop_drop, ← hfound, List.append_assoc, List.drop_left]

theorem splitLoop_splits {s sep : Bytes} (hsep : sep ≠ []) (fuel : Nat) {v : SplitState}
    (h : v.Ready s sep) (hfuel : s.length < fuel + v.j) :
    ∃ ts, splitLoop s sep fuel v = some (v.tokens ++ ts) ∧ Splits sep (s.drop v.start) ts := by
  have hpos : 1 ≤ sep.length := List.length_pos_of_ne_nil hsep
  induction fuel generalizing v with
  | zero =>
    have hbound := h.bound
    omega
  | succ fuel ih =>
    have hstart := h.start
    have hbound := h.bound
    rw [splitLoop]
    by_cases hj : v.j + sep.length ≤ s.length
    · obtain ⟨htokens, hstart', hj', hslots⟩ := h.roomy
      have hround : (v.j : Int) < s.length - ((sep.length : Int) - 1) := by omega
      rw [if_pos hround]
      dsimp only
      rw [hj', if_neg (by omega)]
      by_cases hfound : (s.drop v.j).take sep.length = sep
      · have hadd : v.room.add s v.j = some (v.tokens ++ [(s.take v.j).drop v.start]) := by
          rw [SplitState.add, htokens, hstart', if_pos ⟨by omega, hstart, hbound⟩]
        rw [if_pos hfound, hadd, Option.bind_some]
        -- the next part starts behind the separator, so nothing has been looked through yet
        have hnext : ({ v.room with
            tokens := v.tokens ++ [(s.take v.j).drop v.start], start := v.j + sep.length,
            j := v.j + sep.length - 1 + 1 } : SplitState).Ready s sep := by
          refine ⟨?_, ?_, ?_, fun i hle hlt => ?_⟩
          · rw [List.length_append]
            exact hslots
          · dsimp only
            omega
          · dsimp only
            omega
          · dsimp only at hle hlt
            omega
        obtain ⟨ts, hloop, hts⟩ := ih hnext (by dsimp only; omega)
        refine ⟨(s.take v.j).drop v.start :: ts, ?_, ?_⟩
        · rw [hloop, List.append_assoc]
          rfl
        · exact h.splits (List.prefix_iff_eq_take.mpr hfound.symm) hts
      · rw [if_neg hfound]
        have hnext : ({ v.room with j := v.j + 1 } : SplitState).Ready s sep := by
          refine ⟨?_, ?_, ?_, fun i hle hlt => ?_⟩
          · dsimp only
            rw [htokens]
            omega
          · dsimp only
            rw [hstart']
            omega
          · dsimp only
            omega
          · -- nothing is found at `j`
            dsimp only at hle hlt
            rw [hstart'] at hle
            by_cases heq : i = v.j
            · rw [heq]
              exact fun hpre => hfound (List.prefix_iff_eq_take.mp hpre).symm
            · exact h.none i hle (by omega)
        obtain ⟨ts, hloop, hts⟩ := ih hnext (by dsimp only; omega)
        dsimp only at hloop hts
        rw [hstart'] at hts
        refine ⟨ts, ?_, hts⟩
        rw [hloop, htokens]
    · -- the separator does not fit any more
      have hround : ¬(v.j : Int) < s.length - ((sep.length : Int) - 1) := by omega
      have hroom := h.room
      rw [if_neg hround, SplitState.add, if_pos ⟨by omega, hstart.trans hbound, le_rfl⟩,
        List.take_length]
      exact ⟨[s.drop v.start], rfl, h.last (by omega)⟩

/-- **Split and join.**  A string that is not empty is split at a separator in the one way there is,
    without a read or a write out of bounds, and joining the parts gives the string again. -/
theorem splitlenJoin (junk : Nat → Byte) {s sep : Bytes} (hs : s ≠ []) (hsep : sep ≠ []) :
    ∃ tokens, sdssplitlen s sep = some (some tokens) ∧
      (∀ tokens', Splits sep s tokens' ↔ tokens' = tokens) ∧
      (sdsjoinsds junk (tokens.map sdsnewlen) sep).bytes = s := by
  have hready : ({ slots := 5, tokens := [], start := 0, j := 0 } : SplitState).Ready s sep :=
    ⟨by simp, le_rfl, Nat.zero_le _, fun i _ hlt => absurd hlt (Nat.not_lt_zero i)⟩
  obtain ⟨tokens, hloop, hsplits⟩ := splitLoop_splits hsep (s.length + 1) hready
    (Nat.lt_succ_self _)
  rw [List.drop_zero] at hsplits
  have hbytes : (tokens.map sdsnewlen).map Sds.bytes = tokens := by
    rw [List.map_map]
    exact (List.map_congr_left fun t _ => by simp [sdsnewlen, Sds.bytes]).trans (List.map_id _)
  refine ⟨tokens, ?_, fun tokens' => ⟨fun h => h.unique hsplits, ?_⟩, ?_⟩
  · have hlen : ¬sep.length < 1 := by
      have := List.length_pos_of_ne_nil hsep
      omega
    rw [sdssplitlen, if_neg hlen, if_neg (by simpa using hs), hloop]
    rfl
  · rintro rfl
    exact hsplits
  · rw [bytes_joinsds, hbytes]
    exact hsplits.intercalate_eq

/-- More tokens than the array has at first. -/
theorem splitlenJoin_grown : ∃ tokens, sdssplitlen (ascii "a--b---c--d--e--f--") [45, 45] =
      some (some tokens) ∧
    (∀ tokens', Splits [45, 45] (ascii "a--b---c--d--e--f--") tokens' ↔ tokens' = tokens) ∧
      (sdsjoinsds (fun _ => 7) (tokens.map sdsnewlen) [45, 45]).bytes =
        ascii "a--b---c--d--e--f--" :=
  splitlenJoin _ (by decide) (by decide)

end CrazySnail
