import CrazySnail.SdsArgs
import CrazySnail.Verified.SdsContents

/-! # Command lines are read back

`sdssplitargs` reads a line up to its terminator and no byte further, whatever stands in it
(`splitargsInBounds`), and it takes the line that `sdscatrepr` and `sdsjoinsds` make of a list of
byte strings apart into that list (`splitargsRepr`).  The number of the arguments and the sizes of
their strings are `int`s, so all this is about lines that stay below 2^31 bytes, with the room
that `sdsMakeRoomFor` adds.
-/

namespace CrazySnail

/-! ## Up to the terminator

`xs` is what stands before the terminator, `junk` what stands behind it. -/

section
variable {xs : Bytes}

theorem hexEscape_reads (xs : Bytes) :
    (∀ junk, hexEscape (xs ++ 0 :: junk) = some none) ∨
      ∃ byte, 3 < xs.length ∧ ∀ junk, hexEscape (xs ++ 0 :: junk) = some (some byte) := by
  have hnul : isHexDigit 0 = false := rfl
  rcases xs with _ | ⟨c₀, _ | ⟨c₁, _ | ⟨c₂, _ | ⟨c₃, xs⟩⟩⟩⟩
  · exact .inl fun _ => rfl
  · refine .inl fun _ => ?_
    by_cases h₀ : c₀ = 92 <;> simp [hexEscape, h₀]
  · refine .inl fun _ => ?_
    by_cases h₀ : c₀ = 92 <;> by_cases h₁ : c₁ = 120 <;> simp [hexEscape, h₀, h₁, hnul]
  · refine .inl fun _ => ?_
    by_cases h₀ : c₀ = 92 <;> by_cases h₁ : c₁ = 120 <;> simp [hexEscape, h₀, h₁, hnul]
  · by_cases h₀ : c₀ = 92 <;> by_cases h₁ : c₁ = 120 <;> cases h₂ : isHexDigit c₂ <;>
      cases h₃ : isHexDigit c₃ <;> simp [hexEscape, h₀, h₁, h₂, h₃]

theorem escaped_reads (xs : Bytes) :
    (∀ junk, escaped (xs ++ 0 :: junk) = some none) ∨
      ∃ c, 1 < xs.length ∧ ∀ junk, escaped (xs ++ 0 :: junk) = some (some c) := by
  rcases xs with _ | ⟨c₀, _ | ⟨c₁, xs⟩⟩
  · exact .inl fun _ => rfl
  · refine .inl fun _ => ?_
    by_cases h₀ : c₀ = 92 <;> simp [escaped, h₀]
  · by_cases h₀ : c₀ = 92 <;> by_cases h₁ : c₁ = 0 <;> simp [escaped, h₀, h₁]

/-- What a round comes to, in terms of what stands before the terminator. -/
inductive RoundReads (round : Bytes → Option TokenRound) (xs current : Bytes) : Prop
  | err : (∀ junk, round (xs ++ 0 :: junk) = some .err) → RoundReads round xs current
  | done : (∀ junk, round (xs ++ 0 :: junk) = some (.done (xs ++ 0 :: junk) current)) →
      RoundReads round xs current
  | more (q : Quoting) (current' : Bytes) {c : Byte} {ys : Bytes} : c :: ys <:+ xs →
      (∀ junk, round (xs ++ 0 :: junk) = some (.more q (c :: (ys ++ 0 :: junk)) current')) →
      RoundReads round xs current

variable {round : Bytes → Option TokenRound} {current : Bytes}

/-- A round that stays at least one byte before the terminator. -/
theorem RoundReads.drop (q : Quoting) (current' : Bytes) (n : Nat) (hn : n < xs.length)
    (h : ∀ junk, round (xs ++ 0 :: junk) =
      some (.more q ((xs ++ 0 :: junk).drop n) current')) : RoundReads round xs current := by
  have hsplit : xs.drop n = xs[n] :: xs.drop (n + 1) := List.drop_eq_getElem_cons hn
  refine .more q current' (hsplit ▸ List.drop_suffix n xs) fun junk => ?_
  rw [h, List.drop_append_of_le_length hn.le, hsplit, List.cons_append]

/-- A round that leaves the rest to another one. -/
theorem RoundReads.congr {round' : Bytes → Option TokenRound} (hreads : RoundReads round' xs current)
    (h : ∀ junk, round (xs ++ 0 :: junk) = round' (xs ++ 0 :: junk)) : RoundReads round xs current := by
  cases hreads with
  | err hr => exact .err fun junk => (h junk).trans (hr junk)
  | done hr => exact .done fun junk => (h junk).trans (hr junk)
  | more q current' hsuffix hr =>
    exact .more q current' hsuffix fun junk => (h junk).trans (hr junk)

theorem quotedRound_reads (hxs : (0 : Byte) ∉ xs) (q : Quoting) {quote : Byte}
    (hquote : quote ≠ 0) : RoundReads (quotedRound q quote · current) xs current := by
  cases xs with
  | nil => exact .err fun _ => by simp [quotedRound, hquote.symm]
  | cons c ys =>
    have hnul : c ≠ 0 := fun h => hxs (h ▸ List.mem_cons_self)
    by_cases hc : c = quote
    · -- the byte behind the quote is looked at: the terminator, a blank or another
      cases ys with
      | nil => exact .done fun _ => by simp [quotedRound, closeQuote, hc]
      | cons d ys =>
        by_cases hd : d ≠ 0 ∧ isspace d = false
        · exact .err fun _ => by simp [quotedRound, closeQuote, hc, hd]
        · exact .done fun _ => by simpa [quotedRound, closeQuote, hc] using hd
    · exact .drop q (current ++ [c]) 0 (Nat.succ_pos _) fun _ => by simp [quotedRound, hc, hnul]

theorem tokenRound_reads (hxs : (0 : Byte) ∉ xs) (q : Quoting) :
    RoundReads (tokenRound q · current) xs current := by
  cases q with
  | plain =>
    cases xs with
    | nil => exact .done fun _ => rfl
    | cons c ys =>
      by_cases hblank : c = 32 ∨ c = 10 ∨ c = 13 ∨ c = 9 ∨ c = 0
      · exact .done fun _ => by simp [tokenRound, plainRound, hblank]
      · refine .drop (if c = 34 then .inq else if c = 39 then .insq else .plain)
          (if c = 34 ∨ c = 39 then current else current ++ [c]) 0 (Nat.succ_pos _) fun _ => ?_
        simp only [tokenRound, plainRound, List.cons_append, List.getElem?_cons_zero,
          Option.bind_some, if_neg hblank, List.drop_zero]
        by_cases hdouble : c = 34
        · simp [hdouble]
        · by_cases hsingle : c = 39 <;> simp [hdouble, hsingle]
  | inq =>
    have hdouble : (34 : Byte) ≠ 0 := by decide
    obtain hhex | ⟨byte, hlen, hhex⟩ := hexEscape_reads xs
    · obtain hesc | ⟨c, hlen, hesc⟩ := escaped_reads xs
      · exact (quotedRound_reads hxs .inq hdouble).congr fun junk => by
          simp only [tokenRound, inqRound, hhex, hesc, Option.bind_some]
      · exact .drop .inq (current ++ [unescape c]) 1 hlen fun junk => by
          simp only [tokenRound, inqRound, hhex, hesc, Option.bind_some]
    · exact .drop .inq (current ++ [byte]) 3 hlen fun junk => by
        simp only [tokenRound, inqRound, hhex, Option.bind_some]
  | insq =>
    have hsingle : (39 : Byte) ≠ 0 := by decide
    have hquoted : RoundReads (quotedRound .insq 39 · current) xs current :=
      quotedRound_reads hxs .insq hsingle
    obtain hesc | ⟨c, hlen, hesc⟩ := escaped_reads xs
    · exact hquoted.congr fun junk => by simp [tokenRound, insqRound, hesc]
    · by_cases hc : c = 39
      · exact .drop .insq (current ++ [39]) 1 hlen fun junk => by
          simp [tokenRound, insqRound, hesc, hc]
      · exact hquoted.congr fun junk => by simp [tokenRound, insqRound, hesc, hc]

/-- The token loop ends before the terminator, or at it. -/
theorem splitToken_reads (hxs : (0 : Byte) ∉ xs) (q : Quoting) (current : Bytes) :
    ∃ out : Option (Bytes × Bytes),
      (∀ token rest, out = some (token, rest) → rest <:+ xs ∧ rest.length ≤ xs.length - 1) ∧
      ∀ fuel junk, xs.length < fuel → splitToken fuel q (xs ++ 0 :: junk) current =
        some (out.map fun o => (o.1, o.2 ++ 0 :: junk)) := by
  induction hn : xs.length using Nat.strong_induction_on generalizing xs q current with
  | _ n ih =>
    subst hn
    have hreads : RoundReads (tokenRound q · current) xs current := tokenRound_reads hxs q
    cases hreads with
    | err hround =>
      refine ⟨none, fun _ _ h => (Option.some_ne_none _ h.symm).elim, fun fuel junk hfuel => ?_⟩
      obtain ⟨fuel, rfl⟩ := Nat.exists_eq_add_of_lt hfuel
      rw [splitToken, hround, Option.bind_some]
      rfl
    | done hround =>
      refine ⟨some (current, xs.drop 1), fun _ _ h => ?_, fun fuel junk hfuel => ?_⟩
      · cases h
        exact ⟨List.drop_suffix 1 xs, (List.length_drop).le⟩
      · obtain ⟨fuel, rfl⟩ := Nat.exists_eq_add_of_lt hfuel
        rw [splitToken, hround, Option.bind_some]
        cases xs with
        | nil => rfl
        | cons c ys =>
          have hnul : c ≠ 0 := fun h => hxs (h ▸ List.mem_cons_self)
          simp [stepOver, hnul]
    | @more q' current' c ys hsuffix hround =>
      -- the byte that is stepped over is not the terminator
      have hnul : c ≠ 0 := fun h => hxs (h ▸ hsuffix.subset List.mem_cons_self)
      have hys : ys <:+ xs := (List.suffix_cons c ys).trans hsuffix
      have hlen : ys.length < xs.length := Nat.lt_of_succ_le hsuffix.length_le
      obtain ⟨out, hout, hloop⟩ := ih ys.length hlen (fun h => hxs (hys.subset h)) q' current' rfl
      refine ⟨out, fun token rest h => ?_, fun fuel junk hfuel => ?_⟩
      · obtain ⟨hrest, hle⟩ := hout token rest h
        exact ⟨hrest.trans hys, by omega⟩
      · obtain ⟨fuel, rfl⟩ := Nat.exists_eq_add_of_lt hfuel
        rw [splitToken, hround, Option.bind_some]
        simp only [stepOver, List.getElem?_cons_zero, Option.map_some, if_neg hnul,
          List.drop_succ_cons, List.drop_zero, Option.bind_some]
        exact hloop _ junk (by omega)

theorem dropWhile_terminated (xs junk : Bytes) :
    (xs ++ 0 :: junk).dropWhile isspace = xs.dropWhile isspace ++ 0 :: junk := by
  induction xs with
  | nil => rfl
  | cons c xs ih =>
    rw [List.cons_append, List.dropWhile_cons, List.dropWhile_cons]
    cases isspace c with
    | true => exact ih
    | false => rfl

theorem splitFrom_reads (hxs : (0 : Byte) ∉ xs) (vector : List Bytes) :
    ∃ out, ∀ fuel junk, xs.length < fuel →
      splitFrom fuel (xs ++ 0 :: junk) vector = some out := by
  induction hn : xs.length using Nat.strong_induction_on generalizing xs vector with
  | _ n ih =>
    subst hn
    -- `ys` is what is left when the blanks are skipped
    have hblanks := dropWhile_terminated xs
    have hsuffix : xs.dropWhile isspace <:+ xs := List.dropWhile_suffix isspace
    generalize xs.dropWhile isspace = ys at hblanks hsuffix
    have hys : (0 : Byte) ∉ ys := fun h => hxs (hsuffix.subset h)
    have hle : ys.length ≤ xs.length := hsuffix.length_le
    cases ys with
    | nil =>
      refine ⟨some vector, fun fuel junk hfuel => ?_⟩
      obtain ⟨fuel, rfl⟩ := Nat.exists_eq_add_of_lt hfuel
      rw [splitFrom, hblanks]
      rfl
    | cons c ys =>
      have hnul : c ≠ 0 := fun h => hys (h ▸ List.mem_cons_self)
      obtain ⟨out, hout, hloop⟩ := splitToken_reads hys .plain []
      have hread : ∀ junk, splitToken ((c :: (ys ++ 0 :: junk)).length + 1) .plain
          (c :: (ys ++ 0 :: junk)) [] = some (out.map fun o => (o.1, o.2 ++ 0 :: junk)) := by
        refine fun junk => hloop _ junk ?_
        simp only [List.length_append, List.length_cons]
        omega
      cases out with
      | none =>
        refine ⟨none, fun fuel junk hfuel => ?_⟩
        obtain ⟨fuel, rfl⟩ := Nat.exists_eq_add_of_lt hfuel
        rw [splitFrom, hblanks]
        simp only [List.cons_append, List.getElem?_cons_zero, Option.bind_some, if_neg hnul, hread]
        rfl
      | some o =>
        obtain ⟨hrest, hlen⟩ := hout o.1 o.2 rfl
        rw [List.length_cons] at hlen hle
        obtain ⟨out, hrec⟩ := ih o.2.length (by omega) (fun h => hys (hrest.subset h))
          (vector ++ [o.1]) rfl
        refine ⟨out, fun fuel junk hfuel => ?_⟩
        obtain ⟨fuel, rfl⟩ := Nat.exists_eq_add_of_lt hfuel
        rw [splitFrom, hblanks]
        simp only [List.cons_append, List.getElem?_cons_zero, Option.bind_some, if_neg hnul, hread]
        exact hrec _ junk (by omega)

end

theorem strdup_terminated {line : Bytes} (h : (0 : Byte) ∈ line) :
    ∃ junk, line = strdup line ++ 0 :: junk := by
  induction line with
  | nil => cases h
  | cons c line ih =>
    by_cases hc : c = 0
    · exact ⟨line, by simp [strdup, hc]⟩
    · obtain ⟨junk, hjunk⟩ := ih ((List.mem_cons.mp h).resolve_left (Ne.symm hc))
      refine ⟨junk, ?_⟩
      rw [strdup, List.takeWhile_cons_of_pos (by simpa using hc), List.cons_append]
      exact congrArg (c :: ·) hjunk

theorem zero_notMem_strdup (line : Bytes) : (0 : Byte) ∉ strdup line := by
  intro hmem
  simpa using List.mem_takeWhile_imp hmem

/-- **A line is read up to its terminator.**  The parser stays inside the memory of a terminated
    line, ends, and gives what the bytes before the terminator make it give. -/
theorem splitargsInBounds (xs : Bytes) :
    ∃ out, ∀ line, (0 : Byte) ∈ line → strdup line = strdup xs → sdssplitargs line = some out := by
  obtain ⟨out, hout⟩ := splitFrom_reads (zero_notMem_strdup xs) []
  refine ⟨out, fun line h heq => ?_⟩
  obtain ⟨junk, hjunk⟩ := strdup_terminated h
  rw [heq] at hjunk
  have hfuel : (strdup xs).length < line.length + 1 := by
    rw [hjunk, List.length_append]
    omega
  have hread := hout _ junk hfuel
  rw [← hjunk] at hread
  exact hread

/-! ## Back and forth -/

/-- What `sdscatrepr` writes. -/
def quoted (p : Bytes) : Bytes := 34 :: p.flatMap reprByte ++ [34]

theorem bytes_catrepr (junk : Nat → Byte) (s : Sds) (p : Bytes) :
    (sdscatrepr junk s p).bytes = s.bytes ++ quoted p := by
  have hloop : ∀ s : Sds, (p.foldl (fun s c => sdscatlen junk s (reprByte c)) s).bytes =
      s.bytes ++ p.flatMap reprByte := by
    induction p with
    | nil => simp
    | cons c p ih =>
      intro s
      rw [List.foldl_cons, ih, Sds.bytes_catlen, List.flatMap_cons, List.append_assoc]
  rw [sdscatrepr, Sds.bytes_catlen, hloop, Sds.bytes_catlen, quoted]
  simp

/-- What `sdsjoinsds` writes. -/
theorem bytes_joinsds (junk : Nat → Byte) (argv : List Sds) (sep : Bytes) :
    (sdsjoinsds junk argv sep).bytes = sep.intercalate (argv.map Sds.bytes) := by
  have hloop : ∀ join : Sds, (joinFrom junk sep join argv).bytes =
      join.bytes ++ sep.intercalate (argv.map Sds.bytes) := by
    induction argv with
    | nil => intro join; simp [joinFrom, List.intercalate]
    | cons arg argv ih =>
      intro join
      cases argv with
      | nil => simp [joinFrom, sdscatsds, List.intercalate]
      | cons arg' argv =>
        rw [joinFrom, ih, Sds.bytes_catlen, sdscatsds, Sds.bytes_catlen]
        · simp [List.intercalate]
        · simp
  exact hloop sdsempty

/-- The memory of a string is terminated behind the string. -/
theorem buf_terminated (s : Sds) : ∃ junk, s.buf = s.bytes ++ 0 :: junk := by
  obtain ⟨hlt, hnul⟩ := List.getElem?_eq_some_iff.mp s.nul
  refine ⟨s.buf.drop (s.len + 1), ?_⟩
  rw [Sds.bytes, ← hnul, ← List.drop_eq_getElem_cons hlt, List.take_append_drop]

theorem hexDigit_reads :
    ∀ n < 16, isHexDigit (hexDigit n) = true ∧ hexDigitToInt (hexDigit n) = n.toUInt8 := by decide

theorem hexByte_eq (c : Byte) :
    hexDigitToInt (hexDigit (c.toNat / 16)) * 16 + hexDigitToInt (hexDigit (c.toNat % 16)) = c := by
  have hc : c.toNat < 256 := c.toNat_lt
  rw [(hexDigit_reads _ (by omega)).2, (hexDigit_reads _ (Nat.mod_lt _ (by decide))).2]
  apply UInt8.toNat_inj.mp
  simp only [UInt8.toNat_add, UInt8.toNat_mul, Nat.toUInt8_eq, UInt8.toNat_ofNat']
  simp only [UInt8.reduceToNat]
  omega

/-- What is written for a byte is read in one round. -/
theorem inqRound_repr (c : Byte) (rest current : Bytes) :
    ∃ b, b ≠ 0 ∧
      inqRound (reprByte c ++ rest) current = some (.more .inq (b :: rest) (current ++ [c])) := by
  by_cases hbackslash : c = 92
  · exact ⟨92, by decide, by subst hbackslash; rfl⟩
  by_cases hquote : c = 34
  · exact ⟨34, by decide, by subst hquote; rfl⟩
  by_cases hn : c = 10
  · exact ⟨110, by decide, by subst hn; rfl⟩
  by_cases hr : c = 13
  · exact ⟨114, by decide, by subst hr; rfl⟩
  by_cases ht : c = 9
  · exact ⟨116, by decide, by subst ht; rfl⟩
  by_cases ha : c = 7
  · exact ⟨97, by decide, by subst ha; rfl⟩
  by_cases hb : c = 8
  · exact ⟨98, by decide, by subst hb; rfl⟩
  cases hprint : isprint c with
  | true =>
    have hnul : c ≠ 0 := by
      rintro rfl
      cases hprint
    refine ⟨c, hnul, ?_⟩
    simp [reprByte, inqRound, hexEscape, escaped, quotedRound, hbackslash, hquote, hn, hr, ht, ha,
      hb, hprint, hnul]
  | false =>
    -- two hex digits, which the parser tries first
    have hhigh := hexDigit_reads (c.toNat / 16) (by have := c.toNat_lt; omega)
    have hlow := hexDigit_reads (c.toNat % 16) (Nat.mod_lt _ (by decide))
    have hrepr : reprByte c = [92, 120, hexDigit (c.toNat / 16), hexDigit (c.toNat % 16)] := by
      simp [reprByte, hbackslash, hquote, hn, hr, ht, ha, hb, hprint, ascii]
    refine ⟨hexDigit (c.toNat % 16), fun h => ?_, ?_⟩
    · rw [h] at hlow
      cases hlow.1
    · simp [hrepr, inqRound, hexEscape, hhigh.1, hlow.1, hexByte_eq]

/-- A quoted string is read up to its closing quote. -/
theorem splitToken_quoted (p : Bytes) {c : Byte} (hc : c = 0 ∨ isspace c = true)
    (rest current : Bytes) {fuel : Nat} (hfuel : p.length < fuel) :
    splitToken fuel .inq (p.flatMap reprByte ++ 34 :: c :: rest) current =
      some (some (current ++ p, c :: rest)) := by
  induction p generalizing current fuel with
  | nil =>
    obtain ⟨fuel, rfl⟩ := Nat.exists_eq_add_of_lt hfuel
    have hclose : (decide (c ≠ 0) && !isspace c) = false := by
      obtain rfl | hblank := hc
      · rfl
      · rw [hblank, Bool.not_true, Bool.and_false]
    simp only [List.flatMap_nil, List.nil_append, List.append_nil, splitToken, tokenRound, inqRound,
      hexEscape, escaped, quotedRound, closeQuote, stepOver, List.getElem?_cons_zero,
      List.getElem?_cons_succ, Option.bind_some, hclose]
    rfl
  | cons d p ih =>
    obtain ⟨fuel, rfl⟩ := Nat.exists_eq_add_of_lt hfuel
    obtain ⟨b, hb, hround⟩ := inqRound_repr d (p.flatMap reprByte ++ 34 :: c :: rest) current
    rw [List.flatMap_cons, List.append_assoc, splitToken]
    simp only [tokenRound, hround, Option.bind_some, stepOver, List.getElem?_cons_zero,
      Option.map_some, if_neg hb, List.drop_succ_cons, List.drop_zero]
    rw [ih (current ++ [d]) (by simp only [List.length_cons] at hfuel ⊢; omega), List.append_assoc]
    rfl

/-- An argument of a line, with blanks before it. -/
theorem splitFrom_quoted {blanks : Bytes} (hblanks : ∀ c ∈ blanks, isspace c = true) (p : Bytes)
    {c : Byte} (hc : c = 0 ∨ isspace c = true) (rest : Bytes) (fuel : Nat) (vector : List Bytes) :
    splitFrom (fuel + 1) (blanks ++ quoted p ++ c :: rest) vector =
      splitFrom fuel (c :: rest) (vector ++ [p]) := by
  have hskip : (blanks ++ quoted p ++ c :: rest).dropWhile isspace =
      34 :: (p.flatMap reprByte ++ 34 :: c :: rest) := by
    rw [List.append_assoc, List.dropWhile_append_of_pos hblanks, quoted, List.append_assoc]
    rfl
  have hfuel : p.length < (p.flatMap reprByte ++ 34 :: c :: rest).length + 1 := by
    have hpos : ∀ c, 1 ≤ (reprByte c).length := fun c => by
      unfold reprByte
      split_ifs <;> simp [ascii]
    have hle : p.length ≤ (p.flatMap reprByte).length := by
      clear hskip
      induction p with
      | nil => exact Nat.zero_le _
      | cons d p ih =>
        rw [List.flatMap_cons, List.length_append, List.length_cons]
        have := hpos d
        omega
    rw [List.length_append]
    omega
  rw [splitFrom, hskip]
  have htoken : splitToken ((34 :: (p.flatMap reprByte ++ 34 :: c :: rest)).length + 1) .plain
      (34 :: (p.flatMap reprByte ++ 34 :: c :: rest)) [] = some (some (p, c :: rest)) :=
    -- the first round sees the opening quote
    splitToken_quoted p hc rest [] hfuel
  simp only [List.getElem?_cons_zero, Option.bind_some, htoken]
  rfl

theorem splitFrom_line {sep : Bytes} (hsep : sep ≠ []) (hblank : ∀ c ∈ sep, isspace c = true)
    (argv : List Bytes) (blanks : Bytes) (hblanks : ∀ c ∈ blanks, isspace c = true) (junk : Bytes)
    (fuel : Nat) (hfuel : argv.length < fuel) (vector : List Bytes) :
    splitFrom fuel (blanks ++ sep.intercalate (argv.map quoted) ++ 0 :: junk) vector =
      some (some (vector ++ argv)) := by
  induction argv generalizing blanks fuel vector with
  | nil =>
    obtain ⟨fuel, rfl⟩ := Nat.exists_eq_add_of_lt hfuel
    have hskip : (blanks ++ sep.intercalate ([].map quoted) ++ 0 :: junk).dropWhile isspace =
        0 :: junk := by
      rw [List.append_assoc, List.dropWhile_append_of_pos hblanks]
      rfl
    rw [splitFrom, hskip]
    simp
  | cons p argv ih =>
    obtain ⟨fuel, rfl⟩ := Nat.exists_eq_add_of_lt hfuel
    cases argv with
    | nil =>
      have hone : sep.intercalate ([p].map quoted) = quoted p := by simp [List.intercalate]
      have hend := ih [] (fun _ h => absurd h List.not_mem_nil) ([p].length + fuel)
        (Nat.succ_pos _ |>.trans_le (Nat.le_add_right _ _)) (vector ++ [p])
      rw [hone, splitFrom_quoted hblanks p (.inl rfl) junk]
      rw [List.append_nil] at hend
      exact hend
    | cons p' argv =>
      -- the separator stands before the other arguments, where it is skipped
      obtain ⟨c, cs, rfl⟩ := List.exists_cons_of_ne_nil hsep
      have hmore : (c :: cs).intercalate ((p :: p' :: argv).map quoted) =
          quoted p ++ c :: (cs ++ (c :: cs).intercalate ((p' :: argv).map quoted)) := by
        simp [List.intercalate]
      have hrest := ih (c :: cs) hblank ((p :: p' :: argv).length + fuel)
        (by simp only [List.length_cons]; omega) (vector ++ [p])
      rw [hmore, ← List.append_assoc, List.append_assoc _ _ (0 :: junk), List.cons_append,
        splitFrom_quoted hblanks p (.inr (hblank c List.mem_cons_self))]
      have hvector : vector ++ [p] ++ p' :: argv = vector ++ p :: p' :: argv := List.append_assoc ..
      rw [List.append_assoc, hvector] at hrest
      rw [List.append_assoc cs]
      exact hrest

/-- **Back and forth.**  The line that `sdscatrepr` and `sdsjoinsds` make of a list of byte strings,
    with blanks between them, is taken apart into these strings. -/
theorem splitargsRepr (junk : Nat → Byte) (argv : List Bytes) {sep : Bytes} (hsep : sep ≠ [])
    (hblank : ∀ c ∈ sep, isspace c = true) :
    sdssplitargs (sdsjoinsds junk (argv.map (sdscatrepr junk sdsempty)) sep).buf =
      some (some argv) := by
  have hbytes : (argv.map (sdscatrepr junk sdsempty)).map Sds.bytes = argv.map quoted := by
    rw [List.map_map]
    exact List.map_congr_left fun p _ => bytes_catrepr junk sdsempty p
  obtain ⟨rest, hbuf⟩ := buf_terminated (sdsjoinsds junk (argv.map (sdscatrepr junk sdsempty)) sep)
  rw [bytes_joinsds, hbytes] at hbuf
  have hlen : argv.length ≤ (sep.intercalate (argv.map quoted)).length := by
    clear hbytes hbuf
    induction argv with
    | nil => exact Nat.zero_le _
    | cons p argv ih =>
      cases argv with
      | nil => simp [List.intercalate, quoted]
      | cons p' argv =>
        have hmore : sep.intercalate ((p :: p' :: argv).map quoted) =
            quoted p ++ (sep ++ sep.intercalate ((p' :: argv).map quoted)) := by
          simp [List.intercalate]
        have hone : 1 ≤ (quoted p).length := Nat.succ_pos _
        rw [hmore, List.length_append, List.length_append, List.length_cons]
        omega
  have hline := splitFrom_line hsep hblank argv [] (fun _ h => absurd h List.not_mem_nil)
    rest ((sep.intercalate (argv.map quoted) ++ 0 :: rest).length + 1)
    (by rw [List.length_append]; omega) []
  rw [sdssplitargs, hbuf]
  exact hline

/-- Bytes of all kinds, the empty string, and a tab between the arguments. -/
theorem splitargsRepr_tab :
    sdssplitargs (sdsjoinsds (fun _ => 7)
      ([ascii "a\"\\n", [0, 255, 10], []].map (sdscatrepr (fun _ => 7) sdsempty)) [9]).buf =
      some (some [ascii "a\"\\n", [0, 255, 10], []]) :=
  splitargsRepr _ _ (by simp) fun c hc => by
    rw [List.mem_singleton.mp hc]
    rfl

end CrazySnail
