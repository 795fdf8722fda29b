import CrazySnail.SdsReader
import CrazySnail.Verified.SdsContents
import CrazySnail.Verified.ReaderRefinement

/-! # The reader stays inside its buffer

`SdsReader` computes what `RedisReader` computes on the contents of the buffer, so it never reads
outside the block, whatever the bytes are.  The only byte it reads behind the string is the
terminator: `seekNewline` looks behind a `\r` that ends the buffer.  `readLongLong` has no bound of
its own and relies on the `\r` of the line it is called for.  The buffer and the counts of arrays
are kept in `int`s, so both have limits (`ReaderCall.Within`).
-/

namespace CrazySnail

/-! ## Reading the block -/

/-- From the place `p` on the block shows `xs` and a terminator. -/
def Shows (r : SdsReader) (p : Nat) (xs : Bytes) : Prop :=
  ∀ i ≤ xs.length, r.byteAt (p + i) = (xs ++ [0])[i]?

section Shows
variable {r : SdsReader} {p : Nat} {xs : Bytes}

theorem Shows.byte (hs : Shows r p xs) {i : Nat} (hi : i < xs.length) : r.byteAt (p + i) = xs[i]? := by
  rw [hs i (by omega), List.getElem?_append_left hi]

theorem Shows.head {c : Byte} (hs : Shows r p (c :: xs)) : r.byteAt p = some c :=
  hs 0 (Nat.zero_le _)

theorem Shows.tail {c : Byte} (hs : Shows r p (c :: xs)) : Shows r (p + 1) xs := by
  intro i hi
  have hnext := hs (i + 1) (by simpa using hi)
  rw [show p + 1 + i = p + (i + 1) by omega, hnext]
  rfl

end Shows

/-! ## Lines -/

/-- The next `\r\n` from the place `p` on. -/
def newlineFrom (xs : Bytes) (p : Nat) : Option Nat := (seekNewline (xs.drop p)).map (p + ·)

section Newline
variable {xs : Bytes} {p : Nat}

theorem newlineFrom_zero : newlineFrom xs 0 = seekNewline xs := by
  simp [newlineFrom]

theorem newlineFrom_end (h : xs.length ≤ p + 1) : newlineFrom xs p = none := by
  have hshort : (xs.drop p).length ≤ 1 := by
    rw [List.length_drop]
    omega
  cases hseek : seekNewline (xs.drop p) with
  | none => rw [newlineFrom, hseek, Option.map_none]
  | some n =>
    have := seekNewline_le hseek
    omega

/-- Two bytes from a place on. -/
theorem drop_eq_cons_cons (h : p + 1 < xs.length) :
    xs.drop p = xs[p] :: xs[p + 1] :: xs.drop (p + 2) := by
  rw [List.drop_eq_getElem_cons (by omega), List.drop_eq_getElem_cons h]

theorem newlineFrom_here (h : p + 1 < xs.length) (h13 : xs[p] = 13) (h10 : xs[p + 1] = 10) :
    newlineFrom xs p = some p := by
  rw [newlineFrom, drop_eq_cons_cons h, seekNewline, if_pos ⟨h13, h10⟩]
  rfl

theorem newlineFrom_next (h : p + 1 < xs.length) (hne : ¬ (xs[p] = 13 ∧ xs[p + 1] = 10)) :
    newlineFrom xs (p + 1) = newlineFrom xs p := by
  rw [newlineFrom, newlineFrom, drop_eq_cons_cons h, seekNewline, if_neg hne,
    ← List.drop_eq_getElem_cons h, Option.map_map]
  congr 1
  funext n
  exact Nat.add_right_comm p 1 n

end Newline

namespace SdsReader

variable {r : SdsReader} {s : Nat} {xs : Bytes}

/-- The inner loop stops at a `\r` or at the last byte, and passes no line end. -/
theorem skipToReturn_spec (hs : Shows r s xs) (fuel : Nat) {pos : Nat} (hpos : pos < xs.length)
    (hfuel : xs.length ≤ fuel + pos) :
    ∃ q, r.skipToReturn s xs.length fuel pos = some q ∧ pos ≤ q ∧ q < xs.length ∧
      (q + 1 = xs.length ∨ xs[q]? = some 13) ∧ newlineFrom xs q = newlineFrom xs pos := by
  induction fuel generalizing pos with
  | zero => omega
  | succ fuel ih =>
    rw [skipToReturn]
    split
    next hlt =>
      have hbyte : r.byteAt (s + pos) = some xs[pos] := by
        rw [hs.byte hpos, List.getElem?_eq_getElem hpos]
      simp only [hbyte, Option.bind_eq_bind, Option.bind_some]
      split
      next hne =>
        obtain ⟨q, hq, hle, hrest⟩ := ih hlt (by omega)
        rw [newlineFrom_next hlt (fun h => hne h.1)] at hrest
        exact ⟨q, hq, by omega, hrest⟩
      next h13 =>
        have hreturn : xs[pos]? = some 13 := by
          rw [List.getElem?_eq_getElem hpos, not_not.mp h13]
        exact ⟨pos, rfl, Nat.le_refl _, hpos, .inr hreturn, rfl⟩
    next hlast => exact ⟨pos, rfl, Nat.le_refl _, hpos, .inl (by omega), rfl⟩

theorem seekNewlineFrom_eq (hs : Shows r s xs) {fuel pos : Nat} (hfuel : xs.length ≤ fuel + pos) :
    r.seekNewlineFrom s xs.length fuel pos = some (newlineFrom xs pos) := by
  induction fuel generalizing pos with
  | zero => rw [seekNewlineFrom, newlineFrom_end (by omega)]
  | succ fuel ih =>
    rw [seekNewlineFrom]
    split
    next hlt =>
      obtain ⟨q, hq, hle, hqlt, hstop, hsame⟩ :=
        skipToReturn_spec hs xs.length (show pos < xs.length by omega) (by omega)
      have hbyte : r.byteAt (s + q) = some xs[q] := by
        rw [hs.byte hqlt, List.getElem?_eq_getElem hqlt]
      simp only [hq, hbyte, Option.bind_eq_bind, Option.bind_some, ← hsame]
      split
      next hne =>
        -- no `\r`, so this is the last byte
        have hlast : q + 1 = xs.length := by
          refine hstop.resolve_right fun h => hne ?_
          rw [List.getElem?_eq_getElem hqlt] at h
          exact Option.some.inj h
        rw [newlineFrom_end (by omega)]
      next h13 =>
        have h13 : xs[q] = 13 := not_not.mp h13
        by_cases hend : q + 1 = xs.length
        · -- the byte behind the last one is the terminator
          have hnul : r.byteAt (s + (q + 1)) = some 0 := by
            rw [hs (q + 1) (by omega), hend, List.getElem?_concat_length]
          simp only [hnul, Option.bind_some]
          rw [if_neg (by decide), ih (by omega), newlineFrom_end (by omega), newlineFrom_end (by omega)]
        · have hnext : r.byteAt (s + (q + 1)) = some xs[q + 1] := by
            rw [hs.byte (by omega), List.getElem?_eq_getElem]
          simp only [hnext, Option.bind_some]
          split
          next h10 => rw [newlineFrom_here (by omega) h13 h10]
          next h10 => rw [ih (by omega), newlineFrom_next (by omega) fun h => h10 h.2]
    next hend => rw [newlineFrom_end (by omega)]

theorem seekNewline_eq (hs : Shows r s xs) :
    r.seekNewline s xs.length = some (CrazySnail.seekNewline xs) := by
  rw [seekNewline, seekNewlineFrom_eq hs (by omega), newlineFrom_zero]

/-! ## Numbers -/

/-- One more digit, with wrapping. -/
theorem bmod_digit (n d : Nat) :
    (((n : Int).bmod (2 ^ 64)) * 10 + (d : Int)).bmod (2 ^ 64) =
      ((10 * n + d : Nat) : Int).bmod (2 ^ 64) := by
  rw [Int.add_bmod, Int.bmod_mul_bmod, ← Int.add_bmod]
  congr 1
  push_cast
  ring

/-- The loop reads up to the next `\r`, and wraps as it goes. -/
theorem readDigits_eq (hs : Shows r s xs) (h13 : (13 : Byte) ∈ xs) {fuel : Nat}
    (hfuel : xs.length ≤ fuel) (n : Nat) :
    r.readDigits fuel s ((n : Int).bmod (2 ^ 64)) =
      some (if (xs.takeWhile (· ≠ 13)).all isdigit then
        some ((((xs.takeWhile (· ≠ 13)).foldl (fun v d => 10 * v + (d.toNat - 48)) n : Nat) : Int).bmod
          (2 ^ 64)) else none) := by
  induction xs generalizing fuel s n with
  | nil => cases h13
  | cons c xs ih =>
    cases fuel with
    | zero => simp at hfuel
    | succ fuel =>
      simp only [readDigits, hs.head, Option.bind_eq_bind, Option.bind_some]
      by_cases hc : c = 13
      · simp [hc]
      · have hrest : (13 : Byte) ∈ xs := (List.mem_cons.mp h13).resolve_left fun h => hc h.symm
        rw [if_neg hc, List.takeWhile_cons_of_pos (by simpa using hc), List.all_cons, List.foldl_cons]
        by_cases hdigit : isdigit c
        · rw [if_pos hdigit, bmod_digit, ih hs.tail hrest (by simpa using hfuel), hdigit,
            Bool.true_and]
        · rw [if_neg hdigit, Bool.eq_false_iff.mpr hdigit, Bool.false_and, if_neg (by decide)]

end SdsReader

/-- A number without a sign. -/
theorem readLongLong_unsigned {c : Byte} (xs : Bytes) (h45 : c ≠ 45) (h43 : c ≠ 43) :
    readLongLong (c :: xs) =
      if ((c :: xs).takeWhile (· ≠ 13)).all isdigit then
        ((1 : Int) * digitsValue ((c :: xs).takeWhile (· ≠ 13))).bmod (2 ^ 64) else -1 := by
  unfold readLongLong
  split
  next mult s heq =>
    split at heq
    next h => exact absurd (List.cons.inj h).1 h45
    next h => exact absurd (List.cons.inj h).1 h43
    next => cases heq; rfl

/-- A number is read off the line that is there. -/
theorem readLongLong_shows {r : SdsReader} {p : Nat} {xs : Bytes} (hs : Shows r p xs)
    (h13 : (13 : Byte) ∈ xs) (hfuel : xs.length ≤ (r.buf.map fun s => s.buf.length).getD 0 + 1) :
    r.readLongLong p = some (readLongLong xs) := by
  have hzero : (0 : Int) = ((0 : Nat) : Int).bmod (2 ^ 64) := rfl
  -- the product is taken modulo 2^64 once, whether or not the digits were
  have hmult : ∀ (mult : Int) (ds : Bytes),
      (((if ds.all isdigit then some ((digitsValue ds : Int).bmod (2 ^ 64)) else none).map
        fun v => (mult * v).bmod (2 ^ 64)).getD (-1)) =
      if ds.all isdigit then (mult * digitsValue ds).bmod (2 ^ 64) else -1 := by
    intro mult ds
    split
    · rw [Option.map_some, Option.getD_some, Int.mul_bmod_bmod]
    · rfl
  cases xs with
  | nil => cases h13
  | cons c xs =>
    have hrest : c ≠ 13 → (13 : Byte) ∈ xs := fun hc =>
      (List.mem_cons.mp h13).resolve_left fun h => hc h.symm
    have hless : xs.length ≤ (r.buf.map fun s => s.buf.length).getD 0 + 1 :=
      (Nat.le_succ _).trans hfuel
    simp only [SdsReader.readLongLong, hs.head, Option.bind_eq_bind, Option.bind_some]
    -- the sign is read first: a minus, a plus, or the first digit
    by_cases h45 : c = 45
    · subst h45
      rw [if_pos rfl, hzero, SdsReader.readDigits_eq hs.tail (hrest (by decide)) hless]
      exact congrArg some (hmult (-1) _)
    · rw [if_neg h45]
      by_cases h43 : c = 43
      · subst h43
        rw [if_pos rfl, hzero, SdsReader.readDigits_eq hs.tail (hrest (by decide)) hless]
        exact congrArg some (hmult 1 _)
      · rw [if_neg h43, hzero, SdsReader.readDigits_eq hs h13 hfuel,
          readLongLong_unsigned xs h45 h43]
        exact congrArg some (hmult 1 _)

/-! ## The reader and its buffer -/

namespace SdsReader

/-- The reader without its block. -/
def view (r : SdsReader) : RedisReader :=
  { err := r.err, errstr := r.errstr, buf := (r.buf.map Sds.bytes).getD [], pos := r.pos,
    rstack := r.rstack, reply := r.reply }

/-- The buffer is the string `s`, and the cursor is in it. -/
structure InBlock (r : SdsReader) (s : Sds) : Prop where
  buf : r.buf = some s
  len : r.len = s.len
  pos : r.pos ≤ s.len
  fits : s.Fits

/-- A reader without an error has its buffer. -/
def Sound (r : SdsReader) : Prop := r.err = 0 → ∃ s, r.InBlock s

end SdsReader

section InBlock
variable {r : SdsReader} {s : Sds} (h : r.InBlock s)
include h

theorem view_buf : r.view.buf = s.bytes := by
  rw [SdsReader.view, h.buf]
  rfl

theorem view_unread : r.view.unread = s.bytes.drop r.pos := by
  rw [RedisReader.unread, view_buf h]
  rfl

theorem length_unread : r.view.unread.length = r.len - r.pos := by
  rw [view_unread h, List.length_drop, Sds.length_bytes, h.len]

/-- What stands behind the cursor is the unread part of the string. -/
theorem shows_unread : Shows r r.pos r.view.unread := by
  intro i hi
  rw [length_unread h, h.len] at hi
  have hpos := h.pos
  have hunread : r.view.unread.length = s.len - r.pos := by rw [length_unread h, h.len]
  rw [SdsReader.byteAt, h.buf, Option.bind_some, Sds.read]
  rcases Nat.lt_or_ge i (s.len - r.pos) with hlt | hge
  · rw [List.getElem?_append_left (by omega), view_unread h, List.getElem?_drop,
      Sds.getElem?_bytes s (by omega)]
  · rw [List.getElem?_append_right (by omega), show r.pos + i = s.len by omega, s.nul,
      show i - r.view.unread.length = 0 by omega]
    rfl

theorem seekNewline_inBlock :
    r.seekNewline r.pos (r.len - r.pos) = some (seekNewline r.view.unread) := by
  rw [← length_unread h]
  exact SdsReader.seekNewline_eq (shows_unread h)

/-- The block is large enough for the reader to find the end of a number in it. -/
theorem length_unread_le : r.view.unread.length ≤ (r.buf.map fun s => s.buf.length).getD 0 + 1 := by
  have hsize := s.size
  rw [length_unread h, h.len, h.buf, Option.map_some, Option.getD_some]
  omega

/-- The cursor moves on inside the string. -/
theorem moved {n : Nat} (hn : n ≤ r.view.unread.length) :
    SdsReader.InBlock { r with pos := r.pos + n } s where
  buf := h.buf
  len := h.len
  fits := h.fits
  pos := by
    have hpos := h.pos
    rw [length_unread h, h.len] at hn
    change r.pos + n ≤ s.len
    omega

theorem copyFrom_inBlock {p n : Nat} (hn : p + n ≤ r.view.unread.length) :
    r.copyFrom (r.pos + p) n = some ((r.view.unread.drop p).take n) := by
  have hsize := s.size
  have hpos := h.pos
  rw [length_unread h, h.len] at hn
  rw [SdsReader.copyFrom, h.buf, Option.bind_some, if_pos (by omega), view_unread h, List.drop_drop,
    Sds.bytes, List.drop_take, List.take_take, Nat.min_eq_left (by omega)]

theorem readLine_none (hseek : seekNewline r.view.unread = none) : r.readLine = some (none, r) := by
  rw [SdsReader.readLine, seekNewline_inBlock h, hseek]
  rfl

theorem readLine_some {n : Nat} (hseek : seekNewline r.view.unread = some n) :
    r.readLine = some (some (r.pos, n), { r with pos := r.pos + (n + 2) }) := by
  rw [SdsReader.readLine, seekNewline_inBlock h, hseek]
  rfl

end InBlock

/-! ## Items

Every function of the parser follows the one on lists, and keeps its buffer unless it sets an
error. -/

/-- The outcome `x` of a function in memory shows the outcome `y` on lists, unless an element was
    stored through `NULL`. -/
def Follows (x : Option (SdsReader × Status)) (y : RedisReader × Status) : Prop :=
  ¬(y.2 = .err ∧ y.1.err = NULL_STORE) →
    ∃ r, x = some (r, y.2) ∧ r.view = y.1 ∧ ((∃ s, r.InBlock s) ∨ y.2 = .err ∧ r.err ≠ 0)

section Follows
variable {r : SdsReader} {s : Sds} (h : r.InBlock s)
include h

/-- Nothing has happened but that bytes are missing. -/
theorem more_follows : Follows (some (r, .err)) (r.view, .err) :=
  fun _ => ⟨r, rfl, rfl, .inl ⟨s, h⟩⟩

theorem complete_follows (obj : Reply) : Follows (r.complete obj) (complete r.view obj) := by
  rw [SdsReader.complete, complete, show r.view.rstack = r.rstack from rfl]
  cases r.rstack with
  | nil => exact fun _ => ⟨r, rfl, rfl, .inl ⟨s, h⟩⟩
  | cons cur rest =>
    dsimp only
    split
    · exact fun hstored => absurd ⟨rfl, rfl⟩ hstored
    · exact fun _ => ⟨_, rfl, rfl, .inl ⟨s, h.buf, h.len, h.pos, h.fits⟩⟩

theorem processLineItem_follows (type : ReplyType) :
    Follows (r.processLineItem type) (processLineItem r.view type) := by
  rw [SdsReader.processLineItem, processLineItem, readLine]
  cases hseek : seekNewline r.view.unread with
  | none =>
    rw [readLine_none h hseek]
    exact more_follows h
  | some n =>
    have hn := seekNewline_le hseek
    have hline : r.copyFrom r.pos n = some (r.view.unread.take n) :=
      copyFrom_inBlock h (p := 0) (by omega)
    have hmoved := moved h hn
    -- the copies are made after the cursor has moved
    have hcopy : SdsReader.copyFrom { r with pos := r.pos + (n + 2) } r.pos n =
        some (r.view.unread.take n) := hline
    have hnumber : SdsReader.readLongLong { r with pos := r.pos + (n + 2) } r.pos =
        some (readLongLong r.view.unread) :=
      readLongLong_shows (shows_unread h) (mem_of_seekNewline hseek) (length_unread_le h)
    rw [readLine_some h hseek]
    cases type with
    | integer =>
      simp only [hnumber, Option.bind_eq_bind, Option.bind_some]
      exact complete_follows hmoved _
    | _ =>
      simp only [hcopy, Option.bind_eq_bind, Option.bind_some]
      exact complete_follows hmoved _

theorem processBulkItem_follows : Follows r.processBulkItem (processBulkItem r.view) := by
  rw [SdsReader.processBulkItem, processBulkItem, seekNewline_inBlock h]
  cases hseek : seekNewline r.view.unread with
  | none => exact more_follows h
  | some n =>
    have hn := seekNewline_le hseek
    simp only [readLongLong_shows (shows_unread h) (mem_of_seekNewline hseek) (length_unread_le h),
      Option.bind_eq_bind, Option.bind_some]
    split
    · exact complete_follows (moved h hn) _
    · -- the whole item is there or not
      have hlength := length_unread h
      have hpos := h.pos
      have hsame : r.view.pos + (n + 2 + ((readLongLong r.view.unread).toNat + 2)) ≤
          r.view.buf.length ↔
          r.pos + (n + 2 + ((readLongLong r.view.unread).toNat + 2)) ≤ r.len := by
        rw [view_buf h, Sds.length_bytes, h.len]
        rfl
      simp only [hsame]
      split
      next hle =>
        rw [h.len] at hlength hle
        rw [show r.pos + n + 2 = r.pos + (n + 2) from rfl, copyFrom_inBlock h (by omega)]
        exact complete_follows (moved h (by omega)) _
      next => exact more_follows h

theorem processMultiBulkItem_follows :
    Follows r.processMultiBulkItem (processMultiBulkItem r.view) := by
  rw [SdsReader.processMultiBulkItem, processMultiBulkItem, readLine,
    show r.view.rstack = r.rstack from rfl]
  split
  · exact fun _ => ⟨_, rfl, rfl, .inr ⟨rfl, Nat.succ_ne_zero 3⟩⟩
  · cases hseek : seekNewline r.view.unread with
    | none =>
      rw [readLine_none h hseek]
      exact more_follows h
    | some n =>
      have hmoved := moved h (seekNewline_le hseek)
      have hnumber : SdsReader.readLongLong { r with pos := r.pos + (n + 2) } r.pos =
          some (readLongLong r.view.unread) :=
      readLongLong_shows (shows_unread h) (mem_of_seekNewline hseek) (length_unread_le h)
      rw [readLine_some h hseek]
      simp only [hnumber, Option.bind_eq_bind, Option.bind_some, Option.map_some]
      split
      · exact complete_follows hmoved _
      · split
        · obtain ⟨_, _, _, _, _, _, rstack, _⟩ := r
          cases rstack with
          | nil => exact more_follows hmoved
          | cons cur rest =>
            simp only [SdsReader.view, RedisReader.advance]
            split
            · exact fun hstored => absurd ⟨rfl, rfl⟩ hstored
            · exact fun _ =>
                ⟨_, rfl, rfl, .inl ⟨s, hmoved.buf, hmoved.len, hmoved.pos, hmoved.fits⟩⟩
        · exact complete_follows hmoved _

theorem processTyped_follows (type : ReplyType) :
    Follows (r.processTyped type) (processTyped r.view type) := by
  cases type with
  | string => exact processBulkItem_follows h
  | array => exact processMultiBulkItem_follows h
  | integer => exact processLineItem_follows h .integer
  | status => exact processLineItem_follows h .status
  | error => exact processLineItem_follows h .error

theorem processItem_follows : Follows r.processItem (processItem r.view) := by
  rw [SdsReader.processItem, processItem, show r.view.rstack = r.rstack from rfl]
  cases r.rstack with
  | nil => exact more_follows h
  | cons cur rest =>
    cases htype : cur.type with
    | some type => simpa only [htype] using processTyped_follows h type
    | none =>
      simp only [htype, SdsReader.readBytes]
      have hshows := shows_unread h
      have hlength := length_unread h
      cases hxs : r.view.unread with
      | nil =>
        rw [hxs, List.length_nil] at hlength
        rw [if_neg (by omega)]
        exact more_follows h
      | cons c xs =>
        rw [hxs] at hshows
        rw [hxs, List.length_cons] at hlength
        have hc : SdsReader.byteAt { r with pos := r.pos + 1 } r.pos = some c := hshows.head
        have hmoved := moved h (n := 1) (by rw [hxs, List.length_cons]; omega)
        rw [if_pos (by omega)]
        simp only [hc, Option.bind_eq_bind, Option.bind_some]
        cases typeOfByte c with
        | none => exact fun _ => ⟨_, rfl, rfl, .inr ⟨rfl, Nat.succ_ne_zero 3⟩⟩
        | some type =>
          exact processTyped_follows
            (r := { r with pos := r.pos + 1, rstack := { cur with type := some type } :: rest })
            ⟨hmoved.buf, hmoved.len, hmoved.pos, hmoved.fits⟩ type

end Follows

/-- The loop over the items. -/
theorem processItems_view (fuel : Nat) {r : SdsReader} {s : Sds} (h : r.InBlock s)
    (hstored : (processItems fuel r.view).err ≠ NULL_STORE) :
    ∃ r', r.processItems fuel = some r' ∧ r'.view = processItems fuel r.view ∧ r'.Sound := by
  induction fuel generalizing r s with
  | zero => exact ⟨r, rfl, rfl, fun _ => ⟨s, h⟩⟩
  | succ fuel ih =>
    rw [processItems, show r.view.rstack = r.rstack from rfl] at hstored
    rw [SdsReader.processItems, processItems, show r.view.rstack = r.rstack from rfl]
    split
    · exact ⟨r, rfl, rfl, fun _ => ⟨s, h⟩⟩
    next hstack =>
      rw [if_neg hstack] at hstored
      have hfollows := processItem_follows h
      generalize processItem r.view = outcome at hstored hfollows ⊢
      obtain ⟨a, st⟩ := outcome
      cases st with
      | ok =>
        obtain ⟨r', hitem, hview, hblock⟩ := hfollows fun hnull => Status.noConfusion hnull.1
        obtain ⟨s', hs'⟩ := hblock.resolve_right fun h => Status.noConfusion h.1
        dsimp only at hview hstored ⊢
        rw [hitem, ← hview]
        exact ih hs' (hview ▸ hstored)
      | err =>
        obtain ⟨r', hitem, hview, hblock⟩ := hfollows fun hnull => hstored hnull.2
        rw [hitem]
        exact ⟨r', rfl, hview, fun herr => hblock.resolve_right fun h => h.2 herr⟩

/-! ## Calls -/

theorem redisReaderFeed_view {r : SdsReader} (h : r.Sound) (junk : Nat → Byte) {chunk : Bytes}
    (hroom : r.view.buf.length + chunk.length + SDS_MAX_PREALLOC < 2 ^ 31) :
    ∃ r', r.redisReaderFeed junk chunk = some (r', (redisReaderFeed r.view chunk).2) ∧
      r'.view = (redisReaderFeed r.view chunk).1 ∧ r'.Sound := by
  rw [SdsReader.redisReaderFeed, redisReaderFeed, show r.view.err = r.err from rfl]
  split
  next herr => exact ⟨r, rfl, rfl, h⟩
  next herr =>
    obtain ⟨s, hs⟩ := h (not_not.mp herr)
    have hbuf := view_buf hs
    rw [hbuf, Sds.length_bytes] at hroom
    split
    · -- the buffer that is given up is empty
      obtain ⟨s₁, pos, hreset, hbytes, hpos, hsame, hfits⟩ : ∃ (s₁ : Sds) (pos : Nat),
          (if r.len = 0 ∧ r.maxbuf ≠ 0 ∧ r.maxbuf < s.free then (sdsempty, 0) else (s, r.pos)) =
            (s₁, pos) ∧ s₁.bytes = s.bytes ∧ pos = r.pos ∧ s₁.len = s.len ∧ s₁.Fits := by
        split
        next hreset =>
          have hlen : s.len = 0 := hs.len.symm.trans hreset.1
          have hempty : s.bytes = [] := by rw [← List.length_eq_zero_iff, Sds.length_bytes, hlen]
          have hle := hs.pos
          refine ⟨sdsempty, 0, rfl, ?_, by omega, hlen.symm, by decide⟩
          rw [hempty]
          exact Sds.bytes_newlen []
        next => exact ⟨s, r.pos, rfl, rfl, rfl, rfl, hs.fits⟩
      have hcat : (sdscatlen junk s₁ chunk).Fits := Sds.fits_catlen junk hfits (hsame ▸ hroom)
      have hlen : (sdscatlen junk s₁ chunk).len = s.len + chunk.length := by
        rw [← Sds.length_bytes, Sds.bytes_catlen, List.length_append, Sds.length_bytes, hsame]
      simp only [hs.buf, hreset, Sds.fitting, if_pos hcat, Option.bind_eq_bind, Option.bind_some]
      refine ⟨_, rfl, ?_, fun _ => ⟨_, rfl, rfl, ?_, hcat⟩⟩
      · rw [SdsReader.view, RedisReader.mk.injEq]
        refine ⟨rfl, rfl, ?_, hpos, rfl, rfl⟩
        simp [hbuf, hbytes]
      · dsimp only
        rw [hlen, hpos]
        exact hs.pos.trans (Nat.le_add_right _ _)
    next hnone =>
      -- an empty chunk is not copied
      have hchunk : chunk = [] := List.length_eq_zero_iff.mp (by omega)
      refine ⟨r, rfl, ?_, h⟩
      rw [hchunk, List.append_nil]
      rfl

/-- What is thrown away is what has been read. -/
theorem discard_inBlock {r : SdsReader} {s : Sds} (h : r.InBlock s) :
    (sdsrange s r.pos (-1)).bytes = r.view.unread := by
  have hpos := h.pos
  have hstop : rangeIndex s.bytes.length (-1) + 1 = max (s.bytes.length : Int) 1 := by
    unfold rangeIndex
    split <;> omega
  have hstart : rangeIndex s.bytes.length r.pos = r.pos := by
    unfold rangeIndex
    rw [if_neg (by omega)]
  rw [Sds.bytes_range, Sds.slice, hstop, hstart, view_unread h, Int.toNat_natCast,
    List.take_of_length_le (by omega)]

theorem redisReaderGetReply_view {r : SdsReader} (h : r.Sound)
    (hstored : (redisReaderGetReply r.view).1.err ≠ NULL_STORE) :
    ∃ r', r.redisReaderGetReply = some (r', (redisReaderGetReply r.view).2) ∧
      r'.view = (redisReaderGetReply r.view).1 ∧ r'.Sound := by
  rw [redisReaderGetReply] at hstored
  rw [SdsReader.redisReaderGetReply, redisReaderGetReply]
  by_cases herr : r.err ≠ 0
  · rw [if_pos herr, if_pos (show r.view.err ≠ 0 from herr)]
    exact ⟨r, rfl, rfl, h⟩
  · obtain ⟨s, hs⟩ := h (not_not.mp herr)
    have hlength : r.view.buf.length = r.len := by rw [view_buf hs, Sds.length_bytes, hs.len]
    rw [if_neg (show ¬ r.view.err ≠ 0 from herr)] at hstored
    rw [if_neg herr, if_neg (show ¬ r.view.err ≠ 0 from herr)]
    by_cases hlen : r.len = 0
    · rw [if_pos hlen, if_pos (hlength.trans hlen)]
      exact ⟨r, rfl, rfl, h⟩
    · rw [if_neg (fun h => hlen (hlength.symm.trans h))] at hstored
      rw [if_neg hlen, if_neg (fun h => hlen (hlength.symm.trans h))]
      -- the root item is set up alike
      obtain ⟨r₁, hr₁, hview₁, hs₁⟩ : ∃ r₁ : SdsReader,
          (if r.rstack = [] then { r with rstack := [.root] } else r) = r₁ ∧
          (if r.view.rstack = [] then { r.view with rstack := [.root] } else r.view) = r₁.view ∧
          r₁.InBlock s := by
        by_cases hstack : r.rstack = []
        · exact ⟨_, if_pos hstack, if_pos hstack, hs.buf, hs.len, hs.pos, hs.fits⟩
        · exact ⟨r, if_neg hstack, if_neg hstack, hs⟩
      have hloop : (processItems (r₁.len - r₁.pos + 1) r₁.view).err ≠ NULL_STORE := by
        intro hnull
        have hne : (processItems (r₁.len - r₁.pos + 1) r₁.view).err ≠ 0 := by
          rw [hnull]
          decide
        simp only [hview₁, length_unread hs₁, if_pos hne] at hstored
        exact hstored hnull
      obtain ⟨r₂, hr₂, hview₂, hsound⟩ := processItems_view (r₁.len - r₁.pos + 1) hs₁ hloop
      simp only [hr₁, hview₁, length_unread hs₁, hr₂, ← hview₂, Option.bind_eq_bind,
        Option.bind_some, show r₂.view.err = r₂.err from rfl]
      split
      next => exact ⟨r₂, rfl, rfl, hsound⟩
      next herr₂ =>
        obtain ⟨s₂, hs₂⟩ := hsound (not_not.mp herr₂)
        by_cases hpos : 1024 ≤ r₂.pos
        · simp only [if_pos hpos, if_pos (show 1024 ≤ r₂.view.pos from hpos), hs₂.buf,
            Option.bind_some, ← discard_inBlock hs₂, show r₂.view.rstack = r₂.rstack from rfl]
          split <;> exact ⟨_, rfl, rfl, fun _ => ⟨_, rfl, rfl, Nat.zero_le _, Sds.fits_range hs₂.fits⟩⟩
        · simp only [if_neg hpos, if_neg (show ¬ 1024 ≤ r₂.view.pos from hpos),
            show r₂.view.rstack = r₂.rstack from rfl]
          split <;> exact ⟨_, rfl, rfl, fun _ => ⟨s₂, hs₂.buf, hs₂.len, hs₂.pos, hs₂.fits⟩⟩

/-! ## Sequences of calls -/

/-- A call of the reader's interface; `junk` is what `realloc` leaves in new memory. -/
inductive ReaderCall where
  | feed (junk : Nat → Byte) (chunk : Bytes)
  | getReply

/-- What a call answers: the status and the reply, and what the reader then says of an error. -/
abbrev ReaderAnswer := (Status × Option Reply) × Nat × Bytes

def SdsReader.call (r : SdsReader) : ReaderCall → Option (SdsReader × ReaderAnswer)
  | .feed junk chunk =>
    (r.redisReaderFeed junk chunk).map fun t => (t.1, (t.2, none), t.1.err, t.1.errstr)
  | .getReply => r.redisReaderGetReply.map fun t => (t.1, t.2, t.1.err, t.1.errstr)

def RedisReader.call (r : RedisReader) : ReaderCall → RedisReader × ReaderAnswer
  | .feed _ chunk =>
    ((redisReaderFeed r chunk).1, ((redisReaderFeed r chunk).2, none),
      (redisReaderFeed r chunk).1.err, (redisReaderFeed r chunk).1.errstr)
  | .getReply =>
    ((redisReaderGetReply r).1, (redisReaderGetReply r).2, (redisReaderGetReply r).1.err,
      (redisReaderGetReply r).1.errstr)

/-- The reader on lists after a call. -/
def RedisReader.next (r : RedisReader) (c : ReaderCall) : Option RedisReader := some (r.call c).1

/-- The answers of the reader on lists. -/
def RedisReader.answers : RedisReader → List ReaderCall → List ReaderAnswer
  | _, [] => []
  | r, c :: cs => (r.call c).2 :: (r.call c).1.answers cs

/-- What the reader has to be spared: a buffer that grows to a size that is no `int`, and arrays
    announced with a count that is positive, but not as an `int`. -/
def ReaderCall.Within (r : RedisReader) : ReaderCall → Prop
  | .feed _ chunk => r.buf.length + chunk.length + SDS_MAX_PREALLOC < 2 ^ 31
  | .getReply => Vectored r.tasks r.unread

/-- The readers are the same but for the block, and in order. -/
structure SdsReader.Shadows (r : SdsReader) (a : RedisReader) : Prop where
  view : r.view = a
  sound : r.Sound
  intact : a.Intact

theorem create_shadows : SdsReader.create.Shadows RedisReader.create where
  view := rfl
  sound _ := ⟨sdsempty, rfl, rfl, Nat.le_refl _, by decide⟩
  intact := ⟨fun _ => RedisReader.create_valid, by decide⟩

/-- **One call.** -/
theorem call_shadows {r : SdsReader} {a : RedisReader} {c : ReaderCall} (h : r.Shadows a)
    (hwithin : c.Within a) : ∃ r', r.call c = some (r', (a.call c).2) ∧ r'.Shadows (a.call c).1 := by
  obtain ⟨rfl, hsound, hintact⟩ := h
  cases c with
  | feed junk chunk =>
    obtain ⟨r', hfeed, hview, hsound'⟩ := redisReaderFeed_view hsound junk hwithin
    refine ⟨r', ?_, hview, hsound', hintact.feed chunk⟩
    rw [SdsReader.call, hfeed, RedisReader.call, ← hview]
    rfl
  | getReply =>
    have hintact' := hintact.getReply hwithin
    obtain ⟨r', hget, hview, hsound'⟩ := redisReaderGetReply_view hsound hintact'.stored
    refine ⟨r', ?_, hview, hsound', hintact'⟩
    rw [SdsReader.call, hget, RedisReader.call, ← hview]
    rfl

/-- **The reader in memory.**  Whatever bytes arrive in whatever pieces, as long as the buffer and
    the counts stay within an `int`, no access is outside the buffer or through `NULL`, and the
    answers are those of the reader on lists. -/
theorem readerInMemory {cs : List ReaderCall} {a : RedisReader}
    (hrun : Transition.RunsUnder RedisReader.next (fun r c _ => c.Within r) RedisReader.create cs a) :
    Transition.answers SdsReader.call SdsReader.create cs =
      some (RedisReader.create.answers cs) := by
  have hlists : ∀ (a : RedisReader) (cs : List ReaderCall),
      Transition.answers (fun a c => some (RedisReader.call a c)) a cs = some (a.answers cs) := by
    intro a cs
    induction cs generalizing a with
    | nil => rfl
    | cons c cs ih =>
      rw [Transition.answers, Option.bind_some, ih]
      rfl
  rw [← hlists]
  refine Transition.RunsUnder.answers_eq (R := SdsReader.Shadows) ?_ hrun create_shadows
  rintro r a c a' o hshadows hcall hwithin
  have heq : a.call c = (a', o) := Option.some.inj hcall
  have hnext := call_shadows hshadows hwithin
  rw [heq] at hnext
  exact hnext

/-- The test of `Within`. -/
def sizedCheck (r : RedisReader) : ReaderCall → Bool
  | .feed _ chunk => decide (r.buf.length + chunk.length + SDS_MAX_PREALLOC < 2 ^ 31)
  | .getReply => vectored (r.unread.length + 1) r.tasks r.unread

theorem sized_of_check {r : RedisReader} {c : ReaderCall} (h : sizedCheck r c = true) :
    c.Within r := by
  cases c with
  | feed junk chunk =>
    rw [sizedCheck, decide_eq_true_eq] at h
    exact h
  | getReply => exact vectored_sound h

/-- A reply in two pieces, and a byte that begins none. -/
def readerCalls : List ReaderCall :=
  [.feed (fun _ => 7) (ascii "*2\r\n+a\r\n:1"), .getReply, .feed (fun _ => 9) (ascii "\r\n?"),
   .getReply, .getReply]

theorem readerInMemory_calls :
    Transition.answers SdsReader.call SdsReader.create readerCalls =
        some (RedisReader.create.answers readerCalls) ∧
      (RedisReader.create.answers readerCalls).map (fun o => (o.1.1, o.1.2.isSome, o.2.1)) =
        [(.ok, false, 0), (.ok, false, 0), (.ok, false, 0), (.ok, true, 0), (.err, false, 4)] := by
  have hrun : (Transition.runChecked RedisReader.next sizedCheck RedisReader.create
      readerCalls).isSome = true := by decide +kernel
  obtain ⟨a, ha⟩ := Option.isSome_iff_exists.mp hrun
  have hunder := Transition.runsUnder_of_checked (C := fun r c _ => c.Within r)
    (fun _ _ _ h _ => sized_of_check h) ha
  exact ⟨readerInMemory hunder, by decide +kernel⟩

end CrazySnail
