import CrazySnail.Library.Run
import CrazySnail.Sds

/-! # What sds strings hold

Each function of `sds.c` does to the bytes of the string what its name says, whatever the
block holds behind them and whatever a reallocation leaves there.  Over any sequence of
calls an sds string is a byte string (`sdsRefines`).
-/

namespace CrazySnail

namespace Sds
variable (s : Sds)

@[simp] theorem length_bytes : s.bytes.length = s.len := by
  have hsize := s.size
  rw [bytes, List.length_take]
  omega

theorem getElem?_bytes {i : Nat} (h : i < s.len) : s.bytes[i]? = s.buf[i]? :=
  List.getElem?_take_of_lt h

/-- The string is what stands in front of the terminator. -/
@[simp] theorem bytes_terminate (buf : Bytes) (hbuf : buf.length = s.len + s.free + 1) (n : Nat)
    (h : n ≤ s.len + s.free) : (s.terminate buf hbuf n h).bytes = buf.take n := by
  have htake : (buf.take n).length = n := by
    rw [List.length_take]
    omega
  simp only [bytes, terminate, write]
  rw [List.append_assoc, List.take_append_of_le_length htake.ge, List.take_take, Nat.min_self]

@[simp] theorem bytes_makeRoomFor (junk : Nat → Byte) (addlen : Nat) :
    (sdsMakeRoomFor junk s addlen).bytes = s.bytes := by
  have hsize := s.size
  unfold sdsMakeRoomFor
  split
  · rfl
  · have hle := le_preallocated (s.len + addlen)
    change (realloc junk s.buf _).take s.len = s.buf.take s.len
    rw [realloc, List.take_append_of_le_length (by rw [List.length_take]; omega), List.take_take,
      Nat.min_eq_left (by omega)]

@[simp] theorem bytes_removeFreeSpace (junk : Nat → Byte) :
    (sdsRemoveFreeSpace junk s).bytes = s.bytes := by
  have hsize := s.size
  change (realloc junk s.buf _).take s.len = s.buf.take s.len
  rw [realloc, List.take_append_of_le_length (by rw [List.length_take]; omega), List.take_take,
    Nat.min_eq_left (by omega)]

theorem bytes_put (t : Bytes) (h : t.length ≤ s.free) : (s.put t h).bytes = s.bytes ++ t := by
  have hsize := s.size
  have htake : (s.buf.take s.len ++ t).length = s.len + t.length := by
    rw [List.length_append, List.length_take]
    omega
  rw [put, bytes_terminate, write, ← htake, List.take_left]
  rfl

@[simp] theorem bytes_catlen (junk : Nat → Byte) (t : Bytes) :
    (sdscatlen junk s t).bytes = s.bytes ++ t := by
  rw [sdscatlen, bytes_put, bytes_makeRoomFor]

@[simp] theorem bytes_growzero (junk : Nat → Byte) (len : Nat) :
    (sdsgrowzero junk s len).bytes = s.bytes ++ List.replicate (len - s.len) 0 := by
  unfold sdsgrowzero
  split
  next hle => rw [Nat.sub_eq_zero_of_le hle, List.replicate_zero, List.append_nil]
  · rw [bytes_put, bytes_makeRoomFor]

theorem bytes_overwrite (t : Bytes) (h : t.length ≤ s.len + s.free) : (s.overwrite t h).bytes = t := by
  rw [overwrite, bytes_terminate, write, List.take_zero, List.nil_append, List.take_left]

@[simp] theorem bytes_cpylen (junk : Nat → Byte) (t : Bytes) : (sdscpylen junk s t).bytes = t := by
  unfold sdscpylen
  split <;> exact bytes_overwrite ..

@[simp] theorem bytes_newlen (init : Bytes) : (sdsnewlen init).bytes = init := by
  change (init ++ [0]).take init.length = init
  rw [List.take_left]

@[simp] theorem bytes_clear : (sdsclear s).bytes = [] := by
  rw [sdsclear, bytes_terminate, List.take_zero]

@[simp] theorem bytes_updatelen : (sdsupdatelen s).bytes = strdup s.bytes := by
  have hprefix : strdup s.bytes <+: s.bytes := List.takeWhile_prefix _
  rw [sdsupdatelen, bytes_terminate, List.prefix_iff_eq_take.mp hprefix, bytes, List.take_take]
  exact congrArg (s.buf.take ·) (Nat.min_eq_left s.strlen_le).symm

/-- The bytes from `start` on. -/
theorem bytes_shrink (start n : Nat) (h : n ≤ s.len - start) :
    (s.shrink start n h).bytes = (s.bytes.drop start).take n := by
  have hsize := s.size
  have hlength : ((s.buf.drop start).take n).length = n := by
    rw [List.length_take, List.length_drop]
    omega
  have hdrop : (s.bytes.drop start).take n = (s.buf.drop start).take n := by
    rw [bytes, List.drop_take, List.take_take, Nat.min_eq_left h]
  rw [hdrop, shrink, bytes_terminate, write, List.take_zero, List.nil_append]
  exact List.take_left' hlength

/-! ## Ranges -/

/-- `sdsrange` keeps the bytes from index to index, counted from the end where negative. -/
def slice (l : Bytes) (start stop : Int) : Bytes :=
  (l.take (rangeIndex l.length stop + 1).toNat).drop (rangeIndex l.length start).toNat

@[simp] theorem bytes_range (start stop : Int) : (sdsrange s start stop).bytes = slice s.bytes start stop := by
  unfold sdsrange slice
  rw [length_bytes]
  split
  next hempty =>
    have hnil : s.bytes = [] := List.length_eq_zero_iff.mp (s.length_bytes.trans hempty)
    rw [hnil, List.take_nil, List.drop_nil]
  next hne =>
    have hlength := s.length_bytes
    rw [bytes_shrink, List.drop_take]
    unfold rangeBounds
    obtain ⟨a, ha⟩ := Int.eq_ofNat_of_zero_le (rangeIndex_nonneg s.len start)
    obtain ⟨e, he⟩ := Int.eq_ofNat_of_zero_le (rangeIndex_nonneg s.len stop)
    rw [ha, he]
    dsimp only
    have hstop : ((e : Int) + 1).toNat - (a : Int).toNat = e + 1 - a := by omega
    rw [hstop]
    split
    next hinterval =>
      have hle : a ≤ e := by
        by_contra hlt
        exact hinterval (if_pos (by omega))
      have hlen : ∀ b : Int, a ≤ b → (intervalLen a b).toNat = (b + 1 - a).toNat := by
        intro b hb
        rw [intervalLen, if_neg (by omega)]
        omega
      split
      next hpast =>
        -- the interval starts behind the string
        rw [Int.toNat_natCast, List.drop_eq_nil_of_le (by omega), List.take_nil, List.take_nil]
      · split
        next hend =>
          -- it ends behind the string
          rw [hlen _ (by omega), List.take_of_length_le, List.take_of_length_le]
          · rw [List.length_drop]
            omega
          · rw [List.length_drop]
            omega
        · rw [hlen _ (by omega), Int.toNat_natCast]
          congr 1
          omega
    next hinterval =>
      have hlt : e < a := by
        by_contra hle
        refine hinterval ?_
        rw [intervalLen, if_neg (by omega)]
        omega
      rw [Nat.sub_eq_zero_of_le (by omega), List.take_zero, List.take_zero]

/-! ## Trimming -/

theorem trimStart_eq (cset : Bytes) {fuel sp : Nat} (hfuel : s.len ≤ fuel + sp) (hsp : sp ≤ s.len) :
    trimStart s.buf cset s.len fuel sp = sp + ((s.bytes.drop sp).takeWhile (strchr cset)).length := by
  induction fuel generalizing sp with
  | zero =>
    rw [trimStart, List.drop_eq_nil_of_le (by rw [length_bytes]; omega)]
    rfl
  | succ fuel ih =>
    rw [trimStart]
    by_cases hlt : sp < s.len
    · have hlt' : sp < s.bytes.length := by rwa [length_bytes]
      have hread : s.buf.getD sp 0 = s.bytes[sp] := by
        rw [List.getD_eq_getElem?_getD, ← s.getElem?_bytes hlt, List.getElem?_eq_getElem hlt']
        rfl
      rw [hread, List.drop_eq_getElem_cons hlt', List.takeWhile_cons]
      by_cases hin : strchr cset s.bytes[sp] = true
      · rw [if_pos ⟨hlt, hin⟩, if_pos hin, ih (by omega) (by omega), List.length_cons]
        omega
      · rw [if_neg (fun h => hin h.2), if_neg hin]
        rfl
    · rw [if_neg (fun h => hlt h.1), List.drop_eq_nil_of_le (by rw [length_bytes]; omega)]
      rfl

/-- From the right the loop stops behind the last byte that stays, or at the first byte. -/
theorem trimEnd_eq (cset : Bytes) {ep : Nat} (hep : ep ≤ s.len) :
    trimEnd s.buf cset ep = if (s.bytes.take ep).rdropWhile (strchr cset) = [] then min ep 1
      else ((s.bytes.take ep).rdropWhile (strchr cset)).length := by
  induction ep with
  | zero => simp [trimEnd]
  | succ ep ih =>
    have hlt : ep < s.bytes.length := by
      rw [length_bytes]
      omega
    have hread : s.buf.getD ep 0 = s.bytes[ep] := by
      rw [List.getD_eq_getElem?_getD, ← s.getElem?_bytes hep, List.getElem?_eq_getElem hlt]
      rfl
    rw [trimEnd, hread, ← List.take_concat_get' s.bytes ep hlt, List.rdropWhile_concat]
    by_cases hin : strchr cset s.bytes[ep] = true
    · rw [if_pos hin]
      by_cases hpos : 0 < ep
      · rw [if_pos ⟨hpos, hin⟩, ih (by omega)]
        congr 1
        omega
      -- the loop stops at the first byte even if that is in the set
      · obtain rfl : ep = 0 := by omega
        rw [if_neg (fun h => hpos h.1)]
        simp
    · rw [if_neg (fun h => hin h.2), if_neg hin,
        if_neg (List.append_ne_nil_of_right_ne_nil _ (List.cons_ne_nil _ _)), List.length_append,
        List.length_take, Nat.min_eq_left (by omega)]
      rfl

/-- Without the bytes of a set, and without zero bytes, at both ends. -/
def trimmed (cset l : Bytes) : Bytes := (l.dropWhile (strchr cset)).rdropWhile (strchr cset)

/-- What is cut off at the right end lies behind the last byte that stays. -/
theorem rdropWhile_append {p : Byte → Bool} (l : Bytes) {m : Bytes} (h : m.rdropWhile p ≠ []) :
    (l ++ m).rdropWhile p = l ++ m.rdropWhile p := by
  induction m using List.reverseRecOn with
  | nil => exact absurd (List.rdropWhile_nil p) h
  | append_singleton m c ih =>
    rw [← List.append_assoc, List.rdropWhile_concat, List.rdropWhile_concat] at *
    split
    next hc =>
      rw [if_pos hc] at h
      exact ih h
    · rw [List.append_assoc]

@[simp] theorem bytes_trim (cset : Bytes) : (sdstrim s cset).bytes = trimmed cset s.bytes := by
  have hlead : s.bytes.takeWhile (strchr cset) ++ s.bytes.dropWhile (strchr cset) = s.bytes :=
    List.takeWhile_append_dropWhile
  have hall : ∀ c ∈ s.bytes.takeWhile (strchr cset), strchr cset c = true := fun c hc =>
    List.mem_takeWhile_imp hc
  have hrest : (s.bytes.dropWhile (strchr cset)).rdropWhile (strchr cset) = [] →
      s.bytes.dropWhile (strchr cset) = [] := by
    intro hnil
    by_contra hne
    have hhead := List.rdropWhile_eq_nil_iff.mp hnil _ (List.head_mem hne)
    rw [List.head_dropWhile_not _ hne] at hhead
    cases hhead
  have hstart : trimStart s.buf cset s.len s.len 0 = (s.bytes.takeWhile (strchr cset)).length := by
    rw [s.trimStart_eq cset (Nat.le_refl _) (Nat.zero_le _), Nat.zero_add, List.drop_zero]
  have hend := s.trimEnd_eq cset (Nat.le_refl s.len)
  rw [List.take_of_length_le s.length_bytes.le] at hend
  rw [sdstrim, bytes_shrink, hstart, hend, trimmed]
  generalize s.bytes.takeWhile (strchr cset) = lead at hlead hall ⊢
  generalize s.bytes.dropWhile (strchr cset) = rest at hlead hrest ⊢
  rw [← hlead, List.drop_left]
  by_cases hnil : rest.rdropWhile (strchr cset) = []
  · -- every byte is in the set
    obtain rfl := hrest hnil
    rw [List.take_nil, List.rdropWhile_nil]
  · have hkeep := rdropWhile_append lead hnil
    rw [if_neg (by rw [hkeep]; exact List.append_ne_nil_of_right_ne_nil _ hnil), hkeep,
      List.length_append, Nat.add_sub_cancel_left]
    exact (List.prefix_iff_eq_take.mp (List.rdropWhile_prefix _ _)).symm

@[simp] theorem bytes_mapBytes (f : Byte → Byte) : (s.mapBytes f).bytes = s.bytes.map f := by
  have hlength : (s.bytes.map f).length = s.len := by rw [List.length_map, length_bytes]
  simp only [bytes, mapBytes, write, List.take_zero, List.nil_append]
  exact List.take_left' hlength

/-! ## Sizes -/

/-- A string that ends elsewhere in its block has a header of the same size. -/
theorem fits_terminate (buf : Bytes) (hbuf : buf.length = s.len + s.free + 1) (n : Nat)
    (h : n ≤ s.len + s.free) : (s.terminate buf hbuf n h).Fits ↔ s.Fits := by
  have hsum : n + (s.len + s.free - n) = s.len + s.free := Nat.add_sub_cancel' h
  change n + (s.len + s.free - n) < 2 ^ 31 ↔ s.len + s.free < 2 ^ 31
  rw [hsum]

theorem fits_put (t : Bytes) (h : t.length ≤ s.free) : (s.put t h).Fits ↔ s.Fits := by
  unfold put
  exact fits_terminate ..

theorem fits_overwrite (t : Bytes) (h : t.length ≤ s.len + s.free) :
    (s.overwrite t h).Fits ↔ s.Fits := by
  unfold overwrite
  exact fits_terminate ..

theorem fits_shrink (start n : Nat) (h : n ≤ s.len - start) : (s.shrink start n h).Fits ↔ s.Fits := by
  unfold shrink
  exact fits_terminate ..

variable {s}

/-- There is room for `addlen` bytes, and the header holds its size. -/
theorem fits_makeRoomFor (junk : Nat → Byte) {addlen : Nat} (h : s.Fits)
    (hroom : s.len + addlen + SDS_MAX_PREALLOC < 2 ^ 31) : (sdsMakeRoomFor junk s addlen).Fits := by
  unfold sdsMakeRoomFor
  split
  · exact h
  · have hle := le_preallocated (s.len + addlen)
    have hsize : preallocated (s.len + addlen) ≤ s.len + addlen + SDS_MAX_PREALLOC := by
      unfold preallocated
      split <;> omega
    change s.len + (preallocated (s.len + addlen) - s.len) < 2 ^ 31
    omega

theorem fits_catlen (junk : Nat → Byte) {t : Bytes} (h : s.Fits)
    (hroom : s.len + t.length + SDS_MAX_PREALLOC < 2 ^ 31) : (sdscatlen junk s t).Fits :=
  (fits_put _ _ _).mpr (fits_makeRoomFor junk h hroom)

theorem fits_growzero (junk : Nat → Byte) {len : Nat} (h : s.Fits)
    (hroom : len + SDS_MAX_PREALLOC < 2 ^ 31) : (sdsgrowzero junk s len).Fits := by
  unfold sdsgrowzero
  split
  · exact h
  · exact (fits_put _ _ _).mpr (fits_makeRoomFor junk h (by omega))

theorem fits_cpylen (junk : Nat → Byte) {t : Bytes} (h : s.Fits)
    (hroom : t.length + SDS_MAX_PREALLOC < 2 ^ 31) : (sdscpylen junk s t).Fits := by
  unfold sdscpylen
  split
  · exact (fits_overwrite _ _ _).mpr (fits_makeRoomFor junk h (by omega))
  · exact (fits_overwrite _ _ _).mpr h

theorem fits_range {start stop : Int} (h : s.Fits) : (sdsrange s start stop).Fits := by
  unfold sdsrange
  split
  · exact h
  · exact (fits_shrink _ _ _ _).mpr h

end Sds

/-! ## Sequences of calls -/

/-- A call of a function of `sds.c` on a string.  The first three give a new one, and the strings
    that are appended or copied are not the string itself. -/
inductive SdsOp where
  | newlen (init : Bytes)
  | new (init : Bytes)
  | dup
  | makeRoomFor (addlen : Nat)
  | removeFreeSpace
  | catlen (t : Bytes)
  | cat (t : Bytes)
  | catsds (t : Sds)
  | cpylen (t : Bytes)
  | cpy (t : Bytes)
  | growzero (len : Nat)
  /-- `sdsIncrLen` with a negative number -/
  | cut (n : Nat)
  | range (start stop : Int)
  | trim (cset : Bytes)
  | clear
  | updatelen
  | lower
  | upper
  | mapchars (set : List (Byte × Byte))

/-- The string that the call leaves, with what a reallocation leaves in new memory. -/
def SdsOp.apply (junk : Nat → Byte) (s : Sds) : SdsOp → Option Sds
  | .newlen init => some (sdsnewlen init)
  | .new init => some (sdsnew init)
  | .dup => some (sdsdup s)
  | .makeRoomFor addlen => some (sdsMakeRoomFor junk s addlen)
  | .removeFreeSpace => some (sdsRemoveFreeSpace junk s)
  | .catlen t => some (sdscatlen junk s t)
  | .cat t => some (sdscat junk s t)
  | .catsds t => some (sdscatsds junk s t)
  | .cpylen t => some (sdscpylen junk s t)
  | .cpy t => some (sdscpy junk s t)
  | .growzero len => some (sdsgrowzero junk s len)
  | .cut n => sdsIncrLen s (-n)
  | .range start stop => some (sdsrange s start stop)
  | .trim cset => some (sdstrim s cset)
  | .clear => some (sdsclear s)
  | .updatelen => some (sdsupdatelen s)
  | .lower => some (sdstolower s)
  | .upper => some (sdstoupper s)
  | .mapchars set => some (sdsmapchars s set)

/-- The call; `none` where it writes outside the block, or an `int` of the header overflows. -/
def Sds.step (s : Sds) (e : (Nat → Byte) × SdsOp) : Option Sds := (e.2.apply e.1 s).bind Sds.fitting

/-- What the call means for a byte string. -/
def SdsOp.meaning (l : Bytes) : SdsOp → Option Bytes
  | .newlen init => some init
  | .new init => some (strdup init)
  | .dup => some l
  | .makeRoomFor _ => some l
  | .removeFreeSpace => some l
  | .catlen t => some (l ++ t)
  | .cat t => some (l ++ strdup t)
  | .catsds t => some (l ++ t.bytes)
  | .cpylen t => some t
  | .cpy t => some (strdup t)
  | .growzero len => some (l ++ List.replicate (len - l.length) 0)
  | .cut n => if n ≤ l.length then some (l.take (l.length - n)) else none
  | .range start stop => some (Sds.slice l start stop)
  | .trim cset => some (Sds.trimmed cset l)
  | .clear => some []
  | .updatelen => some (strdup l)
  | .lower => some (l.map tolower)
  | .upper => some (l.map toupper)
  | .mapchars set => some (l.map (mapchar set))

/-- The largest size that the call can ask for, with the room that `sdsMakeRoomFor` adds. -/
def SdsOp.size (l : Bytes) : SdsOp → Nat
  | .newlen init => init.length
  | .new init => (strdup init).length
  | .makeRoomFor addlen => l.length + addlen + SDS_MAX_PREALLOC
  | .catlen t => l.length + t.length + SDS_MAX_PREALLOC
  | .cat t => l.length + (strdup t).length + SDS_MAX_PREALLOC
  | .catsds t => l.length + t.bytes.length + SDS_MAX_PREALLOC
  | .cpylen t => t.length + SDS_MAX_PREALLOC
  | .cpy t => (strdup t).length + SDS_MAX_PREALLOC
  | .growzero len => len + SDS_MAX_PREALLOC
  | _ => 0

/-- The indices of the call; `sdsrange` also computes the one behind the last. -/
def SdsOp.indices : SdsOp → List Int
  | .range start stop => [start, stop, stop + 1]
  | _ => []

/-- The sizes and the indices of the call are `int`s. -/
def SdsOp.Within (l : Bytes) (op : SdsOp) : Prop :=
  op.size l < 2 ^ 31 ∧ ∀ i ∈ op.indices, -2 ^ 31 ≤ i ∧ i < 2 ^ 31

instance (l : Bytes) (op : SdsOp) : Decidable (op.Within l) :=
  inferInstanceAs (Decidable (_ ∧ _))

/-- What the call leaves has the bytes that it means. -/
theorem apply_bytes (junk : Nat → Byte) (s : Sds) (op : SdsOp) :
    (op.apply junk s).map Sds.bytes = op.meaning s.bytes := by
  cases op with
  | cut n =>
    have hsize := s.size
    simp only [SdsOp.apply, SdsOp.meaning, sdsIncrLen, s.length_bytes]
    by_cases hn : n ≤ s.len
    · rw [dif_pos ⟨by omega, by omega⟩, if_pos hn, Option.map_some, Sds.bytes_terminate, Sds.bytes,
        List.take_take, Nat.min_eq_left (Nat.sub_le ..)]
      congr 2
      omega
    · rw [dif_neg (fun h => hn (by omega)), if_neg hn]
      rfl
  | _ =>
    simp [SdsOp.apply, SdsOp.meaning, sdstolower, sdstoupper, sdsmapchars, sdsnew, sdsdup, sdscat,
      sdscatsds, sdscpy]

/-- What the call leaves has a header that holds its sizes. -/
theorem apply_fits {junk : Nat → Byte} {s s' : Sds} {op : SdsOp} (h : s.Fits)
    (hwithin : op.Within s.bytes) (heq : op.apply junk s = some s') : s'.Fits := by
  have hsize := hwithin.1
  have hlength := s.length_bytes
  have hlen : s.len < 2 ^ 31 := Nat.lt_of_le_of_lt (Nat.le_add_right ..) h
  cases op with
  | cut n =>
    simp only [SdsOp.apply, sdsIncrLen, Option.dite_none_right_eq_some] at heq
    obtain ⟨_, heq⟩ := heq
    cases heq
    exact (Sds.fits_terminate _ _ _ _ _).mpr h
  | newlen | new => cases heq; exact hsize
  | dup =>
    cases heq
    change s.bytes.length < 2 ^ 31
    rw [hlength]
    exact hlen
  | removeFreeSpace => cases heq; exact hlen
  | makeRoomFor => cases heq; exact Sds.fits_makeRoomFor junk h (hlength ▸ hsize)
  | catlen | cat | catsds => cases heq; exact Sds.fits_catlen junk h (hlength ▸ hsize)
  | cpylen | cpy => cases heq; exact Sds.fits_cpylen junk h hsize
  | growzero => cases heq; exact Sds.fits_growzero junk h hsize
  | range => cases heq; exact Sds.fits_range h
  | trim => cases heq; exact (Sds.fits_shrink _ _ _ _).mpr h
  | clear | updatelen => cases heq; exact (Sds.fits_terminate _ _ _ _ _).mpr h
  | lower | upper | mapchars => cases heq; exact h

/-- **One call.** -/
theorem step_bytes {s : Sds} {l : Bytes} (e : (Nat → Byte) × SdsOp) (h : s.Fits)
    (hwithin : e.2.Within s.bytes) (hmeaning : e.2.meaning s.bytes = some l) :
    ∃ s', s.step e = some s' ∧ s'.bytes = l ∧ s'.Fits := by
  rw [← apply_bytes e.1] at hmeaning
  obtain ⟨s', happly, hbytes⟩ := Option.map_eq_some_iff.mp hmeaning
  have hfits := apply_fits h hwithin happly
  refine ⟨s', ?_, hbytes, hfits⟩
  rw [Sds.step, happly, Option.bind_some, Sds.fitting, if_pos hfits]

/-- **An sds string is a byte string**: whatever is called, as long as the sizes are `int`s, the
    strings are those that the calls make of byte strings. -/
theorem sdsRefines {s : Sds} {l : Bytes} {es : List ((Nat → Byte) × SdsOp)} (hfits : s.Fits)
    (hrun : Transition.RunsUnder SdsOp.meaning (fun l op _ => op.Within l) s.bytes (es.map Prod.snd) l) :
    ∃ s', Transition.run Sds.step s es = some s' ∧ s'.bytes = l ∧ s'.Fits := by
  refine hrun.simulate (R := fun (s : Sds) l => s.bytes = l ∧ s.Fits) ?_ ⟨rfl, hfits⟩
  rintro s l e l' ⟨rfl, hfits⟩ hmeaning hwithin
  exact step_bytes e hfits hwithin hmeaning

/-- A greeting that is made, zero filled, cut again and trimmed. -/
def sdsCalls : List SdsOp :=
  [.new (ascii " Hello"), .cat (ascii ", World !"), .growzero 20, .cut 4, .updatelen, .dup, .lower,
   .range 0 (-3), .trim (ascii " ")]

theorem sdsRefines_calls :
    ∃ s, Transition.run Sds.step sdsempty (sdsCalls.map fun op => (fun _ => 7, op)) = some s ∧
      s.bytes = ascii "hello, world" ∧ s.Fits := by
  have hrun : Transition.runChecked SdsOp.meaning (fun l op => decide (op.Within l)) []
      sdsCalls = some (ascii "hello, world") := by decide +kernel
  have hunder := Transition.runsUnder_of_checked (C := fun l op _ => op.Within l)
    (fun _ _ _ h _ => of_decide_eq_true h) hrun
  have hcalls : (sdsCalls.map fun op => ((fun _ : Nat => (7 : Byte)), op)).map Prod.snd = sdsCalls := by
    simp
  exact sdsRefines (s := sdsempty) (by decide) (hcalls.symm ▸ hunder)

end CrazySnail
