import CrazySnail.CString

/-! # Strings with a header (`sds.c`)

An `Sds` is the memory block of an sds string: the header and the bytes of `buf`.  Its
fields say that the block has the size the header gives and that the string in it is
terminated, so every function shows that it keeps this.  A write carries the proof that it
stays inside its block.

`junk` gives the bytes that `realloc` leaves in the new part of a block.  Allocation is
taken to succeed.  The fields of the header are `int`s: what is said here holds as long as
they hold the sizes, which `Sds.Fits` says.
-/

namespace CrazySnail

/-! ## Blocks -/

/-- `memcpy`, `memmove` or `memset` of the bytes `src` to the place `off` of a block. -/
def write (block : Bytes) (off : Nat) (src : Bytes) (_ : off + src.length ≤ block.length) : Bytes :=
  block.take off ++ src ++ block.drop (off + src.length)

@[simp] theorem length_write {block : Bytes} {off : Nat} {src : Bytes}
    (h : off + src.length ≤ block.length) : (write block off src h).length = block.length := by
  simp only [write, List.length_append, List.length_take, List.length_drop]
  omega

/-- What is written is there. -/
theorem getElem?_write {block : Bytes} {off : Nat} {src : Bytes}
    (h : off + src.length ≤ block.length) (i : Nat) :
    (write block off src h)[i]? =
      if i < off then block[i]? else if i < off + src.length then src[i - off]? else block[i]? := by
  have htake : (block.take off).length = off := by
    rw [List.length_take]
    omega
  simp only [write, List.append_assoc, List.getElem?_append, htake]
  split
  · rw [List.getElem?_take_of_lt (by assumption)]
  next hoff =>
    have hlt : i - off < src.length ↔ i < off + src.length := by omega
    simp only [hlt]
    split
    · rfl
    · rw [List.getElem?_drop]
      congr 1
      omega

/-- `realloc` to `n` bytes. -/
def realloc (junk : Nat → Byte) (block : Bytes) (n : Nat) : Bytes :=
  block.take n ++ (List.range' block.length (n - block.length)).map junk

@[simp] theorem length_realloc (junk : Nat → Byte) (block : Bytes) (n : Nat) :
    (realloc junk block n).length = n := by
  simp only [realloc, List.length_append, List.length_take, List.length_map, List.length_range']
  omega

theorem getElem?_realloc {junk : Nat → Byte} {block : Bytes} {n i : Nat} (hi : i < block.length)
    (hn : i < n) : (realloc junk block n)[i]? = block[i]? := by
  rw [realloc, List.getElem?_append_left (by rw [List.length_take]; omega),
    List.getElem?_take_of_lt hn]

/-! ## Strings -/

/-- `struct sdshdr` -/
structure Sds where
  len : Nat
  free : Nat
  buf : Bytes
  size : buf.length = len + free + 1
  nul : buf[len]? = some 0

namespace Sds

/-- The string. -/
def bytes (s : Sds) : Bytes := s.buf.take s.len

/-- The header holds its sizes, and so does an `int` their sum. -/
def Fits (s : Sds) : Prop := s.len + s.free < 2 ^ 31

instance (s : Sds) : Decidable s.Fits := inferInstanceAs (Decidable (_ < _))

/-- The string, where no `int` overflows. -/
def fitting (s : Sds) : Option Sds := if s.Fits then some s else none

/-- Read a byte of the block. -/
def read (s : Sds) (i : Nat) : Option Byte := s.buf[i]?

end Sds

def SDS_MAX_PREALLOC : Nat := 1024 * 1024

/-- `sdsnewlen` of initial bytes -/
def sdsnewlen (init : Bytes) : Sds where
  len := init.length
  free := 0
  buf := init ++ [0]
  size := by simp
  nul := by simp

/-- `sdsempty` -/
def sdsempty : Sds := sdsnewlen []

/-- `sdsnew` -/
def sdsnew (init : Bytes) : Sds := sdsnewlen (strdup init)

/-- `sdsdup` -/
def sdsdup (s : Sds) : Sds := sdsnewlen s.bytes

/-- The size that `sdsMakeRoomFor` asks for. -/
def preallocated (newlen : Nat) : Nat :=
  if newlen < SDS_MAX_PREALLOC then newlen * 2 else newlen + SDS_MAX_PREALLOC

theorem le_preallocated (newlen : Nat) : newlen ≤ preallocated newlen := by
  unfold preallocated
  split <;> omega

/-- `sdsMakeRoomFor` -/
def sdsMakeRoomFor (junk : Nat → Byte) (s : Sds) (addlen : Nat) : Sds :=
  if h : addlen ≤ s.free then s
  else
    have hle : s.len + addlen ≤ preallocated (s.len + addlen) := le_preallocated _
    { len := s.len
      free := preallocated (s.len + addlen) - s.len
      buf := realloc junk s.buf (preallocated (s.len + addlen) + 1)
      size := by
        rw [length_realloc]
        omega
      nul := by
        have hsize := s.size
        rw [getElem?_realloc (by omega) (by omega), s.nul] }

@[simp] theorem sdsMakeRoomFor_len (junk : Nat → Byte) (s : Sds) (addlen : Nat) :
    (sdsMakeRoomFor junk s addlen).len = s.len := by
  unfold sdsMakeRoomFor
  split <;> rfl

/-- There is room afterwards. -/
theorem le_sdsMakeRoomFor (junk : Nat → Byte) (s : Sds) (addlen : Nat) :
    addlen ≤ (sdsMakeRoomFor junk s addlen).free := by
  have hle := le_preallocated (s.len + addlen)
  unfold sdsMakeRoomFor
  split
  · assumption
  · change addlen ≤ preallocated (s.len + addlen) - s.len
    omega

/-- `sdsRemoveFreeSpace` -/
def sdsRemoveFreeSpace (junk : Nat → Byte) (s : Sds) : Sds where
  len := s.len
  free := 0
  buf := realloc junk s.buf (s.len + 1)
  size := length_realloc ..
  nul := by
    have hsize := s.size
    rw [getElem?_realloc (by omega) (by omega), s.nul]

/-- The end of most functions: a new length, with the terminator written behind it. -/
def Sds.terminate (s : Sds) (buf : Bytes) (hbuf : buf.length = s.len + s.free + 1) (newlen : Nat)
    (h : newlen ≤ s.len + s.free) : Sds where
  len := newlen
  free := s.len + s.free - newlen
  buf := write buf newlen [0] (by simp only [List.length_singleton]; omega)
  size := by
    rw [length_write]
    omega
  nul := by
    rw [getElem?_write]
    simp

/-! ## Appending and copying -/

/-- Bytes for which there is room, behind the string. -/
def Sds.put (s : Sds) (t : Bytes) (h : t.length ≤ s.free) : Sds :=
  have hsize := s.size
  s.terminate (write s.buf s.len t (by omega)) (by rw [length_write, hsize]) (s.len + t.length)
    (by omega)

/-- `sdscatlen` -/
def sdscatlen (junk : Nat → Byte) (s : Sds) (t : Bytes) : Sds :=
  (sdsMakeRoomFor junk s t.length).put t (le_sdsMakeRoomFor junk s t.length)

/-- `sdscat` -/
def sdscat (junk : Nat → Byte) (s : Sds) (t : Bytes) : Sds := sdscatlen junk s (strdup t)

/-- `sdscatsds` -/
def sdscatsds (junk : Nat → Byte) (s t : Sds) : Sds := sdscatlen junk s t.bytes

/-- `sdsgrowzero` -/
def sdsgrowzero (junk : Nat → Byte) (s : Sds) (len : Nat) : Sds :=
  if len ≤ s.len then s
  else
    (sdsMakeRoomFor junk s (len - s.len)).put (List.replicate (len - s.len) 0) (by
      rw [List.length_replicate]
      exact le_sdsMakeRoomFor junk s (len - s.len))

/-- The copy of `sdscpylen` into a block that is large enough. -/
def Sds.overwrite (s : Sds) (t : Bytes) (h : t.length ≤ s.len + s.free) : Sds :=
  have hsize := s.size
  s.terminate (write s.buf 0 t (by omega)) (by rw [length_write, hsize]) t.length h

/-- `sdscpylen` -/
def sdscpylen (junk : Nat → Byte) (s : Sds) (t : Bytes) : Sds :=
  if h : s.free + s.len < t.length then
    (sdsMakeRoomFor junk s (t.length - s.len)).overwrite t (by
      have hroom := le_sdsMakeRoomFor junk s (t.length - s.len)
      have hlen := sdsMakeRoomFor_len junk s (t.length - s.len)
      omega)
  else s.overwrite t (by omega)

/-- `sdscpy` -/
def sdscpy (junk : Nat → Byte) (s : Sds) (t : Bytes) : Sds := sdscpylen junk s (strdup t)

/-! ## Cutting -/

/-- `sdsIncrLen`: the caller has written behind the string, or cuts it with a negative `incr`.
    `none` where its first assertion fails, and where the length gets negative: that passes both
    assertions, and the terminator is written in front of the string. -/
def sdsIncrLen (s : Sds) (incr : Int) : Option Sds :=
  if h : incr ≤ s.free ∧ 0 ≤ s.len + incr then
    some (s.terminate s.buf s.size (s.len + incr).toNat (by omega))
  else none

/-- `sdsclear` -/
def sdsclear (s : Sds) : Sds := s.terminate s.buf s.size 0 (Nat.zero_le _)

theorem Sds.strlen_le (s : Sds) : strlen s.bytes ≤ s.len := by
  have hstrlen : strlen s.bytes ≤ s.bytes.length := (List.takeWhile_prefix _).length_le
  have hbytes : s.bytes.length ≤ s.len := List.length_take_le ..
  exact hstrlen.trans hbytes

/-- `sdsupdatelen`: up to the first zero byte, which is the terminator at the latest. -/
def sdsupdatelen (s : Sds) : Sds :=
  s.terminate s.buf s.size (strlen s.bytes) (s.strlen_le.trans (Nat.le_add_right _ _))

/-- Keep `n` bytes from the place `start` on. -/
def Sds.shrink (s : Sds) (start n : Nat) (h : n ≤ s.len - start) : Sds :=
  have hsize := s.size
  have hlength : ((s.buf.drop start).take n).length = n := by
    rw [List.length_take, List.length_drop]
    omega
  s.terminate (write s.buf 0 ((s.buf.drop start).take n) (by omega)) (by rw [length_write, hsize]) n
    (by omega)

/-- An index of `sdsrange`, counted from the end if it is negative. -/
def rangeIndex (len : Nat) (i : Int) : Int :=
  if i < 0 then (if len + i < 0 then 0 else len + i) else i

/-- The length of the interval from `start` to `stop`. -/
def intervalLen (start stop : Int) : Int := if stop < start then 0 else stop - start + 1

/-- The place and the length that `sdsrange` computes. -/
def rangeBounds (len : Nat) (start stop : Int) : Nat × Nat :=
  let start := rangeIndex len start
  let stop := rangeIndex len stop
  if intervalLen start stop ≠ 0 then
    if len ≤ start then (start.toNat, 0)
    else if len ≤ stop then (start.toNat, (intervalLen start (len - 1)).toNat)
    else (start.toNat, (intervalLen start stop).toNat)
  else (0, 0)

theorem rangeIndex_nonneg (len : Nat) (i : Int) : 0 ≤ rangeIndex len i := by
  unfold rangeIndex
  split
  · split <;> omega
  · omega

theorem rangeBounds_le (len : Nat) (start stop : Int) :
    (rangeBounds len start stop).2 ≤ len - (rangeBounds len start stop).1 := by
  have hstart := rangeIndex_nonneg len start
  have hinterval : ∀ start stop : Int, 0 ≤ start → stop < len →
      (intervalLen start stop).toNat ≤ len - start.toNat := by
    intro start stop _ _
    unfold intervalLen
    split <;> omega
  unfold rangeBounds
  dsimp only
  split
  · split
    · exact Nat.zero_le _
    · split
      · exact hinterval _ _ hstart (by omega)
      · exact hinterval _ _ hstart (by omega)
  · exact Nat.zero_le _

/-- `sdsrange` -/
def sdsrange (s : Sds) (start stop : Int) : Sds :=
  if s.len = 0 then s
  else s.shrink (rangeBounds s.len start stop).1 (rangeBounds s.len start stop).2
    (rangeBounds_le s.len start stop)

/-- `strchr(cset, c)`, as a condition: the terminator counts. -/
def strchr (cset : Bytes) (c : Byte) : Bool := c = 0 || (strdup cset).contains c

/-- The loop of `sdstrim` over `sp`. -/
def trimStart (buf cset : Bytes) (len : Nat) : Nat → Nat → Nat
  | 0, sp => sp
  | fuel + 1, sp =>
    if sp < len ∧ strchr cset (buf.getD sp 0) then trimStart buf cset len fuel (sp + 1) else sp

/-- The loop of `sdstrim` over `ep`, which is counted from one here. -/
def trimEnd (buf cset : Bytes) : Nat → Nat
  | 0 => 0
  | ep + 1 => if 0 < ep ∧ strchr cset (buf.getD ep 0) then trimEnd buf cset ep else ep + 1

theorem trimEnd_le (buf cset : Bytes) (ep : Nat) : trimEnd buf cset ep ≤ ep := by
  induction ep with
  | zero => exact Nat.le_refl _
  | succ ep ih =>
    rw [trimEnd]
    split
    · exact ih.trans (Nat.le_succ ep)
    · exact Nat.le_refl _

/-- `sdstrim` -/
def sdstrim (s : Sds) (cset : Bytes) : Sds :=
  s.shrink (trimStart s.buf cset s.len s.len 0)
    (trimEnd s.buf cset s.len - trimStart s.buf cset s.len s.len 0)
    (Nat.sub_le_sub_right (trimEnd_le s.buf cset s.len) _)

/-! ## Characters -/

/-- Replace every byte of the string. -/
def Sds.mapBytes (s : Sds) (f : Byte → Byte) : Sds :=
  have hsize := s.size
  have hlength : (s.bytes.map f).length = s.len := by
    rw [List.length_map, Sds.bytes, List.length_take]
    omega
  { s with
    buf := write s.buf 0 (s.bytes.map f) (by omega)
    size := by rw [length_write, hsize]
    nul := by
      rw [getElem?_write, if_neg (Nat.not_lt_zero _), if_neg (by omega), s.nul] }

def toupper (c : Byte) : Byte := if 97 ≤ c ∧ c ≤ 122 then c - 32 else c

/-- `sdstolower` -/
def sdstolower (s : Sds) : Sds := s.mapBytes tolower

/-- `sdstoupper` -/
def sdstoupper (s : Sds) : Sds := s.mapBytes toupper

/-- The inner loop of `sdsmapchars`; `set` pairs the bytes of `from` and `to`. -/
def mapchar (set : List (Byte × Byte)) (c : Byte) : Byte :=
  ((set.find? fun p => decide (p.1 = c)).map Prod.snd).getD c

/-- `sdsmapchars` -/
def sdsmapchars (s : Sds) (set : List (Byte × Byte)) : Sds := s.mapBytes (mapchar set)

end CrazySnail
