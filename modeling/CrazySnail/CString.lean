import Mathlib

/-! # Bytes and C strings

The client handles two kinds of text: byte strings with a length (command
arguments, reply payloads) and NUL-terminated C strings (channel names, command
names).  Both are lists of bytes here; the C string functions stop at the first
NUL byte or at the end of the list, where the terminator stands.
-/

namespace CrazySnail

abbrev Byte := UInt8
abbrev Bytes := List Byte

/-- The bytes of an ASCII literal. -/
def ascii (s : String) : Bytes := s.toList.map fun c => c.toNat.toUInt8

/-! ## `string.h` -/

/-- `strdup`: the bytes up to the terminator. -/
def strdup (s : Bytes) : Bytes := s.takeWhile (· ≠ 0)

def strlen (s : Bytes) : Nat := (strdup s).length

/-- `strncmp`, by the sign of its result; characters compare as unsigned. -/
def strncmp : Bytes → Bytes → Nat → Ordering
  | _, _, 0 => .eq
  | s, t, n + 1 =>
    if s.headD 0 < t.headD 0 then .lt
    else if t.headD 0 < s.headD 0 then .gt
    else if s.headD 0 = 0 then .eq
    else strncmp s.tail t.tail n

/-- `strcmp`: no difference lies beyond the longer string. -/
def strcmp (s t : Bytes) : Ordering := strncmp s t (max s.length t.length + 1)

/-! ## `ctype.h` and `strings.h` -/

def tolower (c : Byte) : Byte := if 65 ≤ c ∧ c ≤ 90 then c + 32 else c

def strncasecmp (s t : Bytes) (n : Nat) : Ordering :=
  strncmp (s.map tolower) (t.map tolower) n

def isspace (c : Byte) : Bool := c = 32 || (9 ≤ c && c ≤ 13)

def isdigit (c : Byte) : Bool := 48 ≤ c && c ≤ 57

def isprint (c : Byte) : Bool := 32 ≤ c && c ≤ 126

/-! ## Numbers -/

/-- The `int` that a wider number is converted to. -/
def toInt32 (n : Int) : Int := n.bmod (2 ^ 32)

theorem toInt32_eq {n : Nat} (h : n < 2 ^ 31) : toInt32 n = n := by
  refine Int.bmod_eq_of_le ?_ ?_
  · omega
  · omega

/-- The value of a string of digits, most significant first. -/
def digitsValue (ds : Bytes) : Nat := ds.foldl (fun v d => 10 * v + (d.toNat - 48)) 0

def decimalAux : Nat → Nat → Bytes
  | 0, _ => []
  | fuel + 1, n =>
    if n < 10 then [(48 + n).toUInt8] else decimalAux fuel (n / 10) ++ [(48 + n % 10).toUInt8]

/-- `%u`: the decimal digits of a natural number. -/
def decimal (n : Nat) : Bytes := decimalAux (n + 1) n

/-- `%d`: the decimal digits of an integer, after its sign. -/
def decimalInt (n : Int) : Bytes :=
  if n < 0 then 45 :: decimal n.natAbs else decimal n.natAbs

/-- `strtol(s, NULL, 10)` for a 64-bit `long`: blanks, a sign, the longest run of
    digits; out of range results saturate. -/
def strtol (s : Bytes) : Int :=
  let s := s.dropWhile isspace
  let (neg, s) := match s with
    | 45 :: r => (true, r)
    | 43 :: r => (false, r)
    | r => (false, r)
  let v := digitsValue (s.takeWhile isdigit)
  if neg then max (-(2 ^ 63 : Int)) (-v) else min (2 ^ 63 - 1 : Int) v

end CrazySnail
