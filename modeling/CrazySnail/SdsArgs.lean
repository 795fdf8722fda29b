import CrazySnail.Reader
import CrazySnail.Sds

/-! # Splitting and joining (`sds.c`)

`sdscatrepr` writes a byte string between quotes, and `sdsjoinsds` puts strings together.
`sdssplitargs` takes a line apart into arguments, `sdssplitlen` a string at a separator.  What
they read is the memory from the first byte on, so a read behind its end is `none`.

The tokens are given by their bytes.
-/

namespace CrazySnail

/-! ## Writing -/

/-- What `sdscatrepr` appends for a byte. -/
def reprByte (c : Byte) : Bytes :=
  if c = 92 ∨ c = 34 then [92, c]
  else if c = 10 then ascii "\\n"
  else if c = 13 then ascii "\\r"
  else if c = 9 then ascii "\\t"
  else if c = 7 then ascii "\\a"
  else if c = 8 then ascii "\\b"
  else if isprint c then [c]
  -- `\x%02x`
  else ascii "\\x" ++ [hexDigit (c.toNat / 16), hexDigit (c.toNat % 16)]

/-- `sdscatrepr` -/
def sdscatrepr (junk : Nat → Byte) (s : Sds) (p : Bytes) : Sds :=
  sdscatlen junk (p.foldl (fun s c => sdscatlen junk s (reprByte c)) (sdscatlen junk s [34])) [34]

/-- The loop of `sdsjoinsds`. -/
def joinFrom (junk : Nat → Byte) (sep : Bytes) : Sds → List Sds → Sds
  | join, [] => join
  | join, [arg] => sdscatsds junk join arg
  | join, arg :: argv => joinFrom junk sep (sdscatlen junk (sdscatsds junk join arg) sep) argv

/-- `sdsjoinsds` -/
def sdsjoinsds (junk : Nat → Byte) (argv : List Sds) (sep : Bytes) : Sds :=
  joinFrom junk sep sdsempty argv

/-! ## At a separator -/

/-- `sdssplitlen` between two rounds of its loop. -/
structure SplitState where
  slots : Nat
  tokens : List Bytes
  start : Nat
  j : Nat
deriving DecidableEq, Repr

/-- Room for the next element and the final one. -/
def SplitState.room (v : SplitState) : SplitState :=
  if v.slots < v.tokens.length + 2 then { v with slots := v.slots * 2 } else v

/-- `tokens[elements] = sdsnewlen(s+start,stop-start)`, if the slot and the bytes are there. -/
def SplitState.add (v : SplitState) (s : Bytes) (stop : Nat) : Option (List Bytes) :=
  if v.tokens.length < v.slots ∧ v.start ≤ stop ∧ stop ≤ s.length then
    some (v.tokens ++ [(s.take stop).drop v.start])
  else none

/-- The loop of `sdssplitlen` and the final element.  `memcmp` reads as many bytes as the
    separator has. -/
def splitLoop (s sep : Bytes) : Nat → SplitState → Option (List Bytes)
  | 0, _ => none
  | fuel + 1, v =>
    if (v.j : Int) < s.length - ((sep.length : Int) - 1) then
      let v := v.room
      if s.length < v.j + sep.length then none
      else if (s.drop v.j).take sep.length = sep then
        (v.add s v.j).bind fun tokens =>
          splitLoop s sep fuel
            { v with tokens, start := v.j + sep.length, j := v.j + sep.length - 1 + 1 }
      else splitLoop s sep fuel { v with j := v.j + 1 }
    else v.add s s.length

/-- `sdssplitlen`: the tokens, or `NULL`. -/
def sdssplitlen (s sep : Bytes) : Option (Option (List Bytes)) :=
  if sep.length < 1 then some none
  else if s.length = 0 then some (some [])
  else (splitLoop s sep (s.length + 1) { slots := 5, tokens := [], start := 0, j := 0 }).map some

/-! ## Hex digits -/

def isHexDigit (c : Byte) : Bool :=
  (48 ≤ c && c ≤ 57) || (97 ≤ c && c ≤ 102) || (65 ≤ c && c ≤ 70)

def hexDigitToInt (c : Byte) : Byte :=
  if 48 ≤ c ∧ c ≤ 57 then c - 48
  else if 97 ≤ c ∧ c ≤ 102 then c - 87
  else if 65 ≤ c ∧ c ≤ 70 then c - 55
  else 0

/-! ## Reading -/

/-- `inq` and `insq` -/
inductive Quoting where
  | plain
  | inq
  | insq
deriving DecidableEq, Repr

/-- What a round of the token loop comes to, before the cursor moves on. -/
inductive TokenRound where
  | more (q : Quoting) (p current : Bytes)
  | done (p current : Bytes)
  | err
deriving DecidableEq, Repr

/-- `*p == '\\' && *(p+1) == 'x' && is_hex_digit(*(p+2)) && is_hex_digit(*(p+3))`, with
    the byte that is meant. -/
def hexEscape (p : Bytes) : Option (Option Byte) :=
  p[0]?.bind fun c₀ => if c₀ ≠ 92 then some none else
  p[1]?.bind fun c₁ => if c₁ ≠ 120 then some none else
  p[2]?.bind fun c₂ => if !isHexDigit c₂ then some none else
  p[3]?.bind fun c₃ => if !isHexDigit c₃ then some none else
  some (some (hexDigitToInt c₂ * 16 + hexDigitToInt c₃))

/-- `*p == '\\' && *(p+1)`, with the byte behind the backslash. -/
def escaped (p : Bytes) : Option (Option Byte) :=
  p[0]?.bind fun c₀ => if c₀ ≠ 92 then some none else
  p[1]?.bind fun c₁ => if c₁ = 0 then some none else some (some c₁)

/-- The byte that a letter behind a backslash stands for. -/
def unescape (c : Byte) : Byte :=
  if c = 110 then 10
  else if c = 114 then 13
  else if c = 116 then 9
  else if c = 98 then 8
  else if c = 97 then 7
  else c

/-- A closing quote must be followed by a blank or the end. -/
def closeQuote (p current : Bytes) : Option TokenRound :=
  p[1]?.bind fun c => if c ≠ 0 && !isspace c then some .err else some (.done p current)

/-- A byte between quotes, where it is no escape. -/
def quotedRound (q : Quoting) (quote : Byte) (p current : Bytes) : Option TokenRound :=
  p[0]?.bind fun c =>
    if c = quote then closeQuote p current
    -- unterminated quotes
    else if c = 0 then some .err
    else some (.more q p (current ++ [c]))

/-- A round between double quotes. -/
def inqRound (p current : Bytes) : Option TokenRound :=
  (hexEscape p).bind fun
    | some byte => some (.more .inq (p.drop 3) (current ++ [byte]))
    | none => (escaped p).bind fun
      | some c => some (.more .inq (p.drop 1) (current ++ [unescape c]))
      | none => quotedRound .inq 34 p current

/-- A round between single quotes. -/
def insqRound (p current : Bytes) : Option TokenRound :=
  (escaped p).bind fun e =>
    if e = some 39 then some (.more .insq (p.drop 1) (current ++ [39]))
    else quotedRound .insq 39 p current

/-- A round outside quotes. -/
def plainRound (p current : Bytes) : Option TokenRound :=
  p[0]?.bind fun c =>
    if c = 32 ∨ c = 10 ∨ c = 13 ∨ c = 9 ∨ c = 0 then some (.done p current)
    else if c = 34 then some (.more .inq p current)
    else if c = 39 then some (.more .insq p current)
    else some (.more .plain p (current ++ [c]))

def tokenRound : Quoting → Bytes → Bytes → Option TokenRound
  | .inq => inqRound
  | .insq => insqRound
  | .plain => plainRound

/-- `if (*p) p++` -/
def stepOver (p : Bytes) : Option Bytes := p[0]?.map fun c => if c = 0 then p else p.drop 1

/-- The `while(!done)` loop: the token and the cursor behind it, or the way to `err`. -/
def splitToken : Nat → Quoting → Bytes → Bytes → Option (Option (Bytes × Bytes))
  | 0, _, _, _ => none
  | fuel + 1, q, p, current =>
    (tokenRound q p current).bind fun
      | .more q p current => (stepOver p).bind fun p => splitToken fuel q p current
      | .done p current => (stepOver p).map fun p => some (current, p)
      | .err => some none

/-- The `while(1)` loop.  Skipping blanks stops at the terminator, which is none. -/
def splitFrom : Nat → Bytes → List Bytes → Option (Option (List Bytes))
  | 0, _, _ => none
  | fuel + 1, p, vector =>
    let p := p.dropWhile isspace
    p[0]?.bind fun c =>
      if c = 0 then some (some vector)
      else
        (splitToken (p.length + 1) .plain p []).bind fun
          | none => some none
          | some (token, p) => splitFrom fuel p (vector ++ [token])

/-- `sdssplitargs`: the arguments, or `NULL`. -/
def sdssplitargs (line : Bytes) : Option (Option (List Bytes)) :=
  splitFrom (line.length + 1) line []

end CrazySnail
