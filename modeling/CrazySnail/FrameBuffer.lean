import CrazySnail.Command
import CrazySnail.Sds

/-! # The buffer of a command (`hiredis-light.c`)

`redisFormatCommandArgv` computes the size of the frame first and writes the frame into a
block of that size and one byte more, piece by piece.  A write outside the block and a failed
assertion are `none`.  Both sizes are `int`s.
-/

namespace CrazySnail

/-! ## Sizes -/

/-- The loop of `intlen`. -/
def digitLoop : Nat → Nat → Nat
  | 0, _ => 0
  | fuel + 1, i => if i / 10 = 0 then 1 else digitLoop fuel (i / 10) + 1

def intlen (i : Int) : Nat :=
  (if i < 0 then 1 else 0) + digitLoop (i.natAbs + 1) i.natAbs

/-- `bulklen`; `intlen` takes an `int`. -/
def bulklen (len : Nat) : Nat := 1 + intlen (toInt32 len) + 2 + len + 2

/-- `totlen` -/
def frameSize (argv : List Bytes) : Int :=
  argv.foldl (fun totlen arg => toInt32 (totlen + bulklen arg.length))
    (toInt32 (1 + intlen (toInt32 argv.length) + 2))

/-! ## Writing -/

/-- Write into the block, if there is room. -/
def put? (block : Bytes) (off : Nat) (src : Bytes) : Option Bytes :=
  if h : off + src.length ≤ block.length then some (write block off src h) else none

/-- `sprintf` of a text: it is terminated. -/
def sprintf? (block : Bytes) (off : Nat) (text : Bytes) : Option Bytes := put? block off (text ++ [0])

/-- One round of the loop over the arguments, from `pos` on. -/
def formatArg (cmd : Bytes) (pos : Nat) (arg : Bytes) : Option (Bytes × Nat) :=
  let header := 36 :: decimal arg.length ++ crlf
  (sprintf? cmd pos header).bind fun cmd =>
    let pos := pos + header.length
    (put? cmd pos arg).bind fun cmd =>
      let pos := pos + arg.length
      (put? cmd pos [13]).bind fun cmd => (put? cmd (pos + 1) [10]).map fun cmd => (cmd, pos + 2)

/-- The loop over the arguments. -/
def formatArgs : List Bytes → Bytes × Nat → Option (Bytes × Nat)
  | [], r => some r
  | arg :: argv, (cmd, pos) => (formatArg cmd pos arg).bind (formatArgs argv)

/-- `redisFormatCommandArgv` with the block that `malloc` gives it: the block and `totlen`.
    There is no block of a negative size. -/
def formatCommand (junk : Nat → Byte) (argv : List Bytes) : Option (Option (Bytes × Int)) :=
  let totlen := frameSize argv
  let size := toInt32 (totlen + 1)
  if size < 0 then some none
  else
    let cmd := (List.range size.toNat).map junk
    let header := 42 :: decimal argv.length ++ crlf
    (sprintf? cmd 0 header).bind fun cmd =>
      (formatArgs argv (cmd, header.length)).bind fun r =>
        -- `assert(pos == totlen)`
        if (r.2 : Int) = totlen then (put? r.1 r.2 [0]).map fun cmd => some (cmd, totlen) else none

end CrazySnail
