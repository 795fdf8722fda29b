import CrazySnail.Reader
import CrazySnail.Sds

/-! # The protocol reader in memory (`hiredis-light.c`)

`RedisReader` reads lists of bytes.  `SdsReader` is the same reader over the memory it has: its
buffer is an sds string, the parser walks over the block with an index, and a `\r` is looked
for byte by byte.  `none` is an access outside the block, through the `NULL` that an error
leaves as the buffer, or through the `NULL` of an array without an element vector, or a buffer
whose sizes are no `int`s.  Places in the buffer (`p`, `s`) are indices into the block.

`realloc` leaves in new memory what `junk` says.
-/

namespace CrazySnail

/-- `REDIS_READER_MAX_BUF` -/
def REDIS_READER_MAX_BUF : Nat := 1024 * 16

/-- `redisReader` -/
structure SdsReader where
  err : Nat
  errstr : Bytes
  buf : Option Sds
  pos : Nat
  len : Nat
  maxbuf : Nat
  rstack : List ReadTask
  reply : Option Reply

namespace SdsReader

/-- `redisReaderCreate` -/
def create : SdsReader :=
  { err := 0, errstr := [], buf := some sdsempty, pos := 0, len := 0,
    maxbuf := REDIS_READER_MAX_BUF, rstack := [], reply := none }

/-- Read a byte of the buffer. -/
def byteAt (r : SdsReader) (i : Nat) : Option Byte := r.buf.bind fun s => s.read i

/-- Copy `n` bytes of the buffer. -/
def copyFrom (r : SdsReader) (p n : Nat) : Option Bytes :=
  r.buf.bind fun s => if p + n ≤ s.buf.length then some ((s.buf.drop p).take n) else none

/-- `__redisReaderSetError` -/
def setError (r : SdsReader) (type : Nat) (str : Bytes) : SdsReader :=
  { r with reply := none, buf := none, pos := 0, len := 0, rstack := [], err := type,
           errstr := str.take 127 }

/-- `__redisReaderSetErrorProtocolByte` -/
def setErrorProtocolByte (r : SdsReader) (c : Byte) : SdsReader :=
  setError r REDIS_ERR_PROTOCOL
    (ascii "Protocol error, got " ++ (chrtos c).take 7 ++ ascii " as reply type byte")

/-! ## Bytes and lines -/

/-- `readBytes`: the place of the bytes, or `NULL`. -/
def readBytes (r : SdsReader) (bytes : Nat) : Option Nat × SdsReader :=
  if bytes ≤ r.len - r.pos then (some r.pos, { r with pos := r.pos + bytes }) else (none, r)

/-- The inner loop of `seekNewline`: to the next `\r`, or to the last byte. -/
def skipToReturn (r : SdsReader) (s len : Nat) : Nat → Nat → Option Nat
  | 0, pos => some pos
  | fuel + 1, pos =>
    if pos + 1 < len then do
      let c ← r.byteAt (s + pos)
      if c ≠ 13 then skipToReturn r s len fuel (pos + 1) else some pos
    else some pos

/-- The outer loop of `seekNewline`. -/
def seekNewlineFrom (r : SdsReader) (s len : Nat) : Nat → Nat → Option (Option Nat)
  | 0, _ => some none
  | fuel + 1, pos =>
    if pos + 1 < len then do
      let pos ← skipToReturn r s len len pos
      let c ← r.byteAt (s + pos)
      if c ≠ 13 then some none
      else do
        let c ← r.byteAt (s + (pos + 1))
        if c = 10 then some (some pos) else seekNewlineFrom r s len fuel (pos + 1)
    else some none

/-- `seekNewline`: how far behind `s` the first `\r\n` is.  Every round of a loop moves on, so
    the length is fuel enough. -/
def seekNewline (r : SdsReader) (s len : Nat) : Option (Option Nat) := seekNewlineFrom r s len len 0

/-- The loop of `readLongLong`: the number, or nothing where a character is no digit.  It has no
    bound of its own: without fuel the whole block has been read. -/
def readDigits (r : SdsReader) : Nat → Nat → Int → Option (Option Int)
  | 0, _, _ => none
  | fuel + 1, s, v => do
    let c ← r.byteAt s
    if c = 13 then some (some v)
    else if isdigit c then readDigits r fuel (s + 1) ((v * 10 + (c.toNat - 48 : Nat)).bmod (2 ^ 64))
    else some none

/-- `readLongLong` -/
def readLongLong (r : SdsReader) (s : Nat) : Option Int := do
  let c ← r.byteAt s
  let (mult, s) : Int × Nat := if c = 45 then (-1, s + 1) else if c = 43 then (1, s + 1) else (1, s)
  let v ← r.readDigits ((r.buf.map fun s => s.buf.length).getD 0 + 1) s 0
  some ((v.map fun v => (mult * v).bmod (2 ^ 64)).getD (-1))

/-- `readLine`: the place and the length of the line, or `NULL`. -/
def readLine (r : SdsReader) : Option (Option (Nat × Nat) × SdsReader) := do
  let s ← r.seekNewline r.pos (r.len - r.pos)
  some (s.map fun len => (r.pos, len), { r with pos := r.pos + (s.map (· + 2)).getD 0 })

/-! ## Items -/

/-- Store a complete item and move on. -/
def complete (r : SdsReader) (obj : Reply) : Option (SdsReader × Status) :=
  match r.rstack with
  | [] => some (r, .ok)
  | cur :: rest =>
    if noVector rest then none
    else
      let (rstack, reply) := moveToNextTask cur rest obj
      some ({ r with rstack, reply }, .ok)

/-- `processLineItem` -/
def processLineItem (r : SdsReader) (type : ReplyType) : Option (SdsReader × Status) := do
  match ← r.readLine with
  | (none, r) => some (r, .err)
  | (some (p, len), r) =>
    match type with
    | .integer => do
      let v ← r.readLongLong p
      complete r (.integer v)
    | .error => do
      let line ← r.copyFrom p len
      complete r (.error line)
    | _ => do
      let line ← r.copyFrom p len
      complete r (.status line)

/-- `processBulkItem` -/
def processBulkItem (r : SdsReader) : Option (SdsReader × Status) := do
  match ← r.seekNewline r.pos (r.len - r.pos) with
  | none => some (r, .err)
  | some s => do
    let bytelen := s + 2
    let len ← r.readLongLong r.pos
    if len < 0 then complete { r with pos := r.pos + bytelen } .nil
    else
      let bytelen := bytelen + (len.toNat + 2)
      if r.pos + bytelen ≤ r.len then do
        let str ← r.copyFrom (r.pos + s + 2) len.toNat
        complete { r with pos := r.pos + bytelen } (.string str)
      else some (r, .err)

/-- `processMultiBulkItem` -/
def processMultiBulkItem (r : SdsReader) : Option (SdsReader × Status) := do
  if r.rstack.length = 9 then
    some (setError r REDIS_ERR_PROTOCOL
      (ascii "No support for nested multi bulk replies with depth > 7"), .err)
  else
    match ← r.readLine with
    | (none, r) => some (r, .err)
    | (some (p, _), r) => do
      let elements ← r.readLongLong p
      if elements = -1 then complete r .nil
      else if 0 < elements then
        match r.rstack with
        | [] => some (r, .err)
        | cur :: rest =>
          if noVector rest then none
          else
            let cur := { cur with elements := toInt32 elements, obj := [] }
            some ({ r with rstack := .first :: cur :: rest }, .ok)
      else complete r (if toInt32 elements = 0 then .array [] else .badArray (toInt32 elements))

/-- The second half of `processItem`. -/
def processTyped (r : SdsReader) : ReplyType → Option (SdsReader × Status)
  | .string => processBulkItem r
  | .array => processMultiBulkItem r
  | type => processLineItem r type

/-- `processItem` -/
def processItem (r : SdsReader) : Option (SdsReader × Status) :=
  match r.rstack with
  | [] => some (r, .err)
  | cur :: rest =>
    match cur.type with
    | some type => processTyped r type
    | none =>
      match r.readBytes 1 with
      | (none, r) => some (r, .err)
      | (some p, r) => do
        let c ← r.byteAt p
        match typeOfByte c with
        | none => some (setErrorProtocolByte r c, .err)
        | some type => processTyped { r with rstack := { cur with type := some type } :: rest } type

/-- The loop of `redisReaderGetReply`. -/
def processItems : Nat → SdsReader → Option SdsReader
  | 0, r => some r
  | fuel + 1, r =>
    if r.rstack = [] then some r
    else do
      match ← processItem r with
      | (r, .ok) => processItems fuel r
      | (r, .err) => some r

/-! ## Feeding and reading -/

/-- `redisReaderFeed` -/
def redisReaderFeed (junk : Nat → Byte) (r : SdsReader) (buf : Bytes) :
    Option (SdsReader × Status) :=
  if r.err ≠ 0 then some (r, .err)
  else if 1 ≤ buf.length then do
    let s ← r.buf
    -- a large buffer that is empty is given up
    let (s, pos) := if r.len = 0 ∧ r.maxbuf ≠ 0 ∧ r.maxbuf < s.free then (sdsempty, 0) else (s, r.pos)
    let s ← (sdscatlen junk s buf).fitting
    some ({ r with buf := some s, pos, len := s.len }, .ok)
  else some (r, .ok)

/-- `redisReaderGetReply` -/
def redisReaderGetReply (r : SdsReader) : Option (SdsReader × Status × Option Reply) :=
  if r.err ≠ 0 then some (r, .err, none)
  else if r.len = 0 then some (r, .ok, none)
  else do
    let r := if r.rstack = [] then { r with rstack := [.root] } else r
    let r ← processItems (r.len - r.pos + 1) r
    if r.err ≠ 0 then some (r, .err, none)
    else do
      let r ← if 1024 ≤ r.pos then do
          let s ← r.buf
          let s := sdsrange s r.pos (-1)
          some { r with buf := some s, pos := 0, len := s.len }
        else some r
      if r.rstack = [] then some ({ r with reply := none }, .ok, r.reply)
      else some (r, .ok, none)

end SdsReader

end CrazySnail
