import CrazySnail.CString

/-! # The protocol reader (`hiredis-light.c`)

`redisReaderFeed` appends a chunk to the buffer, `redisReaderGetReply` works off
the buffer item by item and hands out a reply when the root item is complete.  An
incomplete item leaves the reader where it is until more bytes are fed.

The reply under construction is kept where the C code has pointers into it: a task
of the stack holds the elements of its array read so far (`obj`), and a completed
array moves into the task below.  `rstack` lists the tasks innermost first, so
`ridx` is one less than its length.  Allocation is taken to succeed.

A count is read as a `long` and kept as an `int`.  An array whose count is positive as the
one and not as the other is opened without an element vector, and the first of its elements
is stored through `NULL`: the program ends there, which `err` is made to say.
-/

namespace CrazySnail

/-! ## Replies -/

/-- `redisReply`, by type. -/
inductive Reply where
  | string (s : Bytes)
  | array (elements : List Reply)
  | integer (n : Int)
  | nil
  | status (s : Bytes)
  | error (s : Bytes)
  /-- an array that is complete with its header and has a count, as an `int`: the elements of
      a positive one stay `NULL`, a negative one wraps to a huge size, and `element` is `NULL` -/
  | badArray (elements : Int)
deriving Repr

/-- The values of `redisReadTask.type` beside `-1`. -/
inductive ReplyType where
  | string
  | array
  | integer
  | status
  | error
deriving DecidableEq, Repr

/-- `redisReadTask` -/
structure ReadTask where
  type : Option ReplyType
  /-- an `int` -/
  elements : Int
  idx : Int
  obj : List Reply
deriving Repr

namespace ReadTask

/-- The task `redisReaderGetReply` starts with. -/
def root : ReadTask := { type := none, elements := -1, idx := -1, obj := [] }

/-- The task for the first element of an array. -/
def first : ReadTask := { type := none, elements := -1, idx := 0, obj := [] }

end ReadTask

inductive Status where
  | ok
  | err
deriving DecidableEq, Repr

def REDIS_ERR_PROTOCOL : Nat := 4

/-- No error of the reader: an element was stored through `NULL`. -/
def NULL_STORE : Nat := 255

/-- `redisReader`.  `len` is the length of `buf`. -/
structure RedisReader where
  err : Nat
  errstr : Bytes
  buf : Bytes
  pos : Nat
  rstack : List ReadTask
  reply : Option Reply
deriving Repr

namespace RedisReader

/-- `redisReaderCreate` -/
def create : RedisReader :=
  { err := 0, errstr := [], buf := [], pos := 0, rstack := [], reply := none }

/-- The bytes from the cursor on. -/
def unread (r : RedisReader) : Bytes := r.buf.drop r.pos

def advance (r : RedisReader) (n : Nat) : RedisReader := { r with pos := r.pos + n }

end RedisReader

/-! ## Errors -/

def hexDigit (n : Nat) : Byte := (if n < 10 then 48 + n else 87 + n).toUInt8

/-- `chrtos`: a byte between double quotes, escaped where it is not printable. -/
def chrtos (c : Byte) : Bytes :=
  let body : Bytes :=
    if c = 92 ∨ c = 34 then [92, c]
    else if c = 10 then ascii "\\n"
    else if c = 13 then ascii "\\r"
    else if c = 9 then ascii "\\t"
    else if c = 7 then ascii "\\a"
    else if c = 8 then ascii "\\b"
    else if isprint c then [c]
    else ascii "\\x" ++ [hexDigit (c.toNat / 16), hexDigit (c.toNat % 16)]
  34 :: body ++ [34]

/-- `__redisReaderSetError`: the buffer and the task stack are dropped. -/
def setError (r : RedisReader) (type : Nat) (str : Bytes) : RedisReader :=
  -- the error text has 128 bytes, one of them the terminator
  { r with reply := none, buf := [], pos := 0, rstack := [], err := type, errstr := str.take 127 }

/-- `__redisReaderSetErrorProtocolByte`.  `chrtos` is cut to the seven characters
    of its buffer. -/
def setErrorProtocolByte (r : RedisReader) (c : Byte) : RedisReader :=
  setError r REDIS_ERR_PROTOCOL
    (ascii "Protocol error, got " ++ (chrtos c).take 7 ++ ascii " as reply type byte")

/-! ## Lines -/

/-- `seekNewline`: the offset of the first `\r\n`. -/
def seekNewline : Bytes → Option Nat
  | [] => none
  | [_] => none
  | a :: b :: rest => if a = 13 ∧ b = 10 then some 0 else (seekNewline (b :: rest)).map (· + 1)

/-- `readLongLong`: the number in front of the next `\r`, `-1` if a character is no
    digit.  `long long` arithmetic wraps. -/
def readLongLong (s : Bytes) : Int :=
  let (mult, s) : Int × Bytes := match s with
    | 45 :: s => (-1, s)
    | 43 :: s => (1, s)
    | s => (1, s)
  let ds := s.takeWhile (· ≠ 13)
  if ds.all isdigit then (mult * digitsValue ds).bmod (2 ^ 64) else -1

/-- `readLine`: the bytes of the next line, with the cursor moved behind its end. -/
def readLine (r : RedisReader) : Option (Bytes × RedisReader) :=
  (seekNewline r.unread).map fun len => (r.unread.take len, r.advance (len + 2))

/-! ## Items -/

/-- The array around the innermost task has no element vector. -/
def noVector (tasks : List ReadTask) : Bool := tasks.head?.any fun prv => decide (prv.elements ≤ 0)

/-- A reply object is stored through `NULL`. -/
def storeNull (r : RedisReader) : RedisReader := setError r NULL_STORE []

/-- `moveToNextTask` after the item `obj` of the innermost task `cur` is complete.
    The reply appears when the root item is. -/
def moveToNextTask (cur : ReadTask) : List ReadTask → Reply → List ReadTask × Option Reply
  | [], obj => ([], some obj)
  | prv :: rest, obj =>
    let prv := { prv with obj := prv.obj ++ [obj] }
    -- the last element completes the array around it
    if cur.idx = prv.elements - 1 then moveToNextTask prv rest (.array prv.obj)
    else ({ cur with type := none, elements := -1, idx := cur.idx + 1 } :: prv :: rest, none)

/-- Store a complete item and move on. -/
def complete (r : RedisReader) (obj : Reply) : RedisReader × Status :=
  match r.rstack with
  | [] => (r, .ok)
  | cur :: rest =>
    if noVector rest then (storeNull r, .err)
    else
      let (rstack, reply) := moveToNextTask cur rest obj
      ({ r with rstack, reply }, .ok)

/-- `processLineItem` -/
def processLineItem (r : RedisReader) (type : ReplyType) : RedisReader × Status :=
  match readLine r with
  | none => (r, .err)
  | some (line, r') =>
    match type with
    | .integer => complete r' (.integer (readLongLong r.unread))
    | .error => complete r' (.error line)
    | _ => complete r' (.status line)

/-- `processBulkItem` -/
def processBulkItem (r : RedisReader) : RedisReader × Status :=
  match seekNewline r.unread with
  | none => (r, .err)
  | some s =>
    let bytelen := s + 2
    let len := readLongLong r.unread
    -- every negative length is a nil
    if len < 0 then complete (r.advance bytelen) .nil
    else
      let bytelen := bytelen + (len.toNat + 2)
      -- the bytes of the bulk and its line end have to be there
      if r.pos + bytelen ≤ r.buf.length then
        complete (r.advance bytelen) (.string ((r.unread.drop (s + 2)).take len.toNat))
      else (r, .err)

/-- `processMultiBulkItem` -/
def processMultiBulkItem (r : RedisReader) : RedisReader × Status :=
  if r.rstack.length = 9 then
    (setError r REDIS_ERR_PROTOCOL
      (ascii "No support for nested multi bulk replies with depth > 7"), .err)
  else
    match readLine r with
    | none => (r, .err)
    | some (_, r') =>
      let elements := readLongLong r.unread
      if elements = -1 then complete r' .nil
      else if 0 < elements then
        match r'.rstack with
        | [] => (r', .err)
        | cur :: rest =>
          if noVector rest then (storeNull r', .err)
          else
            -- the count is cut to an `int` where it is stored
            let cur := { cur with elements := toInt32 elements, obj := [] }
            ({ r' with rstack := .first :: cur :: rest }, .ok)
      -- a count that is not positive announces no elements
      else complete r' (if toInt32 elements = 0 then .array [] else .badArray (toInt32 elements))

/-- The item type a type byte announces. -/
def typeOfByte (c : Byte) : Option ReplyType :=
  if c = 45 then some .error
  else if c = 43 then some .status
  else if c = 58 then some .integer
  else if c = 36 then some .string
  else if c = 42 then some .array
  else none

/-- The second half of `processItem`: the item of a known type. -/
def processTyped (r : RedisReader) : ReplyType → RedisReader × Status
  | .string => processBulkItem r
  | .array => processMultiBulkItem r
  | type => processLineItem r type

/-- `processItem` -/
def processItem (r : RedisReader) : RedisReader × Status :=
  match r.rstack with
  | [] => (r, .err)
  | cur :: rest =>
    match cur.type with
    | some type => processTyped r type
    | none =>
      match r.unread with
      | [] => (r, .err)
      | c :: _ =>
        match typeOfByte c with
        | none => (setErrorProtocolByte r c, .err)
        | some type =>
          -- the type byte is consumed even if the rest has not come yet
          processTyped { r.advance 1 with rstack := { cur with type := some type } :: rest } type

/-- The `while (r->ridx >= 0)` loop of `redisReaderGetReply`. -/
def processItems : Nat → RedisReader → RedisReader
  | 0, r => r
  | fuel + 1, r =>
    if r.rstack = [] then r
    else
      match processItem r with
      | (r', .ok) => processItems fuel r'
      | (r', .err) => r'

/-! ## Feeding and reading -/

/-- `redisReaderFeed` -/
def redisReaderFeed (r : RedisReader) (buf : Bytes) : RedisReader × Status :=
  if r.err ≠ 0 then (r, .err)
  else ({ r with buf := r.buf ++ buf }, .ok)

/-- `redisReaderGetReply`.  Every item takes at least one byte, so the loop ends
    within its fuel. -/
def redisReaderGetReply (r : RedisReader) : RedisReader × Status × Option Reply :=
  if r.err ≠ 0 then (r, .err, none)
  else if r.buf.length = 0 then (r, .ok, none)
  else
    let r := if r.rstack = [] then { r with rstack := [.root] } else r
    let r := processItems (r.unread.length + 1) r
    if r.err ≠ 0 then (r, .err, none)
    else
      -- what was consumed is cut off once it is long enough
      let r := if 1024 ≤ r.pos then { r with buf := r.unread, pos := 0 } else r
      if r.rstack = [] then ({ r with reply := none }, .ok, r.reply)
      else (r, .ok, none)

end CrazySnail
