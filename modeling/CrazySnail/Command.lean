import CrazySnail.Client

/-! # Commands (`lua_client_command`)

`collect` flattens the Lua arguments, `registerCommand` takes a reference on the
callback and enters it into `command_cb_list` or the subscription trees, and
`sendCommand` writes the frame and handles a failed send.  The command is entered
before it is known whether it can be sent.
-/

namespace CrazySnail

open SearchTree (Tree Path Side)

def KEY_EVENT : Bytes := ascii "__keyevent@0__:"
def KEY_SPACE : Bytes := ascii "__keyspace@0__:"
def TIMER_EVENT : Bytes := ascii "__timer@0__:"

/-- `LUAI_MAXCSTACK` -/
def LUA_MAX_STACK : Nat := 8000

/-- The size of the `timers` array. -/
def NB_TIMERS : Nat := 100

/-! ## Arguments -/

/-- `lua_tolstring`: strings and numbers convert. -/
def luaTolstring : LuaArg → Option Bytes
  | .string s => some s
  | .number text => some text
  | .swept text => some text
  | _ => none

/-- A text that is gone when the frame is made. -/
def LuaArg.isSwept : LuaArg → Bool
  | .swept _ => true
  | _ => false

/-- The slots of a table argument. -/
def LuaArg.slots : LuaArg → List LuaArg
  | .table slots => slots
  | _ => []

/-- The outcomes of the collection of arguments. -/
inductive Collected where
  | ok (argv timers : List Bytes)
  | raise (e : LuaError)
  | fault (f : Fault)
deriving Repr

def notAString (i : Nat) : LuaError := .argError i (ascii "command: Not a string or a number")

def stackOverflow : LuaError := .error (.string (ascii "command: Stack Overflow"))

/-- The elements of a table argument. -/
def collectTable (i : Nat) : List LuaArg → List Bytes → Except LuaError (List Bytes)
  | [], argv => .ok argv
  | v :: vs, argv =>
    match luaTolstring v with
    | none => .error (notAString i)
    | some s =>
      -- `++argc` is compared with the size of `argv`
      if LUA_MAX_STACK - 1 < argv.length + 1 then .error stackOverflow
      else collectTable i vs (argv ++ [s])

/-- The argument loop, from stack index `i` on. -/
def collectArgs (i : Nat) : List LuaArg → List Bytes → List Bytes → Collected
  | [], argv, timers => .ok argv timers
  | .table slots :: vs, argv, timers =>
    match collectTable i slots argv with
    | .error e => .raise e
    | .ok argv => collectArgs (i + 1) vs argv timers
  | v :: vs, argv, timers =>
    match luaTolstring v with
    -- `strncmp` reads through the `NULL` before it is tested
    | none => .fault .badArgument
    | some key =>
      if strncmp key TIMER_EVENT (strlen TIMER_EVENT) ≠ .eq then
        if LUA_MAX_STACK - 1 < argv.length + 1 then .raise stackOverflow
        else collectArgs (i + 1) vs (argv ++ [key]) timers
      -- nothing keeps `nb_timers` below the size of the array
      else if timers.length < NB_TIMERS then collectArgs (i + 1) vs argv (timers ++ [key])
      else .fault .badArgument

/-- The callback: a function in the last place. -/
def callbackOf (args : List LuaArg) : Option Fn :=
  match args.getLast? with
  | some (.function f) => some f
  | _ => none

/-- The arguments without the callback. -/
def argsOf (args : List LuaArg) : List LuaArg :=
  match callbackOf args with
  | some _ => args.dropLast
  | none => args

/-- The argument loop of `lua_client_command`; without any argument `argv[0]` is
    whatever an earlier call left there, and a text that was collected is read. -/
def collect (args : List LuaArg) : Collected :=
  match collectArgs 2 (argsOf args) [] [] with
  | .ok [] _ => .fault .badArgument
  | .ok argv timers =>
    if (argsOf args).any fun v => v.slots.any LuaArg.isSwept then .fault .badArgument
    else .ok argv timers
  | c => c

/-- `pvariant` of a command name. -/
def isPvariant (name : Bytes) : Bool := tolower (name.headD 0) = 112

/-- The branch `lua_client_command` takes on a command name. -/
def classify (name : Bytes) : Kind :=
  let p := isPvariant name
  let base := if p then name.drop 1 else name
  if strncasecmp base (ascii "subscribe") 9 = .eq then .subscribe p
  else if strncasecmp base (ascii "unsubscribe") 11 = .eq then .unsubscribe
  else if strncasecmp name (ascii "monitor") 7 = .eq then .monitor
  else .ordinary

/-- The interval of a timer key: a `long` read as `uint64_t`. -/
def timerKey (key : Bytes) : UInt64 :=
  ((strtol (key.drop (strlen TIMER_EVENT))) % (2 ^ 64)).toNat.toUInt64

/-! ## The frame -/

def crlf : Bytes := [13, 10]

/-- `redisFormatCommandArgv` -/
def redisFormatCommandArgv (argv : List Bytes) : Bytes :=
  42 :: decimal argv.length ++ crlf ++
    (argv.map fun arg => 36 :: decimal arg.length ++ crlf ++ arg ++ crlf).flatten

/-! ## Registration -/

namespace World

/-- The tree of channel or pattern names. -/
def names (w : World) (pvariant : Bool) : NodeT Bytes :=
  if pvariant then w.cc.patterns else w.cc.channels

def setNames (w : World) (pvariant : Bool) (t : NodeT Bytes) : World :=
  if pvariant then { w with cc.patterns := t } else { w with cc.channels := t }

/-- Fill the next channel slot of a callback. -/
def addChannel (w : World) (cb : Nat) (ch : Channel) : World :=
  { w with heap := w.heap.update cb fun c => { c with channels := c.channels ++ [ch] } }

/-- `wrap_cb` and `push_cb` on a list: the record counts one more wrapper. -/
def attach (w : World) (cb : Nat) : World :=
  { w with heap := w.heap.update cb fun c => { c with attach := c.attach + 1 } }

/-- One round of the channel loop. -/
def subscribeName (pvariant : Bool) (cb : Nat) (w : World) (name : Bytes) : World :=
  let w := w.addChannel cb (createChannel name)
  let (t, leaf) := insert (w.names pvariant) name
  -- a name that has its node gets one more entry
  (w.setNames pvariant (t.modify (.push (.heap cb)) leaf)).attach cb

/-- One round of the timer loop: an interval that already has a node (`SNAIL_OK`)
    is not pushed. -/
def subscribeTimer (cb : Nat) (w : World) (key : Bytes) : World :=
  let ikey := timerKey key
  let (status, t, leaf) := insertTimer w.cc.timers ikey
  let ch := createTimerChannel ikey
  if 1 ≤ status then
    let w := w.addChannel cb (if status ≠ 2 then { ch with subscribed := true } else ch)
    { w with cc.timers := t.modify (.push (.heap cb)) leaf }.attach cb
  else { w.addChannel cb ch with cc.timers := t }

end World

/-- What the environment decides about a command: the error `uv_write` reports
    (`0` for none) and the memory `malloc` leaves in `flags` of the record. -/
structure SendEnv where
  error : Nat
  flags : Bool
deriving DecidableEq, Repr

namespace World

/-- `luaL_ref` of the callback, if there is one. -/
def refCallback (w : World) (fn : Option Fn) : LuaRef × World :=
  match fn with
  | some f => let (n, lua) := w.lua.ref f; (.ref n, { w with lua })
  | none => (.refnil, w)

/-- `create_callback` with the given reference. -/
def newCallback (w : World) (ref : LuaRef) (flags : Bool) : World :=
  { w with heap := (createCallback w.heap ref flags).2 }

/-- The middle of `lua_client_command`: enter the callback where its replies will
    look for it. -/
def registerCommand (w : World) (kind : Kind) (names timers : List Bytes) (fn : Option Fn)
    (flags : Bool) : World :=
  let cb := w.heap.next
  let (ref, w) := w.refCallback fn
  match kind with
  | .subscribe p =>
    timers.foldl (subscribeTimer cb) (names.foldl (subscribeName p cb) (w.newCallback ref flags))
  -- the reference of the callback is stored nowhere
  | .unsubscribe => w
  | kind =>
    -- the flag is set before the command is sent
    let w := if kind = .monitor then { w with cc.flags.monitoring := true } else w
    let w := w.newCallback ref flags
    let (list, heap) := pushCb w.cc.commandCbList w.heap (.heap cb)
    { w with cc.commandCbList := list, heap }

/-! ## Sending -/

/-- `UV_EBADF`, the result of `uv_write` on a closing stream. -/
def UV_EBADF : Int := -9

/-- `uv_write` of a frame with a request block: the result and the world after it. -/
def uvWrite (w : World) (h : Option Handle) (block : Block) (frame : Bytes)
    (owner : Option Nat) (buf : Nat) (error : Nat) : Int × World :=
  match h with
  | none => (-1, w.crash .deadStream)
  | some h =>
    let w := w.log (.uvWrite h frame)
    match w.uv.streams h with
    | none => (-1, w.crash .deadStream)
    | some s =>
      if s.freed then (-1, w.crash .deadStream)
      -- libuv refuses a stream that is closing before it looks at the frame
      else if s.closing then (UV_EBADF, w)
      else if error = 0 then
        (0, { w with uv.requests :=
          w.uv.requests ++ [{ block, kind := .write, handle := h, owner, buf }] })
      else (-(error : Int), w)

/-- The text of a failure without an error code. -/
def notConnected : LuaValue := .string (ascii "command: Not connected")

/-- The error path: the error goes to the first entry of the list. -/
def failSend (w : World) (error : LuaValue) : World :=
  w.shiftAndReport .sendError error fun w => w.log (.raised (.error error))

/-- The end of `lua_client_command`: write the frame, free it, look for errors. -/
def sendCommand (w : World) (subMode : Bool) (frame : Bytes) (owner : Option Nat) (buf : Nat)
    (error : Nat) : World :=
  if w.cc.flags.connected then
    let (req, uv) := w.uv.reqAlloc
    let (r, w) := { w with uv }.uvWrite (if subMode then w.cc.subStream else w.cc.stream)
      req frame owner buf error
    if w.fault.isSome then w
    else
      -- the frame is freed although libuv may still have to write it
      let w := if r = 0 then w.freeCmd buf else w
      if w.cc.flags.disconnecting || w.cc.flags.freeing || decide (r < 0) then
        -- also when the write was accepted and the client is ending
        (w.reqFree req).failSend (if r < 0 then .strerror r else notConnected)
      else w
  else (w.freeCmd buf).failSend notConnected

/-- `lua_client_command` on the arguments after the client itself. -/
def luaClientCommand (w : World) (args : List LuaArg) (env : SendEnv) : World :=
  match collect args with
  | .raise e => w.log (.raised e)
  | .fault f => w.crash f
  | .ok argv timers =>
    let kind := classify (argv.headD [])
    let fn := callbackOf args
    let cb := w.heap.next
    let buf := w.nextCmd
    let w := { w.log (.command kind argv timers fn cb) with nextCmd := buf + 1 }
    let w := (w.log (.mallocCmd buf)).registerCommand kind argv.tail timers fn env.flags
    w.sendCommand kind.subMode (redisFormatCommandArgv argv)
      (if kind.pending then some cb else none) buf env.error

end World

end CrazySnail
