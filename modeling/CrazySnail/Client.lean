import CrazySnail.Cb
import CrazySnail.Reader

/-! # The client and what surrounds it (`crazysnail.h`)

`ClientContext` is `client_context_t`.  `World` adds what its functions work on: the
callback heap, the Lua registry and stack, libuv's handles, requests and timers, the
two free lists, and a control stack of C functions that wait for a Lua function to
return.  `trace` records every interaction with Lua and libuv, oldest first; no
function of the client reads it.

Addresses (`Handle`, `Block`, callback identifiers) are drawn from counters: the
allocator is taken to succeed and never to give out an address twice.
-/

namespace CrazySnail

open SearchTree (Tree Path Side)

/-! ## Lua -/

/-- A Lua function value. -/
abbrev Fn := Nat

/-- The values that Lua code gives to the methods of a client. -/
inductive LuaArg where
  | nil
  | boolean (b : Bool)
  /-- a number, by the text `lua_tolstring` makes of it -/
  | number (text : Bytes)
  /-- a number in a table, when the garbage collector takes this text while it is needed:
      nothing holds it once the number is popped -/
  | swept (text : Bytes)
  | string (s : Bytes)
  /-- a table, by its sequence part -/
  | table (slots : List LuaArg)
  | function (f : Fn)
  /-- a value of any other type, by the name of the type -/
  | other (typename : Bytes)
deriving Repr

/-- The values that the client gives to Lua functions. -/
inductive LuaValue where
  | nil
  /-- a number that is an integer -/
  | integer (n : Int)
  | string (s : Bytes)
  /-- a table, by its sequence part -/
  | table (slots : List LuaValue)
  /-- the object of `luv_push_async_error_raw`: its `message` and `source` -/
  | asyncError (message source : Bytes)
  /-- the text `uv_strerror` gives for a code -/
  | strerror (code : Int)
deriving Repr

/-- The bits of a number that a double has no room for. -/
def surplusBits (n : Nat) : Nat := Nat.log2 n - 52

/-- The double next to a number: what does not fit into 53 bits is rounded, a half to even. -/
def nearestDouble (n : Nat) : Nat :=
  let unit := 2 ^ surplusBits n
  let up := unit < 2 * (n % unit) ∨ (unit = 2 * (n % unit) ∧ n / unit % 2 = 1)
  (n / unit + if up then 1 else 0) * unit

/-- `lua_pushinteger`: a 64-bit `lua_Integer`, which becomes a double. -/
def luaInteger (n : Int) : LuaValue :=
  let n := n.bmod (2 ^ 64)
  .integer (n.sign * nearestDouble n.natAbs)

/-- The registry of `luaL_ref` and the height of the stack of `cc->L`. -/
structure Lua where
  slots : Nat → Option Fn
  free : List Nat
  size : Nat
  top : Int

namespace Lua

def empty : Lua := ⟨fun _ => none, [], 0, 0⟩

/-- `luaL_ref`: the slot freed last, else a new one. -/
def ref (l : Lua) (f : Fn) : Nat × Lua :=
  match l.free with
  | n :: free => (n, { l with slots := Function.update l.slots n (some f), free })
  | [] => (l.size + 1,
      { l with slots := Function.update l.slots (l.size + 1) (some f), size := l.size + 1 })

/-- `luaL_unref`: the slot no longer holds a function. -/
def unref (l : Lua) : LuaRef → Lua
  | .ref n => { l with slots := Function.update l.slots n none, free := n :: l.free }
  | _ => l

/-- `lua_rawgeti` on the registry, as far as the value is a function. -/
def rawgeti (l : Lua) : LuaRef → Option Fn
  | .ref n => l.slots n
  | _ => none

end Lua

/-! ## libuv -/

abbrev Handle := Nat

/-- A `uv_pipe_t` allocated by `connect`. -/
structure Stream where
  connected : Bool
  reading : Bool
  /-- `data` points to the client -/
  data : Bool
  /-- `uv_close` was called -/
  closing : Bool
  /-- the memory was returned -/
  freed : Bool
deriving DecidableEq, Repr

/-- A `uv_pipe_t` just initialised. -/
def Stream.init : Stream := ⟨false, false, false, false, false⟩

inductive ReqKind where
  | connect
  | write
deriving DecidableEq, Repr

/-- A request in flight.  `owner` is the callback record of the command that was
    written, if it has a list entry; `buf` is its command buffer. -/
structure Request where
  block : Block
  kind : ReqKind
  handle : Handle
  owner : Option Nat
  buf : Nat
deriving DecidableEq, Repr

/-- A `uv_timer_t` in a request block. -/
structure UvTimer where
  rep : UInt64
  active : Bool
deriving DecidableEq, Repr

/-- `uv_timer_stop` -/
def UvTimer.stop (t : UvTimer) : UvTimer := { t with active := false }

/-- libuv's side of the client, with the free list of request blocks. -/
structure Uv where
  streams : Handle → Option Stream
  nextHandle : Nat
  requests : List Request
  timers : Block → Option UvTimer
  reqFreelist : List Block
  nextBlock : Nat

namespace Uv

def empty : Uv := ⟨fun _ => none, 0, [], fun _ => none, [], 0⟩

def setStream (u : Uv) (h : Handle) (f : Stream → Stream) : Uv :=
  { u with streams := Function.update u.streams h ((u.streams h).map f) }

/-- `req_alloc` -/
def reqAlloc (u : Uv) : Block × Uv :=
  match u.reqFreelist with
  | b :: rest => (b, { u with reqFreelist := rest })
  | [] => (u.nextBlock, { u with nextBlock := u.nextBlock + 1 })

/-- `req_free` -/
def reqFree (u : Uv) (b : Block) : Uv := { u with reqFreelist := b :: u.reqFreelist }

/-- `stop_timer` -/
def stopTimer (u : Uv) (b : Block) : Uv :=
  reqFree { u with timers := Function.update u.timers b ((u.timers b).map UvTimer.stop) } b

end Uv

/-- The free list of read buffers. -/
structure Bufs where
  freelist : List Nat
  next : Nat
deriving DecidableEq, Repr

namespace Bufs

/-- `buf_alloc` -/
def alloc (b : Bufs) : Nat × Bufs :=
  match b.freelist with
  | n :: rest => (n, { b with freelist := rest })
  | [] => (b.next, { b with next := b.next + 1 })

/-- `buf_free` -/
def free (b : Bufs) (n : Nat) : Bufs := { b with freelist := n :: b.freelist }

end Bufs

/-! ## The client -/

/-- `flags`: the bits of `hiredis-light.h` that the client sets. -/
structure Flags where
  connected : Bool
  disconnecting : Bool
  freeing : Bool
  monitoring : Bool
deriving DecidableEq, Repr

def Flags.none : Flags := ⟨false, false, false, false⟩

/-- `stream_flags`: `STREAM_CONNECTED` and `SUB_STREAM_CONNECTED`. -/
structure StreamFlags where
  stream : Bool
  subStream : Bool
deriving DecidableEq, Repr

def StreamFlags.none : StreamFlags := ⟨false, false⟩

/-- `client_context_t` -/
structure ClientContext where
  ignoreSubCmdReply : Bool
  stream : Option Handle
  subStream : Option Handle
  rConnectCb : LuaRef
  rErrorCb : LuaRef
  rDisconnectCb : LuaRef
  commandCbList : CallbackEnds
  channels : NodeT Bytes
  patterns : NodeT Bytes
  timers : NodeT UInt64
  flags : Flags
  streamFlags : StreamFlags
  reader : RedisReader
  /-- `exit` freed `path` and `reader` -/
  exited : Bool

/-! ## Interactions -/

/-- What `lua_client_command` takes a command for. -/
inductive Kind where
  | subscribe (pvariant : Bool)
  | unsubscribe
  | monitor
  | ordinary
deriving DecidableEq, Repr

/-- The stream a command is written to. -/
def Kind.subMode : Kind → Bool
  | .subscribe _ => true
  | .unsubscribe => true
  | _ => false

/-- A command with an entry of its own on `command_cb_list`. -/
def Kind.pending (k : Kind) : Bool := !k.subMode

/-- The places that call a Lua function. -/
inductive Site where
  | reply
  | confirmation
  | event
  | timer
  | sendError
  | writeError
  | error
  | connect
  | disconnect
deriving DecidableEq, Repr

/-- What a failed `lua_pcall` leaves on the stack.  The error value of a call made by
    an API function goes with the frame of that function. -/
def Site.leftover : Site → Int
  | .sendError => 0
  | _ => 1

/-- A Lua error raised by an API function. -/
inductive LuaError where
  | argError (arg : Nat) (message : Bytes)
  | error (message : LuaValue)
deriving Repr

/-- One interaction. -/
inductive Obs where
  /-- `lua_client_command` took a command; `cb` is the next callback identifier -/
  | command (kind : Kind) (argv timers : List Bytes) (fn : Option Fn) (cb : Nat)
  /-- an API function raised an error -/
  | raised (e : LuaError)
  | mallocCmd (buf : Nat)
  | freeCmd (buf : Nat)
  /-- `connect()` made a connection with these handles -/
  | connect (stream subStream : Handle)
  | uvWrite (h : Handle) (frame : Bytes)
  | uvClose (h : Handle)
  /-- libuv reports a successful `uv_pipe_connect` -/
  | connected (h : Handle)
  /-- libuv runs the close callback of a handle -/
  | closed (h : Handle)
  | freed (h : Handle)
  /-- `on_read` hands a chunk to the reader -/
  | fed (subMode : Bool) (data : Bytes)
  /-- the reader refuses the chunk that `on_read` hands it -/
  | feedError (subMode : Bool) (message : Bytes)
  /-- the reader gives `on_read` a reply -/
  | reply (subMode : Bool) (r : Reply)
  /-- a Lua function is called -/
  | call (site : Site) (fn : Fn) (args : List LuaValue)
  /-- `on_disconnect` destroyed the trees and the command list -/
  | teardown
deriving Repr

/-! ## Control -/

/-- Why the program stops: a failed assertion, or an access that C leaves undefined. -/
inductive Fault where
  /-- `search` reached a `NULL` node -/
  | searchAssert
  /-- `search_timer` reached a `NULL` node -/
  | searchTimerAssert
  /-- `assert(temp != NULL)`: the list of a node is empty -/
  | emptyListAssert
  /-- an assertion on the shape of a subscription reply -/
  | replyAssert
  /-- `uv_close` of a handle that is already closing -/
  | closingAssert
  /-- a callback record that is not alive -/
  | deadCallback
  /-- a `NULL` or freed stream handle, or one without `data` -/
  | deadStream
  /-- an element vector that is `NULL` -/
  | nullElement
  /-- a `NULL` string, a full `timers` array or a missing `argv[0]` -/
  | badArgument
  /-- a node that is gone -/
  | deadNode
  /-- `path` or `reader` after `exit` -/
  | deadClient
deriving DecidableEq, Repr

/-- A C function that waits for a Lua function, or the Lua function itself. -/
inductive Frame where
  /-- a Lua function, called from this place with the stack at this height -/
  | lua (site : Site) (top : Int)
  /-- `on_read` at the head of its reply loop; `cb` is the reference in its local variable -/
  | readLoop (h : Handle) (subMode : Bool) (cb : LuaRef)
  /-- `on_read` before `uv_close` -/
  | closeStream (h : Handle)
  /-- `on_read` before `buf_free` -/
  | bufFree (buf : Nat)
  /-- `get_and_call_sub_cb` before the `i`-th entry of an event's list -/
  | event (pvariant : Bool) (leaf : Path) (i : Nat) (reply : Reply)
  /-- `on_timer` before the `i`-th entry of its list -/
  | timer (leaf : Path) (i : Nat) (rep timeout : UInt64)
deriving Repr

/-! ## The world -/

structure World where
  cc : ClientContext
  heap : Heap
  lua : Lua
  uv : Uv
  bufs : Bufs
  nextCmd : Nat
  stack : List Frame
  trace : List Obs
  fault : Option Fault

namespace World

/-- `lua_client_new` in a fresh Lua state. -/
def new (ignoreSubCmdReply : Bool) : World where
  cc := { ignoreSubCmdReply, stream := none, subStream := none,
          rConnectCb := .noref, rErrorCb := .noref, rDisconnectCb := .noref,
          commandCbList := [], channels := .null, patterns := .null, timers := .null,
          flags := .none, streamFlags := .none, reader := .create, exited := false }
  heap := .empty
  lua := .empty
  uv := .empty
  bufs := ⟨[], 0⟩
  nextCmd := 0
  stack := []
  trace := []
  fault := none

/-! ### Primitive operations -/

def log (w : World) (o : Obs) : World := { w with trace := w.trace ++ [o] }

/-- Stop at a fault; the first one counts. -/
def crash (w : World) (f : Fault) : World := { w with fault := w.fault.or (some f) }

def push (w : World) (f : Frame) : World := { w with stack := f :: w.stack }

/-- Push a value of the registry and its arguments and `lua_pcall` it.  Anything but
    a function fails at once. -/
def pcall (w : World) (site : Site) (fn : Option Fn) (args : List LuaValue) : World :=
  match fn with
  | some f =>
    -- the function runs: control goes to Lua until it returns
    { w with lua.top := w.lua.top + args.length + 1, stack := .lua site w.lua.top :: w.stack,
             trace := w.trace ++ [.call site f args] }
  | none => { w with lua.top := w.lua.top + site.leftover }

/-- Call the handler in a reference; without a handler do nothing. -/
def callHandler (w : World) (site : Site) (r : LuaRef) (args : List LuaValue) : World :=
  match r with
  | .ref n => w.pcall site (w.lua.slots n) args
  | _ => w

def unref (w : World) (r : LuaRef) : World := { w with lua := w.lua.unref r }

def reqFree (w : World) (b : Block) : World := { w with uv := w.uv.reqFree b }

def bufFree (w : World) (n : Nat) : World := { w with bufs := w.bufs.free n }

/-- `free(cmd)` -/
def freeCmd (w : World) (buf : Nat) : World := w.log (.freeCmd buf)

/-- Every handle operation on a `NULL`, unknown or freed handle is undefined. -/
def onStream (w : World) (h : Option Handle) (k : Handle → Stream → World) : World :=
  match h with
  | none => w.crash .deadStream
  | some h =>
    match w.uv.streams h with
    | none => w.crash .deadStream
    | some s => if s.freed then w.crash .deadStream else k h s

/-- `uv_close`: libuv asserts that the handle is not closing yet. -/
def uvClose (w : World) (h : Option Handle) : World :=
  match h with
  | none => w.crash .deadStream
  | some h =>
    let w := w.log (.uvClose h)
    w.onStream h fun h s =>
      -- `assert(!uv__is_closing(handle))`
      if s.closing then w.crash .closingAssert
      else { w with uv := w.uv.setStream h fun s => { s with closing := true, reading := false } }

/-- `uv_read_stop` -/
def uvReadStop (w : World) (h : Handle) : World :=
  { w with uv := w.uv.setStream h fun s => { s with reading := false } }

/-! ### Lists and trees -/

/-- `destroy_wrapper` -/
def destroyWrapper (w : World) (p : CbPtr) : World :=
  match CrazySnail.destroyWrapper w.heap p with
  | some heap => { w with heap }
  | none => w.crash .deadCallback

/-- `destroy_list`, up to the list itself. -/
def destroyList (w : World) (list : CallbackEnds) : World := list.foldl destroyWrapper w

/-- What `destroy_tree` does at a node. -/
def destroyNode (w : World) (v : NodeVal) : World :=
  let w := match v.data with
    | some b => { w with uv := w.uv.stopTimer b }
    | none => w
  w.destroyList v.cbList

/-- `destroy_tree`, up to the root pointer. -/
def destroyTree {κ : Type} (w : World) (root : NodeT κ) : World :=
  (postorder root).foldl destroyNode w

/-- Destroy the three trees and the command list. -/
def destroyAll (w : World) : World :=
  let w := w.destroyTree w.cc.channels
  let w := { w with cc.channels := .null }
  let w := w.destroyTree w.cc.patterns
  let w := { w with cc.patterns := .null }
  let w := w.destroyTree w.cc.timers
  let w := { w with cc.timers := .null }
  -- the list of commands comes last, and no reference is given back
  let w := w.destroyList w.cc.commandCbList
  { w with cc.commandCbList := [] }

/-- `shift_cb` on `command_cb_list` and the report of an error to the entry taken
    off: unref its function and call it.  `otherwise` continues where there is no
    entry or no function. -/
def shiftAndReport (w : World) (site : Site) (error : LuaValue) (otherwise : World → World) :
    World :=
  match shiftCb w.cc.commandCbList w.heap with
  | .empty => otherwise w
  | .dead list => { w with cc.commandCbList := list }.crash .deadCallback
  | .ok list target heap =>
    let w := { w with cc.commandCbList := list, heap }
    match target.ref with
    -- the function is fetched before its slot is given back
    | .ref n => (w.unref (.ref n)).pcall site (w.lua.slots n) [error]
    | _ => otherwise w

end World

end CrazySnail
