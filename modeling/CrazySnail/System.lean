import CrazySnail.Callbacks
import CrazySnail.Library.Run

/-! # The system

A state machine over `World`.  Between two events the control stack says who runs:
an empty stack is libuv's loop or the main Lua code, a Lua frame on top is a Lua
function called by the client, any other frame is a C function that goes on.

The events say what the environment does: which callback libuv runs and with what
result, what Lua code calls and when it returns.  They are enabled as libuv
documents: callbacks come one at a time from the loop, a stream is read only after
`uv_read_start`, the requests of a closing handle complete before its close
callback, which runs once.
-/

namespace CrazySnail

open SearchTree (Tree Path Side)

/-- The methods of a client.  `subscribe` is `command` on rewritten arguments. -/
inductive ApiCall where
  | on (event : Bytes) (fn : Fn)
  | connect
  | command (args : List LuaArg) (env : SendEnv)
  | disconnect
  | exit
deriving Repr

inductive Event where
  /-- Lua code calls a method -/
  | api (c : ApiCall)
  /-- the running Lua function returns, or raises an error -/
  | ret (ok : Bool)
  /-- the C function on top of the stack goes on -/
  | resume
  /-- libuv read a chunk; `cb` is the memory of `on_read`'s local variable -/
  | read (h : Handle) (data : Bytes) (cb : LuaRef)
  /-- libuv cannot read, or the peer has closed the stream -/
  | readError (h : Handle) (nread : Int)
  /-- the write request in this place completes; `readStart` is what
      `uv_read_start` returns -/
  | written (i : Nat) (status readStart : Int)
  /-- the connect request in this place completes -/
  | connected (i : Nat) (status : Int)
  /-- libuv runs the close callback of a handle -/
  | closed (h : Handle)
  /-- a timer fires -/
  | tick (b : Block) (timeout : UInt64)
deriving Repr

namespace World

/-- Lua code may run: main code from the empty stack, or a called function. -/
def luaRuns (w : World) : Bool :=
  match w.stack with
  | [] => true
  | .lua _ _ :: _ => true
  | _ => false

/-- A method call. -/
def api (w : World) : ApiCall → World
  | .on event fn => w.luaClientOn event fn
  | .connect => w.luaClientConnect
  | .command args env => w.luaClientCommand args env
  | .disconnect => w.luaClientDisconnect
  | .exit => w.luaClientExit

/-- Continue the C function of a frame that has just been taken off the stack. -/
def resume (w : World) : Frame → World
  | .lua _ _ => w
  | .readLoop h subMode cb => w.readLoop h subMode cb
  | .closeStream h => w.uvClose (some h)
  | .bufFree buf => w.bufFree buf
  | .event pvariant leaf i reply => w.eventLoop pvariant leaf i reply
  | .timer leaf i rep timeout => w.timerLoop leaf i rep timeout

/-- A stream libuv may deliver data from. -/
def readable? (w : World) (h : Handle) : Bool :=
  match w.uv.streams h with
  | some s => s.reading && !s.closing
  | none => false

/-- Take a completed request off the list. -/
def finish (w : World) (i : Nat) : World :=
  { w with uv.requests := w.uv.requests.eraseIdx i }

/-- libuv's own part of a completed connect request. -/
def uvConnected (w : World) (h : Handle) (status : Int) : World :=
  if status < 0 then w
  else { w with uv := w.uv.setStream h fun s => { s with connected := true } }.log (.connected h)

/-- One event; `none` when it is not enabled. -/
def step (w : World) (e : Event) : Option World :=
  if w.fault.isSome then none
  else
    match e with
    | .api c => if w.luaRuns then some (w.api c) else none
    | .ret ok =>
      match w.stack with
      | .lua site top :: rest =>
        some { w with stack := rest, lua.top := top + (if ok then 0 else site.leftover) }
      | _ => none
    | .resume =>
      match w.stack with
      | [] => none
      | .lua _ _ :: _ => none
      | f :: rest => some ({ w with stack := rest }.resume f)
    | .read h data cb =>
      if w.stack.isEmpty && w.readable? h then some (w.onRead h data cb) else none
    | .readError h nread =>
      if w.stack.isEmpty && w.readable? h && decide (nread < 0) then some (w.onReadError h nread)
      else none
    | .written i status readStart =>
      match w.stack, w.uv.requests[i]? with
      | [], some req =>
        -- `uv_read_start` refuses a closing stream
        let closing := ((w.uv.streams req.handle).map Stream.closing).getD true
        if decide (req.kind = .write) && decide (status ≤ 0) && (!closing || decide (readStart < 0))
        then some ((w.finish i).onWrite req status readStart)
        else none
      | _, _ => none
    | .connected i status =>
      match w.stack, w.uv.requests[i]? with
      | [], some req =>
        -- the connect request of a closing stream is cancelled
        let closing := ((w.uv.streams req.handle).map Stream.closing).getD true
        if decide (req.kind = .connect) && decide (status ≤ 0) && (!closing || decide (status < 0))
        then some (((w.finish i).uvConnected req.handle status).onConnect req status)
        else none
      | _, _ => none
    | .closed h =>
      match w.uv.streams h with
      | some s =>
        if w.stack.isEmpty && s.closing && !s.freed
            && w.uv.requests.all fun req => decide (req.handle ≠ h) then
          some ((w.log (.closed h)).onDisconnect h)
        else none
      | none => none
    | .tick b timeout =>
      match w.uv.timers b with
      | some t =>
        if w.stack.isEmpty && t.active then
          -- a timer without a period stops when it fires
          let t := { t with active := decide (t.rep ≠ 0) }
          let w := { w with uv.timers := Function.update w.uv.timers b (some t) }
          some (w.onTimer t.rep timeout)
        else none
      | none => none

end World

/-- Runs of the system. -/
abbrev runs (w : World) (es : List Event) : Option World := Transition.run World.step w es

/-- The states a client can get into. -/
def Reachable (w : World) : Prop := ∃ ignore, Transition.Reachable World.step (World.new ignore) w

end CrazySnail
