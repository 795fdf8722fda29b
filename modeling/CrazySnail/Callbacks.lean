import CrazySnail.Dispatch

/-! # The libuv callbacks and the API functions (`crazysnail.c`)

Each definition is the C function of the same name up to its first call into Lua;
what follows such a call is a frame on the control stack, continued by `resume`.
-/

namespace CrazySnail

open SearchTree (Tree Path Side)

namespace World

/-! ## `on_read` -/

/-- `on_read` with `nread < 0`: report the error, then close the stream. -/
def onReadError (w : World) (h : Handle) (nread : Int) : World :=
  if w.cc.flags.disconnecting then
    let (buf, bufs) := w.bufs.alloc
    { w with bufs }.bufFree buf
  else
    -- the buffer is not freed on this path
    let w := { w with bufs := w.bufs.alloc.2 }
    match w.cc.rErrorCb with
    -- the stream is closed after the handler has returned
    | .ref n => (w.push (.closeStream h)).pcall .error (w.lua.slots n) [.strerror nread]
    | _ => w.uvClose (some h)

/-- `on_read` with `nread ≥ 0`, up to the head of the reply loop.  `cb` is the
    reference that happens to be in the local variable. -/
def onRead (w : World) (h : Handle) (data : Bytes) (cb : LuaRef) : World :=
  let subMode := decide (w.cc.subStream = some h)
  let (buf, bufs) := w.bufs.alloc
  let w := { w with bufs }
  if w.cc.flags.disconnecting then w.bufFree buf
  else if data = [] then
    -- nothing was read, so the buffer is not freed
    if !subMode && decide (w.cc.commandCbList = []) then w.uvReadStop h else w
  else
    let w := w.log (.fed subMode data)
    match redisReaderFeed w.cc.reader data with
    | (_, .err) =>
      let w := w.log (.feedError subMode w.cc.reader.errstr)
      match w.cc.rErrorCb with
      | .ref n =>
        (w.push (.bufFree buf)).pcall .error (w.lua.slots n) [.string (strdup w.cc.reader.errstr)]
      | _ => w.bufFree buf
    | (reader, .ok) =>
      ({ w with cc.reader := reader }.bufFree buf).push (.readLoop h subMode cb)

/-- A reply on the command stream goes to the first entry of the list.  `cb` keeps
    its old value when there is none. -/
def dispatchReply (w : World) (h : Handle) (cb : LuaRef) (reply : Reply) : World :=
  let deliver (w : World) (cb : LuaRef) : World :=
    let w := w.push (.readLoop h false cb)
    match cb with
    | .ref n =>
      let fn := w.lua.slots n
      -- the function is on the Lua stack when its slot is given back
      if readable reply then (w.unref cb).pcall .reply fn [.nil, pushReply reply]
      else w.crash .nullElement
    | _ => w
  match shiftCb w.cc.commandCbList w.heap with
  | .empty => deliver w cb
  | .dead list => { w with cc.commandCbList := list }.crash .deadCallback
  | .ok list target heap => deliver { w with cc.commandCbList := list, heap } target.ref

/-- The reader gives up.  If it has stored an element through `NULL`, so does the program. -/
def readerFailed (w : World) : World :=
  if w.cc.reader.err = NULL_STORE then w.crash .nullElement else w

/-- One round of the reply loop of `on_read`, with what follows the loop.  `exit` has
    freed the reader. -/
def readLoop (w : World) (h : Handle) (subMode : Bool) (cb : LuaRef) : World :=
  if w.cc.exited then w.crash .deadClient
  else
    match redisReaderGetReply w.cc.reader with
    | (reader, .err, _) => { w with cc.reader := reader }.readerFailed
    | (reader, .ok, none) =>
      let w := { w with cc.reader := reader }
      if w.cc.flags.disconnecting then w
      else
        -- in monitor mode the address of the local record is pushed back
        let w := if w.cc.flags.monitoring then
            { w with cc.commandCbList := w.cc.commandCbList ++ [.stack] } else w
        if !subMode && decide (w.cc.commandCbList = []) then w.uvReadStop h else w
    | (reader, .ok, some reply) =>
      let w := { w with cc.reader := reader }.log (.reply subMode reply)
      if subMode then
        let w := w.push (.readLoop h subMode cb)
        match reply with
        | .error _ => w
        | reply => w.getAndCallSubCb reply
      else w.dispatchReply h cb reply

/-! ## `on_write` and `on_connect` -/

/-- `on_write`; `readStart` is the result of `uv_read_start`. -/
def onWrite (w : World) (req : Request) (status readStart : Int) : World :=
  let w := { w with uv := w.uv.setStream req.handle fun s => { s with data := true } }
  -- the request is given back whatever the status is
  let w := w.reqFree req.block
  if status < 0 then w.shiftAndReport .writeError (.strerror status) id
  else if readStart < 0 then w.shiftAndReport .writeError (.strerror readStart) id
  else { w with uv := w.uv.setStream req.handle fun s => { s with reading := true } }

/-- `on_connect` -/
def onConnect (w : World) (req : Request) (status : Int) : World :=
  let w := w.reqFree req.block
  if status < 0 then
    match w.cc.rErrorCb with
    | .ref n => w.pcall .error (w.lua.slots n) [.strerror status]
    -- always the command stream, also when the other one has failed
    | _ => w.uvClose w.cc.stream
  else
    let sf := w.cc.streamFlags
    let sf := if !sf.stream then { sf with stream := true }
      else if !sf.subStream then { sf with subStream := true } else sf
    let w := { w with cc.streamFlags := sf }
    if sf.stream && sf.subStream then
      { w with cc.flags.connected := true }.callHandler .connect w.cc.rConnectCb []
    else w

/-! ## `on_disconnect` -/

/-- Free the memory of a stream handle. -/
def freeStream (w : World) (h : Handle) : World :=
  { w with uv := w.uv.setStream h fun s => { s with freed := true } }.log (.freed h)

/-- The teardown at the end of `on_disconnect`. -/
def teardown (w : World) : World :=
  let w := ({ w with cc.flags.freeing := true }.destroyAll).log .teardown
  w.callHandler .disconnect w.cc.rDisconnectCb []

/-- `on_disconnect` -/
def onDisconnect (w : World) (h : Handle) : World :=
  let data := ((w.uv.streams h).map Stream.data).getD false
  let w := w.freeStream h
  if !data then w.crash .deadStream
  else
    let sf := w.cc.streamFlags
    let sf := if sf.stream then { sf with stream := false }
      else if sf.subStream then { sf with subStream := false } else sf
    let w := { w with cc.streamFlags := sf }
    if !sf.stream && !sf.subStream then w.teardown else w

/-! ## API functions -/

/-- `lua_client_on` -/
def luaClientOn (w : World) (event : Bytes) (fn : Fn) : World :=
  let (n, lua) := w.lua.ref fn
  let w := { w with lua }
  if strcmp event (ascii "error") = .eq then { w with cc.rErrorCb := .ref n }
  else if strcmp event (ascii "connect") = .eq then { w with cc.rConnectCb := .ref n }
  else if strcmp event (ascii "disconnect") = .eq then { w with cc.rDisconnectCb := .ref n }
  else w.unref (.ref n)

/-- A new pipe handle. -/
def newStream (w : World) : Handle × World :=
  (w.uv.nextHandle,
    { w with uv.streams := Function.update w.uv.streams w.uv.nextHandle (some .init)
             uv.nextHandle := w.uv.nextHandle + 1 })

/-- `uv_pipe_connect` with a request of its own. -/
def uvPipeConnect (w : World) (h : Handle) : World :=
  let (block, uv) := w.uv.reqAlloc
  { w with uv := { uv with requests :=
      uv.requests ++ [{ block, kind := .connect, handle := h, owner := none, buf := 0 }] } }

/-- `lua_client_connect` -/
def luaClientConnect (w : World) : World :=
  if w.cc.exited then w.crash .deadClient
  else
    let (stream, w) := w.newStream
    let (subStream, w) := w.newStream
    -- neither the reader nor the lists are reset
    let w := { w with cc.stream := some stream, cc.subStream := some subStream, cc.flags := .none }
    ((w.log (.connect stream subStream)).uvPipeConnect stream).uvPipeConnect subStream

/-- Point the `data` of a stream handle to the client. -/
def setData (w : World) (h : Option Handle) : World :=
  w.onStream h fun h _ => { w with uv := w.uv.setStream h fun s => { s with data := true } }

/-- `lua_client_disconnect` -/
def luaClientDisconnect (w : World) : World :=
  if w.cc.flags.disconnecting then w
  else
    let w := (w.setData w.cc.stream).setData w.cc.subStream
    if w.fault.isSome then w
    else
      let w := w.uvClose w.cc.stream
      if w.fault.isSome then w
      else
        let w := w.uvClose w.cc.subStream
        -- set after both handles have been closed
        { w with cc.flags.disconnecting := true }

/-- Free a stream handle that `exit` has just closed. -/
def exitStream (w : World) (h : Option Handle) : World :=
  w.onStream h fun h _ => w.freeStream h

/-- `lua_client_exit`: everything is freed at once, without waiting for libuv. -/
def luaClientExit (w : World) : World :=
  let w := w.uvClose w.cc.stream
  if w.fault.isSome then w
  else
    let w := w.uvClose w.cc.subStream
    if w.fault.isSome then w
    else
      let w := ((w.unref w.cc.rConnectCb).unref w.cc.rErrorCb).unref w.cc.rDisconnectCb
      let w := { w with cc.streamFlags := .none, cc.exited := true }
      -- the handles are freed before libuv has run their close callbacks
      (w.destroyAll.exitStream w.cc.stream).exitStream w.cc.subStream

end World

end CrazySnail
