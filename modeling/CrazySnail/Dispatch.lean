import CrazySnail.Command

/-! # Dispatch of replies, events and timer ticks

`pushReply` and `pushSubReply` turn replies into Lua values.
`getAndCallSubCb` handles an array from the subscription stream: a confirmation is
matched with a channel slot of one callback, an event is passed to every callback on
the list of its name.  `onTimer` passes a tick to every callback on the list of its
interval.  The loops of the last two call Lua for every entry, so they continue from
a frame; the list is looked up again at each entry, as `temp->next` is.
-/

namespace CrazySnail

open SearchTree (Tree Path Side)

/-! ## Lua images of replies -/

/-- The object `luv_push_async_error_raw` pushes for an error reply. -/
def errorReply (s : Bytes) : LuaValue :=
  .asyncError (ascii "(null), " ++ strdup s) (ascii "push_reply")

mutual
/-- `push_reply` -/
def pushReply : Reply → LuaValue
  | .error s => errorReply s
  | .status s => .string s
  | .integer n => luaInteger n
  | .nil => .nil
  | .string s => .string s
  | .array elements => .table (pushReplies elements)
  | .badArray _ => .nil

def pushReplies : List Reply → List LuaValue
  | [] => []
  | r :: rs => pushReply r :: pushReplies rs
end

/-- The string case of `push_sub_reply`: a key prefix is cut off. -/
def tweak (s : Bytes) : Bytes :=
  if strncmp s KEY_SPACE (strlen KEY_SPACE) = .eq then s.drop (strlen KEY_SPACE)
  else if strncmp s KEY_EVENT (strlen KEY_EVENT) = .eq then s.drop (strlen KEY_EVENT)
  else s

mutual
/-- `push_sub_reply`: an array loses its first element. -/
def pushSubReply : Reply → LuaValue
  | .error s => errorReply s
  | .status s => .string s
  | .integer n => luaInteger n
  | .nil => .nil
  | .string s => .string (tweak s)
  | .array [] => .table []
  | .array (_ :: elements) => .table (pushSubReplies elements)
  | .badArray _ => .nil

def pushSubReplies : List Reply → List LuaValue
  | [] => []
  | r :: rs => pushSubReply r :: pushSubReplies rs
end

mutual
/-- Every array has the elements its count promises. -/
def readable : Reply → Bool
  | .array elements => allReadable elements
  | .badArray _ => false
  | _ => true

def allReadable : List Reply → Bool
  | [] => true
  | r :: rs => readable r && allReadable rs
end

namespace World

/-! ## Timers -/

/-- `uv_timer_init` and `uv_timer_start` on a request block. -/
def uvTimerStart (w : World) (b : Block) (rep : UInt64) : World :=
  { w with uv.timers := Function.update w.uv.timers b (some { rep, active := true }) }

/-- The start of a timer in the confirmation loop.  `lua_pushstring` and `lua_rawget`
    leave the loop object on the stack. -/
def startTimer (w : World) (ikey : UInt64) : World :=
  let w := { w with lua.top := w.lua.top + 1 }
  match searchTimer ikey w.cc.timers with
  | none => w.crash .searchTimerAssert
  | some leaf =>
    let (b, uv) := w.uv.reqAlloc
    let w := { w with uv }.uvTimerStart b ikey
    -- a timer that the node had before is left running
    { w with cc.timers := w.cc.timers.modify (fun v => { v with data := some b }) leaf }

/-! ## Confirmations -/

/-- One round of the loop over the channel slots of a callback, on a slot that is
    not subscribed: the first slot of the confirmed name is marked, and the timer of
    a timer slot is started. -/
def confirmChannel (sname : Bytes) (ch : Channel) (isDone : Bool) (w : World) :
    Channel × Bool × World :=
  if ch.subscribed then (ch, isDone, w)
  else if !isDone && !ch.timerEvent && decide (strcmp (ch.name.getD []) sname = .eq) then
    ({ ch with subscribed := true }, true, w)
  else if ch.timerEvent then ({ ch with subscribed := true }, isDone, w.startTimer ch.ikey)
  else (ch, isDone, w)

/-- The loop over the channel slots: the slots afterwards, `done`, and the world. -/
def confirmChannels (sname : Bytes) :
    List Channel → Bool → World → List Channel × Bool × World
  | [], isDone, w => ([], isDone, w)
  | ch :: chs, isDone, w =>
    let (ch, isDone, w) := confirmChannel sname ch isDone w
    let (chs, isDone, w) := confirmChannels sname chs isDone w
    (ch :: chs, isDone, w)

/-- A visit of the confirmation loop at an entry of the list: nothing is done for a
    callback that is initialized.  The result says whether the slot was found. -/
def confirmEntry (sname : Bytes) (reply : Reply) (p : CbPtr) (w : World) : Bool × World :=
  match p, w.heap.deref p with
  | .heap id, some c =>
    if c.initialized then (false, w)
    else
      let (chs, isDone, w) := confirmChannels sname c.channels false w
      let all := chs.all Channel.subscribed
      -- `initialized` is set when no slot is left, and never taken back
      let w := { w with heap := w.heap.update id fun c =>
        { c with channels := chs, initialized := c.initialized || all } }
      if w.fault.isSome then (isDone, w)
      -- only the callback whose slot was found is called
      else if !w.cc.ignoreSubCmdReply && isDone then
        if readable reply then
          (isDone, w.pcall .confirmation (w.lua.rawgeti c.ref) [.nil, pushSubReply reply])
        else (isDone, w.crash .nullElement)
      else (isDone, w)
  | _, _ => (true, w.crash .deadCallback)

/-- The confirmation loop: entries are visited until a slot is found. -/
def confirm (sname : Bytes) (reply : Reply) : CallbackEnds → World → World
  | [], w => w
  | p :: ps, w =>
    match confirmEntry sname reply p w with
    | (true, w) => w
    | (false, w) => if w.fault.isSome then w else confirm sname reply ps w

/-! ## Events -/

/-- What is passed to a callback that has no confirmation for all its channels yet. -/
def notInitialized : LuaValue := .string (ascii "event received but not initialized")

/-- A round of the loops that pass an event or a tick to an entry of a list.  The
    arguments exist if the reply they are made of can be read. -/
def callEntry (w : World) (site : Site) (p : CbPtr) (args : Option (List LuaValue)) : World :=
  match w.heap.deref p with
  | none => w.crash .deadCallback
  | some c =>
    if c.initialized then
      match args with
      | some args => w.pcall site (w.lua.rawgeti c.ref) args
      | none => w.crash .nullElement
    -- no array is pushed here: the callback gets an error
    else w.pcall site (w.lua.rawgeti c.ref) [notInitialized]

/-- The arguments of an event. -/
def eventArgs (reply : Reply) : Option (List LuaValue) :=
  if readable reply then some [.nil, pushSubReply reply] else none

/-- The arguments of a tick. -/
def timerArgs (rep timeout : UInt64) : List LuaValue :=
  [.nil, .table [.string (ascii "timer"), luaInteger rep.toNat, luaInteger timeout.toNat]]

/-- The event loop of `get_and_call_sub_cb` from its `i`-th entry on.  `exit` has
    destroyed the list. -/
def eventLoop (w : World) (pvariant : Bool) (leaf : Path) (i : Nat) (reply : Reply) : World :=
  if w.cc.exited then w.crash .deadNode
  else
    match (w.names pvariant).get? leaf with
    | none => w.crash .deadNode
    | some (_, val) =>
      match val.cbList[i]? with
      | none => w
      | some p =>
        (w.push (.event pvariant leaf (i + 1) reply)).callEntry .event p (eventArgs reply)

/-- `get_and_call_sub_cb` -/
def getAndCallSubCb (w : World) (reply : Reply) : World :=
  match reply with
  | .array (.string stype :: element₁ :: _) =>
    let pvariant := isPvariant stype
    let base := if pvariant then stype.drop 1 else stype
    -- the confirmation of an unsubscribe command is dropped
    if strcmp base (ascii "unsubscribe") = .eq then w
    else
      match element₁ with
      | .string sname =>
        match search sname (w.names pvariant) with
        | none => w.crash .searchAssert
        | some leaf =>
          match (w.names pvariant).get? leaf with
          | none => w.crash .deadNode
          | some (_, val) =>
            -- `assert(temp != NULL)`
            if val.cbList = [] then w.crash .emptyListAssert
            else if strcmp base (ascii "subscribe") = .eq then confirm sname reply val.cbList w
            else w.eventLoop pvariant leaf 0 reply
      | _ => w.crash .replyAssert
  | .array _ => w.crash .replyAssert
  | .badArray elements => w.crash (if elements = 1 then .replyAssert else .nullElement)
  | _ => w

/-! ## Timer ticks -/

/-- The loop of `on_timer` from its `i`-th entry on. -/
def timerLoop (w : World) (leaf : Path) (i : Nat) (rep timeout : UInt64) : World :=
  if w.cc.exited then w.crash .deadNode
  else
    match w.cc.timers.get? leaf with
    | none => w.crash .deadNode
    | some (_, val) =>
      match val.cbList[i]? with
      | none => w
      | some p =>
        (w.push (.timer leaf (i + 1) rep timeout)).callEntry .timer p
          (some (timerArgs rep timeout))

/-- `on_timer` -/
def onTimer (w : World) (rep timeout : UInt64) : World :=
  if w.cc.flags.disconnecting then w
  else
    match searchTimer rep w.cc.timers with
    | none => w.crash .searchTimerAssert
    | some leaf => w.timerLoop leaf 0 rep timeout

end World

end CrazySnail
