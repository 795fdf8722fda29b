import CrazySnail.Verified.Footprint

/-! # Rounds of the reply loop

`Round` says what one round of the loop of `on_read` does, by what the reader has.
-/

namespace CrazySnail

namespace World

/-- The world when the reader has nothing left: in monitor mode the local record is pushed
    back, and reading stops when no command waits. -/
def endRead (w : World) (h : Handle) (subMode : Bool) : World :=
  let w := if w.cc.flags.monitoring then
      { w with cc.commandCbList := w.cc.commandCbList ++ [.stack] } else w
  if !subMode && decide (w.cc.commandCbList = []) then w.uvReadStop h else w

theorem endRead_touches (w : World) (h : Handle) (subMode : Bool) :
    Touches [.appendStack, .stream .readStop] w (w.endRead h subMode) := by
  unfold endRead
  cases w.cc.flags.monitoring with
  | false =>
    simp only [Bool.false_eq_true, if_false]
    split
    · exact .of [.stream .readStop h] rfl rfl
    · exact .refl
  | true =>
    simp only [if_true]
    split
    · exact .of [.appendStack, .stream .readStop h] rfl rfl
    · exact .of [.appendStack] rfl rfl

/-- The world in which a reply of a stream is worked off. -/
def replied (w : World) (reader : RedisReader) (subMode : Bool) (reply : Reply) : World :=
  { w with cc.reader := reader }.log (.reply subMode reply)

/-- The world in which a reply of the subscription stream is dispatched. -/
theorem replied_touches {w : World} {f : Frame} {rest : List Frame} (hstack : w.stack = f :: rest)
    (reader : RedisReader) (reply : Reply) (h : Handle) (cb : LuaRef) :
    Touches [.pop, .reader, .obs .reply, .frame .readLoop] w
      ((replied { w with stack := rest } reader true reply).push (.readLoop h true cb)) := by
  refine .of [.pop, .reader reader, .log (.reply true reply), .push (.readLoop h true cb)] ?_ rfl
  simp only [List.foldl_cons, List.foldl_nil, Update.apply, hstack, List.tail_cons]
  rfl

end World

open World

/-- One round of the reply loop. -/
inductive Round (w : World) (h : Handle) (subMode : Bool) (cb : LuaRef) : World → Prop
  /-- `exit` has freed the reader -/
  | exited : w.cc.exited = true → Round w h subMode cb (w.crash .deadClient)
  | failed {reader : RedisReader} {reply : Option Reply} :
      redisReaderGetReply w.cc.reader = (reader, .err, reply) → reader.err ≠ NULL_STORE →
      Round w h subMode cb { w with cc.reader := reader }
  /-- the reader has stored an element through `NULL` -/
  | stored {reader : RedisReader} {reply : Option Reply} :
      redisReaderGetReply w.cc.reader = (reader, .err, reply) → reader.err = NULL_STORE →
      Round w h subMode cb ({ w with cc.reader := reader }.crash .nullElement)
  | disconnecting {reader : RedisReader} :
      redisReaderGetReply w.cc.reader = (reader, .ok, none) → w.cc.flags.disconnecting = true →
      Round w h subMode cb { w with cc.reader := reader }
  | ended {reader : RedisReader} :
      redisReaderGetReply w.cc.reader = (reader, .ok, none) → w.cc.flags.disconnecting = false →
      Round w h subMode cb ({ w with cc.reader := reader }.endRead h subMode)
  /-- a reply of the command stream -/
  | reply {reader : RedisReader} {reply : Reply} :
      redisReaderGetReply w.cc.reader = (reader, .ok, some reply) → subMode = false →
      Round w h subMode cb ((w.replied reader false reply).dispatchReply h cb reply)
  /-- an error reply of the subscription stream -/
  | subError {reader : RedisReader} {message : Bytes} :
      redisReaderGetReply w.cc.reader = (reader, .ok, some (.error message)) → subMode = true →
      Round w h subMode cb ((w.replied reader true (.error message)).push (.readLoop h true cb))
  /-- another reply of the subscription stream -/
  | subReply {reader : RedisReader} {reply : Reply} :
      redisReaderGetReply w.cc.reader = (reader, .ok, some reply) → subMode = true →
      Round w h subMode cb
        (((w.replied reader true reply).push (.readLoop h true cb)).getAndCallSubCb reply)

theorem readLoop_round (w : World) (h : Handle) (subMode : Bool) (cb : LuaRef) :
    Round w h subMode cb (w.readLoop h subMode cb) := by
  unfold readLoop
  split
  next hexit => exact .exited hexit
  generalize hget : redisReaderGetReply w.cc.reader = r
  obtain ⟨reader, status, reply⟩ := r
  cases status with
  | err =>
    simp only [readerFailed]
    split
    next hnull => exact .stored hget hnull
    next hnull => exact .failed hget hnull
  | ok =>
    cases reply with
    | none =>
      cases hdisc : w.cc.flags.disconnecting with
      | true =>
        simp only [hdisc, if_true]
        exact .disconnecting hget hdisc
      | false =>
        simp only [hdisc, Bool.false_eq_true, if_false]
        exact .ended hget hdisc
    | some reply =>
      cases subMode with
      | false => exact .reply hget rfl
      | true =>
        cases reply with
        | error message => exact .subError hget rfl
        | _ => exact .subReply hget rfl

/-- The step in which an array of the subscription stream is dispatched. -/
theorem step_array {w w' : World} {h : Handle} {cb : LuaRef} {rest : List Frame}
    {reader : RedisReader} {elements : List Reply} (hexit : w.cc.exited = false)
    (hstack : w.stack = .readLoop h true cb :: rest)
    (hreply : redisReaderGetReply w.cc.reader = (reader, .ok, some (.array elements)))
    (hstep : w.step .resume = some w') :
    w' = ((replied { w with stack := rest } reader true (.array elements)).push
      (.readLoop h true cb)).getAndCallSubCb (.array elements) := by
  have hw' : w' = ({ w with stack := rest } : World).readLoop h true cb := by
    cases (step_cases hstep).2 with
    | resume hstack' _ =>
      rw [hstack] at hstack'
      cases hstack'
      rfl
  have hrunning : ¬w.cc.exited = true := by simp [hexit]
  rw [hw']
  simp only [readLoop, if_neg hrunning, hreply]
  rfl

end CrazySnail
