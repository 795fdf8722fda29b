import CrazySnail.Verified.Footprint
import CrazySnail.Verified.ReaderRefinement

/-! # What `on_read` gets from the reader

Seen from the reader, a run of the client is a sequence of chunks, each tagged with the
stream it came from, and a sequence of reports: replies that `on_read` dispatches for a
stream, and errors that it reports.  In every reachable state the reports are those of
one decoder that receives all chunks (`reading_reachable`).
-/

namespace CrazySnail

open Decoder (Ending Decodes Report Receives)

/-! ## The reading part of a world -/

/-- The chunks handed to the reader; `true` marks the subscription stream. -/
def chunks (trace : List Obs) : List (Bool × Bytes) :=
  trace.filterMap fun
    | .fed subMode data => some (subMode, data)
    | _ => none

/-- The replies dispatched and the errors reported. -/
def reports (trace : List Obs) : List (Report Bool Reply Bytes) :=
  trace.filterMap fun
    | .reply subMode r => some (.got subMode r)
    | .feedError subMode message => some (.refused subMode message)
    | _ => none

/-- The reply loops that wait on the stack, by stream. -/
def readFrames (stack : List Frame) : List Bool :=
  stack.filterMap fun
    | .readLoop _ subMode _ => some subMode
    | _ => none

@[simp] theorem chunks_append (t t' : List Obs) : chunks (t ++ t') = chunks t ++ chunks t' := by
  simp [chunks]

@[simp] theorem reports_append (t t' : List Obs) : reports (t ++ t') = reports t ++ reports t' := by
  simp [reports]

structure Reading where
  reader : RedisReader
  frames : List Bool
  chunks : List (Bool × Bytes)
  reports : List (Report Bool Reply Bytes)

def World.reading (w : World) : Reading :=
  { reader := w.cc.reader, frames := readFrames w.stack,
    chunks := CrazySnail.chunks w.trace, reports := CrazySnail.reports w.trace }

/-- The parts that reading depends on. -/
def readingParts : List Part :=
  [.reader, .frame .readLoop, .pop, .obs .fed, .obs .feedError, .obs .reply]

theorem Update.apply_reading (w : World) (u : Update) (hu : u.part ∉ readingParts) :
    (u.apply w).reading = w.reading := by
  cases u with
  | log o =>
    cases o <;> first
      | simp [readingParts] at hu; done
      | simp [apply, World.log, World.reading, chunks, reports]
  | push f =>
    cases f <;> first
      | simp [readingParts] at hu; done
      | rfl
  | names p t => cases p <;> rfl
  | reader | pop => simp [readingParts] at hu
  | _ => rfl

/-- What does not touch the reading parts does not change the reading. -/
theorem Touches.reading {ks : List Part} {w w' : World} (h : Touches ks w w')
    (hks : ks.all (fun k => decide (k ∉ readingParts)) = true) : w'.reading = w.reading :=
  h.same (fun w u hu => u.apply_reading w hu) hks

/-! ## The invariant -/

/-- The reader is where a decoder stopped. -/
def ReaderAt (r : RedisReader) : Ending (List ReadTask) Byte Bytes → Prop
  | .blocked stack rest => r.err = 0 ∧ r.Valid ∧ r.tasks = stack ∧ r.unread = rest
  | .failed e => r.err ≠ 0 ∧ r.errstr = e

/-- What is still to be reported before the decoder stops at `e`: nothing when no reply
    loop waits, else what the loop will get from the reader. -/
def Drains (r : RedisReader) (frames : List Bool) (pending : List (Report Bool Reply Bytes))
    (e : Ending (List ReadTask) Byte Bytes) : Prop :=
  match frames with
  | [] => pending = [] ∧ ReaderAt r e
  | [subMode] => ∃ os, pending = os.map (.got subMode) ∧ r.err = 0 ∧ r.Valid ∧
      Decodes item r.tasks r.unread os e
  | _ => False

/-- The reports are those of a receiver of the chunks that starts at `start`, up to what
    a waiting reply loop has not reported yet. -/
def ReadingInv (start : Ending (List ReadTask) Byte Bytes) (rd : Reading) (faulty : Bool) : Prop :=
  ∃ pending e, Receives item start rd.chunks (rd.reports ++ pending) e ∧
    (faulty = false → Drains rd.reader rd.frames pending e)

variable {start : Ending (List ReadTask) Byte Bytes}

theorem ReadingInv.of_faulty {rd : Reading} (h : ReadingInv start rd false) (faulty : Bool) :
    ReadingInv start rd faulty := by
  obtain ⟨pending, e, hr, hd⟩ := h
  exact ⟨pending, e, hr, fun _ => hd rfl⟩

/-! ## `on_read` -/

theorem World.onRead_reading {w : World} (hstack : w.stack = [])
    (hinv : ReadingInv start w.reading false) (h : Handle) (data : Bytes) (cb : LuaRef) :
    ReadingInv start (w.onRead h data cb).reading false := by
  obtain ⟨pending, e, hr, hd⟩ := hinv
  have hframes : w.reading.frames = [] := by simp [World.reading, hstack, readFrames]
  -- no loop waits, so everything is reported and the reader is where the decoder is
  have hdrains := hd rfl
  rw [hframes] at hdrains
  obtain ⟨rfl, hat⟩ := hdrains
  have hsame : ∀ w' : World, w'.reading = w.reading → ReadingInv start w'.reading false :=
    fun w' heq => heq ▸ ⟨[], e, hr, hd⟩
  unfold World.onRead
  dsimp only
  generalize decide (w.cc.subStream = some h) = m
  split
  · exact hsame _ rfl
  · split
    · split <;> exact hsame _ rfl
    · by_cases herr : w.cc.reader.err = 0
      · -- the chunk is appended, and the loop starts
        have hblocked : ∃ stack rest, e = .blocked stack rest ∧ w.cc.reader.Valid ∧
            w.cc.reader.tasks = stack ∧ w.cc.reader.unread = rest := by
          cases e with
          | blocked stack rest => exact ⟨stack, rest, rfl, hat.2⟩
          | failed err => exact absurd herr hat.1
        obtain ⟨_, _, rfl, hv, rfl, rfl⟩ := hblocked
        obtain ⟨r', hfeed, herr', hv', htasks, hunread⟩ := redisReaderFeed_ok hv herr data
        obtain ⟨os, e', hdec⟩ := item_lawful.exists_decodes w.cc.reader.tasks
          (w.cc.reader.unread ++ data)
        have hreader : ({ w with bufs := w.bufs.alloc.2 }.log (.fed m data)).cc.reader =
            w.cc.reader := rfl
        rw [hreader, hfeed]
        refine ⟨os.map (.got m), e', ?_, fun _ => ?_⟩
        · have := Receives.chunk (t := m) (c := data) hr hdec
          simpa [World.reading, World.push, World.bufFree, World.log, chunks, reports] using this
        · have hf : readFrames w.stack = [] := hframes
          simp only [Drains, World.reading, World.push, World.bufFree, World.log, readFrames,
            List.filterMap_cons] at hf ⊢
          rw [hf]
          exact ⟨os, rfl, herr', hv', by rw [htasks, hunread]; exact hdec⟩
      · -- the chunk is refused
        have hfailed : ∃ err, e = .failed err ∧ w.cc.reader.errstr = err := by
          cases e with
          | blocked stack rest => exact absurd hat.1 herr
          | failed err => exact ⟨err, rfl, hat.2⟩
        obtain ⟨_, rfl, rfl⟩ := hfailed
        have hreader : ({ w with bufs := w.bufs.alloc.2 }.log (.fed m data)).cc.reader =
            w.cc.reader := rfl
        rw [hreader, redisReaderFeed_of_err herr]
        dsimp only
        have hrefused : ReadingInv start
            { w.reading with
              chunks := w.reading.chunks ++ [(m, data)],
              reports := w.reading.reports ++ [.refused m w.cc.reader.errstr] } false := by
          refine ⟨[], .failed w.cc.reader.errstr, ?_, fun _ => ?_⟩
          · have := Receives.refuse (t := m) (c := data) hr
            simpa using this
          · rw [hframes]
            exact ⟨rfl, herr, rfl⟩
        have hlogged : (({ w with bufs := w.bufs.alloc.2 }.log (.fed m data)).log
            (.feedError m w.cc.reader.errstr)).reading =
              { w.reading with
                chunks := w.reading.chunks ++ [(m, data)],
                reports := w.reading.reports ++ [.refused m w.cc.reader.errstr] } := by
          simp [World.reading, World.log, chunks, reports]
        rw [← hlogged] at hrefused
        split
        · rw [(World.pcall_touches _ _ _ _).reading rfl]
          exact hrefused
        · exact hrefused

theorem World.reading_push_readLoop (w : World) (h : Handle) (subMode : Bool) (cb : LuaRef) :
    (w.push (.readLoop h subMode cb)).reading =
      { w.reading with frames := subMode :: w.reading.frames } := by
  simp [World.reading, World.push, readFrames]

/-- The loop waits again after a reply of the command stream, unless the record of the
    callback is gone. -/
theorem World.deliverReply_reading (w : World) (h : Handle) (cb : LuaRef) (reply : Reply) :
    (w.deliverReply h cb reply).reading = { w.reading with frames := false :: w.reading.frames } := by
  have hpush := w.reading_push_readLoop h false cb
  unfold World.deliverReply
  cases cb with
  | noref => exact hpush
  | refnil => exact hpush
  | ref n =>
    dsimp only
    split
    · rw [(World.pcall_touches _ _ _ _).reading rfl]; exact hpush
    · exact hpush

theorem World.dispatchReply_reading (w : World) (h : Handle) (cb : LuaRef) (reply : Reply) :
    (w.dispatchReply h cb reply).reading =
        { w.reading with frames := false :: w.reading.frames } ∨
      (w.dispatchReply h cb reply).reading = w.reading ∧
        (w.dispatchReply h cb reply).fault.isSome = true := by
  obtain ⟨-, heq⟩ | ⟨list, -, heq⟩ | ⟨list, target, heap, -, heq⟩ :=
    w.dispatchReply_cases h cb reply
  · exact .inl (heq ▸ w.deliverReply_reading h cb reply)
  · refine .inr (heq ▸ ⟨rfl, ?_⟩)
    cases w.fault <;> simp [World.crash]
  · exact .inl (heq ▸ World.deliverReply_reading _ h target.ref reply)

/-- The reply loop reports what the reader has. -/
theorem World.readLoop_reading {w : World} {rest : List Frame} {h : Handle} {subMode : Bool}
    {cb : LuaRef} (hstack : w.stack = .readLoop h subMode cb :: rest)
    (hinv : ReadingInv start w.reading false) :
    ReadingInv start ({ w with stack := rest }.readLoop h subMode cb).reading
      ({ w with stack := rest }.readLoop h subMode cb).fault.isSome := by
  obtain ⟨pending, e, hr, hd⟩ := hinv
  have hdrains := hd rfl
  have hframes : w.reading.frames = subMode :: readFrames rest := by
    simp [World.reading, hstack, readFrames]
  rw [hframes] at hdrains
  -- this is the only loop
  obtain ⟨hnil, os, rfl, herr, hv, hdec⟩ : readFrames rest = [] ∧ ∃ os,
      pending = os.map (.got subMode) ∧ w.cc.reader.err = 0 ∧ w.cc.reader.Valid ∧
        Decodes item w.cc.reader.tasks w.cc.reader.unread os e := by
    cases hrest : readFrames rest with
    | nil => rw [hrest] at hdrains; exact ⟨rfl, hdrains⟩
    | cons m ms => rw [hrest] at hdrains; exact absurd hdrains id
  obtain ⟨hyields, hstatus⟩ := redisReaderGetReply_yields hv herr
  unfold World.readLoop
  dsimp only
  split
  · -- the client is gone, and the program stops
    refine ⟨_, e, hr, fun hnone => ?_⟩
    simp [World.crash] at hnone
  generalize redisReaderGetReply w.cc.reader = r at hyields hstatus ⊢
  obtain ⟨reader, status, reply⟩ := r
  dsimp only at hyields hstatus ⊢
  cases status with
  | err =>
    obtain ⟨herr', hfail⟩ := hyields.resolve_right fun h => hstatus.mp rfl h.1
    obtain ⟨rfl, rfl⟩ := hdec.det hfail
    dsimp only [World.readerFailed]
    split
    · -- the program stops with the reader
      refine ⟨[], _, hr, fun hnone => ?_⟩
      simp [World.crash] at hnone
    · refine ⟨[], _, hr, fun _ => ?_⟩
      simp only [World.reading, hnil]
      exact ⟨rfl, herr', rfl⟩
  | ok =>
    obtain ⟨herr', hv', hnext⟩ := hyields.resolve_left fun h => nomatch hstatus.mpr h.1
    cases reply with
    | none =>
      obtain ⟨rfl, rfl⟩ := hdec.det hnext
      -- the loop ends; what it does then does not concern the reader
      have hdone : ∀ w' : World, w'.reading = { w.reading with reader := reader, frames := [] } →
          ReadingInv start w'.reading w'.fault.isSome := by
        intro w' heq
        rw [heq]
        exact ⟨[], _, hr, fun _ => ⟨rfl, herr', hv', rfl, rfl⟩⟩
      dsimp only
      refine hdone _ ?_
      simp only [World.reading]
      split
      · simp [hnil]
      · split <;> split <;> simp [hnil, World.uvReadStop]
    | some reply =>
      obtain ⟨os', e', hrest⟩ := item_lawful.exists_decodes reader.tasks reader.unread
      obtain ⟨rfl, rfl⟩ := hdec.det (hnext os' e' hrest)
      have hr' : Receives item start w.reading.chunks
          ((w.reading.reports ++ [.got subMode reply]) ++ os'.map (.got subMode)) e := by
        simpa using hr
      have hnext : ∀ w' : World, w'.reading = { w.reading with
            reader := reader, frames := [subMode],
            reports := w.reading.reports ++ [.got subMode reply] } →
          ReadingInv start w'.reading w'.fault.isSome := by
        intro w' heq
        rw [heq]
        exact ⟨_, e, hr', fun _ => ⟨os', rfl, herr', hv', hrest⟩⟩
      dsimp only
      have hlog : ({ w with stack := rest, cc.reader := reader }.log (.reply subMode reply)).reading =
          { w.reading with
            reader := reader, frames := [],
            reports := w.reading.reports ++ [.got subMode reply] } := by
        simp [World.reading, World.log, hnil, chunks, reports]
      cases subMode with
      | true =>
        have hpush : (({ w with stack := rest, cc.reader := reader }.log (.reply true reply)).push
            (.readLoop h true cb)).reading =
              { w.reading with
                reader := reader, frames := [true],
                reports := w.reading.reports ++ [.got true reply] } := by
          rw [World.reading_push_readLoop, hlog]
        rw [if_pos rfl]
        split
        · exact hnext _ hpush
        · exact hnext _ (((World.getAndCallSubCb_touches _ _).reading rfl).trans hpush)
      | false =>
        rw [if_neg (by decide)]
        rcases World.dispatchReply_reading _ h cb reply with heq | ⟨heq, hdead⟩
        · exact hnext _ (by rw [heq, hlog])
        · rw [heq, hlog, hdead]
          exact ⟨_, e, hr', by simp⟩

theorem step_reading {w w' : World} {e : Event} (h : w.step e = some w')
    (hinv : ReadingInv start w.reading w.fault.isSome) :
    ReadingInv start w'.reading w'.fault.isSome := by
  obtain ⟨hfault, hs⟩ := step_cases h
  rw [hfault] at hinv
  -- all but `on_read` and its loop leave the reading as it is
  have hsame : w'.reading = w.reading → ReadingInv start w'.reading w'.fault.isSome := fun heq =>
    heq ▸ hinv.of_faulty _
  cases hs with
  | api c _ => exact hsame ((w.api_touches c).reading (by cases c <;> rfl))
  | ret ok hstack => exact hsame (by simp [World.reading, hstack, readFrames])
  | @resume f rest hstack hlua =>
    cases f with
    | readLoop h subMode cb => exact World.readLoop_reading hstack hinv
    | lua site top => exact absurd rfl hlua
    | closeStream h | bufFree buf | event pvariant leaf i reply | timer leaf i rep timeout =>
      refine hsame (((World.resume_touches _ _).reading rfl).trans ?_)
      simp [World.reading, hstack, readFrames]
  | read h₁ data cb hstack _ => exact (World.onRead_reading hstack hinv h₁ data cb).of_faulty _
  | readError h₁ nread _ _ _ => exact hsame ((w.onReadError_touches h₁ nread).reading rfl)
  | written status readStart _ _ _ _ _ =>
    exact hsame ((World.onWrite_touches _ _ _ _).reading rfl)
  | connected status _ _ _ _ _ =>
    exact hsame ((World.connectCompleted_touches _ _ _).reading rfl)
  | closed _ _ _ _ _ =>
    refine hsame (((World.onDisconnect_touches _ _).reading rfl).trans ?_)
    exact Update.apply_reading w (.log _) (by simp [readingParts])
  | tick timeout _ _ _ => exact hsame ((World.onTimer_touches _ _ _).reading rfl)

/-- **Refinement of the reading part.**  From a state in which no reply loop waits, every
    run reports what a decoder that receives the chunks reports. -/
theorem run_reading {w w' : World} {es : List Event} (h : runs w es = some w')
    (hinv : ReadingInv start w.reading w.fault.isSome) :
    ReadingInv start w'.reading w'.fault.isSome :=
  (Transition.runsUnder_true h).invariant (fun _ _ _ hi hst _ => step_reading hst hi) hinv

theorem reading_new (ignore : Bool) :
    ReadingInv (.blocked idle []) (World.new ignore).reading (World.new ignore).fault.isSome :=
  ⟨[], _, .nil, fun _ => ⟨rfl, rfl, RedisReader.create_valid, rfl, rfl⟩⟩

end CrazySnail
