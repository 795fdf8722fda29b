import CrazySnail.Verified.Sending

/-! # The stream handles of a client

`Handling` is what is left of a world for somebody who looks at the stream handles only:
the handles and what the trace says about them, the requests in flight, the bits that
tell whether a connection is up.  For every function of the client this module says what
it does to this part.
-/

namespace CrazySnail

/-- The interactions about handles and connections. -/
def handled (o : Obs) : Bool :=
  decide (o.tag ∈ [.connect, .uvWrite, .uvClose, .connected, .closed, .freed, .call .connect,
    .call .disconnect])

structure Handling where
  trace : List Obs
  streams : Handle → Option Stream
  next : Handle
  stream : Option Handle
  subStream : Option Handle
  connected : Bool
  streamFlags : StreamFlags
  requests : List (ReqKind × Handle)
  /-- the handles `on_read` is about to close -/
  closing : List Handle

/-- The handle of a frame that is about to close it. -/
def Frame.closing? : Frame → Option Handle
  | .closeStream h => some h
  | _ => none

def World.handling (w : World) : Handling where
  trace := w.trace.filter handled
  streams := w.uv.streams
  next := w.uv.nextHandle
  stream := w.cc.stream
  subStream := w.cc.subStream
  connected := w.cc.flags.connected
  streamFlags := w.cc.streamFlags
  requests := w.uv.requests.map fun r => (r.kind, r.handle)
  closing := w.stack.filterMap Frame.closing?

namespace Handling
variable (v : Handling)

def note (o : Obs) : Handling := { v with trace := v.trace ++ [o] }

def change (t : StreamTag) (h : Handle) : Handling :=
  { v with streams := Function.update v.streams h ((v.streams h).map (Stream.change · t)) }

def request (k : ReqKind) (h : Handle) : Handling := { v with requests := v.requests ++ [(k, h)] }

def finish (i : Nat) : Handling := { v with requests := v.requests.eraseIdx i }

/-- `connect()` -/
def connect : Handling where
  trace := v.trace ++ [.connect v.next (v.next + 1)]
  streams := Function.update (Function.update v.streams v.next (some .init)) (v.next + 1) (some .init)
  next := v.next + 2
  stream := some v.next
  subStream := some (v.next + 1)
  connected := false
  streamFlags := v.streamFlags
  requests := v.requests ++ [(.connect, v.next)] ++ [(.connect, v.next + 1)]
  closing := v.closing

/-- `uv_close` of an open handle. -/
def close (h : Handle) : Handling := (v.note (.uvClose h)).change .close h

/-- `disconnect()` of a connection whose handles are open. -/
def disconnect (s ss : Handle) : Handling := (((v.change .data s).change .data ss).close s).close ss

/-- A handle that can be closed. -/
def Open (h : Handle) : Prop := ∃ s, v.streams h = some s ∧ s.freed = false ∧ s.closing = false

/-- A bit is set for a stream that is connected. -/
def up (sf : StreamFlags) : StreamFlags :=
  if !sf.stream then { sf with stream := true }
  else if !sf.subStream then { sf with subStream := true } else sf

/-- A bit is cleared for a stream that is closed. -/
def down (sf : StreamFlags) : StreamFlags :=
  if sf.stream then { sf with stream := false }
  else if sf.subStream then { sf with subStream := false } else sf

/-- A stream is connected. -/
def opened (h : Handle) : Handling :=
  { (v.change .connect h).note (.connected h) with
    streamFlags := up v.streamFlags
    connected := v.connected || ((up v.streamFlags).stream && (up v.streamFlags).subStream) }

/-- The close callback of a stream frees it. -/
def freed (h : Handle) : Handling := ((v.note (.closed h)).change .free h).note (.freed h)

variable {v}

theorem change_streams (t : StreamTag) (h h' : Handle) :
    (v.change t h).streams h' =
      if h' = h then (v.streams h).map (Stream.change · t) else v.streams h' :=
  Function.update_apply ..

theorem open_data {h h' : Handle} : (v.change .data h').Open h ↔ v.Open h := by
  simp only [Open, change_streams]
  by_cases heq : h = h'
  · subst heq
    cases v.streams h <;> simp [Stream.change]
  · simp [heq]

theorem open_close {h h' : Handle} : (v.close h').Open h ↔ h ≠ h' ∧ v.Open h := by
  simp only [Open, close, change_streams]
  by_cases heq : h = h'
  · subst heq
    simp only [if_true, not_true_eq_false, ne_eq, false_and, iff_false]
    rintro ⟨s, hs, -, hclosing⟩
    obtain ⟨t, -, rfl⟩ := Option.map_eq_some_iff.mp hs
    cases hclosing
  · simp only [heq, if_false, ne_eq, not_false_eq_true, true_and]
    rfl

end Handling

/-! ## Frames -/

/-- The parts that matter to the handles. -/
def handlingParts : List Part :=
  [.obs .connect, .obs .uvWrite, .obs .uvClose, .obs .connected, .obs .closed, .obs .freed,
    .obs (.call .connect), .obs (.call .disconnect), .stream .data, .stream .close,
    .stream .readStop, .stream .readStart, .stream .connect, .stream .free, .newStream, .handles,
    .raise .connected, .clearFlags, .streamFlags, .request .connect, .request .write, .finish,
    .frame .closeStream, .pop]

theorem Update.apply_handling (w : World) (u : Update) (hu : u.part ∉ handlingParts) :
    (u.apply w).handling = w.handling := by
  cases u with
  | log o =>
    have hout : handled o = false := by
      cases o with
      | call site fn args => cases site <;> first | rfl | simp [handlingParts] at hu
      | _ => first | rfl | simp [handlingParts] at hu
    simp [apply, World.log, World.handling, hout]
  | push f => cases f <;> first | rfl | simp [handlingParts] at hu
  | names p t => cases p <;> rfl
  | raise t => cases t <;> first | rfl | simp [handlingParts] at hu
  | stream t h => cases t <;> simp [handlingParts] at hu
  | request r => cases hk : r.kind <;> simp [handlingParts, hk] at hu
  | reqAlloc =>
    simp only [apply, Uv.reqAlloc]
    split <;> rfl
  | newStream | handles | clearFlags | streamFlags | finish | pop => simp [handlingParts] at hu
  | _ => rfl

theorem Touches.handling {ks : List Part} {w w' : World} (h : Touches ks w w')
    (hks : ks.all (fun k => decide (k ∉ handlingParts)) = true) : w'.handling = w.handling :=
  h.same (fun w u hu => u.apply_handling w hu) hks

namespace World
variable {w : World}

@[simp] theorem log_handling {o : Obs} (ho : handled o = true) :
    (w.log o).handling = w.handling.note o := by
  simp [log, handling, Handling.note, ho]

/-- An operation on a handle, or the end of the program. -/
theorem onStream_cases (w : World) (h : Handle) (k : Handle → Stream → World) :
    (∃ s, w.uv.streams h = some s ∧ s.freed = false ∧ w.onStream (some h) k = k h s) ∨
      ((∀ s, w.uv.streams h = some s → s.freed = true) ∧
        w.onStream (some h) k = w.crash .deadStream) := by
  simp only [onStream]
  cases hs : w.uv.streams h with
  | none => exact .inr ⟨by simp, rfl⟩
  | some s =>
    cases hfreed : s.freed with
    | true => exact .inr ⟨fun t ht => by cases ht; exact hfreed, by simp [hfreed]⟩
    | false => exact .inl ⟨s, rfl, hfreed, by simp [hfreed]⟩

/-- `uv_close` closes an open handle; otherwise the program stops. -/
inductive Closes (w : World) (h : Handle) (w' : World) : Prop
  | done : w.handling.Open h → w'.handling = w.handling.close h → w'.fault = w.fault →
      Closes w h w'
  | stops : ¬w.handling.Open h → w'.fault.isSome →
      w'.handling = w.handling.note (.uvClose h) → Closes w h w'

theorem uvClose_handling (w : World) (h : Handle) : Closes w h (w.uvClose (some h)) := by
  have hlog : (w.log (.uvClose h)).handling = w.handling.note (.uvClose h) := log_handling rfl
  rcases (w.log (.uvClose h)).onStream_cases h (fun h s =>
    if s.closing then (w.log (.uvClose h)).crash .closingAssert
    else { w.log (.uvClose h) with uv := w.uv.setStream h fun s =>
      { s with closing := true, reading := false } }) with ⟨s, hs, hfreed, heq⟩ | ⟨hdead, heq⟩
  · rw [show w.uvClose (some h) = _ from heq]
    have hs : w.uv.streams h = some s := hs
    cases hclosing : s.closing with
    | true =>
      refine .stops (fun ⟨t, ht, _, hopen⟩ => ?_) (by simp [crash_isSome])
        (by rw [if_pos rfl]; exact hlog)
      obtain rfl := Option.some.inj (ht.symm.trans hs)
      rw [hclosing] at hopen
      cases hopen
    | false =>
      simp only [Bool.false_eq_true, if_false]
      refine .done ⟨s, hs, hfreed, hclosing⟩ ?_ rfl
      rw [Handling.close, ← hlog]
      rfl
  · rw [show w.uvClose (some h) = _ from heq]
    refine .stops (fun ⟨t, ht, hopen, _⟩ => ?_) (crash_isSome _ _) hlog
    rw [hdead t ht] at hopen
    cases hopen

/-! ## Commands -/

/-- `uv_write` to a stream. -/
theorem uvWrite_handling (w : World) (h : Handle) (block : Block) (frame : Bytes)
    (owner : Option Nat) (buf error : Nat) :
    let w' := (w.uvWrite (some h) block frame owner buf error).2
    (∃ s, w.uv.streams h = some s ∧ s.freed = false ∧
        (w'.handling = w.handling.note (.uvWrite h frame) ∨
          s.closing = false ∧
            w'.handling = (w.handling.note (.uvWrite h frame)).request .write h)) ∨
      ((∀ s, w.uv.streams h = some s → s.freed = true) ∧ w'.fault.isSome ∧
        w'.handling = w.handling.note (.uvWrite h frame)) := by
  have hlog : (w.log (.uvWrite h frame)).handling = w.handling.note (.uvWrite h frame) :=
    log_handling rfl
  simp only [uvWrite]
  cases hs : (w.log (.uvWrite h frame)).uv.streams h with
  | none =>
    refine .inr ⟨fun s hs' => ?_, crash_isSome _ _, hlog⟩
    rw [show w.uv.streams h = none from hs] at hs'
    cases hs'
  | some s =>
    have hs : w.uv.streams h = some s := hs
    cases hfreed : s.freed with
    | true =>
      simp only [hfreed, if_true]
      refine .inr ⟨fun t ht => ?_, crash_isSome _ _, hlog⟩
      rw [hs, Option.some.injEq] at ht
      exact ht ▸ hfreed
    | false =>
      refine .inl ⟨s, hs, hfreed, ?_⟩
      cases hclosing : s.closing with
      | true =>
        simp only [hfreed, hclosing, Bool.false_eq_true, if_false, if_true]
        exact .inl hlog
      | false =>
        simp only [hfreed, hclosing, Bool.false_eq_true, if_false]
        split
        · refine .inr ⟨trivial, ?_⟩
          rw [← hlog]
          simp [handling, Handling.request]
        · exact .inl hlog

/-- What a command does to the handles, if it goes to the given stream. -/
inductive Writes (w : World) (target : Option Handle) (w' : World) : Prop
  | quiet : w'.handling = w.handling → Writes w target w'
  | refused {h : Handle} {s : Stream} (frame : Bytes) :
      w.cc.flags.connected = true → target = some h → w.uv.streams h = some s →
      w'.handling = w.handling.note (.uvWrite h frame) → Writes w target w'
  | accepted {h : Handle} {s : Stream} (frame : Bytes) :
      w.cc.flags.connected = true → target = some h → w.uv.streams h = some s →
      s.freed = false → s.closing = false →
      w'.handling = (w.handling.note (.uvWrite h frame)).request .write h → Writes w target w'
  /-- the stream is missing -/
  | dead {h : Handle} (frame : Bytes) :
      w.cc.flags.connected = true → target = some h →
      (∀ s, w.uv.streams h = some s → s.freed = true) →
      w'.handling = w.handling.note (.uvWrite h frame) → Writes w target w'

theorem Writes.trans {w' w'' : World} {target : Option Handle} (h : Writes w target w')
    (heq : w''.handling = w'.handling) : Writes w target w'' := by
  cases h with
  | quiet h => exact .quiet (heq.trans h)
  | refused frame hc ht hs h => exact .refused frame hc ht hs (heq.trans h)
  | accepted frame hc ht hs hf hn h => exact .accepted frame hc ht hs hf hn (heq.trans h)
  | dead frame hc ht hf h => exact .dead frame hc ht hf (heq.trans h)

theorem sendCommand_handling (w : World) (subMode : Bool) (frame : Bytes) (owner : Option Nat)
    (buf error : Nat) :
    Writes w (w.sending.target subMode) (w.sendCommand subMode frame owner buf error) := by
  have hfail : ∀ (w : World) error, (w.failSend error).handling = w.handling :=
    fun w error => ((w.shiftAndReport_touches .sendError error _
      (List.subset_cons_self (.obs .raised) (shiftParts .sendError))
      fun w => .of [.log (.raised (.error error))] rfl rfl)).handling rfl
  unfold sendCommand
  split
  next hconn =>
    have hstreams : w.uv.reqAlloc.2.streams = w.uv.streams := by
      unfold Uv.reqAlloc
      split <;> rfl
    have halloc : { w with uv := w.uv.reqAlloc.2 }.handling = w.handling :=
      Update.apply_handling w .reqAlloc (by simp [handlingParts])
    -- the stream pointer may be null, and then libuv is not asked
    have hwrites : Writes w (w.sending.target subMode) ({ w with uv := w.uv.reqAlloc.2 }.uvWrite
        (w.sending.target subMode) w.uv.reqAlloc.1 frame owner buf error).2 := by
      cases htarget : w.sending.target subMode with
      | none => exact .quiet halloc
      | some h =>
        have hwrite := uvWrite_handling { w with uv := w.uv.reqAlloc.2 } h w.uv.reqAlloc.1 frame
          owner buf error
        simp only [hstreams, halloc] at hwrite
        obtain ⟨s, hs, hfreed, hrefused | ⟨hclosing, haccepted⟩⟩ | ⟨hdead, -, hnote⟩ := hwrite
        · exact .refused frame hconn rfl hs hrefused
        · exact .accepted frame hconn rfl hs hfreed hclosing haccepted
        · exact .dead frame hconn rfl hdead hnote
    change Writes w (w.sending.target subMode) _
    dsimp only
    rw [show (if subMode then w.cc.subStream else w.cc.stream) = w.sending.target subMode from rfl]
    generalize { w with uv := w.uv.reqAlloc.2 }.uvWrite (w.sending.target subMode) w.uv.reqAlloc.1
      frame owner buf error = result at hwrites ⊢
    obtain ⟨r, w₁⟩ := result
    dsimp only at hwrites ⊢
    split
    · exact hwrites
    · have hfree : (if r = 0 then w₁.freeCmd buf else w₁).handling = w₁.handling := by
        split
        · exact Update.apply_handling w₁ (.log (.freeCmd buf)) (by simp [handlingParts])
        · rfl
      generalize (if r = 0 then w₁.freeCmd buf else w₁) = w₂ at hfree ⊢
      split
      · exact hwrites.trans ((hfail _ _).trans hfree)
      · exact hwrites.trans hfree
  · exact .quiet ((hfail _ _).trans
      (Update.apply_handling w (.log (.freeCmd buf)) (by simp [handlingParts])))

theorem luaClientCommand_handling (w : World) (args : List LuaArg) (env : SendEnv) :
    (∃ argv timers, collect args = .ok argv timers ∧
      Writes w (w.sending.target (classify (argv.headD [])).subMode) (w.luaClientCommand args env)) ∨
      (w.luaClientCommand args env).handling = w.handling := by
  cases hcollect : collect args with
  | raise | fault =>
    exact .inr ((w.luaClientCommand_refused env (by simp [hcollect])).handling rfl)
  | ok argv timers =>
    refine .inl ⟨argv, timers, rfl, ?_⟩
    rw [luaClientCommand_eq hcollect]
    have hentered := w.entered_touches argv timers (callbackOf args) env.flags
    have hsending := hentered.sending rfl
    have hhandling := hentered.handling rfl
    have hwrites := sendCommand_handling (w.entered argv timers (callbackOf args) env.flags)
      (classify (argv.headD [])).subMode (redisFormatCommandArgv argv)
      (if (classify (argv.headD [])).pending then some w.heap.next else none) w.nextCmd env.error
    generalize w.entered argv timers (callbackOf args) env.flags = w₁ at *
    rw [hsending] at hwrites
    have hconn : w₁.cc.flags.connected = w.cc.flags.connected := congrArg Sending.connected hsending
    have hstreams : w₁.uv.streams = w.uv.streams := congrArg Sending.streams hsending
    cases hwrites with
    | quiet h => exact .quiet (h.trans hhandling)
    | refused frame hc ht hs h =>
      exact .refused frame (hconn ▸ hc) ht (hstreams ▸ hs) (hhandling ▸ h)
    | accepted frame hc ht hs hf hn h =>
      exact .accepted frame (hconn ▸ hc) ht (hstreams ▸ hs) hf hn (hhandling ▸ h)
    | dead frame hc ht hf h => exact .dead frame (hconn ▸ hc) ht (hstreams ▸ hf) (hhandling ▸ h)

/-! ## Connecting and disconnecting -/

theorem luaClientConnect_handling (w : World) :
    w.luaClientConnect.handling = w.handling ∨ w.luaClientConnect.handling = w.handling.connect := by
  unfold luaClientConnect
  split
  · exact .inl rfl
  · right
    have halloc : ∀ (w : World) h, (w.uvPipeConnect h).handling = w.handling.request .connect h := by
      intro w h
      have hreq : w.uv.reqAlloc.2.requests = w.uv.requests := by
        unfold Uv.reqAlloc
        split <;> rfl
      have hsame : { w with uv := w.uv.reqAlloc.2 }.handling = w.handling :=
        Update.apply_handling w .reqAlloc (by simp [handlingParts])
      rw [← hsame]
      simp [uvPipeConnect, handling, Handling.request, hreq]
    dsimp only
    rw [halloc, halloc, log_handling rfl]
    simp [handling, Handling.request, Handling.connect, Handling.note, newStream, Flags.none]

theorem setData_handling (w : World) (h : Handle) :
    (w.setData (some h)).handling = w.handling.change .data h ∧
        (w.setData (some h)).fault = w.fault ∨
      ¬w.handling.Open h ∧ (w.setData (some h)).fault.isSome := by
  unfold setData
  rcases w.onStream_cases h (fun h _ => { w with uv := w.uv.setStream h fun s =>
    { s with data := true } }) with ⟨s, hs, hfreed, heq⟩ | ⟨hdead, heq⟩
  · rw [heq]
    exact .inl ⟨rfl, rfl⟩
  · rw [heq]
    refine .inr ⟨fun ⟨t, ht, hopen, _⟩ => ?_, crash_isSome _ _⟩
    rw [hdead t ht] at hopen
    cases hopen

theorem setData_fault {w : World} (hfault : w.fault.isSome) (h : Option Handle) :
    (w.setData h).fault.isSome := by
  cases h with
  | none => exact crash_isSome _ _
  | some h =>
    rcases setData_handling w h with ⟨-, heq⟩ | ⟨-, hsome⟩
    · rwa [heq]
    · exact hsome

/-- The handles of a connection can be closed. -/
def BothOpen (v : Handling) : Prop :=
  ∃ s ss, v.stream = some s ∧ v.subStream = some ss ∧ s ≠ ss ∧ v.Open s ∧ v.Open ss

/-- `disconnect()` closes both handles; if it cannot, the program stops. -/
theorem luaClientDisconnect_handling (w : World) (hfault : w.fault = none) :
    (w.cc.flags.disconnecting = true ∧ w.luaClientDisconnect.handling = w.handling) ∨
      (∃ s ss, w.cc.stream = some s ∧ w.cc.subStream = some ss ∧ s ≠ ss ∧ w.handling.Open s ∧
        w.handling.Open ss ∧ w.luaClientDisconnect.handling = w.handling.disconnect s ss ∧
        w.luaClientDisconnect.fault = none) ∨
      (¬BothOpen w.handling ∧ w.luaClientDisconnect.fault.isSome) := by
  unfold luaClientDisconnect
  split
  next hdisc => exact .inl ⟨hdisc, rfl⟩
  · right
    dsimp only
    -- first the two `data` fields are set, if there are two handles
    have hdata : (∃ s ss, w.cc.stream = some s ∧ w.cc.subStream = some ss ∧
        ((w.setData w.cc.stream).setData w.cc.subStream).handling =
          (w.handling.change .data s).change .data ss ∧
        ((w.setData w.cc.stream).setData w.cc.subStream).fault = none) ∨
        (¬BothOpen w.handling ∧ ((w.setData w.cc.stream).setData w.cc.subStream).fault.isSome) := by
      cases hs : w.cc.stream with
      | none =>
        refine .inr ⟨fun ⟨s, ss, hs', _⟩ => ?_, setData_fault (crash_isSome _ _) _⟩
        cases hs.symm.trans hs'
      | some s =>
        cases hss : w.cc.subStream with
        | none =>
          refine .inr ⟨fun ⟨s, ss, _, hss', _⟩ => ?_, crash_isSome _ _⟩
          cases hss.symm.trans hss'
        | some ss =>
          rcases setData_handling w s with ⟨h₁, hf₁⟩ | ⟨hnot, hf₁⟩
          · rcases setData_handling (w.setData (some s)) ss with ⟨h₂, hf₂⟩ | ⟨hnot, hf₂⟩
            · exact .inl ⟨s, ss, rfl, rfl, h₂.trans (h₁ ▸ rfl), hf₂.trans (hf₁.trans hfault)⟩
            · refine .inr ⟨fun ⟨s', ss', hs', hss', _, hopen, hopen'⟩ => hnot ?_, hf₂⟩
              rw [h₁, Handling.open_data]
              exact Option.some.inj (hss'.symm.trans hss) ▸ hopen'
          · refine .inr ⟨fun ⟨s', ss', hs', _, _, hopen, _⟩ => hnot ?_, setData_fault hf₁ _⟩
            exact Option.some.inj (hs'.symm.trans hs) ▸ hopen
    generalize (w.setData w.cc.stream).setData w.cc.subStream = w₂ at hdata ⊢
    rcases hdata with ⟨s, ss, hs, hss, h₂, hf₂⟩ | ⟨hnot, hf₂⟩
    · have hs₂ : w₂.cc.stream = some s := (congrArg Handling.stream h₂).trans hs
      have hopen₂ : ∀ h, w₂.handling.Open h ↔ w.handling.Open h := fun h => by
        rw [h₂, Handling.open_data, Handling.open_data]
      rw [if_neg (by simp [hf₂]), hs₂]
      -- then both handles are closed, and the second may be the first again
      rcases w₂.uvClose_handling s with ⟨hopen, h₃, hf₃⟩ | ⟨hnot, hf₃, -⟩
      · have hss₃ : (w₂.uvClose (some s)).cc.subStream = some ss :=
          (congrArg Handling.subStream h₃).trans ((congrArg Handling.subStream h₂).trans hss)
        rw [if_neg (by simp [hf₃, hf₂]), hss₃]
        rcases (w₂.uvClose (some s)).uvClose_handling ss with ⟨hopen', h₄, hf₄⟩ | ⟨hnot, hf₄, -⟩
        · rw [h₃, Handling.open_close, hopen₂] at hopen'
          refine .inl ⟨s, ss, hs, hss, hopen'.1.symm, (hopen₂ s).mp hopen, hopen'.2, ?_,
            hf₄.trans (hf₃.trans hf₂)⟩
          rw [Handling.disconnect, ← h₂, ← h₃, ← h₄]
          rfl
        · refine .inr ⟨fun ⟨s', ss', hs', hss', hne, _, hopen'⟩ => hnot ?_, hf₄⟩
          obtain rfl := Option.some.inj (hs'.symm.trans hs)
          obtain rfl := Option.some.inj (hss'.symm.trans hss)
          rw [h₃, Handling.open_close, hopen₂]
          exact ⟨hne.symm, hopen'⟩
      · rw [if_pos hf₃]
        refine .inr ⟨fun ⟨s', _, hs', _, _, hopen, _⟩ => hnot ?_, hf₃⟩
        obtain rfl := Option.some.inj (hs'.symm.trans hs)
        exact (hopen₂ _).mpr hopen
    · rw [if_pos hf₂]
      exact .inr ⟨hnot, hf₂⟩

/-! ## Callbacks of libuv -/

/-- A failed connect request is reported, or the command stream closed. -/
inductive Refuses (w : World) (w' : World) : Prop
  | reported {n : Nat} : w.cc.rErrorCb = .ref n → w'.handling = w.handling → Refuses w w'
  | closes {h : Handle} : (∀ n, w.cc.rErrorCb ≠ .ref n) → w.cc.stream = some h → Closes w h w' →
      Refuses w w'
  | dead : w.cc.stream = none → w'.handling = w.handling → w'.fault.isSome → Refuses w w'

theorem onConnect_refused (w : World) (req : Request) {status : Int} (hstatus : status < 0) :
    Refuses w (w.connectCompleted req status) := by
  have hfree : (w.reqFree req.block).handling = w.handling :=
    Update.apply_handling w (.reqFree req.block) (by simp [handlingParts])
  simp only [connectCompleted, uvConnected, onConnect, hstatus, if_true]
  cases hcb : w.cc.rErrorCb with
  | ref n =>
    simp only [show (w.reqFree req.block).cc.rErrorCb = .ref n from hcb]
    exact .reported hcb (((pcall_touches _ .error _ _).handling rfl).trans hfree)
  | noref | refnil =>
    simp only [show (w.reqFree req.block).cc.rErrorCb = _ from hcb]
    cases hs : w.cc.stream with
    | none =>
      rw [show (w.reqFree req.block).cc.stream = none from hs]
      exact .dead hs hfree (crash_isSome _ _)
    | some h =>
      rw [show (w.reqFree req.block).cc.stream = some h from hs]
      refine .closes (fun n hn => by rw [hcb] at hn; cases hn) hs ?_
      cases uvClose_handling (w.reqFree req.block) h with
      | done hopen h₁ hf => exact .done (hfree ▸ hopen) (hfree ▸ h₁) hf
      | stops hnot hf h₁ => exact .stops (hfree ▸ hnot) hf (hfree ▸ h₁)

/-- The handler of a connection event is called, if there is one. -/
theorem callHandler_handling (w : World) {site : Site}
    (hsite : site = .connect ∨ site = .disconnect) (r : LuaRef) :
    (w.callHandler site r []).handling = w.handling ∨
      ∃ f, (w.callHandler site r []).handling = w.handling.note (.call site f []) := by
  cases r with
  | ref n =>
    simp only [callHandler]
    cases hslot : w.lua.slots n with
    | none => exact .inl rfl
    | some f =>
      refine .inr ⟨f, ?_⟩
      have hin : handled (.call site f []) = true := by rcases hsite with rfl | rfl <;> rfl
      have htrace : (w.trace ++ [Obs.call site f []]).filter handled =
          w.trace.filter handled ++ [.call site f []] := by simp [hin]
      simp only [pcall]
      exact congrArg (fun t => { w.handling with trace := t }) htrace
  | noref => exact .inl rfl
  | refnil => exact .inl rfl

/-- A stream is connected; the handler is called when both bits are set. -/
theorem onConnect_opened (w : World) (req : Request) {status : Int} (hstatus : ¬status < 0) :
    (w.connectCompleted req status).handling = w.handling.opened req.handle ∨
      ((Handling.up w.cc.streamFlags).stream && (Handling.up w.cc.streamFlags).subStream) = true ∧
        ∃ f, (w.connectCompleted req status).handling =
          (w.handling.opened req.handle).note (.call .connect f []) := by
  -- libuv's part
  have hconn : (w.uvConnected req.handle status).handling =
      (w.handling.change .connect req.handle).note (.connected req.handle) := by
    rw [uvConnected, if_neg hstatus]
    exact log_handling rfl
  have hsf : (w.uvConnected req.handle status).cc.streamFlags = w.cc.streamFlags :=
    congrArg Handling.streamFlags hconn
  have hflag : (w.uvConnected req.handle status).cc.flags.connected = w.cc.flags.connected :=
    congrArg Handling.connected hconn
  simp only [connectCompleted, onConnect, if_neg hstatus, Handling.opened]
  rw [← hconn]
  generalize w.uvConnected req.handle status = w₁ at hsf hflag ⊢
  simp only [reqFree, hsf]
  rw [show (if !w.cc.streamFlags.stream then { w.cc.streamFlags with stream := true }
    else if !w.cc.streamFlags.subStream then { w.cc.streamFlags with subStream := true }
    else w.cc.streamFlags) = Handling.up w.cc.streamFlags from rfl]
  cases hboth : (Handling.up w.cc.streamFlags).stream && (Handling.up w.cc.streamFlags).subStream with
  | false =>
    left
    simp [handling, hflag, hboth, Uv.reqFree]
  | true =>
    simp only [if_true, true_and]
    rcases callHandler_handling { w₁ with
      cc.streamFlags := Handling.up w.cc.streamFlags
      cc.flags.connected := true
      uv := w₁.uv.reqFree req.block } (.inl rfl) w₁.cc.rConnectCb with hsame | ⟨f, hcall⟩
    · left
      rw [hsame]
      simp [handling, hboth, Uv.reqFree]
    · right
      refine ⟨f, ?_⟩
      rw [hcall]
      simp [handling, hboth, Uv.reqFree]

/-- The close callback of a stream frees it, clears a bit and, with the last bit, tears the
    connection down. -/
inductive Disconnects (w : World) (h : Handle) (w' : World) : Prop
  /-- the stream does not know its client -/
  | dead : (∀ s, w.uv.streams h = some s → s.data = false) → w'.fault.isSome →
      w'.handling = w.handling.freed h → Disconnects w h w'
  | half {s : Stream} : w.uv.streams h = some s → s.data = true →
      ((Handling.down w.cc.streamFlags).stream || (Handling.down w.cc.streamFlags).subStream) = true →
      w'.handling = { w.handling.freed h with streamFlags := Handling.down w.cc.streamFlags } →
      Disconnects w h w'
  | last {s : Stream} : w.uv.streams h = some s → s.data = true →
      ((Handling.down w.cc.streamFlags).stream || (Handling.down w.cc.streamFlags).subStream) =
        false →
      (w'.handling = { w.handling.freed h with streamFlags := Handling.down w.cc.streamFlags } ∨
        ∃ f, w'.handling = { w.handling.freed h with
          streamFlags := Handling.down w.cc.streamFlags }.note (.call .disconnect f [])) →
      Disconnects w h w'

/-- The teardown calls the handler; it does not touch a handle. -/
theorem teardown_handling (w : World) :
    w.teardown.handling = w.handling ∨
      ∃ f, w.teardown.handling = w.handling.note (.call .disconnect f []) := by
  have hfreeing : { w with cc.flags.freeing := true }.handling = w.handling := rfl
  have hdestroy : ({ w with cc.flags.freeing := true }.destroyAll.log .teardown).handling =
      w.handling :=
    (Update.apply_handling _ (.log .teardown) (by simp [handlingParts])).trans
      (((destroyAll_touches _).handling rfl).trans hfreeing)
  rw [← hdestroy]
  exact callHandler_handling _ (.inr rfl) _

theorem onDisconnect_handling (w : World) (h : Handle) :
    Disconnects w h ((w.log (.closed h)).onDisconnect h) := by
  have hfreed : ((w.log (.closed h)).freeStream h).handling = w.handling.freed h := by
    have hclosed : (w.log (.closed h)).handling = w.handling.note (.closed h) := log_handling rfl
    rw [Handling.freed, ← hclosed]
    exact log_handling rfl
  have hsf : ((w.log (.closed h)).freeStream h).cc.streamFlags = w.cc.streamFlags := rfl
  unfold onDisconnect
  dsimp only
  split
  next hdata =>
    refine .dead (fun s hs => ?_) (crash_isSome _ _) hfreed
    rw [show (w.log (.closed h)).uv.streams h = some s from hs] at hdata
    simpa using hdata
  next hdata =>
    obtain ⟨s, hs, hknown⟩ : ∃ s, w.uv.streams h = some s ∧ s.data = true := by
      cases hs : w.uv.streams h with
      | none => rw [show (w.log (.closed h)).uv.streams h = none from hs] at hdata; simp at hdata
      | some s =>
        rw [show (w.log (.closed h)).uv.streams h = some s from hs] at hdata
        exact ⟨s, rfl, by simpa using hdata⟩
    rw [hsf, show (if w.cc.streamFlags.stream then { w.cc.streamFlags with stream := false }
      else if w.cc.streamFlags.subStream then { w.cc.streamFlags with subStream := false }
      else w.cc.streamFlags) = Handling.down w.cc.streamFlags from rfl]
    have hbits : { (w.log (.closed h)).freeStream h with
        cc.streamFlags := Handling.down w.cc.streamFlags }.handling =
        { w.handling.freed h with streamFlags := Handling.down w.cc.streamFlags } :=
      congrArg (fun v => { v with streamFlags := Handling.down w.cc.streamFlags }) hfreed
    split
    next hlast =>
      refine .last hs hknown (by simpa using hlast) ?_
      rw [← hbits]
      exact teardown_handling _
    next hhalf =>
      refine .half hs hknown ?_ hbits
      cases h₁ : (Handling.down w.cc.streamFlags).stream <;>
        cases h₂ : (Handling.down w.cc.streamFlags).subStream <;> simp_all

/-- The write callback of a stream points it to the client; then the stream is read. -/
theorem onWrite_handling (w : World) (req : Request) (status readStart : Int) :
    (w.onWrite req status readStart).handling = w.handling.change .data req.handle ∨
      0 ≤ readStart ∧ (w.onWrite req status readStart).handling =
        (w.handling.change .data req.handle).change .readStart req.handle := by
  have hshift : ∀ (w : World) error,
      (w.shiftAndReport .writeError error id).handling = w.handling := fun w error =>
    (w.shiftAndReport_touches .writeError error id
      (List.Subset.refl (shiftParts .writeError)) fun _ => .refl).handling rfl
  unfold onWrite
  dsimp only
  split
  · exact .inl (hshift _ _)
  · split
    · exact .inl (hshift _ _)
    next hread => exact .inr ⟨by omega, rfl⟩

/-- A chunk may stop the reading of the stream. -/
theorem onRead_handling (w : World) (h : Handle) (data : Bytes) (cb : LuaRef) :
    (w.onRead h data cb).handling = w.handling ∨
      (w.onRead h data cb).handling = w.handling.change .readStop h := by
  unfold onRead
  dsimp only
  split
  · exact .inl rfl
  · split
    · split
      · exact .inr rfl
      · exact .inl rfl
    · left
      have hfed : ({ w with bufs := w.bufs.alloc.2 }.log
          (.fed (decide (w.cc.subStream = some h)) data)).handling = w.handling :=
        Update.apply_handling { w with bufs := w.bufs.alloc.2 } (.log _) (by simp [handlingParts])
      split
      · have herror := (Update.apply_handling _ (.log (.feedError
          (decide (w.cc.subStream = some h)) w.cc.reader.errstr)) (by simp [handlingParts])).trans hfed
        split
        · exact ((pcall_touches _ .error _ _).handling rfl).trans herror
        · exact herror
      · exact hfed

theorem readLoop_handling (w : World) (h : Handle) (subMode : Bool) (cb : LuaRef) :
    (w.readLoop h subMode cb).handling = w.handling ∨
      (w.readLoop h subMode cb).handling = w.handling.change .readStop h := by
  unfold readLoop
  split
  · exact .inl rfl
  generalize redisReaderGetReply w.cc.reader = result
  obtain ⟨reader, status, reply⟩ := result
  cases status with
  | err => exact .inl ((readerFailed_touches _).handling rfl)
  | ok =>
    cases reply with
    | none =>
      dsimp only
      split
      · exact .inl rfl
      · have hlist : (if w.cc.flags.monitoring then
              { w with cc.reader := reader, cc.commandCbList := w.cc.commandCbList ++ [CbPtr.stack] }
            else { w with cc.reader := reader }).handling = w.handling := by
          split <;> rfl
        generalize (if w.cc.flags.monitoring then _ else _) = w₁ at hlist ⊢
        split
        · exact .inr (congrArg (Handling.change · .readStop h) hlist)
        · exact .inl hlist
    | some reply =>
      have hlog : ({ w with cc.reader := reader }.log (.reply subMode reply)).handling =
          w.handling :=
        Update.apply_handling { w with cc.reader := reader } (.log _) (by simp [handlingParts])
      left
      dsimp only
      split
      · split
        · exact hlog
        · exact ((getAndCallSubCb_touches _ _).handling rfl).trans hlog
      · exact ((dispatchReply_touches _ _ _ _).handling rfl).trans hlog

/-- A stream that cannot be read any more is closed, at once or after the error handler. -/
inductive Hangs (w : World) (h : Handle) (w' : World) : Prop
  | quiet : w'.handling = w.handling → Hangs w h w'
  | closes : Closes w h w' → Hangs w h w'
  | waits : w'.handling = { w.handling with closing := h :: w.handling.closing } → Hangs w h w'

theorem onReadError_handling (w : World) (h : Handle) (nread : Int) :
    Hangs w h (w.onReadError h nread) := by
  unfold onReadError
  split
  · exact .quiet rfl
  · dsimp only
    split
    · refine .waits ?_
      exact (pcall_touches _ .error _ _).handling rfl
    · have hbufs : { w with bufs := w.bufs.alloc.2 }.handling = w.handling := rfl
      refine .closes ?_
      cases uvClose_handling { w with bufs := w.bufs.alloc.2 } h with
      | done hopen h₁ hf => exact .done hopen h₁ hf
      | stops hnot hf h₁ => exact .stops hnot hf h₁

end World

/-! ## Steps -/

/-- What a step does to the handles. -/
inductive HandlingStep (w : World) : Event → World → Prop
  | quiet (e : Event) {w' : World} : w'.handling = w.handling → HandlingStep w e w'
  | exit {w' : World} : HandlingStep w (.api .exit) w'
  | connect {w' : World} : w'.handling = w.handling.connect → HandlingStep w (.api .connect) w'
  | command {args : List LuaArg} {env : SendEnv} {argv timers : List Bytes} {w' : World} :
      collect args = .ok argv timers →
      World.Writes w (w.sending.target (classify (argv.headD [])).subMode) w' →
      HandlingStep w (.api (.command args env)) w'
  | disconnect {s ss : Handle} {w' : World} : w.cc.stream = some s → w.cc.subStream = some ss →
      s ≠ ss → w.handling.Open s → w.handling.Open ss → w'.handling = w.handling.disconnect s ss →
      HandlingStep w (.api .disconnect) w'
  | stuck {w' : World} : w.cc.flags.disconnecting = false → ¬World.BothOpen w.handling →
      w'.fault.isSome → HandlingStep w (.api .disconnect) w'
  /-- a frame of `on_read` closes its stream -/
  | resume {h : Handle} {rest : List Frame} {w' : World} : w.stack = .closeStream h :: rest →
      World.Closes { w with stack := rest } h w' → HandlingStep w .resume w'
  | readStop (e : Event) {h : Handle} {w' : World} : w'.handling = w.handling.change .readStop h →
      HandlingStep w e w'
  | readError {h : Handle} {nread : Int} {s : Stream} {w' : World} : w.stack = [] →
      w.uv.streams h = some s → s.reading = true → s.closing = false → World.Hangs w h w' →
      HandlingStep w (.readError h nread) w'
  | written {i : Nat} {req : Request} {status readStart : Int} {w' : World} :
      w.uv.requests[i]? = some req → req.kind = .write →
      (w'.handling = (w.handling.finish i).change .data req.handle ∨
        (∀ s, w.uv.streams req.handle = some s → s.closing = false) ∧
          w'.handling = ((w.handling.finish i).change .data req.handle).change .readStart
            req.handle) →
      HandlingStep w (.written i status readStart) w'
  | refused {i : Nat} {req : Request} {status : Int} {w' : World} :
      w.uv.requests[i]? = some req → req.kind = .connect → status < 0 →
      World.Refuses (w.finish i) w' → HandlingStep w (.connected i status) w'
  | opened {i : Nat} {req : Request} {status : Int} {s : Stream} {w' : World} :
      w.uv.requests[i]? = some req → req.kind = .connect → w.uv.streams req.handle = some s →
      s.closing = false →
      (w'.handling = (w.handling.finish i).opened req.handle ∨
        ((Handling.up w.cc.streamFlags).stream && (Handling.up w.cc.streamFlags).subStream) = true ∧
          ∃ f, w'.handling = ((w.handling.finish i).opened req.handle).note (.call .connect f [])) →
      HandlingStep w (.connected i status) w'
  | closed {h : Handle} {s : Stream} {w' : World} : w.uv.streams h = some s → s.closing = true →
      s.freed = false → (∀ r ∈ w.handling.requests, r.2 ≠ h) → World.Disconnects w h w' →
      HandlingStep w (.closed h) w'

theorem finish_handling (w : World) (i : Nat) : (w.finish i).handling = w.handling.finish i := by
  simp [World.finish, World.handling, Handling.finish, List.eraseIdx_eq_take_drop_succ,
    List.map_take, List.map_drop]

theorem step_handling {w w' : World} {e : Event} (hstep : w.step e = some w') :
    HandlingStep w e w' := by
  have htouches := step_touches hstep
  obtain ⟨hfault, hs⟩ := step_cases hstep
  cases hs with
  | api c _ =>
    cases c with
    | on event fn => exact .quiet _ (htouches.handling rfl)
    | connect =>
      rcases w.luaClientConnect_handling with h | h
      · exact .quiet _ h
      · exact .connect h
    | command args env =>
      rcases w.luaClientCommand_handling args env with ⟨argv, timers, hcollect, h⟩ | h
      · exact .command hcollect h
      · exact .quiet _ h
    | disconnect =>
      rcases w.luaClientDisconnect_handling hfault with
        ⟨-, h⟩ | ⟨s, ss, hs, hss, hne, hopen, hopen', h, -⟩ | ⟨hnot, h⟩
      · exact .quiet _ h
      · exact .disconnect hs hss hne hopen hopen' h
      · cases hdisc : w.cc.flags.disconnecting with
        | true =>
          have heq : w.luaClientDisconnect = w := by
            unfold World.luaClientDisconnect
            rw [if_pos hdisc]
          exact .quiet _ (congrArg World.handling heq)
        | false => exact .stuck hdisc hnot h
    | exit => exact .exit
  | @ret site top rest ok hstack =>
    have hpop : rest.filterMap Frame.closing? = w.stack.filterMap Frame.closing? := by
      rw [hstack]
      rfl
    exact .quiet _ (congrArg (fun l => { w.handling with closing := l }) hpop)
  | @resume f rest hstack hlua =>
    have hpop : f.closing? = none → { w with stack := rest }.handling = w.handling := by
      intro hf
      simp [World.handling, hstack, hf]
    cases f with
    | lua site top => exact absurd rfl hlua
    | readLoop h subMode cb =>
      rcases World.readLoop_handling { w with stack := rest } h subMode cb with heq | heq
      · exact .quiet _ (heq.trans (hpop rfl))
      · exact .readStop _ (heq.trans (congrArg (Handling.change · .readStop h) (hpop rfl)))
    | closeStream h => exact .resume hstack (World.uvClose_handling _ h)
    | bufFree buf => exact .quiet _ (hpop rfl)
    | event pvariant leaf i reply =>
      exact .quiet _ (((World.eventLoop_touches _ _ _ _ _).handling rfl).trans (hpop rfl))
    | timer leaf i rep timeout =>
      exact .quiet _ (((World.timerLoop_touches _ _ _ _ _).handling rfl).trans (hpop rfl))
  | read h data cb _ _ =>
    rcases w.onRead_handling h data cb with heq | heq
    · exact .quiet _ heq
    · exact .readStop _ heq
  | readError h nread hstack hread _ =>
    unfold World.readable? at hread
    split at hread
    next s hs =>
      simp only [Bool.and_eq_true, Bool.not_eq_true'] at hread
      exact .readError hstack hs hread.1 hread.2 (w.onReadError_handling h nread)
    · cases hread
  | @written i req status readStart _ hreq hkind _ hclosing =>
    refine .written hreq hkind ?_
    rw [← finish_handling]
    refine (World.onWrite_handling (w.finish i) req status readStart).imp_right ?_
    rintro ⟨hread, heq⟩
    refine ⟨fun s hs => ?_, heq⟩
    rw [hs] at hclosing
    -- libuv completes the writes of a handle that is closing with an error
    by_contra hc
    exact absurd (hclosing (by simpa using hc)) (by omega)
  | @connected i req status _ hreq hkind _ hclosing =>
    by_cases hstatus : status < 0
    · exact .refused hreq hkind hstatus ((w.finish i).onConnect_refused req hstatus)
    · have hopened := (w.finish i).onConnect_opened req hstatus
      rw [finish_handling] at hopened
      cases hs : w.uv.streams req.handle with
      | none => rw [hs] at hclosing; exact absurd (hclosing rfl) hstatus
      | some s =>
        rw [hs] at hclosing
        refine .opened hreq hkind hs ?_ hopened
        by_contra hc
        exact absurd (hclosing (by simpa using hc)) hstatus
  | @closed h s _ hs hclosing hfreed hreqs =>
    refine .closed hs hclosing hfreed (fun r hr => ?_) (w.onDisconnect_handling h)
    obtain ⟨req, hreq, rfl⟩ := List.mem_map.mp hr
    exact hreqs req hreq
  | tick _ _ _ _ =>
    refine .quiet _ (((World.onTimer_touches _ _ _).handling rfl).trans ?_)
    rfl

end CrazySnail
