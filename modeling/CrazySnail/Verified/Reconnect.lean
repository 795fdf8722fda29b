import CrazySnail.Verified.Reading
import CrazySnail.Verified.References
import CrazySnail.Verified.RequestBlocks
import CrazySnail.Verified.SameReading

/-! # Reconnection

`on_disconnect` empties the trees and the list, `connect()` makes new handles and clears the
flags, but nobody replaces the reader.  Where the old connection ended between two replies, the
client goes on as a client does that has just been created in its place (`reconnect`); otherwise
the new connection inherits a part of a reply or an error (`reconnect_fails`).
-/

namespace CrazySnail

open World
open Decoder (Ending)
open Transition (RunsUnder runChecked runsUnder_of_checked)

/-! ## The end of a connection -/

/-- The reader holds nothing: no error, no unfinished reply, no unread byte. -/
def Clean (r : RedisReader) : Prop := r.err = 0 ∧ r.tasks = idle ∧ r.unread = []

namespace World

/-- Both streams are down, and libuv has nothing left of them: every handle was closed, every
    request completed, and no timer runs. -/
structure Disconnected (w : World) : Prop where
  fault : w.fault = none
  alive : w.cc.exited = false
  down : w.cc.streamFlags = .none
  handles : ∀ h < w.uv.nextHandle, (w.uv.streams h).all Stream.freed = true
  requests : w.uv.requests = []
  timers : ∀ b < w.uv.nextBlock, (w.uv.timers b).all (!·.active) = true

/-- The client is one that has just been created, with the same option and the same handlers. -/
def renewed (w : World) : World :=
  { w with cc := { (World.new w.cc.ignoreSubCmdReply).cc with
    rConnectCb := w.cc.rConnectCb, rErrorCb := w.cc.rErrorCb, rDisconnectCb := w.cc.rDisconnectCb } }

/-- Nothing of a connection is left in the client, but for the reader, the flags and the
    addresses of the handles. -/
structure Emptied (w : World) : Prop where
  alive : w.cc.exited = false
  down : w.cc.streamFlags = .none
  list : w.cc.commandCbList = []
  channels : w.cc.channels = .null
  patterns : w.cc.patterns = .null
  timers : w.cc.timers = .null

theorem teardown_cc {w : World} (h : w.Counts) : w.teardown.cc =
    { w.cc with
      channels := .null, patterns := .null, timers := .null, commandCbList := []
      flags.freeing := true } := by
  have hraised : (Update.apply w (.raise .freeing)).Counts := h.update _ (.raise .freeing) (by simp)
  rw [teardown_eq]
  refine ((callHandler_touches _ _ _ _).eq (f := World.cc) fun w u hu => ?_).trans ?_
  · cases u <;> simp at hu <;> rfl
  · exact (destroyAll_spec hraised).2

/-- The last close callback empties the client. -/
theorem closed_emptied {w w₀ : World} {h : Handle} (hcounts : w.Counts)
    (hstep : w.step (.closed h) = some w₀) (hdown : w₀.Disconnected) : w₀.Emptied := by
  obtain ⟨-, hs⟩ := step_cases hstep
  have halive := hdown.alive
  have hflags := hdown.down
  have hfault := hdown.fault
  cases hs with
  | closed hstack _ _ _ _ =>
    have hfree : ((w.log (.closed h)).freeStream h).Counts :=
      hcounts.keep (.of [.log (.closed h), .stream .free h, .log (.freed h)] rfl rfl :
        Touches [.obs .closed, .stream .free, .obs .freed] w _) rfl
    rw [onDisconnect_eq] at halive hflags hfault ⊢
    split at hfault
    · exact absurd hfault (Option.isSome_iff_ne_none.mp (crash_isSome _ _))
    next hdata =>
      rw [if_neg hdata] at halive hflags ⊢
      split at hfault
      next hboth =>
        rw [if_pos hboth] at halive hflags ⊢
        have hcc := teardown_cc (hfree.update _ (.streamFlags (Handling.down w.cc.streamFlags))
          (by simp))
        rw [hcc] at halive hflags
        exact ⟨hcc ▸ halive, hcc ▸ hflags, by rw [hcc], by rw [hcc], by rw [hcc], by rw [hcc]⟩
      next hboth =>
        -- a stream is still up
        rw [if_neg hboth] at hflags
        change Handling.down w.cc.streamFlags = .none at hflags
        rw [hflags] at hboth
        exact absurd rfl hboth

/-! ## Until the next connection -/

/-- The two clients do the same until `connect()`: the functions that run return, and handlers
    are registered. -/
def Between : Event → Prop
  | .ret _ => True
  | .api (.on _ _) => True
  | _ => False

theorem Emptied.keep {w w' : World} (h : w.Emptied) {r₁ r₂ r₃ : LuaRef}
    (hcc : w'.cc = { w.cc with rConnectCb := r₁, rErrorCb := r₂, rDisconnectCb := r₃ }) :
    w'.Emptied := by
  obtain ⟨halive, hdown, hlist, hchannels, hpatterns, htimers⟩ := h
  constructor <;> rw [hcc] <;> assumption

theorem luaClientOn_cc (w : World) (event : Bytes) (fn : Fn) : ∃ r₁ r₂ r₃,
    (w.luaClientOn event fn).cc =
      { w.cc with rConnectCb := r₁, rErrorCb := r₂, rDisconnectCb := r₃ } := by
  unfold luaClientOn
  dsimp only
  split
  · exact ⟨_, _, _, rfl⟩
  split
  · exact ⟨_, _, _, rfl⟩
  split <;> exact ⟨_, _, _, rfl⟩

theorem renewed_on (w : World) (event : Bytes) (fn : Fn) :
    w.renewed.luaClientOn event fn = (w.luaClientOn event fn).renewed := by
  unfold luaClientOn renewed
  dsimp only
  split
  · rfl
  split
  · rfl
  split <;> rfl

/-- A client that has just been created takes the same step. -/
theorem between_renewed {w : World} {e : Event} (he : Between e) :
    w.renewed.step e = (w.step e).map renewed := by
  unfold step
  rw [show w.renewed.fault = w.fault from rfl]
  by_cases hfault : w.fault.isSome = true
  · rw [if_pos hfault, if_pos hfault]; rfl
  rw [if_neg hfault, if_neg hfault]
  cases e with
  | ret ok =>
    dsimp only
    rw [show w.renewed.stack = w.stack from rfl]
    cases w.stack with
    | nil => rfl
    | cons f rest => cases f <;> rfl
  | api c =>
    cases c with
    | on event fn =>
      dsimp only [api]
      rw [show w.renewed.luaRuns = w.luaRuns from rfl, renewed_on]
      cases w.luaRuns <;> rfl
    | connect | command | disconnect | exit => exact he.elim
  | resume | read | readError | written | connected | closed | tick => exact he.elim

/-- And nothing comes into the client by it. -/
theorem between_cc {w w' : World} {e : Event} (he : Between e) (hstep : w.step e = some w') :
    ∃ r₁ r₂ r₃, w'.cc = { w.cc with rConnectCb := r₁, rErrorCb := r₂, rDisconnectCb := r₃ } := by
  obtain ⟨-, hs⟩ := step_cases hstep
  cases hs with
  | ret ok hstack => exact ⟨_, _, _, rfl⟩
  | api c _ =>
    cases c with
    | on event fn => exact w.luaClientOn_cc event fn
    | connect | command | disconnect | exit => exact he.elim
  | resume | read | readError | written | connected | closed | tick => exact he.elim

/-- `connect()` makes an emptied client and one just created the same, but for the reader. -/
theorem connect_renewed {w : World} (h : w.Emptied) :
    w.renewed.luaClientConnect = w.luaClientConnect.reads .create := by
  have hcc : w.renewed.cc = { w.cc with
      stream := none, subStream := none, flags := .none, reader := .create } := by
    obtain ⟨halive, hdown, hlist, hchannels, hpatterns, htimers⟩ := h
    simp only [renewed, World.new, halive, hdown, hlist, hchannels, hpatterns, htimers]
  have halive : w.renewed.cc.exited = false := rfl
  unfold luaClientConnect
  rw [h.alive, halive]
  simp only [renewed] at hcc ⊢
  rw [hcc]
  rfl

end World

/-! ## The new connection -/

/-- A reader that holds nothing reads as a new one. -/
theorem Clean.same {r : RedisReader} (h : Clean r) (hv : r.Valid) : SameReading r .create :=
  .of_ok h.1 rfl hv RedisReader.create_valid h.2.1.symm h.2.2.symm

/-- In a reachable state, a reader without an error is in order. -/
theorem valid_of_emptied {w w₀ : World} {h : Handle} (hreach : Reachable w)
    (hstep : w.step (.closed h) = some w₀) (herr : w₀.cc.reader.err = 0) : w₀.cc.reader.Valid := by
  obtain ⟨ignore, es, hrun⟩ := hreach
  obtain ⟨pending, e, -, hdrains⟩ := run_reading hrun (reading_new ignore)
  obtain ⟨hfault, hs⟩ := step_cases hstep
  cases hs with
  | closed hstack _ _ _ _ =>
    have hsame := (((w.log (.closed h)).onDisconnect_touches h).reading rfl).trans
      (Update.apply_reading w (.log _) (by simp [readingParts]))
    have hreader : ((w.log (.closed h)).onDisconnect h).cc.reader = w.cc.reader :=
      congrArg Reading.reader hsame
    have hat := hdrains (by simp [hfault])
    rw [World.reading, hstack] at hat
    rw [hreader] at herr ⊢
    cases e with
    | blocked stack rest => exact hat.2.2.1
    | failed message => exact absurd herr hat.2.1

/-- What can be seen of a run: its trace, with every call, and whether the program stops. -/
def seen (w : World) : List Obs × Option Fault := (w.trace, w.fault)

/-- After `w₀`, the events `es` do what they do with a client that has just been created in its
    place, and the records of all commands refer to the functions that these were given. -/
structure FreshStart (w₀ : World) (es : List Event) : Prop where
  same : (runs w₀ es).map seen = (runs w₀.renewed es).map seen
  given : ∀ w, RunsUnder World.step Expected w₀ es w → w.fault = none →
    ∀ id, w.heap.cb id ≠ none → w.fnOf (.heap id) = givenTo w.trace id

/-- Emptied clients that connect go on as new ones do. -/
theorem runs_renewed {w : World} {es₁ : List Event} (hempty : w.Emptied)
    (hsame : SameReading w.cc.reader .create) (hbetween : ∀ e ∈ es₁, Between e) (es₂ : List Event) :
    Option.Rel SameBut (runs w (es₁ ++ .api .connect :: es₂))
      (runs w.renewed (es₁ ++ .api .connect :: es₂)) := by
  induction es₁ generalizing w with
  | nil =>
    rw [List.nil_append, runs, runs, Transition.run_cons, Transition.run_cons]
    -- `connect` makes the two clients the same but for the reader
    have hconnect : Option.Rel SameBut (w.step (.api .connect)) (w.renewed.step (.api .connect)) := by
      unfold World.step
      rw [show w.renewed.fault = w.fault from rfl]
      split
      · exact .none
      · dsimp only [World.api]
        rw [show w.renewed.luaRuns = w.luaRuns from rfl]
        split
        · refine .some ⟨.create, ?_, connect_renewed hempty⟩
          have hreader : w.luaClientConnect.cc.reader = w.cc.reader := by
            unfold luaClientConnect
            rw [hempty.alive]
            rfl
          rw [hreader]
          exact hsame
        · exact .none
    cases hw : w.step (.api .connect) with
    | none =>
      cases hv : w.renewed.step (.api .connect) with
      | none => exact .none
      | some v => rw [hw, hv] at hconnect; cases hconnect
    | some w' =>
      cases hv : w.renewed.step (.api .connect) with
      | none => rw [hw, hv] at hconnect; cases hconnect
      | some v =>
        rw [hw, hv] at hconnect
        cases hconnect with
        | some h => exact run_same h es₂
  | cons e es₁ ih =>
    have he := hbetween e List.mem_cons_self
    rw [List.cons_append, runs, runs, Transition.run_cons, Transition.run_cons, between_renewed he]
    cases hstep : w.step e with
    | none => exact .none
    | some w' =>
      obtain ⟨r₁, r₂, r₃, hcc⟩ := between_cc he hstep
      have hreader : w'.cc.reader = w.cc.reader := by rw [hcc]
      exact ih (hempty.keep hcc) (hreader ▸ hsame) fun e he =>
        hbetween e (List.mem_cons_of_mem _ he)

/-- **Reconnection.**  Let a history of a client end with the close callback that disconnects it,
    and the reader be clean then.  Whatever follows the next `connect()`, the client calls what a
    new client calls under the same events, with the functions that its commands were given. -/
theorem reconnect {ignore : Bool} {es es₁ es₂ : List Event} {h : Handle} {w₀ : World}
    (hhistory : RunsUnder World.step Expected (World.new ignore) (es ++ [.closed h]) w₀)
    (hdown : w₀.Disconnected) (hclean : Clean w₀.cc.reader) (hbetween : ∀ e ∈ es₁, Between e) :
    FreshStart w₀ (es₁ ++ .api .connect :: es₂) := by
  have hrun := hhistory.run_eq
  rw [Transition.run_append, Option.bind_eq_some_iff] at hrun
  obtain ⟨w₁, hrun₁, hclosed⟩ := hrun
  have hstep : w₁.step (.closed h) = some w₀ := by simpa [Transition.run] using hclosed
  have hreach : Reachable w₁ := ⟨ignore, es, hrun₁⟩
  constructor
  · have hempty := closed_emptied (reachable_counts hreach) hstep hdown
    have hsame := hclean.same (valid_of_emptied hreach hstep hclean.1)
    have hrel := runs_renewed hempty hsame hbetween es₂
    generalize runs w₀ _ = o at hrel ⊢
    generalize runs w₀.renewed _ = o' at hrel ⊢
    cases hrel with
    | none => rfl
    | some hrel => exact congrArg some (Prod.ext hrel.trace.symm hrel.fault.symm)
  · intro w hafter hfault id hid
    obtain ⟨c, hc⟩ := Option.ne_none_iff_exists'.mp hid
    exact (run_accounted (hhistory.append hafter) hfault).fnOf hc

/-- Connect, ping and get a part of the answer on the command stream. -/
def half : List Event :=
  [.api .connect, .connected 0 0, .connected 0 0,
   .api (.command [.string (ascii "ping"), .function 1] ⟨0, false⟩), .written 0 0 0,
   .read 0 (ascii "+PO") .noref, .resume]

/-- The rest of the answer. -/
def otherHalf : List Event := [.read 0 (ascii "NG\r\n") .noref, .resume, .ret true, .resume]

/-- `disconnect()` and the two close callbacks. -/
def hangUp : List Event := [.api .disconnect, .closed 0, .closed 1]

/-- Connect again, ping and get the answer. -/
def again : List Event :=
  [.api .connect, .connected 0 0, .connected 0 0,
   .api (.command [.string (ascii "ping"), .function 2] ⟨0, false⟩), .written 0 0 0,
   .read 2 (ascii "+PONG\r\n") .noref, .resume, .ret true, .resume]

/-- The replies that were delivered, by function. -/
def heard (trace : List Obs) : List (Fn × Bytes) :=
  (calls trace).filterMap fun
    | (.reply, fn, [_, .string s]) => some (fn, s)
    | _ => none

/-- The test of `Disconnected`. -/
def disconnectedCheck (w : World) : Bool :=
  w.fault.isNone && !w.cc.exited && decide (w.cc.streamFlags = .none) &&
    (List.range w.uv.nextHandle).all (fun h => (w.uv.streams h).all Stream.freed) &&
    w.uv.requests.isEmpty && (List.range w.uv.nextBlock).all fun b => (w.uv.timers b).all (!·.active)

theorem disconnected_of_check {w : World} (h : disconnectedCheck w = true) : w.Disconnected := by
  simp only [disconnectedCheck, Bool.and_eq_true, List.all_eq_true, List.mem_range,
    decide_eq_true_eq, List.isEmpty_iff, Option.isNone_iff_eq_none, Bool.not_eq_true'] at h
  obtain ⟨⟨⟨⟨⟨hfault, halive⟩, hdown⟩, hhandles⟩, hrequests⟩, htimers⟩ := h
  exact ⟨hfault, halive, hdown, hhandles, hrequests, htimers⟩

/-- The test of `Clean`, where the reader has looked for more. -/
def holdsNothing (r : RedisReader) : Bool :=
  decide (r.err = 0) && decide (r.unread = []) &&
    match r.rstack with
    | [⟨none, -1, -1, []⟩] => true
    | _ => false

theorem clean_of_holdsNothing {r : RedisReader} (h : holdsNothing r = true) : Clean r := by
  simp only [holdsNothing, Bool.and_eq_true, decide_eq_true_eq] at h
  obtain ⟨⟨herr, hunread⟩, hstack⟩ := h
  refine ⟨herr, ?_, hunread⟩
  unfold RedisReader.tasks
  split at hstack
  next heq => rw [heq]; rfl
  next => cases hstack

theorem reconnect_between_replies :
    ∃ w₀, runs (World.new true) (half ++ otherHalf ++ hangUp) = some w₀ ∧ FreshStart w₀ again ∧
      (runs w₀ again).map (fun w => heard w.trace) = some [(1, ascii "PONG"), (2, ascii "PONG")] := by
  have hrun : (runChecked World.step expectedCheck (World.new true)
      (half ++ otherHalf ++ [.api .disconnect, .closed 0] ++ [.closed 1])).map
        (fun w => disconnectedCheck w && holdsNothing w.cc.reader) = some true := by decide +kernel
  have hheard : ((runs (World.new true) (half ++ otherHalf ++ hangUp)).bind (runs · again)).map
      (fun w => heard w.trace) = some [(1, ascii "PONG"), (2, ascii "PONG")] := by decide +kernel
  obtain ⟨w₀, hw₀, hend⟩ := Option.map_eq_some_iff.mp hrun
  obtain ⟨hdown, hclean⟩ := Bool.and_eq_true_iff.mp hend
  have hhistory := runsUnder_of_checked (C := Expected) (fun _ _ _ h _ => expected_of_check h) hw₀
  have hsplit : half ++ otherHalf ++ [.api .disconnect, .closed 0] ++ [.closed 1] =
      half ++ otherHalf ++ hangUp := rfl
  have hw : runs (World.new true) (half ++ otherHalf ++ hangUp) = some w₀ := by
    rw [← hsplit]
    exact hhistory.run_eq
  rw [hw, Option.bind_some] at hheard
  have hfresh : FreshStart w₀ ([] ++ .api .connect :: again.tail) :=
    reconnect hhistory (disconnected_of_check hdown)
    (clean_of_holdsNothing hclean) fun _ h => absurd h List.not_mem_nil
  exact ⟨w₀, hw, hfresh, hheard⟩

/-- Without the condition a reply can begin on one connection and end on the next. -/
theorem reconnect_fails :
    ∃ w₀, RunsUnder World.step Expected (World.new true) (half ++ hangUp) w₀ ∧ w₀.Disconnected ∧
      (runs w₀ again).map (fun w => heard w.trace) = some [(2, ascii "PO+PONG")] ∧
      (runs w₀.renewed again).map (fun w => heard w.trace) = some [(2, ascii "PONG")] ∧
      ¬FreshStart w₀ again := by
  have hrun : (runChecked World.step expectedCheck (World.new true) (half ++ hangUp)).map
      disconnectedCheck = some true := by decide +kernel
  have hold : ((runs (World.new true) (half ++ hangUp)).bind (runs · again)).map
      (fun w => heard w.trace) = some [(2, ascii "PO+PONG")] := by decide +kernel
  have hnew : ((runs (World.new true) (half ++ hangUp)).bind (runs ·.renewed again)).map
      (fun w => heard w.trace) = some [(2, ascii "PONG")] := by decide +kernel
  obtain ⟨w₀, hw₀, hdown⟩ := Option.map_eq_some_iff.mp hrun
  have hhistory := runsUnder_of_checked (C := Expected) (fun _ _ _ h _ => expected_of_check h) hw₀
  have hw : runs (World.new true) (half ++ hangUp) = some w₀ := hhistory.run_eq
  rw [hw, Option.bind_some] at hold hnew
  refine ⟨w₀, hhistory, disconnected_of_check hdown, hold, hnew, fun h => ?_⟩
  -- what is heard can be seen
  have hheard : (runs w₀ again).map (fun w => heard w.trace) =
      (runs w₀.renewed again).map fun w => heard w.trace := by
    have hsame := congrArg (Option.map fun s : List Obs × Option Fault => heard s.1) h.same
    rw [Option.map_map, Option.map_map] at hsame
    exact hsame
  rw [hold, hnew] at hheard
  simp [ascii] at hheard

end CrazySnail
