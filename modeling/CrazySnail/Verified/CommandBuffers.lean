import CrazySnail.Verified.Sending

/-! # The buffers of commands

`redisFormatCommandArgv` allocates a buffer for every command, and libuv reads it until the
write is completed.  `BuffersLive` says that a buffer is freed once, and not while its write
is in flight.  A command frees its buffer as soon as `uv_write` has taken it, and never if
`uv_write` fails, so this holds as long as no command finds the client connected, and no
longer (`buffersLive_iff`).
-/

namespace CrazySnail

open Transition World

/-! ## Buffers -/

/-- What the trace and the requests say about the buffers. -/
structure CmdBuffers where
  allocated : List Nat
  freed : List Nat
  /-- the buffers of the writes in flight -/
  writes : List Nat
  next : Nat

/-- The buffer of a write. -/
def Request.written? (r : Request) : Option Nat :=
  match r.kind with
  | .write => some r.buf
  | .connect => none

namespace Obs

def allocated? : Obs → Option Nat
  | .mallocCmd buf => some buf
  | _ => none

def freed? : Obs → Option Nat
  | .freeCmd buf => some buf
  | _ => none

end Obs

def World.cmdBuffers (w : World) : CmdBuffers where
  allocated := w.trace.filterMap Obs.allocated?
  freed := w.trace.filterMap Obs.freed?
  writes := w.uv.requests.filterMap Request.written?
  next := w.nextCmd

/-- Each buffer is freed once, and not while libuv may read it; a buffer whose write is not in
    flight has been freed. -/
structure BuffersLive (w : World) : Prop where
  once : w.cmdBuffers.freed.Nodup
  inFlight : ∀ b ∈ w.cmdBuffers.writes, b ∈ w.cmdBuffers.allocated ∧ b ∉ w.cmdBuffers.freed
  settled : ∀ b ∈ w.cmdBuffers.allocated, b ∈ w.cmdBuffers.freed ∨ b ∈ w.cmdBuffers.writes

/-- A command with arguments to send finds the client not connected. -/
def NotConnected (w : World) (e : Event) (_ : World) : Prop :=
  ∀ args env argv timers, e = .api (.command args env) → collect args = .ok argv timers →
    w.cc.flags.connected = false

/-- All buffers allocated so far have been freed, in order, and nothing is written. -/
structure CmdBuffers.Settled (v : CmdBuffers) : Prop where
  allocated : v.allocated = List.range v.next
  freed : v.freed = List.range v.next
  writes : v.writes = []

theorem BuffersLive.of_settled {w : World} (h : w.cmdBuffers.Settled) : BuffersLive w := by
  obtain ⟨hallocated, hfreed, hwrites⟩ := h
  refine ⟨hfreed ▸ List.nodup_range, fun b hb => ?_, fun b hb => .inl ?_⟩
  · rw [hwrites] at hb
    cases hb
  · rwa [hfreed, ← hallocated]

/-! ## Frames -/

/-- The parts that matter to the buffers. -/
def cmdParts : List Part := [.obs .cmdBuf, .nextCmd, .request .connect, .request .write, .finish]

theorem Update.apply_cmdBuffers (w : World) (u : Update) (hu : u.part ∉ cmdParts) :
    (u.apply w).cmdBuffers = w.cmdBuffers := by
  cases u with
  | log o =>
    have hout : o.allocated? = none ∧ o.freed? = none := by
      cases o <;> first | exact ⟨rfl, rfl⟩ | simp [cmdParts] at hu
    simp [apply, World.log, World.cmdBuffers, hout]
  | names p t => cases p <;> rfl
  | request r => cases hk : r.kind <;> simp [cmdParts, hk] at hu
  | reqAlloc =>
    simp only [apply, Uv.reqAlloc]
    split <;> rfl
  | nextCmd | finish => simp [cmdParts] at hu
  | _ => rfl

theorem Touches.cmdBuffers {ks : List Part} {w w' : World} (h : Touches ks w w')
    (hks : ks.all (fun k => decide (k ∉ cmdParts)) = true) : w'.cmdBuffers = w.cmdBuffers :=
  h.same (fun w u hu => u.apply_cmdBuffers w hu) hks

namespace World
variable {w : World}

/-! ## Commands -/

/-- The buffer of the next command. -/
theorem entered_cmdBuffers (argv timers : List Bytes) (fn : Option Fn) (flags : Bool) :
    (w.entered argv timers fn flags).cmdBuffers =
      { w.cmdBuffers with
        allocated := w.cmdBuffers.allocated ++ [w.nextCmd]
        next := w.nextCmd + 1 } := by
  have hregister := (w.noted (classify (argv.headD [])) argv timers fn).registerCommand_touches
    (classify (argv.headD [])) argv.tail timers fn flags
  rw [entered, hregister.cmdBuffers rfl]
  simp [noted, log, cmdBuffers, List.filterMap_cons, Obs.allocated?, Obs.freed?]

theorem freeCmd_cmdBuffers (w : World) (buf : Nat) :
    (w.freeCmd buf).cmdBuffers = { w.cmdBuffers with freed := w.cmdBuffers.freed ++ [buf] } := by
  simp [freeCmd, log, cmdBuffers, List.filterMap_cons, Obs.allocated?, Obs.freed?]

theorem failSend_cmdBuffers (w : World) (error : LuaValue) :
    (w.failSend error).cmdBuffers = w.cmdBuffers := (w.failSend_touches error).cmdBuffers rfl

/-- A client that is not connected frees the buffer. -/
theorem sendCommand_notConnected {subMode : Bool} (frame : Bytes) (owner : Option Nat)
    (buf error : Nat) (hconn : w.cc.flags.connected = false) :
    (w.sendCommand subMode frame owner buf error).cmdBuffers =
      { w.cmdBuffers with freed := w.cmdBuffers.freed ++ [buf] } := by
  unfold sendCommand
  rw [if_neg (by simp [hconn]), failSend_cmdBuffers, freeCmd_cmdBuffers]

/-- A connected client frees the buffer of an accepted write, and no other. -/
theorem sendCommand_connected (subMode : Bool) (frame : Bytes) (owner : Option Nat)
    (buf error : Nat) (hfault : w.fault = none) (hconn : w.cc.flags.connected = true) :
    (w.sendCommand subMode frame owner buf error).cmdBuffers = w.cmdBuffers ∨
      (w.sendCommand subMode frame owner buf error).cmdBuffers =
        { w.cmdBuffers with
          freed := w.cmdBuffers.freed ++ [buf]
          writes := w.cmdBuffers.writes ++ [buf] } := by
  have halloc : ({ w with uv := w.uv.reqAlloc.2 } : World).cmdBuffers = w.cmdBuffers :=
    Update.apply_cmdBuffers w .reqAlloc (by simp [cmdParts])
  have hwritten := uvWrite_written { w with uv := w.uv.reqAlloc.2 } subMode w.uv.reqAlloc.1 frame
    owner buf error
  unfold sendCommand
  rw [if_pos hconn]
  generalize w.uv.reqAlloc = alloc at halloc hwritten ⊢
  obtain ⟨req, uv⟩ := alloc
  dsimp only at halloc hwritten ⊢
  generalize ({ w with uv } : World).uvWrite _ req frame owner buf error = result at hwritten ⊢
  have hfail : ∀ (v : World) (error : LuaValue),
      ((v.reqFree req).failSend error).cmdBuffers = v.cmdBuffers := fun v error =>
    failSend_cmdBuffers _ _
  cases hwritten with
  | stops hstop ht =>
    rw [if_pos hstop]
    exact .inl ((ht.cmdBuffers rfl).trans halloc)
  | @refused r v _ hneg ht =>
    have hsame : v.cmdBuffers = w.cmdBuffers := (ht.cmdBuffers rfl).trans halloc
    left
    split
    · exact hsame
    · simp only [decide_eq_true hneg, Bool.or_true, if_true]
      have hne : r ≠ 0 := by omega
      rw [if_neg hne]
      exact (hfail _ _).trans hsame
  | @accepted h s _ _ _ =>
    -- the frame is freed as soon as `uv_write` has taken it
    right
    generalize hv : (({ w with uv } : World).log (.uvWrite h frame)).requested
      ⟨req, .write, h, owner, buf⟩ = v
    have hwrite : v.cmdBuffers = { w.cmdBuffers with
        writes := w.cmdBuffers.writes ++ [buf] } := by
      rw [← halloc, ← hv]
      simp [requested, Update.apply, log, cmdBuffers, List.filterMap_cons, Obs.allocated?, Obs.freed?,
        Request.written?]
    have hnone : v.fault = none := by
      rw [← hv]
      exact hfault
    have hfree := freeCmd_cmdBuffers v buf
    rw [hwrite] at hfree
    simp only [hnone, Option.isSome_none, Bool.false_eq_true, if_false, if_true]
    split
    · rw [hfail, hfree]
    · exact hfree

variable {args : List LuaArg} {argv timers : List Bytes}

/-- What a command does with its buffer. -/
theorem luaClientCommand_cmdBuffers (env : SendEnv) (hcollect : collect args = .ok argv timers)
    (hfault : w.fault = none) :
    let v := (w.luaClientCommand args env).cmdBuffers
    let allocated := w.cmdBuffers.allocated ++ [w.nextCmd]
    (w.cc.flags.connected = false ∧ v = { w.cmdBuffers with
        allocated, freed := w.cmdBuffers.freed ++ [w.nextCmd], next := w.nextCmd + 1 }) ∨
      (w.cc.flags.connected = true ∧
        (v = { w.cmdBuffers with allocated, next := w.nextCmd + 1 } ∨
          v = { allocated, freed := w.cmdBuffers.freed ++ [w.nextCmd],
                writes := w.cmdBuffers.writes ++ [w.nextCmd], next := w.nextCmd + 1 })) := by
  have hentered := entered_cmdBuffers (w := w) argv timers (callbackOf args) env.flags
  have hsending := (w.entered_touches argv timers (callbackOf args) env.flags).sending rfl
  have hfault₁ := (congrArg Sending.fault hsending).trans hfault
  have hconn₁ := congrArg Sending.connected hsending
  dsimp only
  rw [luaClientCommand_eq hcollect]
  cases hconn : w.cc.flags.connected with
  | false =>
    refine .inl ⟨rfl, ?_⟩
    rw [sendCommand_notConnected _ _ _ _ (hconn₁.trans hconn), hentered]
  | true =>
    refine .inr ⟨rfl, ?_⟩
    obtain heq | heq := sendCommand_connected (classify (argv.headD [])).subMode
      (redisFormatCommandArgv argv)
      (if (classify (argv.headD [])).pending then some w.heap.next else none) w.nextCmd env.error
      hfault₁ (hconn₁.trans hconn)
    · exact .inl (heq.trans hentered)
    · exact .inr (heq.trans (by rw [hentered]))

end World

/-! ## Runs -/

namespace World
variable {w : World}

theorem uvPipeConnect_writes (w : World) (h : Handle) :
    (w.uvPipeConnect h).cmdBuffers = w.cmdBuffers := by
  have hrequests : w.uv.reqAlloc.2.requests = w.uv.requests := by
    unfold Uv.reqAlloc
    split <;> rfl
  simp [uvPipeConnect, cmdBuffers, hrequests, Request.written?]

theorem luaClientConnect_cmdBuffers : w.luaClientConnect.cmdBuffers = w.cmdBuffers := by
  unfold luaClientConnect
  split
  · rfl
  · rw [uvPipeConnect_writes, uvPipeConnect_writes]
    simp [log, newStream, cmdBuffers, Obs.allocated?, Obs.freed?]

/-- Without writes, a request that completes leaves none. -/
theorem finish_cmdBuffers {i : Nat} (h : w.cmdBuffers.writes = []) :
    (w.finish i).cmdBuffers = w.cmdBuffers := by
  have hnone : ∀ r ∈ w.uv.requests, r.written? = none := List.filterMap_eq_nil_iff.mp h
  have hwrites : (w.uv.requests.eraseIdx i).filterMap Request.written? =
      w.uv.requests.filterMap Request.written? := by
    rw [List.filterMap_eq_nil_iff.mpr hnone]
    exact List.filterMap_eq_nil_iff.mpr fun r hr => hnone r (List.mem_of_mem_eraseIdx hr)
  simp only [cmdBuffers, finish, hwrites]

end World

/-- A step with no connected command keeps the buffers settled. -/
theorem step_settled {w w' : World} {e : Event} (hstep : w.step e = some w')
    (he : NotConnected w e w') (h : w.cmdBuffers.Settled) : w'.cmdBuffers.Settled := by
  have htouches := step_touches hstep
  obtain ⟨hfault, hs⟩ := step_cases hstep
  obtain ⟨hallocated, hfreed, hwrites⟩ := h
  have hsame : w'.cmdBuffers = w.cmdBuffers → w'.cmdBuffers.Settled := fun heq =>
    heq ▸ ⟨hallocated, hfreed, hwrites⟩
  cases hs with
  | api c _ =>
    cases c with
    | connect => exact hsame luaClientConnect_cmdBuffers
    | command args env =>
      cases hcollect : collect args with
      | raise e =>
        simp only [api, luaClientCommand, hcollect] at hsame ⊢
        exact hsame (by simp [log, cmdBuffers, Obs.allocated?, Obs.freed?])
      | fault f =>
        simp only [api, luaClientCommand, hcollect] at hsame ⊢
        exact hsame rfl
      | ok argv timers =>
        have hconn := he args env argv timers rfl hcollect
        obtain ⟨-, heq⟩ | ⟨hconn', -⟩ := luaClientCommand_cmdBuffers env hcollect hfault
        · rw [api, heq]
          exact ⟨by rw [hallocated, List.range_succ]; rfl, by rw [hfreed, List.range_succ]; rfl, hwrites⟩
        · rw [hconn] at hconn'
          cases hconn'
    | _ => exact hsame (htouches.cmdBuffers rfl)
  | @resume f rest _ _ =>
    have htouches := resume_touches { w with stack := rest } f
    exact hsame (by cases f <;> exact htouches.cmdBuffers rfl)
  | written _ _ _ hreq hkind _ _ =>
    have hwrite := List.filterMap_eq_nil_iff.mp hwrites _ (List.mem_of_getElem? hreq)
    simp [Request.written?, hkind] at hwrite
  | @connected i req status _ hreq hkind _ _ =>
    have hconnected := (connectCompleted_touches (w.finish i) req status).cmdBuffers rfl
    exact hsame (hconnected.trans (finish_cmdBuffers hwrites))
  | _ => exact hsame (htouches.cmdBuffers rfl)

/-- A connected command ends this. -/
theorem not_buffersLive_of_connected {w : World} {args : List LuaArg} {env : SendEnv}
    {argv timers : List Bytes} (hcollect : collect args = .ok argv timers)
    (hfault : w.fault = none) (hconn : w.cc.flags.connected = true) (h : w.cmdBuffers.Settled) :
    ¬BuffersLive (w.luaClientCommand args env) := by
  intro hlive
  have hbuf : ∀ v : CmdBuffers, w.cmdBuffers.allocated ++ [w.nextCmd] = v.allocated →
      w.nextCmd ∈ v.allocated := fun v heq => heq ▸ by simp
  obtain ⟨hconn', -⟩ | ⟨-, heq | heq⟩ := luaClientCommand_cmdBuffers env hcollect hfault
  · rw [hconn] at hconn'
    cases hconn'
  -- the buffer of a write that failed is still allocated
  · have hsettled := hlive.settled w.nextCmd (by simp [heq])
    have hnext : w.cmdBuffers.next = w.nextCmd := rfl
    simp [heq, h.freed, h.writes, hnext] at hsettled
  -- the buffer of an accepted write is freed while libuv has it
  · have hflight := (hlive.inFlight w.nextCmd (by simp [heq])).2
    simp [heq] at hflight

/-- **Command buffers live until written** as long as no command finds the client connected:
    the first one that does frees its buffer too early, or never. -/
theorem commandBuffersLive {ignoreSubCmdReply : Bool} {w : World} {es : List Event}
    (hrun : RunsUnder World.step NotConnected (World.new ignoreSubCmdReply) es w) :
    BuffersLive w ∧
      ∀ e w', w.step e = some w' → (BuffersLive w' ↔ NotConnected w e w') := by
  have hsettled : w.cmdBuffers.Settled := hrun.invariant (I := fun v => v.cmdBuffers.Settled)
    (fun _ _ _ h hstep he => step_settled hstep he h) ⟨rfl, rfl, rfl⟩
  refine ⟨.of_settled hsettled, fun e w' hstep => ⟨fun hlive => ?_, fun he => ?_⟩⟩
  · obtain ⟨hfault, hs⟩ := step_cases hstep
    rintro args env argv timers rfl hcollect
    by_contra hconn
    cases hs
    exact not_buffersLive_of_connected hcollect hfault (by simpa using hconn) hsettled hlive
  · exact .of_settled (step_settled hstep he hsettled)

def notConnectedCheck (w : World) : Event → Bool
  | .api (.command _ _) => !w.cc.flags.connected
  | _ => true

/-- A command before `connect` is called: its error is raised and its buffer freed. -/
def unsent : List Event :=
  [.api (.on (ascii "error") 0), .api (.command [.string (ascii "ping")] ⟨0, false⟩), .api .connect,
   .connected 0 0]

theorem commandBuffersLive_unsent :
    ∃ w, runs (World.new true) unsent = some w ∧ BuffersLive w ∧
      w.cmdBuffers.allocated = [0] ∧ w.cmdBuffers.freed = [0] := by
  have hrun : (runChecked World.step notConnectedCheck (World.new true) unsent).map
      (fun w => (w.cmdBuffers.allocated, w.cmdBuffers.freed)) = some ([0], [0]) := by
    decide +kernel
  obtain ⟨w, hw, hstate⟩ := Option.map_eq_some_iff.mp hrun
  have hunder := runsUnder_of_checked (C := NotConnected) (fun v e _ h _ => by
    rintro args env _ _ rfl -
    simpa [notConnectedCheck] using h) hw
  exact ⟨w, hunder.run_eq, (commandBuffersLive hunder).1, Prod.mk.inj hstate⟩

/-- The buffer of an accepted command is freed before its write completes. -/
theorem commandBuffersLive_fails :
    ∃ w, runs (World.new true) [.api .connect, .connected 0 0, .connected 0 0,
        .api (.command [.string (ascii "ping"), .function 1] ⟨0, false⟩)] = some w ∧
      ¬BuffersLive w := by
  have hrun : (runs (World.new true) [.api .connect, .connected 0 0, .connected 0 0,
      .api (.command [.string (ascii "ping"), .function 1] ⟨0, false⟩)]).map
      (fun w => (w.cmdBuffers.writes, w.cmdBuffers.freed)) = some ([0], [0]) := by
    decide +kernel
  obtain ⟨w, hw, hstate⟩ := Option.map_eq_some_iff.mp hrun
  obtain ⟨hwrites, hfreed⟩ := Prod.mk.inj hstate
  exact ⟨w, hw, fun h => (h.inFlight 0 (by simp [hwrites])).2 (by simp [hfreed])⟩

end CrazySnail
