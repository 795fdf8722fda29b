import CrazySnail.Verified.Footprint

/-! # Sending a command

`lua_client_command` enters a command where its replies will look for it, and sends it
afterwards.  `SendFails` and `Sendable` say of the state before the call whether it will
find an error; `luaClientCommand_fails` and `luaClientCommand_sent` say what it does then.
-/

namespace CrazySnail

/-! ## The outcome of a send -/

/-- What a send looks at. -/
structure Sending where
  connected : Bool
  ending : Bool
  target : Bool → Option Handle
  streams : Handle → Option Stream
  fault : Option Fault

namespace World
variable (w : World)

def sending : Sending where
  connected := w.cc.flags.connected
  ending := w.cc.flags.disconnecting || w.cc.flags.freeing
  target subMode := if subMode then w.cc.subStream else w.cc.stream
  streams := w.uv.streams
  fault := w.fault

/-- libuv takes a request. -/
def requested (r : Request) : World := Update.apply w (.request r)

/-- The trace entries of a command and its buffer. -/
def noted (kind : Kind) (argv timers : List Bytes) (fn : Option Fn) : World :=
  { w.log (.command kind argv timers fn w.heap.next) with
    nextCmd := w.nextCmd + 1 }.log (.mallocCmd w.nextCmd)

/-- What `lua_client_command` has done before it sends. -/
def entered (argv timers : List Bytes) (fn : Option Fn) (flags : Bool) : World :=
  (w.noted (classify (argv.headD [])) argv timers fn).registerCommand (classify (argv.headD []))
    argv.tail timers fn flags

end World

/-- The parts a send looks at. -/
@[simp] def sendingParts : List Part :=
  [.raise .connected, .raise .disconnecting, .raise .freeing, .clearFlags, .handles, .newStream,
    .stream .data, .stream .close, .stream .readStop, .stream .readStart, .stream .connect,
    .stream .free, .fault]

theorem Update.apply_sending (w : World) (u : Update) (hu : u.part ∉ sendingParts) :
    (u.apply w).sending = w.sending := by
  cases u with
  | raise t => cases t <;> first | rfl | simp at hu
  | names p t => cases p <;> rfl
  | reqAlloc =>
    simp only [apply, Uv.reqAlloc]
    split <;> rfl
  | stream t h => cases t <;> simp at hu
  | clearFlags | handles | newStream | crash => simp at hu
  | _ => rfl

theorem Touches.sending {ks : List Part} {w w' : World} (h : Touches ks w w')
    (hks : ks.all (fun k => decide (k ∉ sendingParts)) = true) : w'.sending = w.sending :=
  h.same (fun w u hu => u.apply_sending w hu) hks

/-- The stream a command is written to is there and not freed. -/
def Sending.Alive (d : Sending) (subMode : Bool) (s : Stream) : Prop :=
  ∃ h, d.target subMode = some h ∧ d.streams h = some s ∧ s.freed = false

/-- `lua_client_command` finds this error. -/
inductive SendFails (d : Sending) (subMode : Bool) (env : SendEnv) : LuaValue → Prop
  | notConnected : d.connected = false → SendFails d subMode env World.notConnected
  | closing {s : Stream} : d.connected = true → d.Alive subMode s → s.closing = true →
      SendFails d subMode env (.strerror World.UV_EBADF)
  | refused {s : Stream} : d.connected = true → d.Alive subMode s → s.closing = false →
      env.error ≠ 0 → SendFails d subMode env (.strerror (-(env.error : Int)))
  /-- the frame is written all the same -/
  | ending {s : Stream} : d.connected = true → d.Alive subMode s → s.closing = false →
      env.error = 0 → d.ending = true → SendFails d subMode env World.notConnected

/-- `lua_client_command` finds no error. -/
def Sendable (d : Sending) (subMode : Bool) (env : SendEnv) : Prop :=
  d.connected = true ∧ d.ending = false ∧ env.error = 0 ∧
    ∃ s, d.Alive subMode s ∧ s.closing = false

/-- libuv takes the write of a command. -/
def Sending.Accepts (d : Sending) (subMode : Bool) (error : Nat) : Prop :=
  d.connected = true ∧ error = 0 ∧ ∃ s, d.Alive subMode s ∧ s.closing = false

namespace World
variable {w : World}

theorem crash_isSome (w : World) (f : Fault) : (w.crash f).fault.isSome = true := by
  simp only [crash]
  cases w.fault <;> rfl

/-- What `uv_write` does with a frame. -/
inductive Written (w : World) (subMode : Bool) (block : Block) (frame : Bytes) (owner : Option Nat)
    (buf error : Nat) : Int × World → Prop
  | stops {r : Int} {v : World} : v.fault.isSome = true → Touches [.obs .uvWrite, .fault] w v →
      Written w subMode block frame owner buf error (r, v)
  | refused {r : Int} {v : World} : v.fault = w.fault → r < 0 → Touches [.obs .uvWrite] w v →
      Written w subMode block frame owner buf error (r, v)
  | accepted {h : Handle} {s : Stream} : error = 0 → w.sending.Alive subMode s →
      s.closing = false →
      Written w subMode block frame owner buf error
        (0, (w.log (.uvWrite h frame)).requested ⟨block, .write, h, owner, buf⟩)

theorem uvWrite_written (w : World) (subMode : Bool) (block : Block) (frame : Bytes)
    (owner : Option Nat) (buf error : Nat) :
    Written w subMode block frame owner buf error
      (w.uvWrite (if subMode then w.cc.subStream else w.cc.stream) block frame owner buf error) := by
  have htarget : (if subMode then w.cc.subStream else w.cc.stream) = w.sending.target subMode := rfl
  rw [htarget]
  cases hh : w.sending.target subMode with
  | none => exact .stops (w.crash_isSome .deadStream) (.of [.crash .deadStream] rfl rfl)
  | some h =>
    have hdead : Touches [.obs .uvWrite, .fault] w ((w.log (.uvWrite h frame)).crash .deadStream) :=
      .of [.log (.uvWrite h frame), .crash .deadStream] rfl rfl
    have hlog : Touches [.obs .uvWrite] w (w.log (.uvWrite h frame)) :=
      .of [.log (.uvWrite h frame)] rfl rfl
    cases hs : w.uv.streams h with
    | none =>
      simp only [uvWrite, log, hs]
      exact .stops (crash_isSome _ .deadStream) hdead
    | some s =>
      simp only [uvWrite, log, hs]
      split
      · exact .stops (crash_isSome _ .deadStream) hdead
      next hfreed =>
        split
        · exact .refused rfl (by decide) hlog
        next hclosing =>
          by_cases herror : error = 0
          · rw [if_pos herror]
            exact .accepted herror ⟨h, hh, hs, by simpa using hfreed⟩ (by simpa using hclosing)
          · rw [if_neg herror]
            exact .refused rfl (by omega) hlog

@[simp] def writeParts : List Part :=
  [.reqAlloc, .reqFree, .obs .uvWrite, .request .write, .obs .cmdBuf]

/-- `uv_write` on a stream that is there. -/
theorem uvWrite_alive {h : Handle} {s : Stream} (hs : w.uv.streams h = some s)
    (hfreed : s.freed = false) (block : Block) (frame : Bytes) (owner : Option Nat)
    (buf error : Nat) :
    (w.uvWrite (some h) block frame owner buf error).1 =
        (if s.closing then UV_EBADF else -(error : Int)) ∧
      Touches writeParts w (w.uvWrite (some h) block frame owner buf error).2 := by
  have hlog : Touches writeParts w (w.log (.uvWrite h frame)) := .of [.log (.uvWrite h frame)] rfl rfl
  simp only [uvWrite, log, hs, hfreed]
  cases s.closing with
  | true => exact ⟨rfl, hlog⟩
  | false =>
    by_cases herror : error = 0
    · subst herror
      exact ⟨rfl, hlog.step (.request ⟨block, .write, h, owner, buf⟩) (by simp)⟩
    · simp only [herror, Bool.false_eq_true, if_false]
      exact ⟨trivial, hlog⟩

/-- A frame that goes to a stream that is there, up to the search for errors. -/
theorem sendCommand_written {subMode : Bool} (frame : Bytes) (owner : Option Nat) (buf error : Nat)
    {s : Stream} (hfault : w.fault = none) (hconn : w.cc.flags.connected = true)
    (halive : w.sending.Alive subMode s) {r : Int}
    (hr : r = if s.closing then UV_EBADF else -(error : Int)) :
    ∃ w₁, Touches writeParts w w₁ ∧ w.sendCommand subMode frame owner buf error =
      if w₁.cc.flags.disconnecting || w₁.cc.flags.freeing || decide (r < 0) then
        (w₁.reqFree w.uv.reqAlloc.1).failSend (if r < 0 then .strerror r else notConnected)
      else w₁ := by
  obtain ⟨h, htarget, hs, hfreed⟩ := halive
  have halloc : Touches writeParts w { w with uv := w.uv.reqAlloc.2 } := .of [.reqAlloc] rfl rfl
  have hs' : w.uv.reqAlloc.2.streams h = some s := by
    rw [← hs]
    unfold Uv.reqAlloc
    split <;> rfl
  obtain ⟨hresult, hwrite⟩ := uvWrite_alive (w := { w with uv := w.uv.reqAlloc.2 }) hs' hfreed
    w.uv.reqAlloc.1 frame owner buf error
  have htouches := halloc.trans hwrite
  have hfault₁ := congrArg Sending.fault (htouches.sending rfl)
  unfold sendCommand
  simp only [hconn, if_true]
  rw [show (if subMode then w.cc.subStream else w.cc.stream) = some h from htarget]
  generalize { w with uv := w.uv.reqAlloc.2 }.uvWrite (some h) w.uv.reqAlloc.1 frame owner buf error
    = result at hresult htouches hfault₁ ⊢
  obtain ⟨r', w₁⟩ := result
  obtain rfl : r' = r := hresult.trans hr.symm
  have hfault₁ : w₁.fault = none := hfault₁.trans hfault
  simp only [hfault₁, Option.isSome_none, Bool.false_eq_true, if_false]
  refine ⟨if r' = 0 then w₁.freeCmd buf else w₁, ?_, rfl⟩
  by_cases hzero : r' = 0
  · simp only [hzero, if_true]
    exact htouches.step (.log (.freeCmd buf)) (by simp)
  · simp only [hzero, if_false]
    exact htouches

/-- A send that fails: the error goes to the first entry of the list. -/
theorem sendCommand_fails {subMode : Bool} (frame : Bytes) (owner : Option Nat) (buf : Nat)
    {env : SendEnv} {error : LuaValue} (hfault : w.fault = none)
    (h : SendFails w.sending subMode env error) :
    ∃ w₁, Touches writeParts w w₁ ∧
      w.sendCommand subMode frame owner buf env.error = w₁.failSend error := by
  cases h with
  | notConnected hconn =>
    refine ⟨w.freeCmd buf, .of [.log (.freeCmd buf)] rfl rfl, ?_⟩
    unfold sendCommand
    rw [if_neg (by rw [show w.cc.flags.connected = false from hconn]; simp)]
  | @closing s hconn halive hclosing =>
    obtain ⟨w₁, htouches, heq⟩ := sendCommand_written frame owner buf env.error hfault hconn halive
      (r := UV_EBADF) (by simp [hclosing])
    refine ⟨w₁.reqFree w.uv.reqAlloc.1, htouches.step (.reqFree _) (by simp), ?_⟩
    simpa [UV_EBADF] using heq
  | @refused s hconn halive hclosing herror =>
    obtain ⟨w₁, htouches, heq⟩ := sendCommand_written frame owner buf env.error hfault hconn halive
      (r := -(env.error : Int)) (by simp [hclosing])
    refine ⟨w₁.reqFree w.uv.reqAlloc.1, htouches.step (.reqFree _) (by simp), ?_⟩
    simpa [Nat.pos_of_ne_zero herror] using heq
  | @ending s hconn halive hclosing herror hending =>
    obtain ⟨w₁, htouches, heq⟩ := sendCommand_written frame owner buf env.error hfault hconn halive
      (r := 0) (by simp [hclosing, herror])
    refine ⟨w₁.reqFree w.uv.reqAlloc.1, htouches.step (.reqFree _) (by simp), ?_⟩
    have hending₁ := congrArg Sending.ending (htouches.sending rfl)
    simp only [sending] at hending hending₁
    simpa [hending₁, hending] using heq

/-- A send that succeeds. -/
theorem sendCommand_sent {subMode : Bool} (frame : Bytes) (owner : Option Nat) (buf : Nat)
    {env : SendEnv} (hfault : w.fault = none) (h : Sendable w.sending subMode env) :
    Touches writeParts w (w.sendCommand subMode frame owner buf env.error) := by
  obtain ⟨hconn, hending, herror, s, halive, hclosing⟩ := h
  obtain ⟨w₁, htouches, heq⟩ := sendCommand_written frame owner buf env.error hfault hconn halive
    (r := 0) (by simp [hclosing, herror])
  have hending₁ := congrArg Sending.ending (htouches.sending rfl)
  simp only [sending] at hending hending₁
  rw [heq, hending₁, hending]
  simpa using htouches

/-! ## The command -/

@[simp] def enteredParts : List Part :=
  [.obs .command, .nextCmd, .obs .cmdBuf] ++ registerParts

variable (w) in
theorem entered_touches (argv timers : List Bytes) (fn : Option Fn) (flags : Bool) :
    Touches enteredParts w (w.entered argv timers fn flags) := by
  refine Touches.trans ?_ ((registerCommand_touches _ _ _ _ _ _).mono (by simp))
  exact .of [.log (.command (classify (argv.headD [])) argv timers fn w.heap.next),
    .nextCmd (w.nextCmd + 1), .log (.mallocCmd w.nextCmd)] rfl rfl

variable {args : List LuaArg} {env : SendEnv} {argv timers : List Bytes}

variable (w) in
theorem crash_touches (f : Fault) : Touches [.fault] w (w.crash f) := .of [.crash f] rfl rfl

variable (w env) in
/-- Arguments that are not collected raise an error or stop the program, and nothing else. -/
theorem luaClientCommand_refused (hcollect : ∀ argv timers, collect args ≠ .ok argv timers) :
    Touches [.obs .raised, .fault] w (w.luaClientCommand args env) := by
  unfold luaClientCommand
  split
  next e _ => exact .of [.log (.raised e)] rfl rfl
  next f _ => exact .of [.crash f] rfl rfl
  next argv timers hok => exact absurd hok (hcollect argv timers)

theorem luaClientCommand_eq (hcollect : collect args = .ok argv timers) :
    w.luaClientCommand args env =
      (w.entered argv timers (callbackOf args) env.flags).sendCommand
        (classify (argv.headD [])).subMode (redisFormatCommandArgv argv)
        (if (classify (argv.headD [])).pending then some w.heap.next else none) w.nextCmd
        env.error := by
  unfold luaClientCommand
  rw [hcollect]
  rfl

theorem luaClientCommand_fails {error : LuaValue} (hcollect : collect args = .ok argv timers)
    (hfault : w.fault = none)
    (h : SendFails w.sending (classify (argv.headD [])).subMode env error) :
    ∃ w₁, Touches writeParts (w.entered argv timers (callbackOf args) env.flags) w₁ ∧
      w.luaClientCommand args env = w₁.failSend error := by
  have hsending := (w.entered_touches argv timers (callbackOf args) env.flags).sending rfl
  rw [luaClientCommand_eq hcollect]
  exact sendCommand_fails _ _ _ ((congrArg Sending.fault hsending).trans hfault) (hsending ▸ h)

theorem luaClientCommand_sent (hcollect : collect args = .ok argv timers)
    (hfault : w.fault = none) (h : Sendable w.sending (classify (argv.headD [])).subMode env) :
    Touches writeParts (w.entered argv timers (callbackOf args) env.flags)
      (w.luaClientCommand args env) := by
  have hsending := (w.entered_touches argv timers (callbackOf args) env.flags).sending rfl
  rw [luaClientCommand_eq hcollect]
  exact sendCommand_sent _ _ _ ((congrArg Sending.fault hsending).trans hfault) (hsending ▸ h)

end World

end CrazySnail
