import CrazySnail.Verified.Queue

/-! # Reports of failed sends

A send fails in `lua_client_command` or, later, in `on_write`.  Both report the error to
the first entry of the command list, so the right callback hears of it exactly if the
failed command is first on the list, or the list is empty (`failedSend`).
-/

namespace CrazySnail

open World

/-- A failure to send a command. -/
structure SendFailure where
  /-- `command_cb_list` when the error is found -/
  list : CallbackEnds
  /-- the entry of the failed command, if it has one there -/
  own : Option CbPtr
  /-- the entries of the other commands -/
  others : CallbackEnds
  /-- the function that the entry of the failed command leads to; for a command that has just been
      entered it is the one that was given -/
  fn : Option Fn
  site : Site
  error : LuaValue

namespace World
variable (w : World)

/-- The failure of a command that has just been entered. -/
def commandFailure (kind : Kind) (fn : Option Fn) (error : LuaValue) : SendFailure where
  list := w.cc.commandCbList ++ (w.ownEntry kind).toList
  own := w.ownEntry kind
  others := w.cc.commandCbList
  fn := (w.ownEntry kind).bind fun _ => fn
  site := .sendError
  error := error

/-- The failure of a write request. -/
def writeFailure (req : Request) (error : Int) : SendFailure :=
  let own := (req.owner.map CbPtr.heap).filter fun p => decide (p ∈ w.cc.commandCbList)
  { list := w.cc.commandCbList
    own
    others := own.elim w.cc.commandCbList w.cc.commandCbList.erase
    fn := own.bind w.fnOf
    site := .writeError
    error := .strerror error }

end World

/-- The event makes a send fail. -/
inductive FailsToSend (w : World) : Event → SendFailure → Prop
  | command {args : List LuaArg} {env : SendEnv} {argv timers : List Bytes} {error : LuaValue} :
      collect args = .ok argv timers →
      SendFails w.sending (classify (argv.headD [])).subMode env error →
      FailsToSend w (.api (.command args env))
        (w.commandFailure (classify (argv.headD [])) (callbackOf args) error)
  | status {i : Nat} {req : Request} {status readStart : Int} :
      w.uv.requests[i]? = some req → status < 0 →
      FailsToSend w (.written i status readStart) (w.writeFailure req status)
  | readStart {i : Nat} {req : Request} {status readStart : Int} :
      w.uv.requests[i]? = some req → 0 ≤ status → readStart < 0 →
      FailsToSend w (.written i status readStart) (w.writeFailure req readStart)

/-- Only the failed command is told: the other entries stay, in order, and its own
    callback is called with the error. -/
structure ReportedToOwn (f : SendFailure) (w w' : World) : Prop where
  others : w'.cc.commandCbList = f.others
  call : calls w'.trace = calls w.trace ++ report f.site f.fn f.error

/-- What the code does: the first entry of the list is told. -/
structure ReportedToFirst (f : SendFailure) (fnOf : CbPtr → Option Fn) (w w' : World) : Prop where
  list : w'.cc.commandCbList = f.list.tail
  call : calls w'.trace = calls w.trace ++ report f.site (f.list.head?.bind fnOf) f.error

/-! ## The report -/

/-- `failSend` in a world with a given list. -/
theorem failSend_spec {w₀ w : World} (hqueue : w.queue = w₀.queue) (error : LuaValue) :
    (w.failSend error).cc.commandCbList = w₀.cc.commandCbList.tail ∧
      calls (w.failSend error).trace = calls w₀.trace ++
        report .sendError (w₀.cc.commandCbList.head?.bind w₀.fnOf) error := by
  have hspec := w.shiftAndReport_spec .sendError error (fun w => w.log (.raised (.error error)))
    fun w => ⟨rfl, by simp [log, calls]⟩
  rw [show w.cc.commandCbList = w₀.cc.commandCbList from congrArg Queue.list hqueue,
    show w.fnOf = w₀.fnOf from congrArg Queue.fnOf hqueue,
    show calls w.trace = calls w₀.trace from congrArg Queue.calls hqueue] at hspec
  exact hspec

/-- A failed write request in `on_write`. -/
theorem onWrite_fails {w : World} {req : Request} {status readStart : Int} (error : Int)
    (h : w.onWrite req status readStart =
      ({ w with uv := w.uv.setStream req.handle fun s => { s with data := true } }.reqFree
        req.block).shiftAndReport .writeError (.strerror error) id) :
    (w.onWrite req status readStart).cc.commandCbList = w.cc.commandCbList.tail ∧
      calls (w.onWrite req status readStart).trace = calls w.trace ++
        report .writeError (w.cc.commandCbList.head?.bind w.fnOf) (.strerror error) := by
  rw [h]
  exact shiftAndReport_spec _ _ _ _ fun w => ⟨rfl, rfl⟩

/-- A failed send tells the first entry; `fnOf` leads from the entries to the callbacks. -/
theorem reportedToFirst {w w' : World} {e : Event} {f : SendFailure} (hstep : w.step e = some w')
    (hfail : FailsToSend w e f) :
    ∃ fnOf, f.own.bind fnOf = f.fn ∧ ReportedToFirst f fnOf w w' := by
  obtain ⟨hfault, hs⟩ := step_cases hstep
  cases hfail with
  | @command args env argv timers error hcollect hfails =>
    cases hs
    obtain ⟨w₁, htouches, heq⟩ := luaClientCommand_fails hcollect hfault hfails
    obtain ⟨htail, hcalls⟩ := failSend_spec (htouches.queue rfl) error
    rw [entered_list] at htail hcalls
    rw [entered_calls] at hcalls
    change ∃ fnOf, _ ∧ ReportedToFirst _ fnOf w (w.luaClientCommand args env)
    rw [heq]
    refine ⟨_, ?_, htail, hcalls⟩
    simp only [commandFailure, ownEntry]
    by_cases hkind : (classify (argv.headD [])).pending = true
    · rw [if_pos hkind, Option.bind_some, Option.bind_some]
      exact entered_fnOf hkind _ _ _
    · rw [if_neg hkind]
      rfl
  | @status i req status readStart hreq hstatus =>
    cases hs with
    | written _ _ _ hreq' _ _ _ =>
      obtain rfl := Option.some.inj (hreq.symm.trans hreq')
      obtain ⟨htail, hcalls⟩ := onWrite_fails status
        (show (w.finish i).onWrite req status readStart = _ by rw [onWrite, if_pos hstatus])
      exact ⟨w.fnOf, rfl, htail, hcalls⟩
  | @readStart i req status readStart hreq hstatus hread =>
    cases hs with
    | written _ _ _ hreq' _ _ _ =>
      obtain rfl := Option.some.inj (hreq.symm.trans hreq')
      obtain ⟨htail, hcalls⟩ := onWrite_fails readStart
        (show (w.finish i).onWrite req status readStart = _ by
          rw [onWrite, if_neg (Int.not_lt.mpr hstatus), if_pos hread])
      exact ⟨w.fnOf, rfl, htail, hcalls⟩

/-! ## The result -/

theorem tail_concat_ne {p : CbPtr} {l : CallbackEnds} (hp : p ∉ l) (hl : l ≠ []) :
    l ≠ (l ++ [p]).tail := by
  cases l with
  | nil => exact absurd rfl hl
  | cons q l =>
    intro heq
    rw [List.cons_append, List.tail_cons] at heq
    exact hp (heq ▸ List.mem_append_right l (List.mem_singleton_self p))

theorem erase_ne_tail {p : CbPtr} {l : CallbackEnds} (hp : p ∈ l) (hhead : l.head? ≠ some p) :
    l.erase p ≠ l.tail := by
  cases l with
  | nil => cases hp
  | cons q l =>
    have hne : q ≠ p := fun h => hhead (congrArg some h)
    have hmem : p ∈ l := (List.mem_cons.mp hp).resolve_left hne.symm
    intro heq
    rw [List.erase_cons_tail (by simpa using hne), List.tail_cons] at heq
    -- the list would have one entry `p` less than it has
    have hcount := congrArg (List.count p) heq
    rw [List.count_cons_of_ne hne, List.count_erase_self] at hcount
    have := List.count_pos_iff.mpr hmem
    omega

/-- Without the first entry the list is that of the others, exactly if the failed command
    comes first. -/
theorem FailsToSend.others_eq_tail {w : World} {e : Event} {f : SendFailure} (hfresh : Fresh w)
    (hfail : FailsToSend w e f) : f.others = f.list.tail ↔ f.list.head? = f.own := by
  have hcommand : ∀ kind fn error, (w.commandFailure kind fn error).others =
      (w.commandFailure kind fn error).list.tail ↔
      (w.commandFailure kind fn error).list.head? = (w.commandFailure kind fn error).own := by
    intro kind fn error
    -- the entry of the command itself is pushed last
    have hown : ∀ p, w.ownEntry kind = some p → p ∉ w.cc.commandCbList := by
      intro p hp hmem
      simp only [ownEntry, Option.ite_none_right_eq_some, Option.some.injEq] at hp
      obtain ⟨-, rfl⟩ := hp
      exact absurd (hfresh _ hmem) (Nat.lt_irrefl _)
    simp only [commandFailure]
    cases hkind : w.ownEntry kind with
    | none => cases w.cc.commandCbList <;> simp
    | some p =>
      cases hl : w.cc.commandCbList with
      | nil => simp
      | cons q l =>
        have hp := hown p hkind
        rw [hl] at hp
        simp only [Option.toList_some, tail_concat_ne hp (List.cons_ne_nil q l), false_iff]
        rintro heq
        exact hp (by simpa using Or.inl (Option.some.inj heq).symm)
  have hwrite : ∀ req error, (w.writeFailure req error).others =
      (w.writeFailure req error).list.tail ↔
      (w.writeFailure req error).list.head? = (w.writeFailure req error).own := by
    intro req error
    simp only [writeFailure]
    cases hown : (req.owner.map CbPtr.heap).filter fun p => decide (p ∈ w.cc.commandCbList) with
    | none => cases w.cc.commandCbList <;> simp
    | some p =>
      -- the entry of a write may be anywhere on the list by now
      have hmem : p ∈ w.cc.commandCbList := by
        simpa using (Option.filter_eq_some_iff.mp hown).2
      rw [Option.elim_some]
      constructor
      · intro heq
        by_contra hne
        exact erase_ne_tail hmem hne heq
      · intro heq
        obtain ⟨l, hl⟩ : ∃ l, w.cc.commandCbList = p :: l := List.head?_eq_some_iff.mp heq
        rw [hl, List.erase_cons_head, List.tail_cons]
  cases hfail with
  | command _ _ => exact hcommand _ _ _
  | status _ _ => exact hwrite _ _
  | readStart _ _ _ => exact hwrite _ _

/-- **Failed sends.**  A failed send is reported to its own callback only, if and only if
    its entry is the first of the list, or it has no entry and the list is empty. -/
theorem failedSend {w w' : World} {e : Event} {f : SendFailure} (hreach : Reachable w)
    (hstep : w.step e = some w') (hfail : FailsToSend w e f) :
    ReportedToOwn f w w' ↔ f.list.head? = f.own := by
  obtain ⟨fnOf, hfn, hfirst⟩ := reportedToFirst hstep hfail
  have htail := hfail.others_eq_tail (reachable_fresh hreach)
  constructor
  · intro h
    exact htail.mp (h.others.symm.trans hfirst.list)
  · intro h
    refine ⟨hfirst.list.trans (htail.mpr h).symm, ?_⟩
    rw [hfirst.call, h, hfn]

/-- Connect and send a command whose callback is the function 1. -/
def pinged : List Event :=
  [.api .connect, .connected 0 0, .connected 0 0,
   .api (.command [.string (ascii "ping"), .function 1] ⟨0, false⟩)]

/-- And another one behind it. -/
def pingedTwice : List Event :=
  pinged ++ [.api (.command [.string (ascii "get"), .string (ascii "a"), .function 2] ⟨0, false⟩)]

theorem failedSend_first :
    ∃ w w' req, runs (World.new true) pingedTwice = some w ∧
      w.step (.written 0 (-32) 0) = some w' ∧ FailsToSend w (.written 0 (-32) 0)
        (w.writeFailure req (-32)) ∧ ReportedToOwn (w.writeFailure req (-32)) w w' ∧
      calls w'.trace = [(.writeError, 1, [.strerror (-32)])] ∧
      w'.cc.commandCbList = [.heap 1] := by
  have hrun : (runs (World.new true) pingedTwice).map (fun w =>
      (w.uv.requests[0]?, w.cc.commandCbList)) =
      some (some ⟨1, .write, 0, some 0, 0⟩, [.heap 0, .heap 1]) := by rfl
  obtain ⟨w, hw, hstate⟩ := Option.map_eq_some_iff.mp hrun
  have hfail : ((runs (World.new true) pingedTwice).bind fun w => w.step (.written 0 (-32) 0)).map
      (fun w => (calls w.trace, w.cc.commandCbList)) =
      some ([(.writeError, 1, [.strerror (-32)])], [.heap 1]) := by rfl
  obtain ⟨w', hw', hafter⟩ := Option.map_eq_some_iff.mp hfail
  obtain ⟨hcalls, hlist⟩ := Prod.mk.inj hafter
  rw [hw, Option.bind_some] at hw'
  simp only [Prod.mk.injEq] at hstate
  have hfails : FailsToSend w (.written 0 (-32) 0)
      (w.writeFailure ⟨1, .write, 0, some 0, 0⟩ (-32)) := .status hstate.1 (by decide)
  refine ⟨w, w', _, hw, hw', hfails, (failedSend ⟨true, _, hw⟩ hw' hfails).mpr ?_, hcalls, hlist⟩
  simp only [writeFailure, hstate.2]
  rfl

/-- With a command in flight, the error of the next one goes to the wrong callback. -/
theorem failedSend_fails :
    ∃ w w' e f, Reachable w ∧ w.step e = some w' ∧ FailsToSend w e f ∧ f.fn = some 2 ∧
      calls w'.trace = [(.sendError, 1, [.strerror (-32)])] ∧ ¬ReportedToOwn f w w' := by
  have hrun : (runs (World.new true) pinged).map
      (fun w => (w.sending.connected, w.sending.target false, w.sending.streams 0, calls w.trace)) =
      some (true, some 0, some ⟨true, false, false, false, false⟩, []) := by rfl
  obtain ⟨w, hw, hstate⟩ := Option.map_eq_some_iff.mp hrun
  have hfail : ((runs (World.new true) pinged).bind fun w => w.step
      (.api (.command [.string (ascii "get"), .string (ascii "a"), .function 2] ⟨32, false⟩))).map
      (fun w => calls w.trace) = some [(.sendError, 1, [.strerror (-32)])] := by rfl
  obtain ⟨w', hw', hcalls⟩ := Option.map_eq_some_iff.mp hfail
  rw [hw, Option.bind_some] at hw'
  simp only [Prod.mk.injEq] at hstate
  obtain ⟨hconn, htarget, hstream, hbefore⟩ := hstate
  refine ⟨w, w', _, _, ⟨true, _, hw⟩, hw',
    .command (show collect _ = .ok [ascii "get", ascii "a"] [] from rfl)
      (.refused hconn ⟨0, htarget, hstream, rfl⟩ rfl (by decide)), rfl, hcalls, ?_⟩
  intro h
  have hcall := h.call
  rw [hcalls, hbefore] at hcall
  have hfn := congrArg (List.map fun c : Site × Fn × List LuaValue => c.2.1) hcall
  change [1] = [2] at hfn
  exact absurd hfn (by decide)

end CrazySnail
