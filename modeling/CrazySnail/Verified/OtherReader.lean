import CrazySnail.Verified.ReplyLoop

/-! # The client beside its reader

Only `on_read` and its loop look at the reader.  With another reader in its place, all other
functions do the same (`step_reads`).
-/

namespace CrazySnail

open SearchTree (Path)

namespace World

/-- The same world with another reader. -/
def reads (w : World) (r : RedisReader) : World := { w with cc.reader := r }

variable (w : World) (r : RedisReader)

/-! ## Branches and loops -/

theorem ite_reads {c : Prop} [Decidable c] {a b a' b' : World} {r : RedisReader}
    (ha : a' = a.reads r) (hb : b' = b.reads r) :
    (if c then a' else b') = (if c then a else b).reads r := by
  split
  · exact ha
  · exact hb

/-- The same for a function that also answers. -/
theorem ite_answer_reads {α : Type} {c : Prop} [Decidable c] {a b a' b' : α × World}
    {r : RedisReader} (ha : a' = (a.1, a.2.reads r)) (hb : b' = (b.1, b.2.reads r)) :
    (if c then a' else b') = ((if c then a else b).1, (if c then a else b).2.reads r) := by
  split
  · exact ha
  · exact hb

theorem foldl_reads {α : Type} {f : World → α → World}
    (hf : ∀ w a, f (w.reads r) a = (f w a).reads r) (l : List α) :
    l.foldl f (w.reads r) = (l.foldl f w).reads r := by
  induction l generalizing w with
  | nil => rfl
  | cons a l ih => rw [List.foldl_cons, List.foldl_cons, hf, ih]

/-! ## Primitive operations -/

theorem pcall_reads (site : Site) (fn : Option Fn) (args : List LuaValue) :
    (w.reads r).pcall site fn args = (w.pcall site fn args).reads r := by
  cases fn <;> rfl

theorem callHandler_reads (site : Site) (ref : LuaRef) (args : List LuaValue) :
    (w.reads r).callHandler site ref args = (w.callHandler site ref args).reads r := by
  cases ref with
  | ref n => exact pcall_reads w r site _ args
  | noref | refnil => rfl

theorem onStream_reads (h : Option Handle) {k k' : Handle → Stream → World}
    (hk : ∀ h s, k' h s = (k h s).reads r) :
    (w.reads r).onStream h k' = (w.onStream h k).reads r := by
  cases h with
  | none => rfl
  | some h =>
    unfold onStream
    dsimp only [reads]
    cases w.uv.streams h with
    | none => rfl
    | some s => exact ite_reads rfl (hk h s)

theorem uvClose_reads (h : Option Handle) : (w.reads r).uvClose h = (w.uvClose h).reads r := by
  cases h with
  | none => rfl
  | some h =>
    unfold uvClose
    exact onStream_reads (w.log (.uvClose h)) r (some h) fun h s => by split <;> rfl

/-! ## Lists and trees -/

theorem destroyWrapper_reads (p : CbPtr) :
    (w.reads r).destroyWrapper p = (w.destroyWrapper p).reads r := by
  unfold destroyWrapper
  dsimp only [reads]
  cases CrazySnail.destroyWrapper w.heap p <;> rfl

theorem destroyList_reads (list : CallbackEnds) :
    (w.reads r).destroyList list = (w.destroyList list).reads r :=
  foldl_reads w r (fun w p => w.destroyWrapper_reads r p) list

theorem destroyNode_reads (v : NodeVal) :
    (w.reads r).destroyNode v = (w.destroyNode v).reads r := by
  unfold destroyNode
  cases v.data with
  | none => exact w.destroyList_reads r _
  | some b => exact destroyList_reads { w with uv := w.uv.stopTimer b } r _

theorem destroyTree_reads {κ : Type} (root : NodeT κ) :
    (w.reads r).destroyTree root = (w.destroyTree root).reads r :=
  foldl_reads w r (fun w v => w.destroyNode_reads r v) _

theorem destroyAll_reads : (w.reads r).destroyAll = w.destroyAll.reads r := by
  unfold destroyAll
  have h₁ := w.destroyTree_reads r w.cc.channels
  generalize w.destroyTree w.cc.channels = w₁ at h₁ ⊢
  have h₂ := destroyTree_reads { w₁ with cc.channels := .null } r w₁.cc.patterns
  dsimp only [reads] at h₁ h₂ ⊢
  rw [h₁]
  dsimp only
  rw [h₂]
  generalize destroyTree { w₁ with cc.channels := .null } w₁.cc.patterns = w₂ at h₂ ⊢
  have h₃ := destroyTree_reads { w₂ with cc.patterns := .null } r w₂.cc.timers
  dsimp only [reads] at h₃ ⊢
  rw [h₃]
  generalize destroyTree { w₂ with cc.patterns := .null } w₂.cc.timers = w₃ at h₃ ⊢
  have h₄ := destroyList_reads { w₃ with cc.timers := .null } r w₃.cc.commandCbList
  dsimp only [reads] at h₄ ⊢
  rw [h₄]

theorem shiftAndReport_reads (site : Site) (error : LuaValue) {otherwise : World → World}
    (ho : ∀ w, otherwise (reads w r) = (otherwise w).reads r) :
    (w.reads r).shiftAndReport site error otherwise =
      (w.shiftAndReport site error otherwise).reads r := by
  unfold shiftAndReport
  dsimp only [reads]
  cases shiftCb w.cc.commandCbList w.heap with
  | empty => exact ho w
  | dead list => rfl
  | ok list target heap =>
    dsimp only
    cases target.ref with
    | ref n =>
      exact pcall_reads ({ w with cc.commandCbList := list, heap }.unref (.ref n)) r site _ _
    | noref | refnil => exact ho { w with cc.commandCbList := list, heap }

/-! ## Commands -/

theorem failSend_reads (error : LuaValue) : (w.reads r).failSend error = (w.failSend error).reads r :=
  shiftAndReport_reads w r _ _ fun _ => rfl

theorem uvWrite_reads (h : Option Handle) (block : Block) (frame : Bytes) (owner : Option Nat)
    (buf error : Nat) :
    (w.reads r).uvWrite h block frame owner buf error =
      ((w.uvWrite h block frame owner buf error).1,
        (w.uvWrite h block frame owner buf error).2.reads r) := by
  cases h with
  | none => rfl
  | some h =>
    simp only [uvWrite, reads, log]
    cases w.uv.streams h with
    | none => rfl
    | some s =>
      dsimp only
      split
      · rfl
      split
      · rfl
      split <;> rfl

theorem sendCommand_reads (subMode : Bool) (frame : Bytes) (owner : Option Nat) (buf error : Nat) :
    (w.reads r).sendCommand subMode frame owner buf error =
      (w.sendCommand subMode frame owner buf error).reads r := by
  have hwrite := uvWrite_reads { w with uv := w.uv.reqAlloc.2 } r
    (if subMode then w.cc.subStream else w.cc.stream) w.uv.reqAlloc.1 frame owner buf error
  unfold sendCommand
  dsimp only [reads] at hwrite ⊢
  refine ite_reads ?_ (failSend_reads (w.freeCmd buf) r notConnected)
  rw [hwrite]
  generalize uvWrite { w with uv := w.uv.reqAlloc.2 } _ _ _ _ _ _ = result
  obtain ⟨n, w'⟩ := result
  refine ite_reads rfl ?_
  dsimp only
  by_cases hn : n = 0
  · simp only [if_pos hn]
    exact ite_reads (failSend_reads ((w'.freeCmd buf).reqFree w.uv.reqAlloc.1) r _) rfl
  · simp only [if_neg hn]
    exact ite_reads (failSend_reads (w'.reqFree w.uv.reqAlloc.1) r _) rfl

theorem subscribeName_reads (pvariant : Bool) (cb : Nat) (name : Bytes) :
    (w.reads r).subscribeName pvariant cb name = (w.subscribeName pvariant cb name).reads r := by
  cases pvariant <;> rfl

theorem subscribeTimer_reads (cb : Nat) (key : Bytes) :
    (w.reads r).subscribeTimer cb key = (w.subscribeTimer cb key).reads r := by
  unfold subscribeTimer
  exact ite_reads rfl rfl

theorem registerCommand_reads (kind : Kind) (names timers : List Bytes) (fn : Option Fn)
    (flags : Bool) : (w.reads r).registerCommand kind names timers fn flags =
      (w.registerCommand kind names timers fn flags).reads r := by
  have hsubscribe : ∀ (v : World) p cb,
      timers.foldl (subscribeTimer cb) (names.foldl (subscribeName p cb) (v.reads r)) =
        (timers.foldl (subscribeTimer cb) (names.foldl (subscribeName p cb) v)).reads r :=
    fun v p cb => by
      rw [foldl_reads v r fun w name => w.subscribeName_reads r p cb name]
      exact foldl_reads _ r (fun w key => w.subscribeTimer_reads r cb key) _
  cases kind with
  | subscribe p =>
    cases fn with
    | none => exact hsubscribe (w.newCallback .refnil flags) p w.heap.next
    | some f =>
      exact hsubscribe ({ w with lua := (w.lua.ref f).2 }.newCallback (.ref (w.lua.ref f).1) flags) p
        w.heap.next
  | unsubscribe | monitor | ordinary => cases fn <;> rfl

theorem luaClientCommand_reads (args : List LuaArg) (env : SendEnv) :
    (w.reads r).luaClientCommand args env = (w.luaClientCommand args env).reads r := by
  unfold luaClientCommand
  cases collect args with
  | raise e => rfl
  | fault f => rfl
  | ok argv timers =>
    dsimp only
    have hregister := registerCommand_reads
      (({ w.log (.command (classify (argv.headD [])) argv timers (callbackOf args) w.heap.next) with
        nextCmd := w.nextCmd + 1 } : World).log (.mallocCmd w.nextCmd)) r
      (classify (argv.headD [])) argv.tail timers (callbackOf args) env.flags
    dsimp only [reads, log] at hregister ⊢
    rw [hregister]
    exact sendCommand_reads _ r _ _ _ _ _

/-! ## The other methods -/

theorem luaClientOn_reads (event : Bytes) (fn : Fn) :
    (w.reads r).luaClientOn event fn = (w.luaClientOn event fn).reads r := by
  unfold luaClientOn
  exact ite_reads rfl (ite_reads rfl (ite_reads rfl rfl))

theorem luaClientConnect_reads : (w.reads r).luaClientConnect = w.luaClientConnect.reads r := by
  unfold luaClientConnect
  exact ite_reads rfl rfl

theorem setData_reads (h : Option Handle) : (w.reads r).setData h = (w.setData h).reads r :=
  onStream_reads w r h fun _ _ => rfl

theorem luaClientDisconnect_reads :
    (w.reads r).luaClientDisconnect = w.luaClientDisconnect.reads r := by
  unfold luaClientDisconnect
  refine ite_reads rfl ?_
  have h₁ := w.setData_reads r w.cc.stream
  dsimp only [reads] at h₁ ⊢
  rw [h₁]
  generalize w.setData w.cc.stream = w₁
  have h₂ := w₁.setData_reads r w.cc.subStream
  dsimp only [reads] at h₂ ⊢
  rw [h₂]
  generalize w₁.setData w.cc.subStream = w₂
  refine ite_reads rfl ?_
  have h₃ := w₂.uvClose_reads r w₂.cc.stream
  dsimp only [reads] at h₃ ⊢
  rw [h₃]
  generalize w₂.uvClose w₂.cc.stream = w₃
  refine ite_reads rfl ?_
  have h₄ := w₃.uvClose_reads r w₃.cc.subStream
  dsimp only [reads] at h₄ ⊢
  rw [h₄]

theorem exitStream_reads (h : Option Handle) :
    (w.reads r).exitStream h = (w.exitStream h).reads r :=
  onStream_reads w r h fun _ _ => rfl

theorem luaClientExit_reads : (w.reads r).luaClientExit = w.luaClientExit.reads r := by
  unfold luaClientExit
  have h₁ := w.uvClose_reads r w.cc.stream
  dsimp only [reads] at h₁ ⊢
  rw [h₁]
  generalize w.uvClose w.cc.stream = w₁
  refine ite_reads rfl ?_
  have h₂ := w₁.uvClose_reads r w₁.cc.subStream
  dsimp only [reads] at h₂ ⊢
  rw [h₂]
  generalize w₁.uvClose w₁.cc.subStream = w₂
  refine ite_reads rfl ?_
  have h₃ := destroyAll_reads { ((w₂.unref w₂.cc.rConnectCb).unref w₂.cc.rErrorCb).unref
    w₂.cc.rDisconnectCb with cc.streamFlags := .none, cc.exited := true } r
  dsimp only [reads, unref] at h₃ ⊢
  rw [h₃]
  generalize destroyAll _ = w₃
  have h₄ := w₃.exitStream_reads r w₂.cc.stream
  dsimp only [reads] at h₄ ⊢
  rw [h₄]
  generalize w₃.exitStream w₂.cc.stream = w₄
  exact w₄.exitStream_reads r w₂.cc.subStream

theorem api_reads (c : ApiCall) : (w.reads r).api c = (w.api c).reads r := by
  cases c with
  | on event fn => exact w.luaClientOn_reads r event fn
  | connect => exact w.luaClientConnect_reads r
  | command args env => exact w.luaClientCommand_reads r args env
  | disconnect => exact w.luaClientDisconnect_reads r
  | exit => exact w.luaClientExit_reads r

/-! ## Replies, events and ticks -/

theorem startTimer_reads (ikey : UInt64) :
    (w.reads r).startTimer ikey = (w.startTimer ikey).reads r := by
  unfold startTimer
  dsimp only [reads]
  cases searchTimer ikey w.cc.timers <;> rfl

theorem confirmChannel_reads (sname : Bytes) (ch : Channel) (isDone : Bool) :
    confirmChannel sname ch isDone (w.reads r) =
      ((confirmChannel sname ch isDone w).1, (confirmChannel sname ch isDone w).2.1,
        (confirmChannel sname ch isDone w).2.2.reads r) := by
  unfold confirmChannel
  split
  · rfl
  split
  · rfl
  split
  · rw [w.startTimer_reads r]
  · rfl

theorem confirmChannels_reads (sname : Bytes) (chs : List Channel) (isDone : Bool) :
    confirmChannels sname chs isDone (w.reads r) =
      ((confirmChannels sname chs isDone w).1, (confirmChannels sname chs isDone w).2.1,
        (confirmChannels sname chs isDone w).2.2.reads r) := by
  induction chs generalizing isDone w with
  | nil => rfl
  | cons ch chs ih =>
    simp only [confirmChannels, confirmChannel_reads]
    rw [ih]

theorem confirmEntry_reads (sname : Bytes) (reply : Reply) (p : CbPtr) :
    confirmEntry sname reply p (w.reads r) =
      ((confirmEntry sname reply p w).1, (confirmEntry sname reply p w).2.reads r) := by
  cases p with
  | stack => rfl
  | heap id =>
    unfold confirmEntry
    dsimp only
    rw [show (w.reads r).heap.deref (.heap id) = w.heap.deref (.heap id) from rfl]
    cases w.heap.deref (.heap id) with
    | none => rfl
    | some c =>
      dsimp only
      refine ite_answer_reads rfl ?_
      rw [w.confirmChannels_reads r]
      generalize confirmChannels sname c.channels false w = result
      obtain ⟨chs, isDone, w'⟩ := result
      have hpcall := pcall_reads { w' with heap := w'.heap.update id fun c =>
        { c with channels := chs, initialized := c.initialized || chs.all Channel.subscribed } } r
        .confirmation (w'.lua.rawgeti c.ref) [.nil, pushSubReply reply]
      refine ite_answer_reads rfl (ite_answer_reads (ite_answer_reads ?_ rfl) rfl)
      exact Prod.ext rfl hpcall

theorem confirm_reads (sname : Bytes) (reply : Reply) (list : CallbackEnds) :
    confirm sname reply list (w.reads r) = (confirm sname reply list w).reads r := by
  induction list generalizing w with
  | nil => rfl
  | cons p ps ih =>
    simp only [confirm, confirmEntry_reads]
    generalize confirmEntry sname reply p w = result
    obtain ⟨found, w'⟩ := result
    cases found with
    | true => rfl
    | false => exact ite_reads rfl (ih w')

theorem callEntry_reads (site : Site) (p : CbPtr) (args : Option (List LuaValue)) :
    (w.reads r).callEntry site p args = (w.callEntry site p args).reads r := by
  unfold callEntry
  dsimp only [reads]
  cases w.heap.deref p with
  | none => rfl
  | some c =>
    refine ite_reads ?_ (w.pcall_reads r site _ _)
    cases args with
    | none => rfl
    | some args => exact w.pcall_reads r site _ args

theorem eventLoop_reads (pvariant : Bool) (leaf : Path) (i : Nat) (reply : Reply) :
    (w.reads r).eventLoop pvariant leaf i reply = (w.eventLoop pvariant leaf i reply).reads r := by
  unfold eventLoop
  refine ite_reads rfl ?_
  rw [show (w.reads r).names pvariant = w.names pvariant from by cases pvariant <;> rfl]
  cases (w.names pvariant).get? leaf with
  | none => rfl
  | some node =>
    dsimp only
    cases node.2.cbList[i]? with
    | none => rfl
    | some p => exact callEntry_reads (w.push (.event pvariant leaf (i + 1) reply)) r _ _ _

theorem getAndCallSubCb_reads (reply : Reply) :
    (w.reads r).getAndCallSubCb reply = (w.getAndCallSubCb reply).reads r := by
  have hnames : ∀ p, (w.reads r).names p = w.names p := fun p => by cases p <;> rfl
  unfold getAndCallSubCb
  split
  next stype element₁ rest =>
    refine ite_reads rfl ?_
    split
    next sname =>
      rw [hnames]
      cases search sname (w.names (isPvariant stype)) with
      | none => rfl
      | some leaf =>
        dsimp only
        cases (w.names (isPvariant stype)).get? leaf with
        | none => rfl
        | some node =>
          refine ite_reads rfl (ite_reads ?_ ?_)
          · exact w.confirm_reads r _ _ _
          · exact w.eventLoop_reads r _ _ _ _
    next => rfl
  · rfl
  · rfl
  · rfl

theorem timerLoop_reads (leaf : Path) (i : Nat) (rep timeout : UInt64) :
    (w.reads r).timerLoop leaf i rep timeout = (w.timerLoop leaf i rep timeout).reads r := by
  unfold timerLoop
  refine ite_reads rfl ?_
  dsimp only [reads]
  cases w.cc.timers.get? leaf with
  | none => rfl
  | some node =>
    dsimp only
    cases node.2.cbList[i]? with
    | none => rfl
    | some p => exact callEntry_reads (w.push (.timer leaf (i + 1) rep timeout)) r _ _ _

theorem onTimer_reads (rep timeout : UInt64) :
    (w.reads r).onTimer rep timeout = (w.onTimer rep timeout).reads r := by
  unfold onTimer
  refine ite_reads rfl ?_
  dsimp only [reads]
  cases searchTimer rep w.cc.timers with
  | none => rfl
  | some leaf => exact w.timerLoop_reads r leaf 0 rep timeout

theorem deliverReply_reads (h : Handle) (cb : LuaRef) (reply : Reply) :
    (w.reads r).deliverReply h cb reply = (w.deliverReply h cb reply).reads r := by
  unfold deliverReply
  cases cb with
  | ref n =>
    refine ite_reads ?_ rfl
    exact pcall_reads ((w.push (.readLoop h false (.ref n))).unref (.ref n)) r .reply _ _
  | noref | refnil => rfl

theorem dispatchReply_reads (h : Handle) (cb : LuaRef) (reply : Reply) :
    (w.reads r).dispatchReply h cb reply = (w.dispatchReply h cb reply).reads r := by
  obtain ⟨hshift, heq⟩ | ⟨list, hshift, heq⟩ | ⟨list, target, heap, hshift, heq⟩ :=
    w.dispatchReply_cases h cb reply
  · rw [heq, ← w.deliverReply_reads r]
    simp only [dispatchReply, reads, hshift]
    rfl
  · rw [heq]
    simp only [dispatchReply, reads, hshift]
    rfl
  · rw [heq, ← deliverReply_reads]
    simp only [dispatchReply, reads, hshift]
    rfl

/-! ## The other callbacks -/

theorem onReadError_reads (h : Handle) (nread : Int) :
    (w.reads r).onReadError h nread = (w.onReadError h nread).reads r := by
  unfold onReadError
  refine ite_reads rfl ?_
  dsimp only
  rw [show (w.reads r).cc.rErrorCb = w.cc.rErrorCb from rfl]
  cases w.cc.rErrorCb with
  | ref n => exact pcall_reads ({ w with bufs := w.bufs.alloc.2 }.push (.closeStream h)) r .error _ _
  | noref | refnil => exact uvClose_reads { w with bufs := w.bufs.alloc.2 } r (some h)

theorem onWrite_reads (req : Request) (status readStart : Int) :
    (w.reads r).onWrite req status readStart = (w.onWrite req status readStart).reads r := by
  have hshift : ∀ (v : World) error, (v.reads r).shiftAndReport .writeError error id =
      (v.shiftAndReport .writeError error id).reads r := fun v error =>
    v.shiftAndReport_reads r .writeError error fun _ => rfl
  have hfree : ({ w.reads r with uv := w.uv.setStream req.handle fun s =>
      { s with data := true } } : World).reqFree req.block =
    (({ w with uv := w.uv.setStream req.handle fun s => { s with data := true } } : World).reqFree
      req.block).reads r := rfl
  unfold onWrite
  dsimp only
  rw [show (w.reads r).uv = w.uv from rfl, hfree]
  exact ite_reads (hshift _ _) (ite_reads (hshift _ _) rfl)

theorem onConnect_reads (req : Request) (status : Int) :
    (w.reads r).onConnect req status = (w.onConnect req status).reads r := by
  have hfree : (w.reads r).reqFree req.block = (w.reqFree req.block).reads r := rfl
  unfold onConnect
  dsimp only
  rw [hfree]
  generalize w.reqFree req.block = v
  rw [show (v.reads r).cc.streamFlags = v.cc.streamFlags from rfl,
    show (v.reads r).cc.rErrorCb = v.cc.rErrorCb from rfl]
  generalize (if !v.cc.streamFlags.stream then _ else _) = sf
  refine ite_reads ?_ (ite_reads ?_ rfl)
  · cases v.cc.rErrorCb with
    | ref n => exact v.pcall_reads r .error _ _
    | noref | refnil => exact v.uvClose_reads r v.cc.stream
  · exact callHandler_reads { v with cc.streamFlags := sf, cc.flags.connected := true } r .connect
      v.cc.rConnectCb []

theorem teardown_reads : (w.reads r).teardown = w.teardown.reads r := by
  have hdestroy := destroyAll_reads { w with cc.flags.freeing := true } r
  unfold teardown
  dsimp only [reads] at hdestroy ⊢
  rw [hdestroy]
  generalize destroyAll _ = v
  exact callHandler_reads (v.log .teardown) r .disconnect v.cc.rDisconnectCb []

theorem onDisconnect_reads (h : Handle) :
    (w.reads r).onDisconnect h = (w.onDisconnect h).reads r := by
  have hfree : (w.reads r).freeStream h = (w.freeStream h).reads r := rfl
  unfold onDisconnect
  dsimp only
  rw [hfree, show (w.reads r).uv = w.uv from rfl]
  generalize w.freeStream h = v
  rw [show (v.reads r).cc.streamFlags = v.cc.streamFlags from rfl]
  generalize (if v.cc.streamFlags.stream then _ else _) = sf
  exact ite_reads rfl (ite_reads (teardown_reads { v with cc.streamFlags := sf } r) rfl)

/-! ## Steps -/

/-- The event runs nothing that looks at the reader. -/
def leavesReader (w : World) : Event → Prop
  | .read _ _ _ => False
  | .resume => ∀ h subMode cb rest, w.stack ≠ .readLoop h subMode cb :: rest
  | _ => True

theorem resume_reads {f : Frame} (hf : ∀ h subMode cb, f ≠ .readLoop h subMode cb) :
    (w.reads r).resume f = (w.resume f).reads r := by
  cases f with
  | lua site top => rfl
  | readLoop h subMode cb => exact absurd rfl (hf h subMode cb)
  | closeStream h => exact w.uvClose_reads r (some h)
  | bufFree buf => rfl
  | event pvariant leaf i reply => exact w.eventLoop_reads r pvariant leaf i reply
  | timer leaf i rep timeout => exact w.timerLoop_reads r leaf i rep timeout

theorem step_reads {e : Event} (h : w.leavesReader e) :
    (w.reads r).step e = (w.step e).map (reads · r) := by
  -- a guard that does not look at the reader decides the same way
  have hite : ∀ {c : Prop} [Decidable c] {a a' : World}, a' = a.reads r →
      (if c then some a' else none) = (if c then some a else none).map (reads · r) := by
    intro c _ a a' ha
    split
    · exact congrArg some ha
    · rfl
  unfold step
  rw [show (w.reads r).fault = w.fault from rfl]
  by_cases hfault : w.fault.isSome = true
  · rw [if_pos hfault, if_pos hfault]; rfl
  rw [if_neg hfault, if_neg hfault]
  cases e with
  | api c => exact hite (w.api_reads r c)
  | ret ok =>
    dsimp only
    rw [show (w.reads r).stack = w.stack from rfl]
    cases w.stack with
    | nil => rfl
    | cons f rest => cases f <;> rfl
  | resume =>
    dsimp only
    rw [show (w.reads r).stack = w.stack from rfl]
    cases hstack : w.stack with
    | nil => rfl
    | cons f rest =>
      cases f with
      | lua site top => rfl
      -- left out: this step asks the reader for a reply
      | readLoop h₁ subMode cb => exact absurd hstack (h h₁ subMode cb rest)
      | closeStream | bufFree | event | timer =>
        exact congrArg some (resume_reads { w with stack := rest } r (by simp))
  | read h₁ data cb => exact h.elim
  | readError h₁ nread => exact hite (w.onReadError_reads r h₁ nread)
  | written i status readStart =>
    dsimp only
    rw [show (w.reads r).stack = w.stack from rfl, show (w.reads r).uv = w.uv from rfl]
    split
    · exact hite ((w.finish i).onWrite_reads r _ status readStart)
    · rfl
  | connected i status =>
    dsimp only
    rw [show (w.reads r).stack = w.stack from rfl, show (w.reads r).uv = w.uv from rfl]
    split
    next req _ _ =>
      refine hite ?_
      have hup : (((w.reads r).finish i).uvConnected req.handle status) =
          ((w.finish i).uvConnected req.handle status).reads r := by
        unfold uvConnected
        exact ite_reads rfl rfl
      rw [hup]
      exact onConnect_reads _ r req status
    · rfl
  | closed h₁ =>
    dsimp only
    rw [show (w.reads r).uv = w.uv from rfl]
    cases w.uv.streams h₁ with
    | none => rfl
    | some s => exact hite ((w.log (.closed h₁)).onDisconnect_reads r h₁)
  | tick b timeout =>
    dsimp only
    rw [show (w.reads r).uv = w.uv from rfl]
    cases w.uv.timers b with
    | none => rfl
    | some t => exact hite ((w.fired b t).onTimer_reads r t.rep timeout)

/-! ## The reader of a run -/

/-- What does the same with another reader leaves its own alone. -/
theorem reader_of_reads {f : World → World} (hf : ∀ r, f (w.reads r) = (f w).reads r) :
    (f w).cc.reader = w.cc.reader := by
  have hown : f w = (f w).reads w.cc.reader := hf w.cc.reader
  rw [hown]
  rfl

theorem onRead_reader (h : Handle) (data : Bytes) (cb : LuaRef) :
    (w.onRead h data cb).cc.reader = w.cc.reader ∨
      (w.onRead h data cb).cc.reader = (redisReaderFeed w.cc.reader data).1 := by
  have hcall : ∀ (v : World) fn args, (v.pcall .error fn args).cc.reader = v.cc.reader :=
    fun v fn args => v.reader_of_reads (f := (·.pcall .error fn args)) fun r => v.pcall_reads r _ fn args
  unfold onRead
  dsimp only
  split
  · exact .inl rfl
  split
  · left
    split <;> rfl
  split
  · left
    split
    · exact hcall _ _ _
    · rfl
  next heq => exact .inr (congrArg Prod.fst heq).symm

theorem readLoop_reader (h : Handle) (subMode : Bool) (cb : LuaRef) :
    (w.readLoop h subMode cb).cc.reader = w.cc.reader ∨
      (w.readLoop h subMode cb).cc.reader = (redisReaderGetReply w.cc.reader).1 := by
  have hround := readLoop_round w h subMode cb
  generalize w.readLoop h subMode cb = w' at hround ⊢
  cases hround with
  | exited => exact .inl rfl
  | failed hget _ | stored hget _ | disconnecting hget _ | subError hget _ =>
    rw [hget]
    exact .inr rfl
  | ended hget _ =>
    rw [hget]
    right
    unfold endRead
    dsimp only
    split <;> split <;> rfl
  | reply hget _ =>
    rw [hget]
    exact .inr (reader_of_reads _ (f := (·.dispatchReply h cb _)) fun r =>
      dispatchReply_reads _ r h cb _)
  | subReply hget _ =>
    rw [hget]
    exact .inr (reader_of_reads _ (f := (·.getAndCallSubCb _)) fun r =>
      getAndCallSubCb_reads _ r _)

/-- **The reader** is fed by `on_read` and asked by its loop. -/
theorem step_reader {w w' : World} {e : Event} (hstep : w.step e = some w') :
    w'.cc.reader = w.cc.reader ∨
      (∃ h data cb, e = .read h data cb ∧ w'.cc.reader = (redisReaderFeed w.cc.reader data).1) ∨
      ∃ h subMode cb rest, e = .resume ∧ w.stack = .readLoop h subMode cb :: rest ∧
        w'.cc.reader = (redisReaderGetReply w.cc.reader).1 := by
  by_cases hleaves : w.leavesReader e
  · have hsame := w.step_reads w.cc.reader hleaves
    rw [show w.reads w.cc.reader = w from rfl, hstep] at hsame
    have hown : w' = w'.reads w.cc.reader := Option.some.inj hsame
    rw [hown]
    exact .inl rfl
  · cases (step_cases hstep).2 with
    | read h data cb =>
      exact (w.onRead_reader h data cb).imp_right fun heq => .inl ⟨h, data, cb, rfl, heq⟩
    | @resume f rest hstack _ =>
      simp only [leavesReader, not_forall, not_not] at hleaves
      obtain ⟨h, subMode, cb, rest', hstack'⟩ := hleaves
      rw [hstack] at hstack'
      cases hstack'
      exact (readLoop_reader { w with stack := rest } h subMode cb).imp_right fun heq =>
        .inr ⟨h, subMode, cb, rest, rfl, hstack, heq⟩
    | api | ret | readError | written | connected | closed | tick => exact absurd trivial hleaves

end World
end CrazySnail
