import CrazySnail.System

/-! # What each function touches

A function of the client is a sequence of elementary updates.  `Touches ks w w'` says
that `w'` comes from `w` by updates of the parts `ks` only.  Every function gets its
footprint here once; a property that does not look at these parts is then kept by the
function without another look at its body.
-/

namespace CrazySnail

open SearchTree (Tree Path Side)

/-! ## Elementary updates -/

/-- The kinds of observations. -/
inductive ObsTag where
  | command | raised | cmdBuf | connect | uvWrite | uvClose | connected | closed | freed
  | fed | feedError | reply | teardown
  | call (site : Site)
deriving DecidableEq

@[simp] def Obs.tag : Obs → ObsTag
  | .command .. => .command
  | .raised _ => .raised
  | .mallocCmd _ => .cmdBuf
  | .freeCmd _ => .cmdBuf
  | .connect .. => .connect
  | .uvWrite .. => .uvWrite
  | .uvClose _ => .uvClose
  | .connected _ => .connected
  | .closed _ => .closed
  | .freed _ => .freed
  | .fed .. => .fed
  | .feedError .. => .feedError
  | .reply .. => .reply
  | .call site .. => .call site
  | .teardown => .teardown

/-- The kinds of frames. -/
inductive FrameTag where
  | lua | readLoop | closeStream | bufFree | event | timer
deriving DecidableEq

@[simp] def Frame.tag : Frame → FrameTag
  | .lua .. => .lua
  | .readLoop .. => .readLoop
  | .closeStream _ => .closeStream
  | .bufFree _ => .bufFree
  | .event .. => .event
  | .timer .. => .timer

/-- The bits of `flags`. -/
inductive FlagTag where
  | connected | disconnecting | freeing | monitoring
deriving DecidableEq

/-- Set a bit. -/
def Flags.raise (f : Flags) : FlagTag → Flags
  | .connected => { f with connected := true }
  | .disconnecting => { f with disconnecting := true }
  | .freeing => { f with freeing := true }
  | .monitoring => { f with monitoring := true }

/-- What happens to a stream handle. -/
inductive StreamTag where
  | data | close | readStop | readStart | connect | free
deriving DecidableEq

def Stream.change (s : Stream) : StreamTag → Stream
  | .data => { s with data := true }
  | .close => { s with closing := true, reading := false }
  | .readStop => { s with reading := false }
  | .readStart => { s with reading := true }
  | .connect => { s with connected := true }
  | .free => { s with freed := true }

/-- The parts of a world. -/
inductive Part where
  | obs (tag : ObsTag)
  | frame (tag : FrameTag)
  /-- a bit of `flags` that is set -/
  | raise (tag : FlagTag)
  | stream (tag : StreamTag)
  | request (kind : ReqKind)
  | fault | top | ref | unref
  | create | attach | detach | addChannel | slots
  | shift | append | appendStack | clearList
  | names | timerTree | timerData | timerStart | timerStop
  | clearFlags | streamFlags | handlers | handles | exited | reader
  | newStream | reqAlloc | reqFree | bufs | nextCmd
  | pop | finish | fired
deriving DecidableEq

/-- A timer fires: one without a period stops. -/
def World.fired (w : World) (b : Block) (t : UvTimer) : World :=
  let t := { t with active := decide (t.rep ≠ 0) }
  { w with uv.timers := Function.update w.uv.timers b (some t) }

/-- Take the first entry off `command_cb_list`. -/
def World.shift (w : World) : World :=
  { w with cc.commandCbList := w.cc.commandCbList.tail
           heap := (w.cc.commandCbList.head?.bind (CrazySnail.destroyWrapper w.heap)).getD w.heap }

/-- Copy the flags of other slots. -/
def setFlags : List Channel → List Channel → List Channel
  | ch :: chs, flagged :: rest => { ch with subscribed := flagged.subscribed } :: setFlags chs rest
  | chs, _ => chs

/-- An elementary update. -/
inductive Update where
  | log (o : Obs)
  | push (f : Frame)
  | crash (f : Fault)
  | top (n : Int)
  | ref (f : Fn)
  | unref (r : LuaRef)
  | create (ref : LuaRef) (flags : Bool)
  | attach (id : Nat)
  /-- a wrapper of a record is destroyed -/
  | detach (p : CbPtr)
  | addChannel (id : Nat) (ch : Channel)
  /-- the flags of a record and its slots, after a confirmation -/
  | slots (id : Nat) (channels : List Channel) (all : Bool)
  | shift
  | append (id : Nat)
  | appendStack
  | clearList
  | names (pvariant : Bool) (t : NodeT Bytes)
  | timerTree (t : NodeT UInt64)
  | timerData (leaf : Path) (b : Block)
  | timerStart (b : Block) (rep : UInt64)
  | timerStop (b : Block)
  | raise (t : FlagTag)
  | clearFlags
  | streamFlags (f : StreamFlags)
  | handlers (connect error disconnect : LuaRef)
  | handles (stream subStream : Option Handle)
  | exited
  | reader (r : RedisReader)
  | stream (t : StreamTag) (h : Handle)
  | newStream
  | request (r : Request)
  | reqAlloc
  | reqFree (b : Block)
  | bufs (b : Bufs)
  | nextCmd (n : Nat)
  | pop
  | finish (i : Nat)
  | fired (b : Block) (t : UvTimer)

namespace Update

@[simp] def part : Update → Part
  | log o => .obs o.tag
  | push f => .frame f.tag
  | crash _ => .fault
  | top _ => .top
  | ref _ => .ref
  | unref _ => .unref
  | create .. => .create
  | attach _ => .attach
  | detach _ => .detach
  | addChannel .. => .addChannel
  | slots .. => .slots
  | shift => .shift
  | append _ => .append
  | appendStack => .appendStack
  | clearList => .clearList
  | names .. => .names
  | timerTree _ => .timerTree
  | timerData .. => .timerData
  | timerStart .. => .timerStart
  | timerStop _ => .timerStop
  | raise t => .raise t
  | clearFlags => .clearFlags
  | streamFlags _ => .streamFlags
  | handlers .. => .handlers
  | handles .. => .handles
  | exited => .exited
  | reader _ => .reader
  | stream t _ => .stream t
  | newStream => .newStream
  | request r => .request r.kind
  | reqAlloc => .reqAlloc
  | reqFree _ => .reqFree
  | bufs _ => .bufs
  | nextCmd _ => .nextCmd
  | pop => .pop
  | finish _ => .finish
  | fired .. => .fired

def apply (w : World) : Update → World
  | log o => w.log o
  | push f => w.push f
  | crash f => w.crash f
  | top n => { w with lua.top := n }
  | ref f => { w with lua := (w.lua.ref f).2 }
  | unref r => w.unref r
  | create r flags => w.newCallback r flags
  | attach id => w.attach id
  | detach p => { w with heap := (CrazySnail.destroyWrapper w.heap p).getD w.heap }
  | addChannel id ch => w.addChannel id ch
  | slots id channels all =>
    { w with heap := w.heap.update id fun c =>
      { c with channels := setFlags c.channels channels, initialized := c.initialized || all } }
  | shift => w.shift
  | append id => { w with cc.commandCbList := w.cc.commandCbList ++ [.heap id] }
  | appendStack => { w with cc.commandCbList := w.cc.commandCbList ++ [.stack] }
  | clearList => { w with cc.commandCbList := [] }
  | names p t => w.setNames p t
  | timerTree t => { w with cc.timers := t }
  | timerData leaf b =>
    { w with cc.timers := w.cc.timers.modify (fun v => { v with data := some b }) leaf }
  | timerStart b rep => w.uvTimerStart b rep
  | timerStop b =>
    { w with uv.timers := Function.update w.uv.timers b ((w.uv.timers b).map UvTimer.stop) }
  | raise t => { w with cc.flags := w.cc.flags.raise t }
  | clearFlags => { w with cc.flags := .none }
  | streamFlags f => { w with cc.streamFlags := f }
  | handlers c e d => { w with cc.rConnectCb := c, cc.rErrorCb := e, cc.rDisconnectCb := d }
  | handles s ss => { w with cc.stream := s, cc.subStream := ss }
  | exited => { w with cc.exited := true }
  | reader r => { w with cc.reader := r }
  | stream t h => { w with uv := w.uv.setStream h (Stream.change · t) }
  | newStream => w.newStream.2
  | request r => { w with uv.requests := w.uv.requests ++ [r] }
  | reqAlloc => { w with uv := w.uv.reqAlloc.2 }
  | reqFree b => w.reqFree b
  | bufs b => { w with bufs := b }
  | nextCmd n => { w with nextCmd := n }
  | pop => { w with stack := w.stack.tail }
  | finish i => w.finish i
  | fired b t => w.fired b t

end Update

/-- `w'` comes from `w` by updates of the parts `ks`. -/
inductive Touches (ks : List Part) : World → World → Prop
  | refl {w : World} : Touches ks w w
  | step {w w' : World} (h : Touches ks w w') (u : Update) (hu : u.part ∈ ks) :
      Touches ks w (u.apply w')

namespace Touches
variable {ks ks' : List Part} {w w' w'' : World}

theorem trans (h : Touches ks w w') (h' : Touches ks w' w'') : Touches ks w w'' := by
  induction h' with
  | refl => exact h
  | step _ u hu ih => exact ih.step u hu

/-- A sequence of updates, with the check that they keep to their parts. -/
theorem of (us : List Update) (h : us.foldl Update.apply w = w')
    (hus : us.all (fun u => decide (u.part ∈ ks)) = true) : Touches ks w w' := by
  subst h
  induction us generalizing w with
  | nil => exact .refl
  | cons u us ih =>
    rw [List.all_cons, Bool.and_eq_true, decide_eq_true_eq] at hus
    exact (Touches.refl.step u hus.1).trans (ih hus.2)

theorem mono (h : Touches ks w w') (hks : ks ⊆ ks') : Touches ks' w w' := by
  induction h with
  | refl => exact .refl
  | step _ u hu ih => exact ih.step u (hks hu)

/-- **Frame rule.**  What the parts touched do not matter to is kept. -/
theorem preserves {I : World → Prop} (h : Touches ks w w')
    (hu : ∀ w (u : Update), u.part ∈ ks → I w → I (u.apply w)) (hw : I w) : I w' := by
  induction h with
  | refl => exact hw
  | step _ u hk ih => exact hu _ u hk ih

/-- **Frame rule** for a projection of the state. -/
theorem eq {α : Type*} {f : World → α} (h : Touches ks w w')
    (hu : ∀ w (u : Update), u.part ∈ ks → f (u.apply w) = f w) : f w' = f w :=
  h.preserves (fun w u hk hw => (hu w u hk).trans hw) rfl

/-- **Frame rule** for an invariant and the parts that matter to it. -/
theorem keeps {I : World → Prop} {parts : List Part}
    (hI : ∀ w (u : Update), u.part ∉ parts → I w → I (u.apply w)) (h : Touches ks w w')
    (hks : ks.all (fun k => decide (k ∉ parts)) = true) (hw : I w) : I w' :=
  h.preserves (fun w u hu => hI w u (of_decide_eq_true (List.all_eq_true.mp hks _ hu))) hw

/-- **Frame rule** for a projection and the parts that matter to it. -/
theorem same {α : Type*} {f : World → α} {parts : List Part}
    (hf : ∀ w (u : Update), u.part ∉ parts → f (u.apply w) = f w) (h : Touches ks w w')
    (hks : ks.all (fun k => decide (k ∉ parts)) = true) : f w' = f w :=
  h.keeps (fun w u hu hw => (hf w u hu).trans hw) hks rfl

end Touches

/-- Parts that avoid many parts avoid fewer. -/
theorem all_not_mem_mono {ks parts parts' : List Part} (h : parts ⊆ parts')
    (hks : ks.all (fun k => decide (k ∉ parts')) = true) :
    ks.all (fun k => decide (k ∉ parts)) = true :=
  List.all_eq_true.mpr fun k hk => decide_eq_true fun hmem =>
    of_decide_eq_true (List.all_eq_true.mp hks k hk) (h hmem)

/-! ## Primitive operations -/

namespace World
variable (w : World)

@[simp] def callParts (site : Site) : List Part := [.top, .frame .lua, .obs (.call site)]

theorem pcall_touches (site : Site) (fn : Option Fn) (args : List LuaValue) :
    Touches (callParts site) w (w.pcall site fn args) := by
  cases fn with
  | none => exact .of [.top (w.lua.top + site.leftover)] rfl rfl
  | some f =>
    exact .of [.top (w.lua.top + args.length + 1), .push (.lua site w.lua.top),
      .log (.call site f args)] rfl (by simp)

theorem callHandler_touches (site : Site) (r : LuaRef) (args : List LuaValue) :
    Touches (callParts site) w (w.callHandler site r args) := by
  cases r with
  | ref n => exact w.pcall_touches site _ args
  | noref => exact .refl
  | refnil => exact .refl

theorem onStream_touches {ks : List Part} (h : Option Handle) (k : Handle → Stream → World)
    (hfault : .fault ∈ ks) (hk : ∀ h s, Touches ks w (k h s)) : Touches ks w (w.onStream h k) := by
  have hcrash : Touches ks w (w.crash .deadStream) :=
    Touches.refl.step (.crash .deadStream) hfault
  unfold onStream
  split
  · exact hcrash
  · split
    · exact hcrash
    · split
      · exact hcrash
      · exact hk _ _

@[simp] def closeParts : List Part := [.obs .uvClose, .fault, .stream .close]

theorem uvClose_touches (h : Option Handle) : Touches closeParts w (w.uvClose h) := by
  cases h with
  | none => exact .of [.crash .deadStream] rfl rfl
  | some h =>
    have hlog : Touches closeParts w (w.log (.uvClose h)) := .of [.log (.uvClose h)] rfl rfl
    have hfault : Part.fault ∈ closeParts := by simp
    simp only [uvClose]
    refine hlog.trans (onStream_touches _ h _ hfault fun h s => ?_)
    split
    · exact .of [.crash .closingAssert] rfl rfl
    · exact .of [.stream .close h] rfl rfl

@[simp] def destroyListParts : List Part := [.detach, .fault]

theorem destroyWrapper_touches (p : CbPtr) :
    Touches destroyListParts w (w.destroyWrapper p) := by
  unfold destroyWrapper
  split
  next h =>
    exact .of [.detach p] (by simp [Update.apply, h]) rfl
  · exact .of [.crash _] rfl rfl

theorem foldl_touches {α : Type*} {ks : List Part} {f : World → α → World}
    (hf : ∀ w a, Touches ks w (f w a)) (as : List α) : Touches ks w (as.foldl f w) := by
  induction as generalizing w with
  | nil => exact .refl
  | cons a as ih => exact (hf w a).trans (ih _)

theorem destroyList_touches (list : CallbackEnds) :
    Touches destroyListParts w (w.destroyList list) :=
  w.foldl_touches (fun w p => w.destroyWrapper_touches p) list

@[simp] def destroyTreeParts : List Part := [.detach, .fault, .timerStop, .reqFree]

theorem destroyNode_touches (v : NodeVal) : Touches destroyTreeParts w (w.destroyNode v) := by
  have hlist : ∀ w : World, Touches destroyTreeParts w (w.destroyList v.cbList) :=
    fun w => (w.destroyList_touches v.cbList).mono (by simp)
  unfold destroyNode
  cases v.data with
  | none => exact hlist w
  | some b =>
    have hstop : Touches destroyTreeParts w { w with uv := w.uv.stopTimer b } :=
      .of [.timerStop b, .reqFree b] rfl rfl
    exact hstop.trans (hlist _)

theorem destroyTree_touches {κ : Type} (root : NodeT κ) :
    Touches destroyTreeParts w (w.destroyTree root) :=
  w.foldl_touches (fun w v => w.destroyNode_touches v) _

@[simp] def destroyAllParts : List Part :=
  [.detach, .fault, .timerStop, .reqFree, .names, .timerTree, .clearList]

theorem destroyAll_touches : Touches destroyAllParts w w.destroyAll := by
  have htree : ∀ {κ : Type} (w : World) (root : NodeT κ),
      Touches destroyAllParts w (w.destroyTree root) :=
    fun w root => (w.destroyTree_touches root).mono (by simp)
  have hlist : ∀ (w : World) list, Touches destroyAllParts w (w.destroyList list) :=
    fun w list => (w.destroyList_touches list).mono (by simp)
  unfold destroyAll
  refine (((((((htree w _).step (.names false .null) (by simp)).trans (htree _ _)).step
    (.names true .null) (by simp)).trans (htree _ _)).step (.timerTree .null) (by simp)).trans
    (hlist _ _)).step .clearList (by simp)

@[simp] def shiftParts (site : Site) : List Part :=
  [.shift, .fault, .unref, .top, .frame .lua, .obs (.call site)]

/-- What `shift_cb` does, in terms of `World.shift`. -/
theorem shift_spec :
    match shiftCb w.cc.commandCbList w.heap with
    | .empty => w.cc.commandCbList = []
    | .dead list => w.shift = { w with cc.commandCbList := list } ∧
      ∃ p, w.cc.commandCbList = p :: list ∧ w.heap.deref p = none
    | .ok list target heap => w.shift = { w with cc.commandCbList := list, heap } ∧
      ∃ p, w.cc.commandCbList = p :: list ∧ w.heap.deref p = some target := by
  unfold shiftCb shift
  cases hl : w.cc.commandCbList with
  | nil => rfl
  | cons p rest =>
    cases p with
    | stack => simp [CrazySnail.destroyWrapper, Heap.deref]
    | heap id =>
      cases hid : w.heap.cb id with
      | none => simp [CrazySnail.destroyWrapper, Heap.deref, hid]
      | some c => simp [CrazySnail.destroyWrapper, Heap.deref, hid]

theorem shiftAndReport_touches {ks : List Part} (site : Site) (error : LuaValue)
    (otherwise : World → World) (hks : shiftParts site ⊆ ks)
    (ho : ∀ w, Touches ks w (otherwise w)) :
    Touches ks w (w.shiftAndReport site error otherwise) := by
  have hspec := w.shift_spec
  have hshift : Touches ks w w.shift := Touches.refl.step .shift (hks (by simp))
  unfold shiftAndReport
  split
  · exact ho w
  next list heq =>
    simp only [heq] at hspec
    rw [← hspec.1]
    exact hshift.step (.crash .deadCallback) (hks (by simp))
  next list target heap heq =>
    simp only [heq] at hspec
    simp only [← hspec.1]
    split
    next n _ =>
      refine (hshift.step (.unref (.ref n)) (hks (by simp))).trans ?_
      exact (pcall_touches _ site _ _).mono (List.Subset.trans (by simp) hks)
    · exact hshift.trans (ho _)

/-! ## Commands -/

@[simp] def subscribeParts : List Part := [.attach, .addChannel, .names, .timerTree]

@[simp] def registerParts : List Part :=
  [.ref, .create, .raise .monitoring, .append] ++ subscribeParts

theorem refCallback_touches (fn : Option Fn) : Touches [.ref] w (w.refCallback fn).2 := by
  cases fn with
  | none => exact .refl
  | some f => exact .of [.ref f] rfl rfl

theorem subscribeName_touches (pvariant : Bool) (cb : Nat) (name : Bytes) :
    Touches subscribeParts w (subscribeName pvariant cb w name) := by
  unfold subscribeName
  exact ((Touches.refl.step (.addChannel cb _) (by simp)).step (.names pvariant _)
    (by simp)).step (.attach cb) (by simp)

theorem subscribeTimer_touches (cb : Nat) (key : Bytes) :
    Touches subscribeParts w (subscribeTimer cb w key) := by
  unfold subscribeTimer
  generalize insertTimer w.cc.timers (timerKey key) = r
  obtain ⟨status, t, leaf⟩ := r
  dsimp only
  split
  · exact ((Touches.refl.step (.addChannel cb _) (by simp)).step (.timerTree _)
      (by simp)).step (.attach cb) (by simp)
  · exact (Touches.refl.step (.addChannel cb _) (by simp)).step (.timerTree _) (by simp)

/-- The two loops of a subscription. -/
theorem subscribe_touches (pvariant : Bool) (cb : Nat) (names timers : List Bytes) :
    Touches subscribeParts w
      (timers.foldl (subscribeTimer cb) (names.foldl (subscribeName pvariant cb) w)) :=
  (w.foldl_touches (fun w name => w.subscribeName_touches pvariant cb name) names).trans
    (foldl_touches _ (fun w key => w.subscribeTimer_touches cb key) timers)

theorem registerCommand_touches (kind : Kind) (names timers : List Bytes) (fn : Option Fn)
    (flags : Bool) :
    Touches registerParts w (w.registerCommand kind names timers fn flags) := by
  have href : Touches registerParts w (w.refCallback fn).2 :=
    (w.refCallback_touches fn).mono (by simp)
  unfold registerCommand
  generalize w.refCallback fn = r at href ⊢
  obtain ⟨ref, w₁⟩ := r
  have hnew : Touches registerParts w (w₁.newCallback ref flags) :=
    href.step (.create ref flags) (by simp)
  cases kind with
  | subscribe p => exact hnew.trans ((subscribe_touches _ p _ names timers).mono (by simp))
  | unsubscribe => exact href
  | monitor =>
    exact (((href.step (.raise .monitoring) (by simp)).step (.create ref flags)
      (by simp)).step (.append _) (by simp)).step (.attach _) (by simp)
  | ordinary => exact (hnew.step (.append _) (by simp)).step (.attach _) (by simp)

@[simp] def failParts : List Part := .obs .raised :: shiftParts .sendError

@[simp] def sendParts : List Part :=
  [.reqAlloc, .reqFree, .obs .uvWrite, .fault, .request .write, .obs .cmdBuf] ++ failParts

theorem uvWrite_touches (h : Option Handle) (block : Block) (frame : Bytes) (owner : Option Nat)
    (buf error : Nat) :
    Touches sendParts w (w.uvWrite h block frame owner buf error).2 := by
  cases h with
  | none => exact .of [.crash .deadStream] rfl rfl
  | some h =>
    have hlog : Touches sendParts w (w.log (.uvWrite h frame)) :=
      .of [.log (.uvWrite h frame)] rfl rfl
    simp only [uvWrite]
    split
    · exact hlog.step (.crash .deadStream) (by simp)
    · split
      · exact hlog.step (.crash .deadStream) (by simp)
      · split
        · exact hlog
        · split
          · exact hlog.step (.request ⟨block, .write, h, owner, buf⟩) (by simp)
          · exact hlog

theorem failSend_touches (error : LuaValue) : Touches failParts w (w.failSend error) :=
  w.shiftAndReport_touches _ _ _ (List.subset_cons_self _ _)
    fun _ => .of [.log (.raised (.error error))] rfl rfl

theorem sendCommand_touches (subMode : Bool) (frame : Bytes) (owner : Option Nat)
    (buf error : Nat) :
    Touches sendParts w (w.sendCommand subMode frame owner buf error) := by
  have hfail : ∀ w : World, ∀ {error}, Touches sendParts w (w.failSend error) := fun w error =>
    (w.failSend_touches error).mono (List.subset_append_right _ _)
  unfold sendCommand
  split
  · have halloc : Touches sendParts w { w with uv := w.uv.reqAlloc.2 } :=
      .of [.reqAlloc] rfl rfl
    generalize w.uv.reqAlloc = r at halloc ⊢
    obtain ⟨req, uv⟩ := r
    dsimp only at halloc ⊢
    have hwrite := halloc.trans (uvWrite_touches _ (if subMode then w.cc.subStream else w.cc.stream)
      req frame owner buf error)
    generalize { w with uv }.uvWrite _ req frame owner buf error = r at hwrite ⊢
    obtain ⟨r, w₂⟩ := r
    dsimp only at hwrite ⊢
    split
    · exact hwrite
    · have hfree : Touches sendParts w (if r = 0 then w₂.freeCmd buf else w₂) := by
        split
        · exact hwrite.step (.log (.freeCmd buf)) (by simp)
        · exact hwrite
      generalize (if r = 0 then w₂.freeCmd buf else w₂) = w₃ at hfree ⊢
      split
      · exact (hfree.step (.reqFree req) (by simp)).trans (hfail _)
      · exact hfree
  · exact (Touches.refl.step (.log (.freeCmd buf)) (by simp)).trans (hfail _)

@[simp] def commandParts : List Part :=
  [.obs .command, .nextCmd, .fault, .obs .raised] ++ registerParts ++ sendParts

theorem luaClientCommand_touches (args : List LuaArg) (env : SendEnv) :
    Touches commandParts w (w.luaClientCommand args env) := by
  unfold luaClientCommand
  split
  next e _ => exact .of [.log (.raised e)] rfl rfl
  next f _ => exact .of [.crash f] rfl rfl
  next argv timers _ =>
    refine Touches.trans ?_ ((sendCommand_touches _ _ _ _ _ _).mono (by simp))
    refine Touches.trans ?_ ((registerCommand_touches _ _ _ _ _ _).mono (by simp))
    exact .of [.log (.command (classify (argv.headD [])) argv timers (callbackOf args) w.heap.next),
      .nextCmd (w.nextCmd + 1), .log (.mallocCmd w.nextCmd)] rfl rfl

/-! ## Dispatch -/

@[simp] def confirmParts : List Part :=
  [.fault, .reqAlloc, .timerStart, .timerData, .slots, .top, .frame .lua,
    .obs (.call .confirmation)]

/-- The parts touched on the way to the slots of a callback. -/
@[simp] def startTimerParts : List Part := [.fault, .reqAlloc, .timerStart, .timerData, .top]

theorem startTimer_touches (ikey : UInt64) : Touches startTimerParts w (w.startTimer ikey) := by
  have htop : Touches startTimerParts w { w with lua.top := w.lua.top + 1 } :=
    .of [.top (w.lua.top + 1)] rfl rfl
  unfold startTimer
  dsimp only
  split
  · exact htop.step (.crash .searchTimerAssert) (by simp)
  next leaf _ =>
    exact ((htop.step .reqAlloc (by simp)).step (.timerStart w.uv.reqAlloc.1 ikey)
      (by simp)).step (.timerData leaf w.uv.reqAlloc.1) (by simp)

theorem confirmChannel_touches (sname : Bytes) (ch : Channel) (isDone : Bool) :
    Touches startTimerParts w (confirmChannel sname ch isDone w).2.2 := by
  unfold confirmChannel
  split
  · exact .refl
  · split
    · exact .refl
    · split
      · exact w.startTimer_touches _
      · exact .refl

theorem confirmChannels_touches (sname : Bytes) (chs : List Channel) (isDone : Bool) :
    Touches startTimerParts w (confirmChannels sname chs isDone w).2.2 := by
  induction chs generalizing isDone w with
  | nil => exact .refl
  | cons ch chs ih =>
    exact (w.confirmChannel_touches sname ch isDone).trans (ih _ _)

/-- What the start of timers leaves alone. -/
theorem startTimer_same {w w' : World} (h : Touches startTimerParts w w') :
    w'.cc.ignoreSubCmdReply = w.cc.ignoreSubCmdReply ∧ w'.lua.slots = w.lua.slots ∧
      w'.heap = w.heap ∧ w'.cc.channels = w.cc.channels ∧ w'.cc.patterns = w.cc.patterns ∧
      w'.trace = w.trace ∧ w'.stack = w.stack := by
  induction h with
  | refl => exact ⟨rfl, rfl, rfl, rfl, rfl, rfl, rfl⟩
  | step _ u hu ih =>
    cases u <;> simp at hu <;> exact ih

/-- A confirmation changes nothing but the flags of the slots. -/
theorem confirmChannels_flags (sname : Bytes) (chs : List Channel) (isDone : Bool) :
    setFlags chs (confirmChannels sname chs isDone w).1 = (confirmChannels sname chs isDone w).1 := by
  induction chs generalizing isDone w with
  | nil => rfl
  | cons ch chs ih =>
    have hch : { ch with subscribed := (confirmChannel sname ch isDone w).1.subscribed } =
        (confirmChannel sname ch isDone w).1 := by
      unfold confirmChannel
      split
      · rfl
      · split
        · rfl
        · split <;> rfl
    exact congrArg₂ List.cons hch (ih _ _)

/-- Flags that come from the slots of a record replace its slots. -/
theorem slots_eq {w : World} {id : Nat} {c : Callback} {chs : List Channel}
    (hc : w.heap.cb id = some c) (hchs : setFlags c.channels chs = chs) (all : Bool) :
    Update.apply w (.slots id chs all) = { w with
      heap := w.heap.update id fun c =>
        { c with channels := chs, initialized := c.initialized || all } } := by
  simp only [Update.apply, Heap.update, hc, Option.map_some, hchs]

theorem confirmEntry_touches (sname : Bytes) (reply : Reply) (p : CbPtr) :
    Touches confirmParts w (confirmEntry sname reply p w).2 := by
  unfold confirmEntry
  split
  next id c hc =>
    split
    · exact .refl
    · have hstart := w.confirmChannels_touches sname c.channels false
      have hflags := w.confirmChannels_flags sname c.channels false
      generalize confirmChannels sname c.channels false w = r at hstart hflags ⊢
      obtain ⟨chs, isDone, w₁⟩ := r
      have hc₁ : w₁.heap.cb id = some c := by
        rw [(startTimer_same hstart).2.2.1]
        exact hc
      have hslots : Touches confirmParts w
          (Update.apply w₁ (.slots id chs (chs.all Channel.subscribed))) :=
        .step (hstart.mono (by simp)) _ (by simp)
      rw [slots_eq hc₁ hflags] at hslots
      dsimp only
      split
      · exact hslots
      · split
        · split
          · exact hslots.trans ((pcall_touches _ _ _ _).mono (by simp))
          · exact hslots.step (.crash .nullElement) (by simp)
        · exact hslots
  · exact .of [.crash .deadCallback] rfl rfl

theorem confirm_touches (sname : Bytes) (reply : Reply) (list : CallbackEnds) :
    Touches confirmParts w (confirm sname reply list w) := by
  induction list generalizing w with
  | nil => exact .refl
  | cons p ps ih =>
    have hentry := w.confirmEntry_touches sname reply p
    unfold confirm
    generalize confirmEntry sname reply p w = r at hentry ⊢
    obtain ⟨found, w'⟩ := r
    cases found with
    | true => exact hentry
    | false =>
      dsimp only at hentry ⊢
      split
      · exact hentry
      · exact hentry.trans (ih w')

theorem callEntry_touches {ks : List Part} (site : Site) (p : CbPtr) (args : Option (List LuaValue))
    (hfault : .fault ∈ ks) (hks : callParts site ⊆ ks) :
    Touches ks w (w.callEntry site p args) := by
  have hcrash : ∀ f, Touches ks w (w.crash f) := fun f => Touches.refl.step (.crash f) hfault
  unfold callEntry
  split
  · exact hcrash _
  · split
    · split
      · exact (w.pcall_touches _ _ _).mono hks
      · exact hcrash _
    · exact (w.pcall_touches _ _ _).mono hks

@[simp] def eventParts : List Part :=
  [.fault, .frame .event, .top, .frame .lua, .obs (.call .event)]

theorem eventLoop_touches (pvariant : Bool) (leaf : Path) (i : Nat) (reply : Reply) :
    Touches eventParts w (w.eventLoop pvariant leaf i reply) := by
  have hcrash : Touches eventParts w (w.crash .deadNode) := .of [.crash .deadNode] rfl rfl
  unfold eventLoop
  split
  · exact hcrash
  · split
    · exact hcrash
    · split
      · exact .refl
      · exact (Touches.refl.step (.push (.event pvariant leaf (i + 1) reply)) (by simp)).trans
          (callEntry_touches _ _ _ _ (by simp) (by simp))

@[simp] def subReplyParts : List Part := confirmParts ++ eventParts

theorem getAndCallSubCb_touches (reply : Reply) :
    Touches subReplyParts w (w.getAndCallSubCb reply) := by
  have hcrash : ∀ f, Touches subReplyParts w (w.crash f) := fun f => .of [.crash f] rfl rfl
  unfold getAndCallSubCb
  split
  next stype element₁ _ =>
    dsimp only
    generalize (if isPvariant stype then stype.drop 1 else stype) = base
    split
    · exact .refl
    · split
      next sname =>
        split
        · exact hcrash _
        · split
          · exact hcrash _
          · split
            · exact hcrash _
            · split
              · exact (w.confirm_touches _ _ _).mono (by simp)
              · exact (w.eventLoop_touches _ _ _ _).mono (by simp)
      · exact hcrash _
  · exact hcrash _
  · exact hcrash _
  · exact .refl

@[simp] def timerParts : List Part :=
  [.fault, .frame .timer, .top, .frame .lua, .obs (.call .timer)]

theorem timerLoop_touches (leaf : Path) (i : Nat) (rep timeout : UInt64) :
    Touches timerParts w (w.timerLoop leaf i rep timeout) := by
  have hcrash : Touches timerParts w (w.crash .deadNode) := .of [.crash .deadNode] rfl rfl
  unfold timerLoop
  split
  · exact hcrash
  · split
    · exact hcrash
    · split
      · exact .refl
      · exact (Touches.refl.step (.push (.timer leaf (i + 1) rep timeout)) (by simp)).trans
          (callEntry_touches _ _ _ _ (by simp) (by simp))

theorem onTimer_touches (rep timeout : UInt64) : Touches timerParts w (w.onTimer rep timeout) := by
  unfold onTimer
  split
  · exact .refl
  · split
    · exact .of [.crash .searchTimerAssert] rfl rfl
    · exact w.timerLoop_touches _ _ _ _

/-! ## libuv callbacks -/

@[simp] def readErrorParts : List Part :=
  [.bufs, .frame .closeStream] ++ callParts .error ++ closeParts

theorem onReadError_touches (h : Handle) (nread : Int) :
    Touches readErrorParts w (w.onReadError h nread) := by
  unfold onReadError
  dsimp only
  split
  · exact (Touches.refl.step (.bufs w.bufs.alloc.2) (by simp)).step (.bufs _) (by simp)
  · have halloc : Touches readErrorParts w { w with bufs := w.bufs.alloc.2 } :=
      .of [.bufs w.bufs.alloc.2] rfl rfl
    split
    · exact (halloc.step (.push (.closeStream h)) (by simp)).trans
        ((pcall_touches _ _ _ _).mono (by simp))
    · exact halloc.trans ((uvClose_touches _ _).mono (by simp))

@[simp] def dispatchParts : List Part :=
  [.shift, .fault, .unref, .frame .readLoop] ++ callParts .reply

/-- What `dispatchReply` does with the reference it ends up with. -/
def deliverReply (w : World) (h : Handle) (cb : LuaRef) (reply : Reply) : World :=
  let w := w.push (.readLoop h false cb)
  match cb with
  | .ref n =>
    let fn := w.lua.slots n
    if readable reply then (w.unref cb).pcall .reply fn [.nil, pushReply reply]
    else w.crash .nullElement
  | _ => w

theorem dispatchReply_cases (w : World) (h : Handle) (cb : LuaRef) (reply : Reply) :
    shiftCb w.cc.commandCbList w.heap = .empty ∧
        w.dispatchReply h cb reply = w.deliverReply h cb reply ∨
      (∃ list, shiftCb w.cc.commandCbList w.heap = .dead list ∧
        w.dispatchReply h cb reply =
          { w with cc.commandCbList := list }.crash .deadCallback) ∨
      ∃ list target heap, shiftCb w.cc.commandCbList w.heap = .ok list target heap ∧
        w.dispatchReply h cb reply =
          { w with cc.commandCbList := list, heap }.deliverReply h target.ref reply := by
  unfold dispatchReply
  dsimp only
  split
  next heq => exact .inl ⟨heq, rfl⟩
  next list heq => exact .inr (.inl ⟨list, heq, rfl⟩)
  next list target heap heq => exact .inr (.inr ⟨list, target, heap, heq, rfl⟩)

theorem deliverReply_touches (h : Handle) (cb : LuaRef) (reply : Reply) :
    Touches dispatchParts w (w.deliverReply h cb reply) := by
  have hpush : Touches dispatchParts w (w.push (.readLoop h false cb)) :=
    .of [.push (.readLoop h false cb)] rfl rfl
  unfold deliverReply
  cases cb with
  | noref => exact hpush
  | refnil => exact hpush
  | ref n =>
    dsimp only
    split
    · exact (hpush.step (.unref _) (by simp)).trans ((pcall_touches _ _ _ _).mono (by simp))
    · exact hpush.step (.crash .nullElement) (by simp)

theorem dispatchReply_touches (h : Handle) (cb : LuaRef) (reply : Reply) :
    Touches dispatchParts w (w.dispatchReply h cb reply) := by
  have hspec := w.shift_spec
  have hshift : Touches dispatchParts w w.shift := .of [.shift] rfl rfl
  obtain ⟨-, heq⟩ | ⟨list, hlist, heq⟩ | ⟨list, target, heap, hlist, heq⟩ :=
    w.dispatchReply_cases h cb reply
  · rw [heq]
    exact w.deliverReply_touches h cb reply
  · simp only [hlist] at hspec
    rw [heq, ← hspec.1]
    exact hshift.step (.crash .deadCallback) (by simp)
  · simp only [hlist] at hspec
    rw [hspec.1] at hshift
    rw [heq]
    exact hshift.trans (deliverReply_touches _ h target.ref reply)

theorem readerFailed_touches : Touches [.fault] w w.readerFailed := by
  unfold readerFailed
  split
  · exact .of [.crash .nullElement] rfl rfl
  · exact .refl

@[simp] def readLoopParts : List Part :=
  [.fault, .reader, .appendStack, .stream .readStop, .obs .reply, .frame .readLoop] ++
    subReplyParts ++ dispatchParts

theorem readLoop_touches (h : Handle) (subMode : Bool) (cb : LuaRef) :
    Touches readLoopParts w (w.readLoop h subMode cb) := by
  unfold readLoop
  split
  · exact .of [.crash .deadClient] rfl rfl
  generalize redisReaderGetReply w.cc.reader = r
  obtain ⟨reader, status, reply⟩ := r
  have hreader : Touches readLoopParts w { w with cc.reader := reader } :=
    .of [.reader reader] rfl rfl
  cases status with
  | err => exact hreader.trans ((readerFailed_touches _).mono (by simp))
  | ok =>
    cases reply with
    | none =>
      dsimp only
      split
      · exact hreader
      · have hlist : Touches readLoopParts w
            (if w.cc.flags.monitoring then
              { w with cc.reader := reader, cc.commandCbList := w.cc.commandCbList ++ [.stack] }
            else { w with cc.reader := reader }) := by
          split
          · exact hreader.step .appendStack (by simp)
          · exact hreader
        generalize (if w.cc.flags.monitoring then _ else _) = w₁ at hlist ⊢
        split
        · exact hlist.step (.stream .readStop h) (by simp)
        · exact hlist
    | some reply =>
      have hlog := hreader.step (.log (.reply subMode reply)) (by simp)
      dsimp only
      split
      · have hpush := hlog.step (.push (.readLoop h subMode cb)) (by simp)
        split
        · exact hpush
        · exact hpush.trans ((getAndCallSubCb_touches _ _).mono (by simp))
      · exact hlog.trans ((dispatchReply_touches _ _ _ _).mono (by simp))

@[simp] def onReadParts : List Part :=
  [.bufs, .stream .readStop, .obs .fed, .obs .feedError, .frame .bufFree, .frame .readLoop,
    .reader] ++ callParts .error

theorem onRead_touches (h : Handle) (data : Bytes) (cb : LuaRef) :
    Touches onReadParts w (w.onRead h data cb) := by
  unfold onRead
  dsimp only
  have halloc : Touches onReadParts w { w with bufs := w.bufs.alloc.2 } :=
    .of [.bufs w.bufs.alloc.2] rfl rfl
  split
  · exact halloc.step (.bufs _) (by simp)
  · split
    · split
      · exact halloc.step (.stream .readStop h) (by simp)
      · exact halloc
    · have hfed := halloc.step (.log (.fed (decide (w.cc.subStream = some h)) data)) (by simp)
      split
      · have herr := hfed.step (.log (.feedError (decide (w.cc.subStream = some h))
          w.cc.reader.errstr)) (by simp)
        split
        · exact (herr.step (.push (.bufFree w.bufs.alloc.1)) (by simp)).trans
            ((pcall_touches _ _ _ _).mono (by simp))
        · exact herr.step (.bufs _) (by simp)
      next reader _ =>
        exact ((hfed.step (.reader reader) (by simp)).step (.bufs _) (by simp)).step
          (.push (.readLoop h (decide (w.cc.subStream = some h)) cb)) (by simp)

@[simp] def onWriteParts : List Part :=
  [.stream .data, .reqFree, .stream .readStart] ++ shiftParts .writeError

theorem onWrite_touches (req : Request) (status readStart : Int) :
    Touches onWriteParts w (w.onWrite req status readStart) := by
  have hfree : Touches onWriteParts w ({ w with
      uv := w.uv.setStream req.handle fun s => { s with data := true } }.reqFree req.block) :=
    .of [.stream .data req.handle, .reqFree req.block] rfl rfl
  have hshift : ∀ (w : World) error,
      Touches onWriteParts w (w.shiftAndReport .writeError error id) := fun w error =>
    w.shiftAndReport_touches _ _ _ (List.subset_append_right _ _) fun _ => .refl
  unfold onWrite
  dsimp only
  split
  · exact hfree.trans (hshift _ _)
  · split
    · exact hfree.trans (hshift _ _)
    · exact hfree.step (.stream .readStart req.handle) (by simp)

@[simp] def onConnectParts : List Part :=
  [.reqFree, .streamFlags, .raise .connected] ++ callParts .error ++ callParts .connect ++
    closeParts

theorem onConnect_touches (req : Request) (status : Int) :
    Touches onConnectParts w (w.onConnect req status) := by
  have hfree : Touches onConnectParts w (w.reqFree req.block) :=
    .of [.reqFree req.block] rfl rfl
  unfold onConnect
  dsimp only
  split
  · split
    · exact hfree.trans ((pcall_touches _ _ _ _).mono (by simp))
    · exact hfree.trans ((uvClose_touches _ _).mono (by simp))
  · generalize (if !(w.reqFree req.block).cc.streamFlags.stream then _ else _) = sf
    have hsf := hfree.step (.streamFlags sf) (by simp)
    split
    · exact (hsf.step (.raise .connected) (by simp)).trans
        ((callHandler_touches _ _ _ _).mono (by simp))
    · exact hsf

@[simp] def freeStreamParts : List Part := [.stream .free, .obs .freed]

theorem freeStream_touches (h : Handle) : Touches freeStreamParts w (w.freeStream h) :=
  .of [.stream .free h, .log (.freed h)] rfl rfl

@[simp] def teardownParts : List Part :=
  [.raise .freeing, .obs .teardown] ++ destroyAllParts ++ callParts .disconnect

theorem teardown_touches : Touches teardownParts w w.teardown := by
  have hflags : Touches teardownParts w { w with cc.flags.freeing := true } :=
    .of [.raise .freeing] rfl rfl
  exact ((hflags.trans ((destroyAll_touches _).mono (by simp))).step (.log .teardown) (by simp)).trans
    ((callHandler_touches _ _ _ _).mono (by simp))

@[simp] def onDisconnectParts : List Part :=
  [.fault, .streamFlags] ++ freeStreamParts ++ teardownParts

theorem onDisconnect_touches (h : Handle) : Touches onDisconnectParts w (w.onDisconnect h) := by
  have hfree : Touches onDisconnectParts w (w.freeStream h) :=
    (w.freeStream_touches h).mono (by simp)
  unfold onDisconnect
  dsimp only
  split
  · exact hfree.step (.crash .deadStream) (by simp)
  · generalize (if (w.freeStream h).cc.streamFlags.stream then _ else _) = sf
    have hsf := hfree.step (.streamFlags sf) (by simp)
    split
    · exact hsf.trans ((teardown_touches _).mono (by simp))
    · exact hsf

/-! ## API functions -/

@[simp] def onParts : List Part := [.ref, .unref, .handlers]

theorem luaClientOn_touches (event : Bytes) (fn : Fn) :
    Touches onParts w (w.luaClientOn event fn) := by
  have href : Touches onParts w { w with lua := (w.lua.ref fn).2 } := .of [.ref fn] rfl rfl
  unfold luaClientOn
  dsimp only
  split
  · exact href.step (.handlers w.cc.rConnectCb _ w.cc.rDisconnectCb) (by simp)
  · split
    · exact href.step (.handlers _ w.cc.rErrorCb w.cc.rDisconnectCb) (by simp)
    · split
      · exact href.step (.handlers w.cc.rConnectCb w.cc.rErrorCb _) (by simp)
      · exact href.step (.unref _) (by simp)

@[simp] def connectParts : List Part :=
  [.fault, .newStream, .handles, .clearFlags, .obs .connect, .reqAlloc, .request .connect]

theorem uvPipeConnect_touches (h : Handle) :
    Touches [.reqAlloc, .request .connect] w (w.uvPipeConnect h) :=
  .of [.reqAlloc, .request ⟨w.uv.reqAlloc.1, .connect, h, none, 0⟩] rfl rfl

theorem luaClientConnect_touches : Touches connectParts w w.luaClientConnect := by
  unfold luaClientConnect
  split
  · exact .of [.crash .deadClient] rfl rfl
  · dsimp only
    refine Touches.trans ?_ ((uvPipeConnect_touches _ _).mono (by simp))
    refine Touches.trans ?_ ((uvPipeConnect_touches _ _).mono (by simp))
    exact .of [.newStream, .newStream,
      .handles (some w.uv.nextHandle) (some (w.uv.nextHandle + 1)), .clearFlags,
      .log (.connect w.uv.nextHandle (w.uv.nextHandle + 1))] rfl rfl

@[simp] def disconnectParts : List Part :=
  [.raise .disconnecting, .stream .data] ++ closeParts

theorem setData_touches (h : Option Handle) : Touches disconnectParts w (w.setData h) :=
  w.onStream_touches h _ (by simp) fun h _ =>
    .of [.stream .data h] rfl rfl

theorem luaClientDisconnect_touches : Touches disconnectParts w w.luaClientDisconnect := by
  unfold luaClientDisconnect
  dsimp only
  split
  · exact .refl
  · have hdata := (w.setData_touches w.cc.stream).trans (setData_touches _ w.cc.subStream)
    split
    · exact hdata
    · have hclose := hdata.trans ((uvClose_touches _
        ((w.setData w.cc.stream).setData w.cc.subStream).cc.stream).mono (by simp))
      split
      · exact hclose
      · exact (hclose.trans ((uvClose_touches _ _).mono (by simp))).step (.raise .disconnecting) (by simp)

@[simp] def exitParts : List Part :=
  [.unref, .streamFlags, .exited] ++ closeParts ++ destroyAllParts ++ freeStreamParts

theorem exitStream_touches (h : Option Handle) : Touches exitParts w (w.exitStream h) :=
  w.onStream_touches h _ (by simp) fun h _ => (w.freeStream_touches h).mono (by simp)

theorem luaClientExit_touches : Touches exitParts w w.luaClientExit := by
  have hclose : ∀ (w : World) h, Touches exitParts w (w.uvClose h) :=
    fun w h => (w.uvClose_touches h).mono (by simp)
  unfold luaClientExit
  dsimp only
  split
  · exact hclose _ _
  · have hboth := (hclose w w.cc.stream).trans (hclose _ (w.uvClose w.cc.stream).cc.subStream)
    split
    · exact hboth
    · refine Touches.trans ?_ (exitStream_touches _ _)
      refine Touches.trans ?_ (exitStream_touches _ _)
      refine Touches.trans ?_ ((destroyAll_touches _).mono (by simp))
      exact ((((hboth.step (.unref _) (by simp)).step (.unref _) (by simp)).step (.unref _)
        (by simp)).step (.streamFlags .none) (by simp)).step .exited (by simp)

/-! ## Steps -/

/-- The footprint of a method. -/
@[simp] def apiParts : ApiCall → List Part
  | .on .. => onParts
  | .connect => connectParts
  | .command .. => commandParts
  | .disconnect => disconnectParts
  | .exit => exitParts

theorem api_touches (c : ApiCall) : Touches (apiParts c) w (w.api c) := by
  cases c with
  | on event fn => exact w.luaClientOn_touches event fn
  | connect => exact w.luaClientConnect_touches
  | command args env => exact w.luaClientCommand_touches args env
  | disconnect => exact w.luaClientDisconnect_touches
  | exit => exact w.luaClientExit_touches

/-- The footprint of a frame that goes on. -/
@[simp] def resumeParts : FrameTag → List Part
  | .lua => []
  | .readLoop => readLoopParts
  | .closeStream => closeParts
  | .bufFree => [.bufs]
  | .event => eventParts
  | .timer => timerParts

theorem resume_touches (f : Frame) : Touches (resumeParts f.tag) w (w.resume f) := by
  cases f with
  | lua site top => exact .refl
  | readLoop h subMode cb => exact w.readLoop_touches h subMode cb
  | closeStream h => exact w.uvClose_touches (some h)
  | bufFree buf => exact .of [.bufs (w.bufs.free buf)] rfl rfl
  | event pvariant leaf i reply => exact w.eventLoop_touches pvariant leaf i reply
  | timer leaf i rep timeout => exact w.timerLoop_touches leaf i rep timeout

/-- `on_connect` after libuv's part of it. -/
def connectCompleted (req : Request) (status : Int) : World :=
  (w.uvConnected req.handle status).onConnect req status

@[simp] def connectCompletedParts : List Part :=
  [.stream .connect, .obs .connected] ++ onConnectParts

theorem connectCompleted_touches (req : Request) (status : Int) :
    Touches connectCompletedParts w (w.connectCompleted req status) := by
  refine Touches.trans ?_ ((onConnect_touches _ req status).mono (by simp))
  unfold uvConnected
  split
  · exact .refl
  · exact .of [.stream .connect req.handle, .log (.connected req.handle)] rfl rfl

end World

/-- What one event does, with the conditions under which it is enabled. -/
inductive Steps (w : World) : Event → World → Prop
  | api (c : ApiCall) : w.luaRuns = true → Steps w (.api c) (w.api c)
  | ret {site : Site} {top : Int} {rest : List Frame} (ok : Bool) :
      w.stack = .lua site top :: rest →
      Steps w (.ret ok)
        { w with stack := rest, lua.top := top + (if ok then 0 else site.leftover) }
  | resume {f : Frame} {rest : List Frame} :
      w.stack = f :: rest → f.tag ≠ .lua → Steps w .resume ({ w with stack := rest }.resume f)
  | read (h : Handle) (data : Bytes) (cb : LuaRef) :
      w.stack = [] → w.readable? h = true → Steps w (.read h data cb) (w.onRead h data cb)
  | readError (h : Handle) (nread : Int) :
      w.stack = [] → w.readable? h = true → nread < 0 →
      Steps w (.readError h nread) (w.onReadError h nread)
  | written {i : Nat} {req : Request} (status readStart : Int) :
      w.stack = [] → w.uv.requests[i]? = some req → req.kind = .write → status ≤ 0 →
      (((w.uv.streams req.handle).map Stream.closing).getD true = true → readStart < 0) →
      Steps w (.written i status readStart) ((w.finish i).onWrite req status readStart)
  | connected {i : Nat} {req : Request} (status : Int) :
      w.stack = [] → w.uv.requests[i]? = some req → req.kind = .connect → status ≤ 0 →
      (((w.uv.streams req.handle).map Stream.closing).getD true = true → status < 0) →
      Steps w (.connected i status) ((w.finish i).connectCompleted req status)
  | closed {h : Handle} {s : Stream} :
      w.stack = [] → w.uv.streams h = some s → s.closing = true → s.freed = false →
      (∀ req ∈ w.uv.requests, req.handle ≠ h) →
      Steps w (.closed h) ((w.log (.closed h)).onDisconnect h)
  | tick {b : Block} {t : UvTimer} (timeout : UInt64) :
      w.stack = [] → w.uv.timers b = some t → t.active = true →
      Steps w (.tick b timeout) ((w.fired b t).onTimer t.rep timeout)

/-- **Inversion.**  A step is one of these, from a state without a fault. -/
theorem step_cases {w w' : World} {e : Event} (h : w.step e = some w') :
    w.fault = none ∧ Steps w e w' := by
  unfold World.step at h
  split at h
  · cases h
  next hfault =>
    refine ⟨by simpa using hfault, ?_⟩
    cases e <;> dsimp only at h
    case api c =>
      simp only [Option.ite_none_right_eq_some, Option.some.injEq] at h
      obtain ⟨hruns, rfl⟩ := h
      exact .api c hruns
    case ret ok =>
      split at h
      next site top rest hstack =>
        cases h
        exact .ret ok hstack
      · cases h
    case resume =>
      split at h
      · cases h
      · cases h
      next f rest hlua hstack =>
        cases h
        refine .resume hstack ?_
        cases f <;> simp_all
    case read h₁ data cb =>
      simp only [Option.ite_none_right_eq_some, Option.some.injEq, Bool.and_eq_true,
        List.isEmpty_iff] at h
      obtain ⟨⟨hstack, hread⟩, rfl⟩ := h
      exact .read h₁ data cb hstack hread
    case readError h₁ nread =>
      simp only [Option.ite_none_right_eq_some, Option.some.injEq, Bool.and_eq_true,
        List.isEmpty_iff, decide_eq_true_eq] at h
      obtain ⟨⟨⟨hstack, hread⟩, hneg⟩, rfl⟩ := h
      exact .readError h₁ nread hstack hread hneg
    case written i status readStart =>
      split at h
      next req hstack hreq =>
        simp only [Option.ite_none_right_eq_some, Option.some.injEq, Bool.and_eq_true,
          Bool.or_eq_true, decide_eq_true_eq, Bool.not_eq_true'] at h
        obtain ⟨⟨⟨hkind, hstatus⟩, hclosing⟩, rfl⟩ := h
        exact .written status readStart hstack hreq hkind hstatus fun hc =>
          hclosing.resolve_left (by simp [hc])
      · cases h
    case connected i status =>
      split at h
      next req hstack hreq =>
        simp only [Option.ite_none_right_eq_some, Option.some.injEq, Bool.and_eq_true,
          Bool.or_eq_true, decide_eq_true_eq, Bool.not_eq_true'] at h
        obtain ⟨⟨⟨hkind, hstatus⟩, hclosing⟩, rfl⟩ := h
        exact .connected status hstack hreq hkind hstatus fun hc =>
          hclosing.resolve_left (by simp [hc])
      · cases h
    case closed h₁ =>
      split at h
      next s hs =>
        simp only [Option.ite_none_right_eq_some, Option.some.injEq, Bool.and_eq_true,
          List.isEmpty_iff, Bool.not_eq_true', List.all_eq_true, decide_eq_true_eq] at h
        obtain ⟨⟨⟨⟨hstack, hclosing⟩, hfreed⟩, hreqs⟩, rfl⟩ := h
        exact .closed hstack hs hclosing hfreed hreqs
      · cases h
    case tick b timeout =>
      split at h
      next t ht =>
        simp only [Option.ite_none_right_eq_some, Option.some.injEq, Bool.and_eq_true,
          List.isEmpty_iff] at h
        obtain ⟨⟨hstack, hactive⟩, rfl⟩ := h
        exact .tick timeout hstack ht hactive
      · cases h

open World in
/-- The footprint of a step, by the event and the frame on top of the stack. -/
def stepParts (top : Option FrameTag) : Event → List Part
  | .api c => apiParts c
  | .ret _ => [.pop, .top]
  | .resume => .pop :: (top.map resumeParts).getD []
  | .read .. => onReadParts
  | .readError .. => readErrorParts
  | .written .. => .finish :: onWriteParts
  | .connected .. => .finish :: connectCompletedParts
  | .closed _ => .obs .closed :: onDisconnectParts
  | .tick .. => .fired :: timerParts

theorem step_touches {w w' : World} {e : Event} (h : w.step e = some w') :
    Touches (stepParts (w.stack.head?.map Frame.tag) e) w w' := by
  obtain ⟨-, hs⟩ := step_cases h
  cases hs with
  | api c _ => exact w.api_touches c
  | @ret site top rest ok hstack =>
    exact .of [.pop, .top (top + (if ok then 0 else site.leftover))]
      (by simp [Update.apply, hstack]) rfl
  | @resume f rest hstack _ =>
    have hpop : Update.apply w .pop = { w with stack := rest } := by simp [Update.apply, hstack]
    have hresume : Touches (.pop :: World.resumeParts f.tag) _ _ :=
      (World.resume_touches { w with stack := rest } f).mono (List.subset_cons_self _ _)
    rw [← hpop] at hresume ⊢
    rw [hstack]
    exact (Touches.refl.step .pop List.mem_cons_self).trans hresume
  | read h₁ data cb _ _ => exact w.onRead_touches h₁ data cb
  | readError h₁ nread _ _ _ => exact w.onReadError_touches h₁ nread
  | @written i req status readStart _ _ _ _ _ =>
    exact (Touches.refl.step (.finish i) List.mem_cons_self).trans
      ((World.onWrite_touches _ _ _ _).mono (List.subset_cons_self _ _))
  | @connected i req status _ _ _ _ _ =>
    exact (Touches.refl.step (.finish i) List.mem_cons_self).trans
      ((World.connectCompleted_touches _ _ _).mono (List.subset_cons_self _ _))
  | @closed h₁ s _ _ _ _ _ =>
    exact (Touches.refl.step (.log (.closed h₁)) List.mem_cons_self).trans
      ((World.onDisconnect_touches _ _).mono (List.subset_cons_self _ _))
  | @tick b t timeout _ _ _ =>
    exact (Touches.refl.step (.fired b t) List.mem_cons_self).trans
      ((World.onTimer_touches _ _ _).mono (List.subset_cons_self _ _))

/-! ## The trace -/

theorem Update.apply_trace (w : World) (u : Update) : w.trace <+: (u.apply w).trace := by
  cases u with
  | log o => exact List.prefix_append _ _
  | names p t => cases p <;> exact List.prefix_rfl
  | _ => exact List.prefix_rfl

theorem Touches.trace {ks : List Part} {w w' : World} (h : Touches ks w w') :
    w.trace <+: w'.trace := by
  induction h with
  | refl => exact List.prefix_rfl
  | step _ u _ ih => exact ih.trans (u.apply_trace _)

/-- No step takes anything back. -/
theorem step_trace {w w' : World} {e : Event} (h : w.step e = some w') : w.trace <+: w'.trace :=
  (step_touches h).trace

theorem run_trace {w w' : World} {es : List Event} (h : runs w es = some w') :
    w.trace <+: w'.trace :=
  (Transition.runsUnder_true h).invariant (I := fun v => w.trace <+: v.trace)
    (fun _ _ _ hi hst _ => hi.trans (step_trace hst)) List.prefix_rfl

theorem Reachable.extend {w w' : World} {e : Event} (h : Reachable w) (hstep : w.step e = some w') :
    Reachable w' := by
  obtain ⟨ignore, hreach⟩ := h
  exact ⟨ignore, hreach.extend hstep⟩

end CrazySnail
