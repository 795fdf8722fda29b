import CrazySnail.Verified.Confirming
import CrazySnail.Verified.Handling
import CrazySnail.Verified.Initialized
import CrazySnail.Verified.RequestPool
import CrazySnail.Verified.Wrappers

/-! # Request blocks

One free list serves connect requests, write requests and timer handles.  `Owned` says that
no block on it is held by libuv, and that no block is held twice.  A teardown that stops a
timer breaks it, since a stopped handle is not closed, and so does a write that is accepted
while the client is ending; all other steps keep it (`blocksOwned`).
-/

namespace CrazySnail

open FreeListPool SearchTree Transition World

/-! ## Ownership -/

namespace World

/-- libuv uses the block: as a request that has not completed, or as a timer handle, which
    is never closed. -/
def Held (w : World) (b : Block) : Prop :=
  (∃ r ∈ w.uv.requests, r.block = b) ∨ (w.uv.timers b).isSome = true

end World

/-- Every block that is free occurs once, and libuv does not use it; nor are two requests,
    or a request and a timer, in one block. -/
structure BlocksOwned (w : World) : Prop where
  once : w.uv.reqFreelist.Nodup
  released : ∀ b ∈ w.uv.reqFreelist, ¬w.Held b
  alloc : ¬w.Held w.uv.reqAlloc.1 ∧ w.uv.reqAlloc.1 ∉ w.uv.reqAlloc.2.reqFreelist
  requests : (w.uv.requests.map Request.block).Nodup
  timers : ∀ r ∈ w.uv.requests, w.uv.timers r.block = none

namespace World

/-- The close callback of this handle finds the other stream of the client closed. -/
def TearsDown (w : World) (h : Handle) : Prop :=
  ((w.uv.streams h).map Stream.data).getD false = true ∧
    ¬(w.cc.streamFlags.stream = true ∧ w.cc.streamFlags.subStream = true)

end World

/-- A teardown stops no timer, and a write is accepted only while the client is not ending. -/
def ReleasesHeld (w : World) (e : Event) (_ : World) : Prop :=
  match e with
  | .closed h => w.TearsDown h → ∀ v ∈ w.nodes, v.data = none
  | .api .exit => BothOpen w.handling → ∀ v ∈ w.nodes, v.data = none
  | .api (.command args env) => ∀ argv timers, collect args = .ok argv timers →
      w.sending.ending = true → ¬w.sending.Accepts (classify (argv.headD [])).subMode env.error
  | _ => True

/-- What is left of a world for somebody who looks at the blocks only. -/
structure Blocks where
  pool : FreeList
  requests : List Block
  /-- the handles that have been initialised -/
  timers : Block → Bool

def World.blocks (w : World) : Blocks where
  pool := w.uv.pool
  requests := w.uv.requests.map Request.block
  timers b := (w.uv.timers b).isSome

namespace Blocks

/-- Every block has one owner at most: libuv, or a function that is running. -/
def Owned (v : Blocks) (held : List Block) : Prop :=
  ∃ ts : List Block, (∀ b, b ∈ ts ↔ v.timers b = true) ∧ v.pool.Exclusive (held ++ v.requests ++ ts)

def timer (v : Blocks) (b : Block) : Blocks := { v with timers := Function.update v.timers b true }

variable {v : Blocks} {b : Block}

theorem Owned.alloc (h : v.Owned []) : { v with pool := v.pool.alloc.2 }.Owned [v.pool.alloc.1] := by
  obtain ⟨ts, hts, howned⟩ := h
  exact ⟨ts, hts, howned.alloc⟩

/-- A timer is initialised. -/
theorem Owned.timer (h : v.Owned [b]) : (v.timer b).Owned [] := by
  obtain ⟨ts, hts, howned⟩ := h
  refine ⟨b :: ts, fun x => ?_, howned.perm List.perm_middle.symm⟩
  simp only [Blocks.timer, Function.update_apply, List.mem_cons, hts]
  by_cases hx : x = b <;> simp [hx]

end Blocks

/-! ## Frames -/

/-- The parts that matter to the blocks. -/
def blocksParts : List Part :=
  [.reqAlloc, .reqFree, .request .connect, .request .write, .timerStart, .finish, .fired]

theorem Update.apply_blocks (w : World) (u : Update) (hu : u.part ∉ blocksParts) :
    (u.apply w).blocks = w.blocks := by
  cases u with
  | names p t => cases p <;> rfl
  | timerStop b =>
    have htimers : ∀ x, (Function.update w.uv.timers b ((w.uv.timers b).map UvTimer.stop) x).isSome =
        (w.uv.timers x).isSome := fun x => by
      rw [Function.update_apply]
      split
      next heq => rw [heq, Option.isSome_map]
      · rfl
    simp only [apply, World.blocks, htimers]
    rfl
  | request r => cases hk : r.kind <;> simp [blocksParts, hk] at hu
  | timerStart | reqAlloc | reqFree | finish | fired => simp [blocksParts] at hu
  | _ => rfl

theorem Touches.blocks {ks : List Part} {w w' : World} (h : Touches ks w w')
    (hks : ks.all (fun k => decide (k ∉ blocksParts)) = true) : w'.blocks = w.blocks :=
  h.same (fun w u hu => u.apply_blocks w hu) hks

namespace World
variable {w : World}

theorem reqAlloc_blocks (w : World) :
    { w with uv := w.uv.reqAlloc.2 }.blocks = { w.blocks with pool := w.blocks.pool.alloc.2 } := by
  obtain ⟨-, hpool, hrequests, htimers⟩ := w.uv.reqAlloc_pool
  simp only [blocks, hpool, hrequests, htimers]

theorem owned_reqAlloc (h : w.blocks.Owned []) :
    { w with uv := w.uv.reqAlloc.2 }.blocks.Owned [w.uv.reqAlloc.1] := by
  rw [reqAlloc_blocks, w.uv.reqAlloc_pool.1]
  exact h.alloc

theorem uvTimerStart_blocks (w : World) (b : Block) (rep : UInt64) :
    (w.uvTimerStart b rep).blocks = w.blocks.timer b := by
  have htimers : (fun x => (Function.update w.uv.timers b (some { rep, active := true }) x).isSome) =
      Function.update (fun x => (w.uv.timers x).isSome) b true := by
    funext x
    rw [Function.update_apply, Function.update_apply]
    split <;> rfl
  simp only [blocks, uvTimerStart, Blocks.timer, htimers]
  rfl

/-- A timer is started in a new block. -/
theorem owned_startTimer (h : w.blocks.Owned []) (ikey : UInt64) :
    (w.startTimer ikey).blocks.Owned [] := by
  unfold startTimer
  dsimp only
  split
  · exact h
  next leaf _ =>
    -- a block comes from the pool, and the timer takes it over
    have halloc := owned_reqAlloc (w := { w with lua.top := w.lua.top + 1 }) h
    have hstart := uvTimerStart_blocks { w with
      lua.top := w.lua.top + 1, uv := w.uv.reqAlloc.2 } w.uv.reqAlloc.1 ikey
    have htimer := halloc.timer
    rw [← hstart] at htimer
    exact htimer

theorem owned_confirmChannels (sname : Bytes) (chs : List Channel) (isDone : Bool)
    (h : w.blocks.Owned []) : (confirmChannels sname chs isDone w).2.2.blocks.Owned [] := by
  induction chs generalizing isDone w with
  | nil => exact h
  | cons ch chs ih =>
    have hone : (confirmChannel sname ch isDone w).2.2.blocks.Owned [] := by
      unfold confirmChannel
      split
      · exact h
      · split
        · exact h
        · split
          · exact owned_startTimer h ch.ikey
          · exact h
    exact ih _ hone

theorem owned_confirm (sname : Bytes) (reply : Reply) (list : CallbackEnds)
    (h : w.blocks.Owned []) : (confirm sname reply list w).blocks.Owned [] := by
  refine confirm_visits (I := fun w => w.blocks.Owned []) (fun w fn args hw => ?_) (fun _ _ hw => hw)
    (fun _ id c _ hw _ _ => owned_confirmChannels sname c.channels false hw) h
  rw [(pcall_touches w .confirmation fn args).blocks rfl]
  exact hw

theorem owned_getAndCallSubCb (reply : Reply) (h : w.blocks.Owned []) :
    (w.getAndCallSubCb reply).blocks.Owned [] := by
  have hdispatched := getAndCallSubCb_dispatched w reply
  generalize w.getAndCallSubCb reply = v at hdispatched ⊢
  cases hdispatched with
  | ignored _ => exact h
  | malformed _ _ => exact h
  | unknown _ _ _ => exact h
  | unused _ _ _ _ _ => exact h
  | confirmation _ _ _ _ _ => exact owned_confirm _ _ _ h
  | event _ _ _ _ _ =>
    rw [(eventLoop_touches _ _ _ _ _).blocks rfl]
    exact h

theorem owned_readLoop (h₁ : Handle) (subMode : Bool) (cb : LuaRef) (h : w.blocks.Owned []) :
    (w.readLoop h₁ subMode cb).blocks.Owned [] := by
  have hround := readLoop_round w h₁ subMode cb
  generalize w.readLoop h₁ subMode cb = v at hround ⊢
  cases hround with
  | ended _ _ =>
    rw [(endRead_touches _ h₁ subMode).blocks rfl]
    exact h
  | reply _ _ =>
    rw [(dispatchReply_touches _ h₁ cb _).blocks rfl]
    exact h
  | subReply _ _ => exact owned_getAndCallSubCb _ h
  | _ => exact h

/-! ## Connecting and sending -/

/-- What keeps the pool whatever the timers are, and initialises none. -/
theorem owned_of_holding {ks : List Part} {w' : World} {held held' : List Block}
    (ht : Touches ks w w') (hks : ks.all (fun k => decide (k ∉ [.timerStart, .fired])) = true)
    (hkeep : ∀ ts, w.Holding held ts → w'.Holding held' ts) (h : w.blocks.Owned held) :
    w'.blocks.Owned held' := by
  obtain ⟨ts, hts, hheld⟩ := h
  refine ⟨ts, fun b => (hts b).trans (Eq.congr_left ?_).symm, hkeep ts hheld⟩
  refine ht.same (f := fun w => (w.uv.timers b).isSome) (fun w u hu => ?_) hks
  -- the handles that are initialised stay the same
  cases u with
  | names p t => cases p <;> rfl
  | timerStop b' =>
    simp only [Update.apply, Function.update_apply]
    split
    next heq => rw [heq, Option.isSome_map]
    · rfl
  | reqAlloc => simp only [Update.apply, w.uv.reqAlloc_pool.2.2.2]
  | timerStart | fired => simp at hu
  | _ => rfl

/-! ## Teardown -/

/-- Trees without timers are destroyed without a word to libuv. -/
theorem destroyAll_blocks (hdata : ∀ v ∈ w.nodes, v.data = none) :
    w.destroyAll.blocks = w.blocks := by
  refine (destroyAll_rule (I := fun vs v => (∀ x ∈ vs, x.data = none) ∧ v.blocks = w.blocks)
    (fun _ _ _ h => h) (fun x vs v h => ?_) (fun v list h => ⟨h.1, ?_⟩) ⟨hdata, rfl⟩).2
  · refine ⟨fun y hy => h.1 y (List.mem_cons_of_mem x hy), ?_⟩
    simp only [destroyNode, h.1 x List.mem_cons_self]
    exact ((destroyList_touches v x.cbList).blocks rfl).trans h.2
  · exact ((destroyList_touches v list).blocks rfl).trans h.2

/-- What a part of the world tells before the trees are destroyed. -/
theorem nodes_keep {ks : List Part} {v : World} (h : Touches ks w v)
    (hks : ks.all (fun k => decide (k ∉ [.names, .timerTree, .timerData])) = true) :
    v.nodes = w.nodes :=
  h.same (fun w u hu => by
    cases u with
    | names | timerTree | timerData => simp at hu
    | _ => rfl) hks

theorem onDisconnect_eq (w : World) (h : Handle) :
    (w.log (.closed h)).onDisconnect h =
      if !((w.uv.streams h).map Stream.data).getD false then
        ((w.log (.closed h)).freeStream h).crash .deadStream
      else if !(Handling.down w.cc.streamFlags).stream && !(Handling.down w.cc.streamFlags).subStream
      then (Update.apply ((w.log (.closed h)).freeStream h)
        (.streamFlags (Handling.down w.cc.streamFlags))).teardown
      else Update.apply ((w.log (.closed h)).freeStream h)
        (.streamFlags (Handling.down w.cc.streamFlags)) := rfl

/-- With a stream left, a close callback destroys nothing. -/
theorem onDisconnect_quiet {h₁ : Handle} (h : ¬w.TearsDown h₁) :
    Touches (.fault :: beforeTeardown) w ((w.log (.closed h₁)).onDisconnect h₁) := by
  have hfree : Touches (.fault :: beforeTeardown) w ((w.log (.closed h₁)).freeStream h₁) :=
    .of [.log (.closed h₁), .stream .free h₁, .log (.freed h₁)] rfl rfl
  rw [onDisconnect_eq]
  cases hdata : ((w.uv.streams h₁).map Stream.data).getD false with
  | false => exact hfree.step (.crash .deadStream) (by simp)
  | true =>
    -- both streams were up, so one of them still is
    have hup : w.cc.streamFlags.stream = true ∧ w.cc.streamFlags.subStream = true := by
      by_contra hdown
      exact h ⟨hdata, hdown⟩
    simp only [Handling.down, hup, Bool.not_true, Bool.false_eq_true, if_false, if_true,
      Bool.and_false]
    exact hfree.step (.streamFlags _) (by simp)

/-- Without one, it is the teardown. -/
theorem onDisconnect_tearsDown {h₁ : Handle} (h : w.TearsDown h₁) :
    (w.log (.closed h₁)).onDisconnect h₁ = (Update.apply ((w.log (.closed h₁)).freeStream h₁)
      (.streamFlags (Handling.down w.cc.streamFlags))).teardown := by
  obtain ⟨hdata, hdown⟩ := h
  have hboth : (!(Handling.down w.cc.streamFlags).stream &&
      !(Handling.down w.cc.streamFlags).subStream) = true := by
    generalize w.cc.streamFlags = sf at hdown ⊢
    obtain ⟨stream, subStream⟩ := sf
    cases stream <;> cases subStream <;> simp_all [Handling.down]
  rw [onDisconnect_eq, hdata, hboth]
  rfl

/-- A handle is freed, and the trees are destroyed if it was the last one. -/
theorem owned_onDisconnect (h₁ : Handle)
    (hdata : w.TearsDown h₁ → ∀ v ∈ w.nodes, v.data = none) (h : w.blocks.Owned []) :
    ((w.log (.closed h₁)).onDisconnect h₁).blocks.Owned [] := by
  by_cases htears : w.TearsDown h₁
  · obtain ht | ⟨w₁, ht, heq⟩ := onDisconnect_cases w h₁
    · exact ht.blocks rfl ▸ h
    · have hnodes := nodes_keep ht rfl
      have hdestroy := destroyAll_blocks (w := w₁) (hnodes ▸ hdata htears)
      rw [heq, (callHandler_touches _ _ _ _).blocks rfl]
      exact (hdestroy.trans (ht.blocks rfl)) ▸ h
  · exact (onDisconnect_quiet htears).blocks rfl ▸ h

/-- Two handles closed one after the other. -/
theorem bothOpen_of_closed (hfirst : (w.uvClose w.cc.stream).fault.isSome = false)
    (hsecond : ((w.uvClose w.cc.stream).uvClose
      (w.uvClose w.cc.stream).cc.subStream).fault.isSome = false) : BothOpen w.handling := by
  cases hs : w.cc.stream with
  | none =>
    rw [hs] at hfirst
    simp [uvClose, crash_isSome] at hfirst
  | some s =>
    rw [hs] at hfirst hsecond
    cases uvClose_handling w s with
    | stops _ hfault _ =>
      rw [hfault] at hfirst
      cases hfirst
    | done hopen hclose _ =>
      have hss : (w.uvClose (some s)).cc.subStream = w.cc.subStream :=
        congrArg Handling.subStream hclose
      rw [hss] at hsecond
      cases hsub : w.cc.subStream with
      | none =>
        rw [hsub] at hsecond
        simp [uvClose, crash_isSome] at hsecond
      | some ss =>
        rw [hsub] at hsecond
        cases uvClose_handling (w.uvClose (some s)) ss with
        | stops _ hfault _ =>
          rw [hfault] at hsecond
          cases hsecond
        | done hopen' _ _ =>
          rw [hclose, Handling.open_close] at hopen'
          exact ⟨s, ss, hs, hsub, hopen'.1.symm, hopen, hopen'.2⟩

/-- `exit` destroys the trees if it can close both streams. -/
theorem owned_luaClientExit (hdata : BothOpen w.handling → ∀ v ∈ w.nodes, v.data = none)
    (h : w.blocks.Owned []) : w.luaClientExit.blocks.Owned [] := by
  obtain ht | ⟨hfirst, hsecond, w₁, ht, -, ht'⟩ := luaClientExit_cases w
  · exact ht.blocks rfl ▸ h
  · have hnodes := nodes_keep ht rfl
    have hdestroy := destroyAll_blocks (w := w₁)
      (hnodes ▸ hdata (bothOpen_of_closed hfirst hsecond))
    exact (ht'.blocks rfl).trans (hdestroy.trans (ht.blocks rfl)) ▸ h

/-! ## Ticks -/

/-- A timer that fires has been initialised. -/
theorem fired_blocks {b : Block} {t : UvTimer} (ht : w.uv.timers b = some t) :
    (w.fired b t).blocks = w.blocks := by
  have htimers : ∀ x, (Function.update w.uv.timers b
      (some { t with active := decide (t.rep ≠ 0) }) x).isSome = (w.uv.timers x).isSome := fun x => by
    rw [Function.update_apply]
    split
    next heq => rw [heq, ht]; rfl
    · rfl
  simp only [fired, blocks, htimers]
  rfl

end World

/-! ## Runs -/

theorem step_owned {w w' : World} {e : Event} (hstep : w.step e = some w')
    (he : ReleasesHeld w e w') (h : w.blocks.Owned []) : w'.blocks.Owned [] := by
  have htouches := step_touches hstep
  obtain ⟨-, hs⟩ := step_cases hstep
  cases hs with
  | api c _ =>
    cases c with
    | on event fn => exact htouches.blocks rfl ▸ h
    | connect => exact owned_of_holding htouches rfl (fun _ h => h.luaClientConnect) h
    | command args env => exact owned_of_holding htouches rfl (fun _ h => h.luaClientCommand he) h
    | disconnect => exact htouches.blocks rfl ▸ h
    | exit => exact owned_luaClientExit he h
  | ret ok hstack => exact h
  | @resume f rest hstack hlua =>
    have hrest : ({ w with stack := rest } : World).blocks.Owned [] := h
    have htouches := resume_touches { w with stack := rest } f
    cases f with
    | readLoop h₁ subMode cb => exact owned_readLoop h₁ subMode cb hrest
    | lua site top => exact absurd rfl hlua
    | _ => exact htouches.blocks rfl ▸ hrest
  | read h₁ data cb _ _ => exact (onRead_touches w h₁ data cb).blocks rfl ▸ h
  | readError h₁ nread _ _ _ => exact (onReadError_touches w h₁ nread).blocks rfl ▸ h
  | @written i req status readStart _ hreq _ _ _ =>
    exact owned_of_holding htouches rfl (fun _ h => (h.finish hreq).onWrite status readStart) h
  | @connected i req status _ hreq _ _ _ =>
    exact owned_of_holding htouches rfl (fun _ h => h.connectCompleted hreq status) h
  | @closed h₁ s _ _ _ _ _ => exact owned_onDisconnect h₁ he h
  | @tick b t timeout _ ht _ =>
    rw [(onTimer_touches _ _ _).blocks rfl, fired_blocks ht]
    exact h

theorem BlocksOwned.of_owned {w : World} (h : w.blocks.Owned []) : BlocksOwned w := by
  obtain ⟨ts, hts, howned⟩ := h
  have hheld : ∀ b, w.Held b → b ∈ [] ++ w.blocks.requests ++ ts := by
    rintro b (⟨r, hr, rfl⟩ | htimer)
    · exact List.mem_append_left _ (List.mem_map_of_mem hr)
    · exact List.mem_append_right _ ((hts b).mpr htimer)
  have hnodup := List.nodup_append.mp howned.nodup
  have hlists := List.nodup_append.mp hnodup.2.1
  obtain ⟨hfresh, hgone⟩ := howned.alloc_fresh
  obtain ⟨hblock, hpool, -⟩ := w.uv.reqAlloc_pool
  refine ⟨hnodup.1, fun b hb h => howned.not_held_of_free hb (hheld b h), ⟨fun h => ?_, ?_⟩,
    hlists.1, fun r hr => ?_⟩
  · rw [hblock] at h
    exact hfresh (hheld _ h)
  · have hfree : w.uv.reqAlloc.2.reqFreelist = w.uv.pool.alloc.2.free := congrArg FreeList.free hpool
    rw [hblock, hfree]
    exact hgone
  · cases htimer : w.uv.timers r.block with
    | none => rfl
    | some t =>
      have hmem : r.block ∈ ts := (hts _).mpr (by simp [blocks, htimer])
      exact absurd rfl (hlists.2.2 _ (List.mem_map_of_mem hr) _ hmem)

/-- **Request blocks are exclusively owned** in every run that stops no timer by a teardown
    and whose commands are written while the client is not ending, or not at all. -/
theorem blocksOwned {ignoreSubCmdReply : Bool} {w : World} {es : List Event}
    (hrun : RunsUnder World.step ReleasesHeld (World.new ignoreSubCmdReply) es w) :
    BlocksOwned w := by
  have howned : w.blocks.Owned [] := hrun.invariant (I := fun v => v.blocks.Owned [])
    (fun _ _ _ h hstep he => step_owned hstep he h)
    ⟨[], fun b => ⟨nofun, nofun⟩, List.nodup_nil, nofun⟩
  exact .of_owned howned

def releasesCheck (w : World) : Event → Bool
  | .closed _ => w.nodes.all fun v => v.data.isNone
  | .api .exit => w.nodes.all fun v => v.data.isNone
  | .api (.command _ _) => !w.sending.ending
  | _ => true

theorem releasesHeld_of_check {w w' : World} {e : Event} (h : releasesCheck w e = true) :
    ReleasesHeld w e w' := by
  have hdata : (w.nodes.all fun v => v.data.isNone) = true → ∀ v ∈ w.nodes, v.data = none :=
    fun hall v hv => Option.isNone_iff_eq_none.mp (List.all_eq_true.mp hall v hv)
  cases e with
  | api c =>
    cases c with
    | command args env =>
      intro _ _ _ hending
      rw [releasesCheck, hending] at h
      cases h
    | exit => exact fun _ => hdata h
    | _ => trivial
  | closed h₁ => exact fun _ => hdata h
  | _ => trivial

/-- A connection with a command, a teardown, and a new connection in its blocks. -/
def reconnected : List Event :=
  [.api .connect, .connected 0 0, .connected 0 0,
   .api (.command [.string (ascii "ping"), .function 1] ⟨0, false⟩), .written 0 0 0,
   .api .disconnect, .closed 0, .closed 1, .api .connect]

theorem blocksOwned_reconnected :
    ∃ w, runs (World.new true) reconnected = some w ∧ BlocksOwned w ∧
      w.uv.requests.map Request.block = [1, 0] ∧ w.uv.reqFreelist = [] := by
  have hrun : (runChecked World.step releasesCheck (World.new true) reconnected).map
      (fun w => (w.uv.requests.map Request.block, w.uv.reqFreelist)) = some ([1, 0], []) := by
    decide +kernel
  obtain ⟨w, hw, hstate⟩ := Option.map_eq_some_iff.mp hrun
  have hunder := runsUnder_of_checked (C := ReleasesHeld)
    (fun _ _ _ h _ => releasesHeld_of_check h) hw
  exact ⟨w, hunder.run_eq, blocksOwned hunder, Prod.mk.inj hstate⟩

/-- After a teardown the block of a timer is free, although libuv still has the handle. -/
theorem blocksOwned_fails :
    ∃ w, runs (World.new true) (confirmedRun false ++ [.api .disconnect, .closed 0, .closed 1]) =
      some w ∧ ¬BlocksOwned w := by
  have hrun : (runs (World.new true) (confirmedRun false ++
      [.api .disconnect, .closed 0, .closed 1])).map
      (fun w => (w.uv.reqFreelist, (w.uv.timers 1).isSome)) = some ([1, 0], true) := by
    decide +kernel
  obtain ⟨w, hw, hstate⟩ := Option.map_eq_some_iff.mp hrun
  obtain ⟨hfree, htimer⟩ := Prod.mk.inj hstate
  refine ⟨w, hw, fun h => h.released 1 ?_ (.inr htimer)⟩
  rw [hfree]
  exact List.mem_cons_self

end CrazySnail
