import CrazySnail.Verified.Queue
import CrazySnail.Verified.ReplyLoop

/-! # Reading while replies are outstanding

`on_read` stops reading when no command waits, and `on_write` starts it again.  While a
command that has been written waits the list is not empty, so nothing stops what its own
`on_write` has started (`readsWhileOutstanding`).  It does not matter in which order the
writes complete, nor whether a reply comes before its command is known to be written.
-/

namespace CrazySnail

open Transition World

namespace World

/-- The command stream is read. -/
def Reading (w : World) : Prop :=
  ∃ h s, w.cc.stream = some h ∧ w.uv.streams h = some s ∧ s.reading = true

end World

/-- The record of the command whose `on_write` runs. -/
def writtenBy (w : World) : Event → List Nat
  | .written i _ _ => (w.uv.requests[i]?.bind Request.owner).toList
  | _ => []

/-- The connection is made once and stays, and its writes succeed. -/
def Undisturbed (w : World) (e : Event) (_ : World) : Prop :=
  match e with
  | .api .connect => w.cc.stream = none
  | .api .disconnect => False
  | .api .exit => False
  | .readError _ _ => False
  | .written _ status readStart => status = 0 ∧ 0 ≤ readStart
  | .connected _ status => 0 ≤ status
  | _ => True

/-! ## The invariant -/

/-- A write of a command goes to the command stream. -/
structure Directed (w : World) (r : Request) : Prop where
  made : ∀ id, r.owner = some id → id < w.heap.next
  target : r.owner ≠ none → w.cc.stream = some r.handle ∧ (w.uv.streams r.handle).isSome = true

/-- `written` are the records of the commands that have been written. -/
structure Watched (w : World) (written : List Nat) : Prop where
  reads : ∀ id ∈ written, .heap id ∈ w.cc.commandCbList → w.Reading
  made : ∀ id ∈ written, id < w.heap.next
  directed : ∀ r ∈ w.uv.requests, Directed w r
  /-- `on_read` is not about to close a stream -/
  frames : ∀ f ∈ w.stack, f.tag ≠ .closeStream

/-! ## Frames -/

/-- Nothing has happened to the connection. -/
structure Calm (w w' : World) : Prop where
  stream : w'.cc.stream = w.cc.stream
  streams : ∀ h s, w.uv.streams h = some s →
    ∃ s', w'.uv.streams h = some s' ∧ (s.reading = true → s'.reading = true)
  next : w.heap.next ≤ w'.heap.next
  frames : (∀ f ∈ w.stack, f.tag ≠ .closeStream) → ∀ f ∈ w'.stack, f.tag ≠ .closeStream

theorem Calm.refl (w : World) : Calm w w :=
  ⟨rfl, fun _ s hs => ⟨s, hs, fun h => h⟩, Nat.le_refl _, fun h => h⟩

theorem Calm.trans {w w' w'' : World} (h : Calm w w') (h' : Calm w' w'') : Calm w w'' where
  stream := h'.stream.trans h.stream
  streams h₁ s hs := by
    obtain ⟨s', hs', hreads⟩ := h.streams h₁ s hs
    obtain ⟨s'', hs'', hreads'⟩ := h'.streams h₁ s' hs'
    exact ⟨s'', hs'', fun hr => hreads' (hreads hr)⟩
  next := Nat.le_trans h.next h'.next
  frames hf := h'.frames (h.frames hf)

/-- The parts that disturb a connection. -/
def disturbingParts : List Part :=
  [.frame .closeStream, .stream .close, .stream .readStop, .newStream, .handles]

theorem Calm.update (w : World) (u : Update) (hu : u.part ∉ disturbingParts) :
    Calm w (u.apply w) := by
  have hnext := u.apply_next w
  have hquiet : ∀ {w' : World}, w'.cc.stream = w.cc.stream → w'.uv.streams = w.uv.streams →
      w.heap.next ≤ w'.heap.next → w'.stack = w.stack → Calm w w' := fun hs hss hn hst =>
    ⟨hs, fun h s h₁ => ⟨s, hss ▸ h₁, fun hr => hr⟩, hn, fun hf => hst ▸ hf⟩
  cases u with
  | push f =>
    refine ⟨rfl, (Calm.refl w).streams, hnext, fun hf => List.forall_mem_cons.mpr ⟨?_, hf⟩⟩
    cases f with
    | closeStream h => simp [disturbingParts] at hu
    | _ => simp
  | pop => exact ⟨rfl, (Calm.refl w).streams, hnext, fun hf f hmem => hf f (List.mem_of_mem_tail hmem)⟩
  | names p t => cases p <;> exact hquiet rfl rfl hnext rfl
  | stream t h =>
    refine ⟨rfl, fun h₁ s hs => ?_, hnext, fun hf => hf⟩
    simp only [Update.apply, Uv.setStream, Function.update_apply]
    by_cases heq : h₁ = h
    · subst heq
      refine ⟨s.change t, by simp [hs], fun hr => ?_⟩
      cases t <;> first | exact hr | rfl | simp [disturbingParts] at hu
    · exact ⟨s, by simp [heq, hs], fun hr => hr⟩
  | reqAlloc =>
    refine hquiet rfl ?_ hnext rfl
    simp only [Update.apply, Uv.reqAlloc]
    split <;> rfl
  | newStream | handles => simp [disturbingParts] at hu
  | _ => exact hquiet rfl rfl hnext rfl

theorem Touches.calm {ks : List Part} {w w' : World} (h : Touches ks w w')
    (hks : ks.all (fun k => decide (k ∉ disturbingParts)) = true) : Calm w w' :=
  h.keeps (I := Calm w) (fun w u hu hw => hw.trans (Calm.update w u hu)) hks (Calm.refl w)

/-- Entries of the list come with commands only. -/
theorem Touches.entries {ks : List Part} {w w' : World} (h : Touches ks w w')
    (hks : ks.all (fun k => decide (k ∉ [.append])) = true) {id : Nat}
    (hid : .heap id ∈ w'.cc.commandCbList) : .heap id ∈ w.cc.commandCbList := by
  refine h.keeps (I := fun v => .heap id ∈ v.cc.commandCbList → .heap id ∈ w.cc.commandCbList)
    (fun v u hu hv hmem => ?_) hks (fun hmem => hmem) hid
  cases u with
  | names p t => cases p <;> exact hv hmem
  | shift => exact hv (List.mem_of_mem_tail hmem)
  | append id => simp at hu
  | appendStack =>
    obtain hmem | hmem := List.mem_append.mp hmem
    · exact hv hmem
    · simp at hmem
  | clearList => exact absurd hmem List.not_mem_nil
  | _ => exact hv hmem

/-- Requests come with writes and connections only. -/
theorem Touches.requests {ks : List Part} {w w' : World} (h : Touches ks w w')
    (hks : ks.all (fun k => decide (k ∉ [.request .connect, .request .write])) = true)
    {r : Request} (hr : r ∈ w'.uv.requests) : r ∈ w.uv.requests := by
  refine h.keeps (I := fun v => r ∈ v.uv.requests → r ∈ w.uv.requests) (fun v u hu hv hmem => ?_) hks
    (fun hmem => hmem) hr
  cases u with
  | names p t => cases p <;> exact hv hmem
  | request r => cases hk : r.kind <;> simp [hk] at hu
  | reqAlloc =>
    simp only [Update.apply, Uv.reqAlloc] at hmem
    split at hmem <;> exact hv hmem
  | finish i => exact hv (List.mem_of_mem_eraseIdx hmem)
  | _ => exact hv hmem

namespace Calm
variable {w w' : World}

theorem reading (h : Calm w w') (hw : w.Reading) : w'.Reading := by
  obtain ⟨h₁, s, hstream, hs, hreads⟩ := hw
  obtain ⟨s', hs', hreads'⟩ := h.streams h₁ s hs
  exact ⟨h₁, s', h.stream.trans hstream, hs', hreads' hreads⟩

theorem directed (h : Calm w w') {r : Request} (hr : Directed w r) : Directed w' r where
  made id hid := Nat.lt_of_lt_of_le (hr.made id hid) h.next
  target hown := by
    obtain ⟨hstream, hsome⟩ := hr.target hown
    obtain ⟨s, hs⟩ := Option.isSome_iff_exists.mp hsome
    obtain ⟨s', hs', -⟩ := h.streams _ s hs
    exact ⟨h.stream.trans hstream, by rw [hs']; rfl⟩

end Calm

namespace Watched
variable {w w' : World} {written : List Nat}

/-- New entries are of new commands, and new requests are directed. -/
theorem of (h : Watched w written) (hcalm : Calm w w')
    (hlist : ∀ id, .heap id ∈ w'.cc.commandCbList → .heap id ∈ w.cc.commandCbList ∨ w.heap.next ≤ id)
    (hrequests : ∀ r ∈ w'.uv.requests, r ∈ w.uv.requests ∨ Directed w' r) : Watched w' written where
  reads id hid hmem := by
    obtain hmem | hle := hlist id hmem
    · exact hcalm.reading (h.reads id hid hmem)
    · exact absurd (h.made id hid) (Nat.not_lt.mpr hle)
  made id hid := Nat.lt_of_lt_of_le (h.made id hid) hcalm.next
  directed r hr := (hrequests r hr).elim (fun hr => hcalm.directed (h.directed r hr)) fun hr => hr
  frames := hcalm.frames h.frames

/-- The parts that matter. -/
def parts : List Part :=
  [.append, .request .connect, .request .write] ++ disturbingParts

theorem keep {ks : List Part} (h : Watched w written) (ht : Touches ks w w')
    (hks : ks.all (fun k => decide (k ∉ parts)) = true) : Watched w' written :=
  h.of (ht.calm (all_not_mem_mono (List.subset_append_right _ _) hks))
    (fun _ hid => .inl (ht.entries (all_not_mem_mono (by simp [parts]) hks) hid))
    fun _ hr => .inl (ht.requests (all_not_mem_mono (by simp [parts]) hks) hr)

/-- Reading is stopped while nothing waits. -/
theorem readStop (h : Watched w written) (hlist : w.cc.commandCbList = []) (h₁ : Handle) :
    Watched (w.uvReadStop h₁) written where
  reads id _ hmem := by
    have hmem : CbPtr.heap id ∈ w.cc.commandCbList := hmem
    rw [hlist] at hmem
    exact absurd hmem List.not_mem_nil
  made := h.made
  directed r hr := by
    refine ⟨(h.directed r hr).made, fun hown => ?_⟩
    obtain ⟨hstream, hsome⟩ := (h.directed r hr).target hown
    refine ⟨hstream, ?_⟩
    simp only [uvReadStop, Uv.setStream, Function.update_apply]
    split
    next heq => rw [Option.isSome_map, ← heq]; exact hsome
    · exact hsome
  frames := h.frames

end Watched

/-! ## Commands -/

namespace World
variable {w : World}

/-- A request that a write adds. -/
def AddedBy (w : World) (subMode : Bool) (owner : Option Nat) (r : Request) : Prop :=
  r.owner = owner ∧ w.sending.target subMode = some r.handle ∧
    (w.uv.streams r.handle).isSome = true

theorem uvWrite_requests (w : World) (subMode : Bool) (block : Block) (frame : Bytes)
    (owner : Option Nat) (buf error : Nat) {r : Request}
    (hr : r ∈ (w.uvWrite (w.sending.target subMode) block frame owner buf error).2.uv.requests) :
    r ∈ w.uv.requests ∨ w.AddedBy subMode owner r := by
  cases htarget : w.sending.target subMode with
  | none =>
    rw [htarget] at hr
    exact .inl hr
  | some h =>
    rw [htarget] at hr
    simp only [uvWrite] at hr
    cases hs : (w.log (.uvWrite h frame)).uv.streams h with
    | none =>
      rw [hs] at hr
      exact .inl hr
    | some s =>
      rw [hs] at hr
      dsimp only at hr
      split at hr
      · exact .inl hr
      · split at hr
        · exact .inl hr
        · split at hr
          · obtain hr | hr := List.mem_append.mp hr
            · exact .inl hr
            · obtain rfl := List.mem_singleton.mp hr
              exact .inr ⟨rfl, htarget, Option.isSome_of_eq_some hs⟩
          · exact .inl hr

theorem sendCommand_requests (w : World) (subMode : Bool) (frame : Bytes) (owner : Option Nat)
    (buf error : Nat) {r : Request}
    (hr : r ∈ (w.sendCommand subMode frame owner buf error).uv.requests) :
    r ∈ w.uv.requests ∨ w.AddedBy subMode owner r := by
  have hfail : ∀ {w : World} {error}, r ∈ (w.failSend error).uv.requests → r ∈ w.uv.requests :=
    fun {w error} hr => (w.failSend_touches error).requests rfl hr
  unfold sendCommand at hr
  split at hr
  · have halloc : Touches [.reqAlloc] w { w with uv := w.uv.reqAlloc.2 } := .of [.reqAlloc] rfl rfl
    have hsending := halloc.sending rfl
    have hwrite := uvWrite_requests { w with uv := w.uv.reqAlloc.2 } subMode w.uv.reqAlloc.1 frame
      owner buf error (r := r)
    have hbefore : r ∈ ({ w with uv := w.uv.reqAlloc.2 } : World).uv.requests ∨
        ({ w with uv := w.uv.reqAlloc.2 } : World).AddedBy subMode owner r →
        r ∈ w.uv.requests ∨ w.AddedBy subMode owner r := by
      refine Or.imp (halloc.requests rfl) fun hadded => ?_
      have hstreams : ({ w with uv := w.uv.reqAlloc.2 } : World).uv.streams = w.uv.streams :=
        congrArg Sending.streams hsending
      rw [AddedBy, hsending, hstreams] at hadded
      exact hadded
    rw [hsending] at hwrite
    generalize w.uv.reqAlloc = alloc at hr hwrite hbefore
    obtain ⟨req, uv⟩ := alloc
    dsimp only at hr hwrite hbefore
    rw [show (if subMode then w.cc.subStream else w.cc.stream) = w.sending.target subMode from rfl] at hr
    generalize ({ w with uv } : World).uvWrite (w.sending.target subMode) req frame owner buf error =
      result at hr hwrite
    obtain ⟨status, w₁⟩ := result
    dsimp only at hr hwrite
    refine hbefore (hwrite ?_)
    -- what follows the write makes no request
    split at hr
    · exact hr
    · have hfree : (if status = 0 then w₁.freeCmd buf else w₁).uv = w₁.uv := by
        split <;> rfl
      generalize (if status = 0 then w₁.freeCmd buf else w₁) = w₂ at hr hfree
      rw [← hfree]
      split at hr
      · have hrequests : r ∈ (w₂.reqFree req).uv.requests := hfail hr
        exact hrequests
      · exact hr
  · have hrequests : r ∈ (w.freeCmd buf).uv.requests := hfail hr
    exact .inl hrequests

end World

namespace World

theorem uvPipeConnect_requests (w : World) (h : Handle) :
    (w.uvPipeConnect h).uv.requests =
      w.uv.requests ++ [⟨w.uv.reqAlloc.1, .connect, h, none, 0⟩] := by
  simp only [uvPipeConnect, Uv.reqAlloc]
  split <;> rfl

end World

theorem Watched.command {w : World} {written : List Nat} (h : Watched w written)
    (args : List LuaArg) (env : SendEnv) : Watched (w.luaClientCommand args env) written := by
  cases hcollect : collect args with
  | raise | fault => exact h.keep (w.luaClientCommand_refused env (by simp [hcollect])) rfl
  | ok argv timers =>
    rw [luaClientCommand_eq hcollect]
    -- the command is entered: its record is a new one
    have hentered := w.entered_touches argv timers (callbackOf args) env.flags
    have hcalm := hentered.calm rfl
    have hlist := w.entered_list argv timers (callbackOf args) env.flags
    have hnext : (classify (argv.headD [])).pending = true →
        (w.entered argv timers (callbackOf args) env.flags).heap.next = w.heap.next + 1 := fun hkind =>
      registerCommand_next hkind argv.tail timers (callbackOf args) env.flags
    have hwatched : Watched (w.entered argv timers (callbackOf args) env.flags) written := by
      refine h.of hcalm (fun id hid => ?_) fun r hr => .inl (hentered.requests rfl hr)
      rw [hlist, List.mem_append] at hid
      refine hid.imp_right fun hid => ?_
      unfold ownEntry at hid
      split at hid
      · simp only [Option.toList_some, List.mem_singleton, CbPtr.heap.injEq] at hid
        exact hid.ge
      · simp at hid
    have hstream : (w.entered argv timers (callbackOf args) env.flags).cc.stream = w.cc.stream :=
      hcalm.stream
    generalize w.entered argv timers (callbackOf args) env.flags = w₁ at *
    -- it is sent: its request goes to the command stream
    have hsend := w₁.sendCommand_touches (classify (argv.headD [])).subMode
      (redisFormatCommandArgv argv)
      (if (classify (argv.headD [])).pending then some w.heap.next else none) w.nextCmd env.error
    refine hwatched.of (hsend.calm rfl) (fun id hid => .inl (hsend.entries rfl hid)) fun r hr => ?_
    obtain hr | ⟨howner, htarget, hsome⟩ := w₁.sendCommand_requests _ _ _ _ _ hr
    · exact .inl hr
    refine .inr ((hsend.calm rfl).directed ⟨fun id hid => ?_, fun hown => ⟨?_, hsome⟩⟩)
    · rw [howner] at hid
      split at hid
      next hkind =>
        cases hid
        rw [hnext hkind]
        exact Nat.lt_succ_self _
      · cases hid
    · have hkind : (classify (argv.headD [])).pending = true := by
        by_contra hkind
        rw [howner, if_neg hkind] at hown
        exact hown rfl
      have hmode : (classify (argv.headD [])).subMode = false := by simpa [Kind.pending] using hkind
      rw [hmode] at htarget
      exact htarget

/-! ## Steps -/

namespace Watched
variable {w w' : World} {written : List Nat}

theorem connect (h : Watched w written) (hnone : w.cc.stream = none) :
    Watched w.luaClientConnect written := by
  -- there was no stream, so nothing that has been written waits
  have hreading : ¬w.Reading := by
    rintro ⟨h₁, s, hstream, -⟩
    rw [hnone] at hstream
    cases hstream
  have hown : ∀ r ∈ w.uv.requests, r.owner = none := by
    intro r hr
    by_contra howner
    rw [((h.directed r hr).target howner).1] at hnone
    cases hnone
  have ht := w.luaClientConnect_touches
  have hdirected : ∀ r : Request, r.owner = none → Directed w.luaClientConnect r := fun r hr =>
    ⟨fun id hid => (by rw [hr] at hid; cases hid), fun hne => absurd hr hne⟩
  have hnext : w.heap.next ≤ w.luaClientConnect.heap.next :=
    ht.preserves (I := fun v => w.heap.next ≤ v.heap.next)
      (fun v u _ hv => Nat.le_trans hv (u.apply_next v)) (Nat.le_refl _)
  refine ⟨fun id hid hmem => ?_, fun id hid => Nat.lt_of_lt_of_le (h.made id hid) hnext,
    fun r hr => hdirected r ?_, ?_⟩
  · exact absurd (h.reads id hid (ht.entries rfl hmem)) hreading
  · unfold luaClientConnect at hr
    split at hr
    · exact hown r hr
    · simp only [uvPipeConnect_requests, List.mem_append, List.mem_singleton] at hr
      obtain (hr | rfl) | rfl := hr
      · exact hown r hr
      · rfl
      · rfl
  · have hstack : w.luaClientConnect.stack = w.stack := by
      unfold luaClientConnect
      split <;> rfl
    rw [hstack]
    exact h.frames

/-- `on_read` stops reading at an empty list only. -/
theorem onRead (h : Watched w written) (h₁ : Handle) (data : Bytes) (cb : LuaRef) :
    Watched (w.onRead h₁ data cb) written := by
  have halloc : Touches [.bufs] w { w with bufs := w.bufs.alloc.2 } := .of [.bufs _] rfl rfl
  have hbufs := h.keep halloc rfl
  unfold World.onRead
  dsimp only
  split
  · have hfree : Touches [.bufs] w ({ w with bufs := w.bufs.alloc.2 }.bufFree w.bufs.alloc.1) :=
      halloc.step (.bufs _) (by simp)
    exact h.keep hfree rfl
  · split
    · -- nothing was read
      split
      next hempty =>
        simp only [Bool.and_eq_true, decide_eq_true_eq] at hempty
        exact hbufs.readStop hempty.2 h₁
      · exact hbufs
    · have hfed : Touches [.bufs, .obs .fed, .obs .feedError, .reader, .frame .bufFree,
          .frame .readLoop] w ({ w with bufs := w.bufs.alloc.2 }.log
            (.fed (decide (w.cc.subStream = some h₁)) data)) :=
        .of [.bufs _, .log _] rfl rfl
      split
      · have herror := hfed.step (.log (.feedError (decide (w.cc.subStream = some h₁))
          w.cc.reader.errstr)) (by simp)
        split
        · have hpush := herror.step (.push (.bufFree w.bufs.alloc.1)) (by simp)
          exact (h.keep hpush rfl).keep (pcall_touches _ .error _ _) rfl
        · exact h.keep (herror.step (.bufs (w.bufs.alloc.2.free w.bufs.alloc.1)) (by simp)) rfl
      next reader _ =>
        have hreader := (hfed.step (.reader reader) (by simp)).step
          (.bufs (w.bufs.alloc.2.free w.bufs.alloc.1)) (by simp)
        exact h.keep (hreader.step
          (.push (.readLoop h₁ (decide (w.cc.subStream = some h₁)) cb)) (by simp)) rfl

theorem endRead (h : Watched w written) (h₁ : Handle) (subMode : Bool) :
    Watched (w.endRead h₁ subMode) written := by
  unfold World.endRead
  cases w.cc.flags.monitoring with
  | false =>
    simp only [Bool.false_eq_true, if_false]
    split
    next hempty =>
      simp only [Bool.and_eq_true, decide_eq_true_eq] at hempty
      exact h.readStop hempty.2 h₁
    · exact h
  | true =>
    -- the list is not empty any more
    have ht : Touches [.appendStack] w
      { w with cc.commandCbList := w.cc.commandCbList ++ [.stack] } := .of [.appendStack] rfl rfl
    simpa using h.keep ht rfl

theorem readLoop (h : Watched w written) (h₁ : Handle) (subMode : Bool) (cb : LuaRef) :
    Watched (w.readLoop h₁ subMode cb) written := by
  have hround := readLoop_round w h₁ subMode cb
  generalize w.readLoop h₁ subMode cb = v at hround ⊢
  have hreplied : ∀ reader sub reply, Watched (w.replied reader sub reply) written := by
    intro reader sub reply
    have ht : Touches [.reader, .obs .reply] w (w.replied reader sub reply) :=
      .of [.reader reader, .log (.reply sub reply)] rfl rfl
    exact h.keep ht rfl
  have hreader : ∀ reader, Watched { w with cc.reader := reader } written := by
    intro reader
    have ht : Touches [.reader] w { w with cc.reader := reader } := .of [.reader reader] rfl rfl
    exact h.keep ht rfl
  have hpush : ∀ {v : World}, Watched v written → Watched (v.push (.readLoop h₁ true cb)) written := by
    intro v hv
    have ht : Touches [.frame .readLoop] v (v.push (.readLoop h₁ true cb)) :=
      .of [.push (.readLoop h₁ true cb)] rfl rfl
    exact hv.keep ht rfl
  cases hround with
  | exited _ =>
    have ht : Touches [.fault] w (w.crash .deadClient) := .of [.crash .deadClient] rfl rfl
    exact h.keep ht rfl
  | failed _ _ => exact hreader _
  | @stored reader _ _ _ =>
    have ht : Touches [.fault] { w with cc.reader := reader }
        ({ w with cc.reader := reader }.crash .nullElement) := .of [.crash .nullElement] rfl rfl
    exact (hreader _).keep ht rfl
  | disconnecting _ _ => exact hreader _
  | ended _ _ => exact (hreader _).endRead h₁ subMode
  | reply _ _ => exact (hreplied _ _ _).keep (dispatchReply_touches _ h₁ cb _) rfl
  | subError _ _ => exact hpush (hreplied _ _ _)
  | subReply _ _ => exact (hpush (hreplied _ _ _)).keep (getAndCallSubCb_touches _ _) rfl

/-- A write completes, and its stream is read. -/
theorem onWrite (h : Watched w written) {i : Nat} {req : Request}
    (hreq : w.uv.requests[i]? = some req) {status readStart : Int} (hstatus : ¬status < 0)
    (hstart : ¬readStart < 0) :
    Watched ((w.finish i).onWrite req status readStart) (written ++ req.owner.toList) := by
  have ht : Touches [.finish, .stream .data, .reqFree, .stream .readStart] w
      ((w.finish i).onWrite req status readStart) := by
    unfold World.onWrite
    dsimp only
    rw [if_neg hstatus, if_neg hstart]
    exact .of [.finish i, .stream .data req.handle, .reqFree req.block,
      .stream .readStart req.handle] rfl rfl
  have hold := h.keep ht rfl
  have hdirected := h.directed req (List.mem_of_getElem? hreq)
  refine { hold with reads := fun id hid hmem => ?_, made := fun id hid => ?_ }
  · obtain hid | hid := List.mem_append.mp hid
    · exact hold.reads id hid hmem
    · -- the command has just been written to the stream that is read now
      have howner : req.owner = some id := by simpa using hid
      obtain ⟨hstream, hsome⟩ := hdirected.target (by simp [howner])
      obtain ⟨s, hs⟩ := Option.isSome_iff_exists.mp hsome
      refine ⟨req.handle, { s with data := true, reading := true },
        (ht.calm rfl).stream.trans hstream, ?_, rfl⟩
      unfold World.onWrite
      dsimp only
      rw [if_neg hstatus, if_neg hstart]
      simp [Uv.setStream, reqFree, Uv.reqFree, finish, hs]
  · obtain hid | hid := List.mem_append.mp hid
    · exact hold.made id hid
    · have howner : req.owner = some id := by simpa using hid
      exact Nat.lt_of_lt_of_le (hdirected.made id howner) (ht.calm rfl).next

theorem onConnect (h : Watched w written) {i : Nat} (req : Request) {status : Int}
    (hstatus : ¬status < 0) :
    Watched ((w.finish i).connectCompleted req status) written := by
  have hconnected : Touches ([.finish, .stream .connect, .obs .connected, .reqFree, .streamFlags,
      .raise .connected] ++ callParts .connect) w
      (((w.finish i).uvConnected req.handle status).reqFree req.block) := by
    unfold uvConnected
    rw [if_neg hstatus]
    exact .of [.finish i, .stream .connect req.handle, .log (.connected req.handle),
      .reqFree req.block] rfl rfl
  unfold connectCompleted World.onConnect
  dsimp only
  rw [if_neg hstatus]
  generalize ((w.finish i).uvConnected req.handle status).reqFree req.block = w₁ at hconnected ⊢
  generalize (if !w₁.cc.streamFlags.stream then _ else _) = sf
  have hflags := hconnected.step (.streamFlags sf) (by simp)
  split
  · have hup := hflags.step (.raise .connected) (by simp)
    exact (h.keep hup rfl).keep (callHandler_touches _ .connect _ _) rfl
  · exact h.keep hflags rfl

theorem quiet (h : Watched w written) : Watched w (written ++ []) := by
  rwa [List.append_nil]

end Watched

/-- Every step of an undisturbed run. -/
theorem step_watched {w w' : World} {e : Event} {written : List Nat} (h : Watched w written)
    (hstep : w.step e = some w') (hcalm : Undisturbed w e w') :
    Watched w' (written ++ writtenBy w e) := by
  have htouches := step_touches hstep
  obtain ⟨-, hs⟩ := step_cases hstep
  cases hs with
  | api c _ =>
    cases c with
    | on event fn => exact (h.keep htouches rfl).quiet
    | connect => exact (h.connect hcalm).quiet
    | command args env => exact (h.command args env).quiet
    | disconnect => exact hcalm.elim
    | exit => exact hcalm.elim
  | ret ok hstack => exact (h.keep htouches rfl).quiet
  | @resume f rest hstack hlua =>
    have hpop : Touches [.pop] w { w with stack := rest } :=
      .of [.pop] (by simp [Update.apply, hstack]) rfl
    have hrest := h.keep hpop rfl
    cases f with
    | lua site top => exact absurd rfl hlua
    | readLoop h₁ subMode cb => exact (hrest.readLoop h₁ subMode cb).quiet
    | closeStream h₁ =>
      exact absurd rfl (h.frames (.closeStream h₁) (by rw [hstack]; exact List.mem_cons_self))
    | bufFree buf => exact (hrest.keep (resume_touches _ (.bufFree buf)) rfl).quiet
    | event pvariant leaf i reply => exact (hrest.keep (eventLoop_touches _ _ _ _ _) rfl).quiet
    | timer leaf i rep timeout => exact (hrest.keep (timerLoop_touches _ _ _ _ _) rfl).quiet
  | read h₁ data cb _ _ => exact (h.onRead h₁ data cb).quiet
  | readError _ _ _ _ _ => exact hcalm.elim
  | @written i req status readStart _ hreq _ _ _ =>
    obtain ⟨hstatus, hstart⟩ : status = 0 ∧ 0 ≤ readStart := hcalm
    rw [writtenBy, hreq]
    exact h.onWrite hreq (by omega) (by omega)
  | @connected i req status _ _ _ _ _ =>
    have hstatus : 0 ≤ status := hcalm
    exact (h.onConnect req (by omega)).quiet
  | closed _ _ _ _ _ => exact (h.keep htouches rfl).quiet
  | tick _ _ _ _ => exact (h.keep htouches rfl).quiet

theorem watched_new (ignore : Bool) : Watched (World.new ignore) [] where
  reads _ hid := absurd hid List.not_mem_nil
  made _ hid := absurd hid List.not_mem_nil
  directed _ hr := absurd hr List.not_mem_nil
  frames _ hf := absurd hf List.not_mem_nil

/-- **Reading goes on** while a command that has been written waits for its reply. -/
theorem readsWhileOutstanding {ignore : Bool} {es : List Event} {w : World}
    (hrun : RunsUnder World.step Undisturbed (World.new ignore) es w) {id : Nat}
    (hwritten : id ∈ outputs World.step writtenBy (World.new ignore) es)
    (hwaiting : .heap id ∈ w.cc.commandCbList) : w.Reading := by
  have hwatched : Watched w ([] ++ outputs World.step writtenBy (World.new ignore) es) :=
    hrun.invariant_outputs (I := Watched) (fun _ _ _ _ h hstep hcalm => step_watched h hstep hcalm)
      (watched_new ignore)
  exact hwatched.reads id hwritten hwaiting

/-- Two commands; the first reply comes before the second write completes. -/
def overtakingRun : List Event :=
  [.api .connect, .connected 0 0, .connected 0 0,
   .api (.command [.string (ascii "get"), .string (ascii "a")] ⟨0, false⟩),
   .api (.command [.string (ascii "get"), .string (ascii "b"), .function 1] ⟨0, false⟩),
   .written 0 0 0, .read 0 (ascii "+x\r\n") .noref, .resume, .resume, .written 0 0 0]

def undisturbedCheck (w : World) : Event → Bool
  | .api .connect => w.cc.stream.isNone
  | .api .disconnect => false
  | .api .exit => false
  | .readError _ _ => false
  | .written _ status readStart => decide (status = 0) && decide (0 ≤ readStart)
  | .connected _ status => decide (0 ≤ status)
  | _ => true

theorem undisturbed_of_check {w w' : World} {e : Event} (h : undisturbedCheck w e = true) :
    Undisturbed w e w' := by
  cases e with
  | api c => cases c <;> simp_all [undisturbedCheck, Undisturbed]
  | readError => simp [undisturbedCheck] at h
  | written | connected => simpa [undisturbedCheck, Undisturbed] using h
  | _ => trivial

theorem readsWhileOutstanding_overtaking : ∃ w, runs (World.new false) overtakingRun = some w ∧
    .heap 1 ∈ w.cc.commandCbList ∧ w.Reading := by
  have hrun : (runChecked World.step undisturbedCheck (World.new false) overtakingRun).map
      (fun w => decide (.heap 1 ∈ w.cc.commandCbList)) = some true := by decide +kernel
  have hwritten : 1 ∈ outputs World.step writtenBy (World.new false) overtakingRun := by
    decide +kernel
  obtain ⟨w, hw, hwaiting⟩ := Option.map_eq_some_iff.mp hrun
  have hunder := runsUnder_of_checked (C := Undisturbed)
    (fun _ _ _ h _ => undisturbed_of_check h) hw
  exact ⟨w, hunder.run_eq, of_decide_eq_true hwaiting,
    readsWhileOutstanding hunder hwritten (of_decide_eq_true hwaiting)⟩

end CrazySnail
