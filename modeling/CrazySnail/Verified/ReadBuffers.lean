import CrazySnail.Library.FreeList
import CrazySnail.Verified.Footprint

/-! # Read buffers

`buf_alloc` hands out a buffer for every read, and `on_read` is to put it back.  A buffer
is in use while its `on_read` waits for a Lua function.  As long as every read delivers data
or finds the client disconnecting, each buffer ever allocated is in use or on the free list,
once, and no more buffers are allocated than were in use at one time (`buffersConserved`).
-/

namespace CrazySnail

open FreeListPool Transition

/-! ## Buffers in use -/

/-- The buffer of a frame that is going to free it. -/
def Frame.buf? : Frame → Option Nat
  | .bufFree buf => some buf
  | _ => none

namespace World

/-- The buffers of the `on_read` calls under way. -/
def inUse (w : World) : List Nat := w.stack.filterMap Frame.buf?

/-- Every buffer ever allocated is on the free list or in use, once. -/
def Conserved (w : World) : Prop := (w.bufs.freelist ++ w.inUse).Perm (List.range w.bufs.next)

end World

/-- libuv hands a buffer out and calls `on_read` with it. -/
def Event.isRead : Event → Bool
  | .read .. => true
  | .readError .. => true
  | _ => false

/-- The largest number of buffers in use at one time. -/
def peakInUse : World → List Event → Nat
  | w, [] => w.inUse.length
  | w, e :: es => max (w.inUse.length + e.isRead.toNat) ((w.step e).elim 0 (peakInUse · es))

/-- A read delivers data, or the client is disconnecting. -/
def Delivers (w : World) (e : Event) (_ : World) : Prop :=
  match e with
  | .read _ data _ => data = [] → w.cc.flags.disconnecting = true
  | .readError _ _ => w.cc.flags.disconnecting = true
  | _ => True

/-! ## The pool -/

/-- The read buffers are a pool of the library. -/
def Bufs.pool (b : Bufs) : FreeList := ⟨b.freelist, b.next⟩

theorem Bufs.alloc_pool (b : Bufs) :
    b.alloc.1 = b.pool.alloc.1 ∧ b.alloc.2.pool = b.pool.alloc.2 := by
  unfold Bufs.alloc FreeList.alloc Bufs.pool
  cases b.freelist <;> exact ⟨rfl, rfl⟩

theorem World.conserved_iff (w : World) : w.Conserved ↔ w.bufs.pool.Conserved w.inUse := Iff.rfl

/-! ## Frames -/

theorem Update.apply_bufs (w : World) (u : Update) (hu : u.part ∉ [.bufs]) :
    (u.apply w).bufs = w.bufs := by
  cases u with
  | names p t => cases p <;> rfl
  | bufs => simp at hu
  | _ => rfl

theorem Update.apply_inUse (w : World) (u : Update) (hu : u.part ∉ [.frame .bufFree, .pop]) :
    (u.apply w).inUse = w.inUse := by
  cases u with
  | push f => cases f <;> first | rfl | simp at hu
  | names p t => cases p <;> rfl
  | pop => simp at hu
  | _ => rfl

section
variable {ks : List Part} {w w' : World}

theorem Touches.bufs (h : Touches ks w w')
    (hks : ks.all (fun k => decide (k ∉ [.bufs])) = true) : w'.bufs = w.bufs :=
  h.same (fun w u hu => u.apply_bufs w hu) hks

theorem Touches.inUse (h : Touches ks w w')
    (hks : ks.all (fun k => decide (k ∉ [.frame .bufFree, .pop])) = true) : w'.inUse = w.inUse :=
  h.same (fun w u hu => u.apply_inUse w hu) hks

theorem Touches.conserved (h : Touches ks w w')
    (hks : ks.all (fun k => decide (k ∉ [.bufs, .frame .bufFree, .pop])) = true)
    (hw : w.Conserved) : w'.Conserved ∧ w'.bufs.next = w.bufs.next := by
  have hbufs := h.bufs (all_not_mem_mono (by simp) hks)
  have hinUse := h.inUse (all_not_mem_mono (by simp) hks)
  rw [World.Conserved, hbufs, hinUse]
  exact ⟨hw, rfl⟩

end

namespace World
variable {w : World}

/-- After a call of Lua the same buffers are in use. -/
theorem pcall_inUse (site : Site) (fn : Option Fn) (args : List LuaValue) :
    (w.pcall site fn args).inUse = w.inUse ∧ (w.pcall site fn args).bufs = w.bufs :=
  ⟨(w.pcall_touches site fn args).inUse rfl, (w.pcall_touches site fn args).bufs rfl⟩

/-! ## Reads -/

/-- The buffer of a read is in use or back on the free list. -/
inductive Returns (w w' : World) : Prop
  | freed : w'.bufs = w.bufs.alloc.2.free w.bufs.alloc.1 → w'.inUse = w.inUse → Returns w w'
  /-- `on_read` waits for the error handler -/
  | waits : w'.bufs = w.bufs.alloc.2 → w'.inUse = w.bufs.alloc.1 :: w.inUse → Returns w w'

theorem onRead_returns (h : Handle) (data : Bytes) (cb : LuaRef)
    (hread : data = [] → w.cc.flags.disconnecting = true) : Returns w (w.onRead h data cb) := by
  unfold onRead
  dsimp only
  split
  · exact .freed rfl rfl
  next hdisc =>
    rw [if_neg fun hdata => hdisc (hread hdata)]
    split
    · split
      next n _ =>
        -- the error handler runs before the buffer is freed
        obtain ⟨hinUse, hbufs⟩ := pcall_inUse (w := ((({ w with bufs := w.bufs.alloc.2 } : World).log
          (.fed (decide (w.cc.subStream = some h)) data)).log (.feedError
            (decide (w.cc.subStream = some h)) w.cc.reader.errstr)).push (.bufFree w.bufs.alloc.1))
          .error (w.lua.slots n) [.string (strdup w.cc.reader.errstr)]
        exact .waits hbufs hinUse
      · exact .freed rfl rfl
    · exact .freed rfl rfl

theorem onReadError_returns (h : Handle) (nread : Int) (hdisc : w.cc.flags.disconnecting = true) :
    Returns w (w.onReadError h nread) := by
  unfold onReadError
  rw [if_pos hdisc]
  exact .freed rfl rfl

theorem Returns.conserved {w' : World} (h : Returns w w') (hw : w.Conserved) :
    w'.Conserved ∧ w'.bufs.next ≤ max w.bufs.next (w.inUse.length + 1) := by
  obtain ⟨halloc, hnext⟩ := FreeList.Conserved.alloc (w.conserved_iff.mp hw)
  obtain ⟨hbuf, hpool⟩ := w.bufs.alloc_pool
  rw [← hbuf, ← hpool] at halloc
  rw [← hpool] at hnext
  cases h with
  | freed hbufs hinUse =>
    rw [conserved_iff, hbufs, hinUse]
    exact ⟨halloc.release, hnext⟩
  | waits hbufs hinUse =>
    rw [conserved_iff, hbufs, hinUse]
    exact ⟨halloc, hnext⟩

end World

open World

/-! ## Runs -/

/-- What a step that delivers does to the buffers. -/
theorem step_conserved {w w' : World} {e : Event} (hw : w.Conserved) (hstep : w.step e = some w')
    (he : Delivers w e w') :
    w'.Conserved ∧ w'.bufs.next ≤ max w.bufs.next (w.inUse.length + e.isRead.toNat) := by
  have hkeeps : ∀ {ks : List Part} {v : World}, Touches ks w v →
      ks.all (fun k => decide (k ∉ [.bufs, .frame .bufFree, .pop])) = true →
      v.Conserved ∧ v.bufs.next ≤ max w.bufs.next (w.inUse.length + e.isRead.toNat) := by
    intro ks v htouches hks
    obtain ⟨hv, hnext⟩ := htouches.conserved hks hw
    exact ⟨hv, hnext ▸ Nat.le_max_left _ _⟩
  obtain ⟨-, hs⟩ := step_cases hstep
  cases hs with
  | api c _ => exact hkeeps (w.api_touches c) (by cases c <;> rfl)
  | @ret site top rest ok hstack =>
    refine ⟨?_, Nat.le_max_left _ _⟩
    rw [Conserved, inUse, hstack] at hw
    exact hw
  | @resume f rest hstack hlua =>
    have hpopped : w.inUse = f.buf?.toList ++ ({ w with stack := rest } : World).inUse := by
      simp only [inUse, hstack, List.filterMap_cons]
      cases f.buf? <;> rfl
    rw [Conserved, hpopped] at hw
    have htouches := World.resume_touches { w with stack := rest } f
    cases f with
    | bufFree buf =>
      exact ⟨FreeList.Conserved.release (p := w.bufs.pool) hw, Nat.le_max_left _ _⟩
    | lua site top => exact absurd rfl hlua
    | _ =>
      obtain ⟨hv, hnext⟩ := htouches.conserved rfl hw
      exact ⟨hv, hnext ▸ Nat.le_max_left _ _⟩
  | read h data cb _ _ => exact (onRead_returns h data cb he).conserved hw
  | readError h nread _ _ _ => exact (onReadError_returns h nread he).conserved hw
  | written status readStart _ _ _ _ _ =>
    exact hkeeps (step_touches hstep) (by cases w.stack.head? <;> rfl)
  | connected status _ _ _ _ _ =>
    exact hkeeps (step_touches hstep) (by cases w.stack.head? <;> rfl)
  | closed _ _ _ _ _ => exact hkeeps (step_touches hstep) (by cases w.stack.head? <;> rfl)
  | tick timeout _ _ _ => exact hkeeps (step_touches hstep) (by cases w.stack.head? <;> rfl)

/-- What a run of such steps does to them. -/
theorem run_conserved {w w' : World} {es : List Event} (hw : w.Conserved)
    (hrun : RunsUnder World.step Delivers w es w') :
    w'.Conserved ∧ w'.bufs.next ≤ max w.bufs.next (peakInUse w es) := by
  induction hrun with
  | nil => exact ⟨hw, Nat.le_max_left _ _⟩
  | @cons w e v es w' hstep he _ ih =>
    obtain ⟨hv, hnext⟩ := step_conserved hw hstep he
    obtain ⟨hw', hlast⟩ := ih hv
    refine ⟨hw', ?_⟩
    rw [peakInUse, hstep, Option.elim_some]
    omega

/-- **Read buffers are conserved.**  In every run whose reads deliver data, or find the client
    disconnecting, each buffer handed out is put back once by its `on_read`, and no more
    buffers are allocated than were in use at one time. -/
theorem buffersConserved {ignoreSubCmdReply : Bool} {w : World} {es : List Event}
    (hrun : RunsUnder World.step Delivers (World.new ignoreSubCmdReply) es w) :
    w.Conserved ∧ w.bufs.next ≤ peakInUse (World.new ignoreSubCmdReply) es := by
  obtain ⟨hconserved, hnext⟩ := run_conserved (w := World.new ignoreSubCmdReply) (.refl _) hrun
  exact ⟨hconserved, hnext.trans (Nat.max_le.mpr ⟨Nat.zero_le _, Nat.le_refl _⟩)⟩

/-- A command waits for its reply, and libuv reads these chunks one after the other. -/
def reading (chunks : List Bytes) : List Event :=
  [.api (.on (ascii "error") 7), .api .connect, .connected 0 0, .connected 0 0,
   .api (.command [.string (ascii "ping"), .function 1] ⟨0, false⟩), .written 0 0 0] ++
    chunks.map fun chunk => .read 0 chunk .noref

def deliversCheck (w : World) : Event → Bool
  | .read _ data _ => !data.isEmpty || w.cc.flags.disconnecting
  | .readError _ _ => w.cc.flags.disconnecting
  | _ => true

theorem delivers_of_check {w w' : World} {e : Event} (h : deliversCheck w e = true) :
    Delivers w e w' := by
  cases e with
  | read h₁ data cb =>
    rintro rfl
    simpa [deliversCheck] using h
  | readError h₁ nread => exact h
  | _ => trivial

/-- A protocol error; then a chunk that the reader refuses, with an error handler. -/
theorem buffersConserved_refused :
    ∃ w, runs (World.new true) (reading [ascii "?\r\n"] ++
        [.resume, .read 0 (ascii "+") .noref, .ret true, .resume]) = some w ∧
      w.Conserved ∧ w.bufs = ⟨[0], 1⟩ := by
  have hrun : (runChecked World.step deliversCheck (World.new true) (reading [ascii "?\r\n"] ++
      [.resume, .read 0 (ascii "+") .noref, .ret true, .resume])).map World.bufs =
      some ⟨[0], 1⟩ := by decide +kernel
  obtain ⟨w, hw, hbufs⟩ := Option.map_eq_some_iff.mp hrun
  have hunder := runsUnder_of_checked (C := Delivers) (fun _ _ _ h _ => delivers_of_check h) hw
  exact ⟨w, hunder.run_eq, (buffersConserved hunder).1, hbufs⟩

/-- After a read of length zero a buffer is neither free nor in use. -/
theorem buffersConserved_fails :
    ∃ w, runs (World.new true) (reading [[]]) = some w ∧ ¬w.Conserved := by
  have hrun : (runs (World.new true) (reading [[]])).map (fun w => (w.bufs, w.inUse)) =
      some (⟨[], 1⟩, []) := by decide +kernel
  obtain ⟨w, hw, hstate⟩ := Option.map_eq_some_iff.mp hrun
  simp only [Prod.mk.injEq] at hstate
  refine ⟨w, hw, fun h => ?_⟩
  have hlength := h.length_eq
  rw [hstate.1, hstate.2] at hlength
  cases hlength

end CrazySnail
