import CrazySnail.Verified.Confirming
import CrazySnail.Verified.Sending
import CrazySnail.Verified.ReaderRefinement
import CrazySnail.Verified.ReplyLoop
import CrazySnail.Verified.Wrappers

/-! # The loops come to an end

A callback of libuv is over when the control stack is empty again.  `Progress.work` counts what
is left until then: the bytes the reader has not worked off, each of which may complete a reply
that is passed to a whole list, and the entries ahead of the loops on the stack.  Every return of a
Lua function and every step of a C function takes something away (`step_work`); Lua code that
calls back into the client adds one function at most, unless it subscribes.
-/

namespace CrazySnail

open SearchTree (Tree Path)
open Transition World

/-! ## The reader -/

namespace RedisReader
variable {r r' : RedisReader}

theorem unread_advance (r : RedisReader) (n : Nat) :
    (r.advance n).unread.length = r.unread.length - n := by
  simp only [unread, advance, List.length_drop]
  omega

end RedisReader

/-- What an item does to the reader: it takes bytes away, or it waits, or it is an error that drops
    the buffer. -/
inductive Consumes (r : RedisReader) : RedisReader × Status → Prop
  | item {r' : RedisReader} : r'.unread.length < r.unread.length → Consumes r (r', .ok)
  | waits {r' : RedisReader} : r'.unread.length ≤ r.unread.length → r'.rstack ≠ [] →
      Consumes r (r', .err)
  | failed {r' : RedisReader} : r'.unread = [] → r'.err ≠ 0 → Consumes r (r', .err)

theorem storeNull_consumes (r r₀ : RedisReader) : Consumes r (storeNull r₀, .err) :=
  .failed rfl (by simp [storeNull, setError, NULL_STORE])

theorem complete_consumes {r r₀ : RedisReader} {obj : Reply}
    (h : r₀.unread.length < r.unread.length) : Consumes r (complete r₀ obj) := by
  unfold complete
  split
  · exact .item h
  · split
    · exact storeNull_consumes r r₀
    · exact .item h

theorem processLineItem_consumes {r r₀ : RedisReader} (hunread : r₀.unread.length ≤ r.unread.length)
    (hstack : r₀.rstack ≠ []) (type : ReplyType) : Consumes r (processLineItem r₀ type) := by
  unfold processLineItem readLine
  cases hline : seekNewline r₀.unread with
  | none => exact .waits hunread hstack
  | some n =>
    have hle := seekNewline_le hline
    have htaken : (r₀.advance (n + 2)).unread.length < r.unread.length := by
      rw [RedisReader.unread_advance]
      omega
    cases type <;> exact complete_consumes htaken

theorem processBulkItem_consumes {r r₀ : RedisReader} (hunread : r₀.unread.length ≤ r.unread.length)
    (hstack : r₀.rstack ≠ []) : Consumes r (processBulkItem r₀) := by
  unfold processBulkItem
  cases hline : seekNewline r₀.unread with
  | none => exact .waits hunread hstack
  | some n =>
    have hle := seekNewline_le hline
    have htaken : ∀ k, (r₀.advance (n + 2 + k)).unread.length < r.unread.length := fun k => by
      rw [RedisReader.unread_advance]
      omega
    dsimp only
    split
    · exact complete_consumes (htaken 0)
    · split
      · exact complete_consumes (htaken _)
      · exact .waits hunread hstack

theorem processMultiBulkItem_consumes {r r₀ : RedisReader}
    (hunread : r₀.unread.length ≤ r.unread.length) (hstack : r₀.rstack ≠ []) :
    Consumes r (processMultiBulkItem r₀) := by
  unfold processMultiBulkItem readLine
  split
  · exact .failed rfl (by simp [setError, REDIS_ERR_PROTOCOL])
  cases hline : seekNewline r₀.unread with
  | none => exact .waits hunread hstack
  | some n =>
    have hle := seekNewline_le hline
    have htaken : (r₀.advance (n + 2)).unread.length < r.unread.length := by
      rw [RedisReader.unread_advance]
      omega
    cases hr : r₀.rstack with
    | nil => exact absurd hr hstack
    | cons cur rest =>
      simp only [Option.map_some, RedisReader.advance, hr]
      split
      · exact complete_consumes htaken
      · split
        · split
          · exact storeNull_consumes r _
          · exact .item htaken
        · exact complete_consumes htaken

theorem processItem_consumes {r : RedisReader} (hstack : r.rstack ≠ []) :
    Consumes r (processItem r) := by
  have htyped : ∀ (r₀ : RedisReader) (type : ReplyType), r₀.unread.length ≤ r.unread.length →
      r₀.rstack ≠ [] → Consumes r (processTyped r₀ type) := by
    intro r₀ type hunread hstack
    cases type with
    | string => exact processBulkItem_consumes hunread hstack
    | array => exact processMultiBulkItem_consumes hunread hstack
    | integer => exact processLineItem_consumes hunread hstack .integer
    | status => exact processLineItem_consumes hunread hstack .status
    | error => exact processLineItem_consumes hunread hstack .error
  unfold processItem
  split
  next hnil => exact absurd hnil hstack
  next cur rest _ =>
    split
    next type _ => exact htyped r type le_rfl hstack
    · split
      · exact .waits le_rfl hstack
      · split
        · exact .failed rfl (by simp [setErrorProtocolByte, setError, REDIS_ERR_PROTOCOL])
        next type _ =>
          refine htyped _ type ?_ (List.cons_ne_nil _ _)
          exact (r.unread_advance 1).le.trans (Nat.sub_le _ 1)

/-- The loop leaves a task, an error or fewer bytes. -/
theorem processItems_consumes (fuel : Nat) (r : RedisReader) :
    (processItems fuel r).unread.length ≤ r.unread.length ∧
      (r.rstack ≠ [] → (processItems fuel r).rstack = [] →
        (processItems fuel r).err ≠ 0 ∨ (processItems fuel r).unread.length < r.unread.length) := by
  induction fuel generalizing r with
  | zero => exact ⟨le_rfl, fun hne heq => absurd heq hne⟩
  | succ fuel ih =>
    rw [processItems]
    by_cases hstack : r.rstack = []
    · rw [if_pos hstack]
      exact ⟨le_rfl, fun hne => absurd hstack hne⟩
    · rw [if_neg hstack]
      have hitem := processItem_consumes hstack
      generalize processItem r = result at hitem ⊢
      cases hitem with
      | @item r₁ htaken =>
        have hrest := (ih r₁).1
        exact ⟨hrest.trans htaken.le, fun _ _ => .inr (hrest.trans_lt htaken)⟩
      | waits hunread hne => exact ⟨hunread, fun _ heq => absurd heq hne⟩
      | failed hunread herr =>
        dsimp only
        exact ⟨by rw [hunread]; exact Nat.zero_le _, fun _ _ => .inl herr⟩

/-- A reply costs the reader at least one byte. -/
theorem redisReaderGetReply_consumes {r r' : RedisReader} {status : Status} {reply : Option Reply}
    (h : redisReaderGetReply r = (r', status, reply)) :
    r'.unread.length + (if status = .ok ∧ reply ≠ none then 1 else 0) ≤ r.unread.length := by
  unfold redisReaderGetReply at h
  split at h
  · cases h
    exact le_rfl
  split at h
  · cases h
    exact le_rfl
  dsimp only at h
  have hroot : (if r.rstack = [] then { r with rstack := [.root] } else r).unread = r.unread ∧
      (if r.rstack = [] then { r with rstack := [.root] } else r).rstack ≠ [] := by
    by_cases hnil : r.rstack = []
    · rw [if_pos hnil]
      exact ⟨rfl, List.cons_ne_nil _ _⟩
    · rw [if_neg hnil]
      exact ⟨rfl, hnil⟩
  generalize (if r.rstack = [] then { r with rstack := [.root] } else r) = r₀ at h hroot
  obtain ⟨hle, hlt⟩ := processItems_consumes (r₀.unread.length + 1) r₀
  generalize processItems (r₀.unread.length + 1) r₀ = r₁ at h hle hlt
  rw [hroot.1] at hle hlt
  split at h
  · cases h
    simpa using hle
  next herr =>
    have hunread : (if 1024 ≤ r₁.pos then { r₁ with buf := r₁.unread, pos := 0 } else r₁).unread =
        r₁.unread := by
      split <;> simp [RedisReader.unread]
    have hstack : (if 1024 ≤ r₁.pos then { r₁ with buf := r₁.unread, pos := 0 } else r₁).rstack =
        r₁.rstack := by
      split <;> rfl
    generalize (if 1024 ≤ r₁.pos then { r₁ with buf := r₁.unread, pos := 0 } else r₁) = r₂
      at h hunread hstack
    split at h
    next hnil =>
      cases h
      have hless := (hlt hroot.2 (hstack.symm.trans hnil)).resolve_left herr
      change r₂.unread.length + _ ≤ _
      rw [hunread]
      split <;> omega
    · cases h
      simpa [hunread] using hle

/-! ## The work that is left -/

/-- The callback list of a node; nothing where there is no node. -/
def listAt {κ : Type} (t : NodeT κ) (leaf : Path) : CallbackEnds :=
  (t.get? leaf).elim [] fun node => node.2.cbList

theorem listAt_length_le {κ : Type} (t : NodeT κ) (leaf : Path) :
    (listAt t leaf).length ≤ (wrappers t).length := by
  unfold listAt
  cases hnode : t.get? leaf with
  | none => exact Nat.zero_le _
  | some node =>
    obtain ⟨rest, hrest⟩ := wrappers_split (show t.get? leaf = some (node.1, node.2) from hnode)
    have hperm := hrest id
    rw [modify_id] at hperm
    rw [hperm.length_eq, List.length_append]
    exact Nat.le_add_right _ _

/-- What the loops of the client go by. -/
structure Progress where
  reader : RedisReader
  channels : NodeT Bytes
  patterns : NodeT Bytes
  /-- the lists of the timer tree -/
  timers : Path → CallbackEnds
  stack : List Frame

def World.progress (w : World) : Progress :=
  { reader := w.cc.reader, channels := w.cc.channels, patterns := w.cc.patterns,
    timers := listAt w.cc.timers, stack := w.stack }

namespace Progress
variable {v v' : Progress}

def push (v : Progress) (f : Frame) : Progress := { v with stack := f :: v.stack }

/-- The entries ahead of the loop of a frame. -/
def ahead (v : Progress) : Frame → Nat
  | .event pvariant leaf i _ =>
    (listAt (if pvariant then v.patterns else v.channels) leaf).length - i
  | .timer leaf i _ _ => (v.timers leaf).length - i
  | _ => 0

/-- The entries of all names. -/
def entries (v : Progress) : Nat := (wrappers v.channels).length + (wrappers v.patterns).length

/-- An entry costs a call and a return, and a frame the step in which it ends. -/
def frameWork (v : Progress) (f : Frame) : Nat := 2 * v.ahead f + 1

/-- What one byte may cost: the reply it completes goes to all entries of a name at most. -/
def byteWork (v : Progress) : Nat := 2 * v.entries + 3

/-- The work that is left. -/
def work (v : Progress) : Nat :=
  v.byteWork * v.reader.unread.length + (v.stack.map v.frameWork).sum

@[simp] theorem work_push (v : Progress) (f : Frame) :
    (v.push f).work = v.work + v.frameWork f := by
  have hsum : (v.push f).work =
      v.byteWork * v.reader.unread.length + (v.frameWork f + (v.stack.map v.frameWork).sum) := rfl
  rw [hsum, work]
  omega

/-- Bytes that are worked off pay for what they cost. -/
theorem work_reader {reader : RedisReader} {n : Nat}
    (h : reader.unread.length + n ≤ v.reader.unread.length) :
    { v with reader }.work + v.byteWork * n ≤ v.work := by
  have hbytes : v.byteWork * (reader.unread.length + n) ≤ v.byteWork * v.reader.unread.length :=
    Nat.mul_le_mul_left _ h
  rw [Nat.mul_add] at hbytes
  change v.byteWork * reader.unread.length + (v.stack.map v.frameWork).sum + _ ≤ _
  rw [work]
  omega

/-- Fewer entries are less work. -/
theorem work_le (hreader : v'.reader = v.reader) (hstack : v'.stack = v.stack)
    (hentries : v'.entries ≤ v.entries) (hahead : ∀ f, v'.ahead f ≤ v.ahead f) :
    v'.work ≤ v.work := by
  have hframe : ∀ f, v'.frameWork f ≤ v.frameWork f := fun f =>
    Nat.add_le_add_right (Nat.mul_le_mul_left 2 (hahead f)) 1
  have hbyte : v'.byteWork ≤ v.byteWork := Nat.add_le_add_right (Nat.mul_le_mul_left 2 hentries) 3
  unfold work
  rw [hreader, hstack]
  exact Nat.add_le_add (Nat.mul_le_mul_right _ hbyte) (List.sum_le_sum fun f _ => hframe f)

/-- At most one Lua function is called. -/
inductive Calls (v : Progress) : Progress → Prop
  | none : Calls v v
  | call (site : Site) (top : Int) : Calls v (v.push (.lua site top))

theorem Calls.work (h : v.Calls v') : v'.work ≤ v.work + 1 := by
  cases h with
  | none => exact Nat.le_succ _
  | call site top =>
    rw [work_push]
    exact le_rfl

end Progress

/-- The parts that the work depends on. -/
def progressParts : List Part :=
  [.reader, .names, .timerTree, .pop, .frame .lua, .frame .readLoop, .frame .closeStream,
    .frame .bufFree, .frame .event, .frame .timer]

theorem Update.apply_progress (w : World) (u : Update) (hu : u.part ∉ progressParts) :
    (u.apply w).progress = w.progress := by
  cases u with
  | push f => cases f <;> simp [progressParts] at hu
  | reader | names | timerTree | pop => simp [progressParts] at hu
  | timerData leaf b =>
    have hlists : listAt (w.cc.timers.modify (fun v => { v with data := some b }) leaf) =
        listAt w.cc.timers := by
      funext q
      unfold listAt
      rw [Tree.get?_modify]
      cases w.cc.timers.get? q with
      | none => rfl
      | some node =>
        dsimp only [Option.map_some, Option.elim_some]
        split <;> rfl
    simp only [apply, World.progress, hlists]
  | _ => rfl

theorem Touches.progress {ks : List Part} {w w' : World} (h : Touches ks w w')
    (hks : ks.all (fun k => decide (k ∉ progressParts)) = true) : w'.progress = w.progress :=
  h.same (fun w u hu => u.apply_progress w hu) hks

/-! ## Functions that call Lua once -/

namespace World
variable (w : World)

theorem pcall_callsOnce (site : Site) (fn : Option Fn) (args : List LuaValue) :
    w.progress.Calls (w.pcall site fn args).progress := by
  cases fn with
  | none => exact .none
  | some f => exact .call site w.lua.top

theorem callEntry_callsOnce (site : Site) (p : CbPtr) (args : Option (List LuaValue)) :
    w.progress.Calls (w.callEntry site p args).progress := by
  unfold callEntry
  split
  · exact .none
  · split
    · split
      · exact w.pcall_callsOnce _ _ _
      · exact .none
    · exact w.pcall_callsOnce _ _ _

theorem shiftAndReport_callsOnce (site : Site) (error : LuaValue) {otherwise : World → World}
    (ho : ∀ w : World, w.progress.Calls (otherwise w).progress) :
    w.progress.Calls (w.shiftAndReport site error otherwise).progress := by
  unfold shiftAndReport
  split
  · exact ho w
  · exact .none
  next list target heap _ =>
    dsimp only
    split
    next n _ =>
      exact pcall_callsOnce (({ w with cc.commandCbList := list, heap } : World).unref (.ref n)) _ _ _
    · exact ho { w with cc.commandCbList := list, heap }

theorem failSend_callsOnce (error : LuaValue) : w.progress.Calls (w.failSend error).progress :=
  w.shiftAndReport_callsOnce _ _ fun _ => .none

theorem sendCommand_callsOnce (subMode : Bool) (frame : Bytes) (owner : Option Nat)
    (buf error : Nat) :
    w.progress.Calls (w.sendCommand subMode frame owner buf error).progress := by
  unfold sendCommand
  split
  · have hwrite := uvWrite_written { w with uv := w.uv.reqAlloc.2 } subMode w.uv.reqAlloc.1 frame
      owner buf error
    have hprogress : ∀ result : Int × World,
        Written { w with uv := w.uv.reqAlloc.2 } subMode w.uv.reqAlloc.1 frame owner buf error
          result → result.2.progress = w.progress := by
      intro result hwritten
      cases hwritten with
      | stops _ ht => exact ht.progress rfl
      | refused _ _ ht => exact ht.progress rfl
      | accepted _ _ _ => rfl
    replace hprogress := hprogress _ hwrite
    dsimp only at hprogress ⊢
    generalize uvWrite _ _ _ _ _ _ _ = result at hprogress ⊢
    obtain ⟨r, w₁⟩ := result
    dsimp only at hprogress ⊢
    rw [← hprogress]
    split
    · exact .none
    · have hfree : (if r = 0 then w₁.freeCmd buf else w₁).progress = w₁.progress := by
        split <;> rfl
      generalize (if r = 0 then w₁.freeCmd buf else w₁) = w₂ at hfree ⊢
      rw [← hfree]
      split
      · exact failSend_callsOnce (w₂.reqFree _) _
      · exact .none
  · exact failSend_callsOnce (w.freeCmd buf) notConnected

/-- The loop visits entries until one is called. -/
theorem confirm_callsOnce (sname : Bytes) (reply : Reply) (list : CallbackEnds) :
    w.progress.Calls (confirm sname reply list w).progress := by
  induction list generalizing w with
  | nil => exact .none
  | cons p ps ih =>
    have hentry := confirmEntry_confirmed sname reply p w
    unfold confirm
    generalize confirmEntry sname reply p w = r at hentry ⊢
    cases hentry with
    | dead _ => exact .none
    | skipped _ _ =>
      dsimp only
      split
      · exact .none
      · exact ih w
    | @visited id c w₁ w' _ _ _ ht hresult =>
      have hmarked : (w₁.marked id sname c).progress = w.progress := ht.progress rfl
      generalize (markSlots sname c.channels false).2 = found at hresult ⊢
      have hcases : w' = w₁.marked id sname c ∨ found = true ∧ w.progress.Calls w'.progress := by
        obtain ⟨-, rfl⟩ | ⟨rfl, -⟩ | ⟨rfl, -, -, rfl⟩ | ⟨rfl, -, rfl⟩ := hresult
        · exact .inl rfl
        · exact .inl rfl
        · exact .inr ⟨rfl, hmarked ▸ pcall_callsOnce _ _ _ _⟩
        · exact .inr ⟨rfl, hmarked ▸ .none⟩
      obtain rfl | ⟨rfl, hcalls⟩ := hcases
      · cases found with
        | true => exact hmarked ▸ .none
        | false =>
          -- the loop goes on unless a timer has failed an assertion
          dsimp only
          split
          · exact hmarked ▸ .none
          · exact hmarked ▸ ih _
      · -- a function is called only where the slot is found, and there the loop ends
        exact hcalls

/-- A reply of the command stream calls the function it is for. -/
theorem dispatchReply_callsOnce (h : Handle) (cb : LuaRef) (reply : Reply) :
    (w.dispatchReply h cb reply).progress = w.progress ∨
      ∃ cb', (w.progress.push (.readLoop h false cb')).Calls
        (w.dispatchReply h cb reply).progress := by
  have hdeliver : ∀ (w : World) cb,
      (w.progress.push (.readLoop h false cb)).Calls (w.deliverReply h cb reply).progress := by
    intro w cb
    cases cb with
    | noref | refnil => exact .none
    | ref n =>
      simp only [deliverReply]
      split
      · exact pcall_callsOnce ((w.push (.readLoop h false (.ref n))).unref (.ref n)) .reply _ _
      · exact .none
  obtain ⟨-, heq⟩ | ⟨list, -, heq⟩ | ⟨list, target, heap, -, heq⟩ := w.dispatchReply_cases h cb reply
  · rw [heq]
    exact .inr ⟨cb, hdeliver w cb⟩
  · rw [heq]
    exact .inl rfl
  · rw [heq]
    exact .inr ⟨target.ref, hdeliver { w with cc.commandCbList := list, heap } target.ref⟩

end World

/-! ## One step -/

/-- A C function goes on, or a Lua function returns. -/
def Event.goesOn : Event → Bool
  | .resume => true
  | .ret _ => true
  | _ => false

/-- A command that adds to the lists. -/
def ApiCall.subscribes : ApiCall → Bool
  | .command args _ =>
    match collect args with
    | .ok argv _ =>
      match classify (argv.headD []) with
      | .subscribe _ => true
      | _ => false
    | _ => false
  | _ => false

/-- An event inside a callback of libuv, or of main code, that subscribes to nothing. -/
def Event.settles : Event → Bool
  | .api c => !c.subscribes
  | e => e.goesOn

namespace World
variable {w : World}

theorem push_work (w : World) (f : Frame) :
    (w.push f).progress.work = w.progress.work + w.progress.frameWork f :=
  w.progress.work_push f

theorem frameWork_event {pvariant : Bool} {leaf : Path} {reply : Reply} {i : Nat} {key : Bytes}
    {val : NodeVal} (hnode : (w.names pvariant).get? leaf = some (key, val)) :
    w.progress.frameWork (.event pvariant leaf i reply) = 2 * (val.cbList.length - i) + 1 := by
  have hlist : listAt (if pvariant then w.cc.patterns else w.cc.channels) leaf = val.cbList := by
    change listAt (w.names pvariant) leaf = _
    rw [listAt, hnode]
    rfl
  simp only [Progress.frameWork, Progress.ahead, progress, hlist]

/-- A loop at an entry: the frame of the next entry is pushed, and a function may be called. -/
theorem entry_work {f : Frame} {n : Nat} (hn : w.progress.frameWork f + 2 ≤ n) (site : Site)
    (p : CbPtr) (args : Option (List LuaValue)) :
    ((w.push f).callEntry site p args).progress.work + 1 ≤ w.progress.work + n := by
  have hcall := ((w.push f).callEntry_callsOnce site p args).work
  rw [push_work] at hcall
  omega

/-- The loop over the entries of a name does less than its frame counts. -/
theorem eventLoop_work (pvariant : Bool) (leaf : Path) (i : Nat) (reply : Reply) :
    (w.eventLoop pvariant leaf i reply).progress.work + 1 ≤
      w.progress.work + w.progress.frameWork (.event pvariant leaf i reply) := by
  have hpos : ∀ f, 1 ≤ w.progress.frameWork f := fun f => Nat.le_add_left 1 _
  unfold eventLoop
  split
  · exact Nat.add_le_add_left (hpos _) _
  cases hnode : (w.names pvariant).get? leaf with
  | none => exact Nat.add_le_add_left (hpos _) _
  | some node =>
    obtain ⟨key, val⟩ := node
    dsimp only
    cases hp : val.cbList[i]? with
    | none => exact Nat.add_le_add_left (hpos _) _
    | some p =>
      have hlt := (List.getElem?_eq_some_iff.mp hp).1
      refine entry_work ?_ .event p (eventArgs reply)
      rw [frameWork_event hnode, frameWork_event hnode]
      omega

theorem timerLoop_work (leaf : Path) (i : Nat) (rep timeout : UInt64) :
    (w.timerLoop leaf i rep timeout).progress.work + 1 ≤
      w.progress.work + w.progress.frameWork (.timer leaf i rep timeout) := by
  have hpos : ∀ f, 1 ≤ w.progress.frameWork f := fun f => Nat.le_add_left 1 _
  unfold timerLoop
  split
  · exact Nat.add_le_add_left (hpos _) _
  cases hnode : w.cc.timers.get? leaf with
  | none => exact Nat.add_le_add_left (hpos _) _
  | some node =>
    obtain ⟨key, val⟩ := node
    dsimp only
    cases hp : val.cbList[i]? with
    | none => exact Nat.add_le_add_left (hpos _) _
    | some p =>
      have hlt := (List.getElem?_eq_some_iff.mp hp).1
      have hframe : ∀ i, w.progress.frameWork (.timer leaf i rep timeout) =
          2 * (val.cbList.length - i) + 1 := by
        intro i
        simp only [Progress.frameWork, Progress.ahead, progress, listAt, hnode, Option.elim_some]
      refine entry_work ?_ .timer p (some (timerArgs rep timeout))
      rw [hframe, hframe]
      omega

/-- An array of the subscription stream goes to the entries of one name. -/
theorem getAndCallSubCb_work (reply : Reply) :
    (w.getAndCallSubCb reply).progress.work ≤ w.progress.work + 2 * w.progress.entries + 1 := by
  have hquiet : ∀ {n : Nat}, n ≤ w.progress.work + 1 →
      n ≤ w.progress.work + 2 * w.progress.entries + 1 := fun h => by omega
  have hdispatched := getAndCallSubCb_dispatched w reply
  generalize w.getAndCallSubCb reply = w' at hdispatched ⊢
  cases hdispatched with
  | ignored | malformed | unknown | unused => exact hquiet (Nat.le_succ _)
  | @confirmation _ sname _ _ _ val => exact hquiet (w.confirm_callsOnce sname reply val.cbList).work
  | @event stype _ _ leaf _ val _ _ _ hnode _ =>
    have hloop := eventLoop_work (w := w) (isPvariant stype) leaf 0 reply
    have hlist : val.cbList.length ≤ w.progress.entries := by
      have hle := listAt_length_le (w.names (isPvariant stype)) leaf
      rw [listAt, hnode] at hle
      change _ ≤ (CrazySnail.wrappers w.cc.channels).length +
        (CrazySnail.wrappers w.cc.patterns).length
      unfold names at hle
      split at hle
      · exact hle.trans (Nat.le_add_left _ _)
      · exact hle.trans (Nat.le_add_right _ _)
    rw [frameWork_event hnode] at hloop
    omega

/-- A round of the reply loop does less than its frame and the bytes of the reply count. -/
theorem readLoop_work (h : Handle) (subMode : Bool) (cb : LuaRef) :
    (w.readLoop h subMode cb).progress.work ≤ w.progress.work := by
  have hreader : ∀ {reader : RedisReader} {n : Nat},
      reader.unread.length + n ≤ w.cc.reader.unread.length →
      ({ w with cc.reader := reader } : World).progress.work + w.progress.byteWork * n ≤
        w.progress.work := fun hle => Progress.work_reader (v := w.progress) hle
  have hnone : ∀ {reader : RedisReader} {status : Status} {reply : Option Reply},
      redisReaderGetReply w.cc.reader = (reader, status, reply) →
      ({ w with cc.reader := reader } : World).progress.work ≤ w.progress.work := by
    intro reader status reply hget
    have hle := redisReaderGetReply_consumes hget
    exact (Nat.le_add_right _ _).trans (hreader ((Nat.add_le_add_left (Nat.zero_le _) _).trans hle))
  have hsome : ∀ {reader : RedisReader} {reply : Reply} (subMode : Bool),
      redisReaderGetReply w.cc.reader = (reader, .ok, some reply) →
      (w.replied reader subMode reply).progress.work + w.progress.byteWork ≤ w.progress.work := by
    intro reader reply subMode hget
    have hle := redisReaderGetReply_consumes hget
    rw [if_pos ⟨rfl, Option.some_ne_none _⟩] at hle
    have hwork := hreader hle
    rw [Nat.mul_one] at hwork
    exact hwork
  have hbyte : w.progress.byteWork = 2 * w.progress.entries + 3 := rfl
  have hframe : ∀ (v : Progress) (subMode : Bool) cb, v.frameWork (.readLoop h subMode cb) = 1 :=
    fun _ _ _ => rfl
  have hround := CrazySnail.readLoop_round w h subMode cb
  generalize w.readLoop h subMode cb = w' at hround ⊢
  cases hround with
  | exited => exact le_rfl
  | failed hget _ => exact hnone hget
  | stored hget _ => exact hnone hget
  | disconnecting hget => exact hnone hget
  | @ended reader hget =>
    rw [(endRead_touches { w with cc.reader := reader } h subMode).progress rfl]
    exact hnone hget
  | @reply reader reply hget =>
    have hpaid := hsome false hget
    obtain heq | ⟨cb', hcalls⟩ := (w.replied reader false reply).dispatchReply_callsOnce h cb reply
    · rw [heq]
      omega
    · have hcall := hcalls.work
      rw [Progress.work_push, hframe] at hcall
      omega
  | @subError reader message hget =>
    have hpaid := hsome true hget
    rw [push_work, hframe]
    omega
  | @subReply reader reply hget =>
    -- the bytes of the reply pay for a call and a return at each entry of its name
    have hpaid := hsome true hget
    have hdispatch := getAndCallSubCb_work
      (w := (w.replied reader true reply).push (.readLoop h true cb)) reply
    have hentries : ((w.replied reader true reply).push (.readLoop h true cb)).progress.entries =
        w.progress.entries := rfl
    rw [hentries, push_work, hframe] at hdispatch
    omega

theorem resume_work (f : Frame) (hlua : f.tag ≠ .lua) :
    (w.resume f).progress.work + 1 ≤ w.progress.work + w.progress.frameWork f := by
  cases f with
  | lua site top => exact absurd rfl hlua
  | readLoop h subMode cb => exact Nat.add_le_add_right (readLoop_work h subMode cb) 1
  | closeStream h =>
    have hclose : (w.uvClose (some h)).progress = w.progress :=
      (w.uvClose_touches (some h)).progress rfl
    change (w.uvClose (some h)).progress.work + 1 ≤ _
    rw [hclose]
    exact le_rfl
  | bufFree buf => exact le_rfl
  | event pvariant leaf i reply => exact eventLoop_work pvariant leaf i reply
  | timer leaf i rep timeout => exact timerLoop_work leaf i rep timeout

/-- `destroyAll` leaves no list. -/
theorem destroyAll_progress (w : World) :
    w.destroyAll.progress =
      { w.progress with
        channels := .null, patterns := .null, timers := listAt (.null : NodeT UInt64) } := by
  have htree : ∀ {κ : Type} (w : World) (root : NodeT κ),
      (w.destroyTree root).progress = w.progress :=
    fun w root => (w.destroyTree_touches root).progress rfl
  have hlist : ∀ (w : World) list, (w.destroyList list).progress = w.progress :=
    fun w list => (w.destroyList_touches list).progress rfl
  unfold destroyAll
  dsimp only
  generalize hw₁ : w.destroyTree w.cc.channels = w₁
  have h₁ : w₁.progress = w.progress := hw₁ ▸ htree _ _
  generalize hw₂ : ({ w₁ with cc.channels := .null } : World).destroyTree w₁.cc.patterns = w₂
  have h₂ : w₂.progress = { w.progress with channels := .null } := by
    rw [← hw₂, htree, ← h₁]
    rfl
  generalize hw₃ : ({ w₂ with cc.patterns := .null } : World).destroyTree w₂.cc.timers = w₃
  have h₃ : w₃.progress = { w.progress with channels := .null, patterns := .null } := by
    rw [← hw₃, htree]
    change { w₂.progress with patterns := .null } = _
    rw [h₂]
  have hclear : ∀ w : World, ({ w with cc.commandCbList := [] } : World).progress = w.progress :=
    fun _ => rfl
  rw [hclear, hlist]
  change { w₃.progress with timers := listAt (.null : NodeT UInt64) } = _
  rw [h₃]

/-- `exit` leaves no list. -/
theorem luaClientExit_work (w : World) : w.luaClientExit.progress.work ≤ w.progress.work := by
  obtain ht | ⟨-, -, w₁, ht, -, ht'⟩ := w.luaClientExit_cases
  · rw [ht.progress rfl]
  · have hnone : ∀ leaf, listAt (.null : NodeT Bytes) leaf = [] := fun leaf => by
      rw [listAt, Tree.get?_null, Option.elim_none]
    have hnone' : ∀ leaf, listAt (.null : NodeT UInt64) leaf = [] := fun leaf => by
      rw [listAt, Tree.get?_null, Option.elim_none]
    rw [ht'.progress rfl, destroyAll_progress, ht.progress rfl]
    refine Progress.work_le rfl rfl (Nat.zero_le _) fun f => ?_
    cases f with
    | event pvariant leaf i reply => simp [Progress.ahead, hnone]
    | timer leaf i rep timeout => simp [Progress.ahead, hnone']
    | lua | readLoop | closeStream | bufFree => exact le_rfl

/-- What a command that does not subscribe enters is in no tree. -/
theorem registerCommand_progress {kind : Kind} (names timers : List Bytes) (fn : Option Fn)
    (flags : Bool) (hkind : ∀ p, kind ≠ .subscribe p) :
    (w.registerCommand kind names timers fn flags).progress = w.progress := by
  have href : (w.refCallback fn).2.progress = w.progress := (w.refCallback_touches fn).progress rfl
  unfold registerCommand
  generalize w.refCallback fn = r at href ⊢
  obtain ⟨ref, w₁⟩ := r
  cases kind with
  | subscribe p => exact absurd rfl (hkind p)
  | unsubscribe | monitor | ordinary => exact href

/-- A method that does not subscribe calls one function at most. -/
theorem api_work {c : ApiCall} (hc : c.subscribes = false) :
    (w.api c).progress.work ≤ w.progress.work + 1 := by
  cases c with
  | on event fn =>
    rw [show (w.api (.on event fn)).progress = w.progress from
      (w.luaClientOn_touches event fn).progress rfl]
    exact Nat.le_succ _
  | connect =>
    rw [show (w.api .connect).progress = w.progress from w.luaClientConnect_touches.progress rfl]
    exact Nat.le_succ _
  | disconnect =>
    rw [show (w.api .disconnect).progress = w.progress from
      w.luaClientDisconnect_touches.progress rfl]
    exact Nat.le_succ _
  | exit => exact w.luaClientExit_work.trans (Nat.le_succ _)
  | command args env =>
    change (w.luaClientCommand args env).progress.work ≤ _
    simp only [ApiCall.subscribes] at hc
    unfold luaClientCommand
    cases hcollect : collect args with
    | raise e => exact Nat.le_succ _
    | fault f => exact Nat.le_succ _
    | ok argv timers =>
      rw [hcollect] at hc
      have hkind : ∀ p, classify (argv.headD []) ≠ .subscribe p := by
        intro p heq
        dsimp only at hc
        rw [heq] at hc
        cases hc
      dsimp only
      refine (sendCommand_callsOnce _ _ _ _ _ _).work.trans ?_
      rw [registerCommand_progress _ _ _ _ hkind]
      exact le_rfl

end World

/-- **One step** within a callback takes work away, or it is a method that adds a function. -/
theorem step_work {w w' : World} {e : Event} (hstep : w.step e = some w') (he : e.settles = true) :
    (if e.goesOn then 1 else 0) + w'.progress.work ≤
      w.progress.work + (if e.goesOn then 0 else 1) := by
  have hpop : ∀ {f : Frame} {rest : List Frame}, w.stack = f :: rest →
      w.progress.work =
        ({ w with stack := rest } : World).progress.work + w.progress.frameWork f := by
    intro f rest hstack
    have hpush := Progress.work_push ({ w with stack := rest } : World).progress f
    have heq : ({ w with stack := rest } : World).progress.push f = w.progress := by
      simp only [World.progress, Progress.push, hstack]
    rw [heq] at hpush
    exact hpush
  cases (step_cases hstep).2 with
  | api c _ =>
    have hc : c.subscribes = false := by simpa [Event.settles] using he
    have hwork := api_work (w := w) hc
    simp only [Event.goesOn, Bool.false_eq_true, if_false]
    omega
  | @ret site top rest ok hstack =>
    have hframe : w.progress.frameWork (.lua site top) = 1 := rfl
    have htop : ({ w with stack := rest, lua.top := top + (if ok then 0 else site.leftover) } :
        World).progress = ({ w with stack := rest } : World).progress := rfl
    rw [htop, hpop hstack, hframe]
    simp only [Event.goesOn, if_true]
    omega
  | @resume f rest hstack hlua =>
    have hwork := resume_work (w := { w with stack := rest }) f hlua
    have hframe : ({ w with stack := rest } : World).progress.frameWork f =
        w.progress.frameWork f := rfl
    rw [hframe, ← hpop hstack] at hwork
    simp only [Event.goesOn, if_true]
    omega
  | read | readError | written | connected | closed | tick => cases he

/-- As long as the stack is not empty, something goes on. -/
theorem exists_step {w : World} (hfault : w.fault = none) (hstack : w.stack ≠ []) :
    ∃ e w', e.goesOn = true ∧ w.step e = some w' := by
  have hrunning : ¬w.fault.isSome = true := by simp [hfault]
  cases hs : w.stack with
  | nil => exact absurd hs hstack
  | cons f rest =>
    cases f with
    | lua site top =>
      exact ⟨.ret true, _, rfl, by simp only [World.step, if_neg hrunning, hs]; rfl⟩
    | readLoop | closeStream | bufFree | event | timer =>
      exact ⟨.resume, _, rfl, by simp only [World.step, if_neg hrunning, hs]; rfl⟩

/-- **Every callback comes to an end.**  In a run within a callback of libuv, or of main code, in
    which Lua code does not subscribe, no more functions return and go on than the state at its
    start counts and methods are called; and wherever the run stands, the callback can end. -/
theorem loopsEnd {w v : World} {es : List Event}
    (h : RunsUnder World.step (fun _ e _ => e.settles = true) w es v) :
    es.countP Event.goesOn + v.progress.work ≤
        w.progress.work + es.countP (fun e => !e.goesOn) ∧
      ∃ es' v', (∀ e ∈ es', e.goesOn = true) ∧ runs v es' = some v' ∧
        es'.length ≤ v.progress.work ∧ (v'.fault = none → v'.stack = []) := by
  refine ⟨h.countP_le fun s e t hst he => step_work hst he, ?_⟩
  refine exists_run_of_measure (m := fun w : World => w.progress.work)
    (p := fun e : Event => e.goesOn = true) (fun s hs => ?_) v
  obtain ⟨hfault, hstack⟩ := Classical.not_imp.mp hs
  obtain ⟨e, t, he, hst⟩ := exists_step hfault hstack
  have hsettles : e.settles = true := by
    cases e with
    | ret | resume => rfl
    | api | read | readError | written | connected | closed | tick => cases he
  have hwork := step_work hst hsettles
  rw [if_pos he, if_pos he] at hwork
  exact ⟨e, t, he, hst, by omega⟩

/-- Two functions subscribe to `a`, and a message has just been dispatched to the first. -/
def beforeEvent : List Event :=
  [.api .connect, .connected 0 0, .connected 0 0,
   .api (.command [.string (ascii "subscribe"), .string (ascii "a"), .function 1] ⟨0, false⟩),
   .api (.command [.string (ascii "subscribe"), .string (ascii "a"), .function 2] ⟨0, false⟩),
   .written 0 0 0, .read 1 (ascii "*3\r\n$7\r\nmessage\r\n$1\r\na\r\n$1\r\nx\r\n") .noref, .resume]

/-- The first function sends a command; then both return. -/
def afterEvent : List Event :=
  [.api (.command [.string (ascii "ping"), .function 3] ⟨0, false⟩), .ret true, .resume, .ret false,
   .resume, .resume]

theorem loopsEnd_event :
    ∃ w v, runs (World.new true) beforeEvent = some w ∧ runs w afterEvent = some v ∧
      afterEvent.countP Event.goesOn + v.progress.work ≤
        w.progress.work + afterEvent.countP (fun e => !e.goesOn) ∧ v.stack.length = 0 := by
  have hrun : ((runs (World.new true) beforeEvent).bind fun w => (runChecked World.step
      (fun _ e => e.settles) w afterEvent).map fun v => v.stack.length) = some 0 := by decide +kernel
  obtain ⟨w, hw, hrest⟩ := Option.bind_eq_some_iff.mp hrun
  obtain ⟨v, hv, hstack⟩ := Option.map_eq_some_iff.mp hrest
  have hunder := runsUnder_of_checked (C := fun _ e _ => e.settles = true)
    (fun _ _ _ h _ => h) hv
  exact ⟨w, v, hw, hunder.run_eq, (loopsEnd hunder).1, hstack⟩

end CrazySnail
