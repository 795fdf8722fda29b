import CrazySnail.Verified.Sending

/-! # The command list

What registration, `shift_cb` and the error reports do to `command_cb_list`, and what
they call.  Entries are fresh: a record on the list was created before.
-/

namespace CrazySnail

/-- The calls of Lua functions. -/
def calls (trace : List Obs) : List (Site × Fn × List LuaValue) :=
  trace.filterMap fun
    | .call site fn args => some (site, fn, args)
    | _ => none

@[simp] theorem calls_append (t u : List Obs) : calls (t ++ u) = calls t ++ calls u :=
  List.filterMap_append

namespace World
variable (w : World)

/-- The Lua function of the record a pointer leads to. -/
def fnOf (p : CbPtr) : Option Fn := (w.heap.deref p).bind fun c => w.lua.rawgeti c.ref

/-- The list, the functions of its entries, and what was called. -/
structure Queue where
  list : CallbackEnds
  fnOf : CbPtr → Option Fn
  calls : List (Site × Fn × List LuaValue)

def queue : Queue := ⟨w.cc.commandCbList, w.fnOf, calls w.trace⟩

end World

/-! ## Frames -/

/-- The calls of all sites. -/
def callTags : List Part :=
  [.reply, .confirmation, .event, .timer, .sendError, .writeError, .error, .connect,
    .disconnect].map fun site => .obs (.call site)

/-- The parts that matter to the list and its functions. -/
def queueParts : List Part :=
  [.ref, .unref, .create, .detach, .shift, .append, .appendStack, .clearList] ++ callTags

theorem Update.apply_calls (w : World) (u : Update) (hu : u.part ∉ callTags) :
    calls (u.apply w).trace = calls w.trace := by
  cases u with
  | log o =>
    cases o with
    | call site fn args => cases site <;> simp [callTags] at hu
    | _ => simp [apply, World.log, calls]
  | names p t => cases p <;> rfl
  | _ => rfl

/-- A record keeps its reference when its other fields change. -/
theorem fnOf_update {w : World} {id : Nat} {f : Callback → Callback} (hf : ∀ c, (f c).ref = c.ref) :
    { w with heap := w.heap.update id f }.fnOf = w.fnOf := by
  funext p
  cases p with
  | stack => rfl
  | heap i =>
    simp only [World.fnOf, Heap.deref, Heap.update, Heap.set]
    by_cases hi : i = id
    · subst hi
      rw [Function.update_self]
      cases w.heap.cb i with
      | none => rfl
      | some c => simp [hf]
    · rw [Function.update_of_ne hi]

theorem Update.apply_queue (w : World) (u : Update) (hu : u.part ∉ queueParts) :
    (u.apply w).queue = w.queue := by
  cases u with
  | log o =>
    exact congrArg (World.Queue.mk _ w.fnOf)
      (apply_calls w (.log o) fun hmem => hu (List.mem_append_right _ hmem))
  | attach id => exact congrArg (World.Queue.mk _ · _) (fnOf_update fun _ => rfl)
  | addChannel id ch => exact congrArg (World.Queue.mk _ · _) (fnOf_update fun _ => rfl)
  | slots id chs all => exact congrArg (World.Queue.mk _ · _) (fnOf_update fun _ => rfl)
  | names p t => cases p <;> rfl
  | ref | unref | create | detach | shift | append | appendStack | clearList =>
    simp [queueParts] at hu
  | _ => rfl

theorem Touches.queue {ks : List Part} {w w' : World} (h : Touches ks w w')
    (hks : ks.all (fun k => decide (k ∉ queueParts)) = true) : w'.queue = w.queue :=
  h.same (fun w u hu => u.apply_queue w hu) hks

theorem Touches.calls {ks : List Part} {w w' : World} (h : Touches ks w w')
    (hks : ks.all (fun k => decide (k ∉ callTags)) = true) :
    CrazySnail.calls w'.trace = CrazySnail.calls w.trace :=
  h.same (f := fun w => CrazySnail.calls w.trace) (fun w u hu => u.apply_calls w hu) hks

/-! ## Registration -/

namespace World
variable {w : World}

/-- The reference taken on a callback leads to it. -/
theorem refCallback_spec (w : World) (fn : Option Fn) :
    (w.refCallback fn).2.lua.rawgeti (w.refCallback fn).1 = fn := by
  cases fn with
  | none => rfl
  | some f =>
    simp only [refCallback, Lua.ref]
    split <;> simp [Lua.rawgeti]

/-- The entry of a command on the list. -/
def ownEntry (w : World) (kind : Kind) : Option CbPtr :=
  if kind.pending then some (.heap w.heap.next) else none

theorem registerCommand_list (kind : Kind) (names timers : List Bytes) (fn : Option Fn)
    (flags : Bool) :
    (w.registerCommand kind names timers fn flags).cc.commandCbList =
      w.cc.commandCbList ++ (w.ownEntry kind).toList := by
  have href : (w.refCallback fn).2.cc.commandCbList = w.cc.commandCbList := by
    cases fn <;> rfl
  cases kind with
  | subscribe p =>
    have hsub := (subscribe_touches ((w.refCallback fn).2.newCallback (w.refCallback fn).1 flags) p
      w.heap.next names timers).queue rfl
    have hlist := congrArg Queue.list hsub
    simp only [registerCommand, ownEntry, Kind.pending, Kind.subMode]
    simpa [queue, newCallback, href] using hlist
  | unsubscribe => simp [registerCommand, ownEntry, Kind.pending, Kind.subMode, href]
  | monitor =>
    simp [registerCommand, ownEntry, Kind.pending, Kind.subMode, pushCb, newCallback, href]
  | ordinary =>
    simp [registerCommand, ownEntry, Kind.pending, Kind.subMode, pushCb, newCallback, href]

/-- The new entry leads to the callback of its command. -/
theorem registerCommand_fnOf {kind : Kind} (hkind : kind.pending = true) (names timers : List Bytes)
    (fn : Option Fn) (flags : Bool) :
    (w.registerCommand kind names timers fn flags).fnOf (.heap w.heap.next) = fn := by
  have href := w.refCallback_spec fn
  have hnext : (w.refCallback fn).2.heap.next = w.heap.next := by cases fn <;> rfl
  cases kind with
  | subscribe p => simp [Kind.pending, Kind.subMode] at hkind
  | unsubscribe => simp [Kind.pending, Kind.subMode] at hkind
  | monitor =>
    simp [registerCommand, pushCb, newCallback, createCallback, fnOf, Heap.deref, Heap.update,
      Heap.set, hnext, href]
  | ordinary =>
    simp [registerCommand, pushCb, newCallback, createCallback, fnOf, Heap.deref, Heap.update,
      Heap.set, hnext, href]

theorem registerCommand_next {kind : Kind} (hkind : kind.pending = true) (names timers : List Bytes)
    (fn : Option Fn) (flags : Bool) :
    (w.registerCommand kind names timers fn flags).heap.next = w.heap.next + 1 := by
  have hnext : (w.refCallback fn).2.heap.next = w.heap.next := by cases fn <;> rfl
  cases kind with
  | subscribe p => simp [Kind.pending, Kind.subMode] at hkind
  | unsubscribe => simp [Kind.pending, Kind.subMode] at hkind
  | monitor =>
    simp [registerCommand, pushCb, newCallback, createCallback, Heap.update, Heap.set, hnext]
  | ordinary =>
    simp [registerCommand, pushCb, newCallback, createCallback, Heap.update, Heap.set, hnext]

theorem entered_list (argv timers : List Bytes) (fn : Option Fn) (flags : Bool) :
    (w.entered argv timers fn flags).cc.commandCbList =
      w.cc.commandCbList ++ (w.ownEntry (classify (argv.headD []))).toList :=
  registerCommand_list _ _ _ _ _

theorem entered_fnOf {argv : List Bytes} (hkind : (classify (argv.headD [])).pending = true)
    (timers : List Bytes) (fn : Option Fn) (flags : Bool) :
    (w.entered argv timers fn flags).fnOf (.heap w.heap.next) = fn :=
  registerCommand_fnOf hkind _ _ _ _

theorem entered_calls (argv timers : List Bytes) (fn : Option Fn) (flags : Bool) :
    calls (w.entered argv timers fn flags).trace = calls w.trace :=
  (w.entered_touches argv timers fn flags).calls rfl

/-! ## Reports -/

/-- The call of a function with an error, if there is a function. -/
def report (site : Site) (fn : Option Fn) (error : LuaValue) : List (Site × Fn × List LuaValue) :=
  fn.toList.map fun f => (site, f, [error])

theorem pcall_calls (w : World) (site : Site) (fn : Option Fn) (args : List LuaValue) :
    calls (w.pcall site fn args).trace =
      calls w.trace ++ fn.toList.map fun f => (site, f, args) := by
  cases fn with
  | none => simp [pcall]
  | some f => simp [pcall, calls]

/-- An error report takes the first entry off the list and calls its function. -/
theorem shiftAndReport_spec (w : World) (site : Site) (error : LuaValue)
    (otherwise : World → World)
    (ho : ∀ w, (otherwise w).cc.commandCbList = w.cc.commandCbList ∧
      calls (otherwise w).trace = calls w.trace) :
    (w.shiftAndReport site error otherwise).cc.commandCbList = w.cc.commandCbList.tail ∧
      calls (w.shiftAndReport site error otherwise).trace =
        calls w.trace ++ report site (w.cc.commandCbList.head?.bind w.fnOf) error := by
  have hspec := w.shift_spec
  unfold shiftAndReport
  split
  next heq =>
    simp only [heq] at hspec
    simp [ho w, hspec, report]
  next list heq =>
    simp only [heq] at hspec
    obtain ⟨-, p, hlist, hdead⟩ := hspec
    simp [crash, hlist, fnOf, hdead, report]
  next list target heap heq =>
    simp only [heq] at hspec
    obtain ⟨-, p, hlist, htarget⟩ := hspec
    have hfn : w.fnOf p = w.lua.rawgeti target.ref := by simp [fnOf, htarget]
    simp only [hlist, List.tail_cons, List.head?_cons, Option.bind_some, hfn]
    cases target.ref with
    | ref n =>
      refine ⟨?_, ?_⟩
      · dsimp only
        cases w.lua.slots n <;> rfl
      · dsimp only
        rw [pcall_calls]
        rfl
    | noref => simp [ho, report, Lua.rawgeti]
    | refnil => simp [ho, report, Lua.rawgeti]

end World

/-! ## Fresh entries -/

open World

/-- The records on the list have been created. -/
def Fresh (w : World) : Prop := ∀ id, .heap id ∈ w.cc.commandCbList → id < w.heap.next

theorem destroyWrapper_next {h h' : Heap} {p : CbPtr} (heq : CrazySnail.destroyWrapper h p = some h') :
    h'.next = h.next := by
  unfold CrazySnail.destroyWrapper at heq
  split at heq
  · cases heq
  · split at heq
    · cases heq
    · cases heq; rfl

theorem shift_next (w : World) : w.shift.heap.next = w.heap.next := by
  simp only [World.shift]
  cases hp : w.cc.commandCbList.head?.bind (CrazySnail.destroyWrapper w.heap) with
  | none => rfl
  | some heap =>
    obtain ⟨p, -, hp⟩ := Option.bind_eq_some_iff.mp hp
    exact destroyWrapper_next hp

/-- Identifiers are never taken back. -/
theorem Update.apply_next (w : World) (u : Update) : w.heap.next ≤ (u.apply w).heap.next := by
  cases u with
  | names p t => cases p <;> exact Nat.le_refl _
  | create r flags => exact Nat.le_succ _
  | detach p =>
    simp only [Update.apply]
    cases hp : CrazySnail.destroyWrapper w.heap p with
    | none => exact Nat.le_refl _
    | some heap => exact (destroyWrapper_next hp).ge
  | shift => exact (shift_next w).ge
  | _ => exact Nat.le_refl _

theorem Fresh.update (w : World) (u : Update) (hu : u.part ∉ [.append]) (h : Fresh w) :
    Fresh (u.apply w) := by
  have hnext : ∀ id, .heap id ∈ w.cc.commandCbList → id < (u.apply w).heap.next := fun id hid =>
    Nat.lt_of_lt_of_le (h id hid) (u.apply_next w)
  cases u with
  | names p t => cases p <;> exact h
  | shift => exact fun id hid => hnext id (List.mem_of_mem_tail hid)
  | append id => simp at hu
  | appendStack =>
    intro id hid
    rcases List.mem_append.mp hid with hid | hid
    · exact h id hid
    · simp at hid
  | clearList => exact fun id hid => absurd hid List.not_mem_nil
  | _ => exact hnext

theorem Touches.fresh {ks : List Part} {w w' : World} (h : Touches ks w w')
    (hks : ks.all (fun k => decide (k ∉ [.append])) = true) (hw : Fresh w) : Fresh w' :=
  h.keeps (fun w u hu => Fresh.update w u hu) hks hw

theorem registerCommand_fresh {w : World} (kind : Kind) (names timers : List Bytes) (fn : Option Fn)
    (flags : Bool) (h : Fresh w) : Fresh (w.registerCommand kind names timers fn flags) := by
  have href : Fresh (w.refCallback fn).2 := Touches.fresh (w.refCallback_touches fn) rfl h
  by_cases hkind : kind.pending = true
  · intro id hid
    rw [registerCommand_list, List.mem_append] at hid
    rw [registerCommand_next hkind]
    rcases hid with hid | hid
    · exact Nat.lt_succ_of_lt (h id hid)
    · simp only [ownEntry, hkind, if_true, Option.toList_some, List.mem_singleton,
        CbPtr.heap.injEq] at hid
      omega
  · cases kind with
    | subscribe p =>
      exact Touches.fresh (subscribe_touches _ p _ names timers) rfl
        (Fresh.update _ (.create _ flags) (by simp) href)
    | unsubscribe => exact href
    | monitor => exact absurd rfl hkind
    | ordinary => exact absurd rfl hkind

/-- Entries of the list are fresh in every step. -/
theorem step_fresh {w w' : World} {e : Event} (hstep : w.step e = some w') (h : Fresh w) :
    Fresh w' := by
  have htouches := step_touches hstep
  obtain ⟨-, hs⟩ := step_cases hstep
  cases hs with
  | api c _ =>
    cases c with
    | command args env =>
      change Fresh (w.luaClientCommand args env)
      cases hcollect : collect args with
      | raise | fault =>
        exact (w.luaClientCommand_refused env (by simp [hcollect])).fresh rfl h
      | ok argv timers =>
        rw [luaClientCommand_eq hcollect]
        refine Touches.fresh (sendCommand_touches _ _ _ _ _ _) rfl ?_
        exact registerCommand_fresh _ _ _ _ _ h
    | _ => exact htouches.fresh rfl h
  | @resume f rest hstack _ =>
    rw [hstack] at htouches
    exact htouches.fresh (by cases f <;> rfl) h
  | _ => exact htouches.fresh rfl h

theorem reachable_fresh {w : World} (h : Reachable w) : Fresh w := by
  obtain ⟨ignore, hreach⟩ := h
  exact hreach.invariant (I := Fresh) (fun _ _ _ hw hst => step_fresh hst hw)
    fun id hid => absurd hid List.not_mem_nil

end CrazySnail
