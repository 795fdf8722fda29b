import CrazySnail.Verified.Matching
import CrazySnail.Verified.ReplyLoop

/-! # Each reply reaches the callback of its command

The steps of a client whose sends succeed keep the invariant of the matching. -/

namespace CrazySnail

open World
open Matching (Ok)

/-! ## Frames -/

/-- The parts that matter to the matching of replies. -/
def matchingParts : List Part :=
  [.ref, .unref, .create, .detach, .shift, .append, .appendStack, .clearList, .raise .monitoring,
    .clearFlags, .obs .command, .obs .reply, .obs (.call .reply), .obs (.call .sendError),
    .obs (.call .writeError)]

theorem matching_update (w : World) (id : Nat) {f : Callback → Callback} (hf : ∀ c, (f c).ref = c.ref) :
    { w with heap := w.heap.update id f }.matching = w.matching := by
  have href : (fun i => ((w.heap.update id f).cb i).map Callback.ref) =
      fun i => (w.heap.cb i).map Callback.ref := by
    funext i
    simp only [Heap.update, Heap.set]
    by_cases hi : i = id
    · subst hi
      rw [Function.update_self, Option.map_map]
      exact congrArg (Option.map · _) (funext hf)
    · rw [Function.update_of_ne hi]
  exact congrArg (fun r => { w.matching with ref := r }) href

theorem Update.apply_matching (w : World) (u : Update) (hu : u.part ∉ matchingParts) :
    (u.apply w).matching = w.matching := by
  cases u with
  | log o =>
    have htrace : issued (w.trace ++ [o]) = issued w.trace ∧
        answered (w.trace ++ [o]) = answered w.trace ∧
        commandCalls (w.trace ++ [o]) = commandCalls w.trace := by
      cases o with
      | call site fn args =>
        cases site <;> first
          | simp [matchingParts] at hu; done
          | simp [issued, answered, commandCalls, calls, Site.ofCommand]
      | command | reply => simp [matchingParts] at hu
      | _ => simp [issued, answered, commandCalls, calls]
    obtain ⟨hissued, hanswered, hcalls⟩ := htrace
    simp only [apply, World.log, World.matching, hissued, hanswered, hcalls]
  | attach id => exact matching_update w id fun _ => rfl
  | addChannel id ch => exact matching_update w id fun _ => rfl
  | slots id chs all => exact matching_update w id fun _ => rfl
  | names p t => cases p <;> rfl
  | raise t => cases t <;> first | rfl | simp [matchingParts] at hu
  | ref | unref | create | detach | shift | append | appendStack | clearList | clearFlags =>
    simp [matchingParts] at hu
  | _ => rfl

theorem Touches.matching {ks : List Part} {w w' : World} (h : Touches ks w w')
    (hks : ks.all (fun k => decide (k ∉ matchingParts)) = true) : w'.matching = w.matching :=
  h.same (fun w u hu => u.apply_matching w hu) hks

/-! ## Commands -/

/-- `luaL_ref` does not look at the height of the stack. -/
theorem Lua.ref_top (l : Lua) (n : Int) (f : Fn) :
    { l with top := n }.ref f = ((l.ref f).1, { (l.ref f).2 with top := n }) := by
  unfold Lua.ref
  cases l.free <;> rfl

/-- A reference taken on a callback leads to it and is nobody else's. -/
theorem refCallback_ok {w : World} (h : w.matching.Ok) (fn : Option Fn) :
    (w.refCallback fn).2.matching.Ok ∧
      (w.refCallback fn).2.matching.lua.Leads (some (w.refCallback fn).1) fn ∧
      (w.refCallback fn).2.matching.lua.Owned
        ((w.refCallback fn).1.slot?.toList ++ (w.refCallback fn).2.matching.slots) := by
  cases fn with
  | none => exact ⟨h, .nil, h.owned⟩
  | some f =>
    obtain ⟨hok, howned⟩ := h.ref f
    rw [show w.matching.lua = { w.lua with top := 0 } from rfl, Lua.ref_top] at hok howned
    exact ⟨hok, .slot (Lua.ref_slots_self _ f), howned⟩

theorem newCallback_matching (w : World) (r : LuaRef) (flags : Bool) :
    (w.newCallback r flags).matching =
      { w.matching with
        next := w.heap.next + 1
        ref := Function.update w.matching.ref w.heap.next (some r) } :=
  congrArg (fun ref => { w.matching with next := w.heap.next + 1, ref })
    (Function.comp_update (Option.map Callback.ref) w.heap.cb w.heap.next _)

theorem newCallback_ok {w : World} (h : w.matching.Ok) (r : LuaRef) (flags : Bool) :
    (w.newCallback r flags).matching.Ok := by
  rw [newCallback_matching]
  exact h.records _ (Nat.le_succ _) fun id hid => Function.update_of_ne (Nat.ne_of_lt hid) ..

/-- A command with an entry of its own, except for the trace. -/
theorem registerCommand_matching (w : World) (names timers : List Bytes) (fn : Option Fn)
    (flags : Bool) :
    (w.registerCommand .ordinary names timers fn flags).matching =
      { (w.refCallback fn).2.matching with
        list := w.cc.commandCbList ++ [.heap w.heap.next]
        next := w.heap.next + 1
        ref := Function.update (w.refCallback fn).2.matching.ref w.heap.next
          (some (w.refCallback fn).1) } := by
  have hnext : (w.refCallback fn).2.heap.next = w.heap.next := by cases fn <;> rfl
  have hlist : (w.refCallback fn).2.cc.commandCbList = w.cc.commandCbList := by cases fn <;> rfl
  have hnew := newCallback_matching (w.refCallback fn).2 (w.refCallback fn).1 flags
  have hattach := matching_update ((w.refCallback fn).2.newCallback (w.refCallback fn).1 flags)
    w.heap.next (f := fun c => { c with attach := c.attach + 1 }) fun _ => rfl
  rw [hnext] at hnew
  have heq := hattach.trans hnew
  rw [← hlist]
  exact congrArg (fun m : Matching => { m with list := (w.refCallback fn).2.cc.commandCbList ++
    [CbPtr.heap w.heap.next] }) heq

/-- A command that is not `monitor` is entered. -/
theorem entered_ok {w : World} (h : w.matching.Ok) {argv : List Bytes}
    (hkind : classify (argv.headD []) ≠ .monitor) (timers : List Bytes) (fn : Option Fn)
    (flags : Bool) : (w.entered argv timers fn flags).matching.Ok := by
  unfold entered
  generalize classify (argv.headD []) = kind at hkind ⊢
  have hnoted : kind.pending = false → (w.noted kind argv timers fn).matching.Ok := by
    intro hk
    have heq : (w.noted kind argv timers fn).matching = w.matching := by
      simp [World.matching, noted, World.log, issued, answered, commandCalls, calls, hk]
    exact heq ▸ h
  cases kind with
  | monitor => exact absurd rfl hkind
  | unsubscribe =>
    exact (refCallback_ok (hnoted rfl) fn).1
  | subscribe p =>
    have hnew := newCallback_ok (refCallback_ok (hnoted rfl) fn).1
      ((w.noted (.subscribe p) argv timers fn).refCallback fn).1 flags
    exact ((subscribe_touches _ p w.heap.next argv.tail timers).matching rfl).symm ▸ hnew
  | ordinary =>
    obtain ⟨hok, hleads, howned⟩ := refCallback_ok h fn
    have henter := hok.enter hleads howned
    rw [registerCommand_matching]
    have hissued : issued (w.trace ++ [.command .ordinary argv timers fn w.heap.next] ++
        [.mallocCmd w.nextCmd]) = issued w.trace ++ [(w.heap.next, fn)] := by
      simp [issued, Kind.pending, Kind.subMode]
    have hanswered : answered (w.trace ++ [.command .ordinary argv timers fn w.heap.next] ++
        [.mallocCmd w.nextCmd]) = answered w.trace := by simp [answered]
    have hcalls : commandCalls (w.trace ++ [.command .ordinary argv timers fn w.heap.next] ++
        [.mallocCmd w.nextCmd]) = commandCalls w.trace := by simp [commandCalls, calls]
    cases fn with
    | none =>
      simp only [refCallback, World.matching, noted, World.log, hissued, hanswered, hcalls] at henter ⊢
      exact henter
    | some f =>
      simp only [refCallback, World.matching, noted, World.log, hissued, hanswered, hcalls] at henter ⊢
      exact henter

/-! ## Replies -/

/-- Only the record of the first entry is touched when it is taken off. -/
theorem shift_record {w : World} {id i : Nat} {rest : CallbackEnds}
    (hlist : w.cc.commandCbList = .heap id :: rest) (hi : i ≠ id) :
    w.shift.heap.cb i = w.heap.cb i := by
  simp only [World.shift, hlist, List.head?_cons, Option.bind_some, CrazySnail.destroyWrapper]
  cases w.heap.cb id with
  | none => rfl
  | some k => exact Function.update_of_ne hi ..

/-- The calls of a reply that is passed on to a function. -/
def passedOn (fn : Option Fn) (r : Reply) : List (Site × Fn × List LuaValue) :=
  fn.toList.map fun f => (.reply, f, [.nil, pushReply r])

/-- A reply is passed to the function of a reference, which is given back. -/
theorem deliverReply_matching {w : World} {h₁ : Handle} {cb : LuaRef} {r : Reply}
    (hr : ∀ n, cb = .ref n → readable r = true) :
    (w.deliverReply h₁ cb r).matching =
      { w.matching with
        calls := w.matching.calls ++ passedOn (w.lua.rawgeti cb) r
        lua := w.matching.lua.unref cb } := by
  cases cb with
  | noref | refnil =>
    simp [deliverReply, World.matching, push, passedOn, Lua.rawgeti, Lua.unref]
  | ref n =>
    simp only [deliverReply, hr n rfl, if_true]
    cases hslot : w.lua.slots n with
    | none =>
      simp [World.matching, push, hslot, pcall, World.unref, Lua.unref, passedOn, Lua.rawgeti]
    | some f =>
      simp [World.matching, push, hslot, pcall, World.unref, Lua.unref, passedOn, Lua.rawgeti,
        issued, answered, commandCalls, calls, Site.ofCommand]

/-- What cannot be read is not passed on. -/
theorem deliverReply_readable {w : World} {h₁ : Handle} {cb : LuaRef} {r : Reply}
    (hfault : (w.deliverReply h₁ cb r).fault = none) (n : Nat) (hcb : cb = .ref n) :
    readable r = true := by
  subst hcb
  cases hreadable : readable r with
  | true => rfl
  | false =>
    have hcrash := crash_isSome (w.push (.readLoop h₁ false (.ref n))) .nullElement
    simp only [deliverReply, hreadable, Bool.false_eq_true, if_false] at hfault
    rw [hfault] at hcrash
    cases hcrash

/-- The callback of a record is the function of its reference. -/
theorem Lua.Leads.rawgeti {l : Lua} {ref : LuaRef} {fn : Option Fn} (h : l.Leads (some ref) fn) :
    l.rawgeti ref = fn := by
  cases h with
  | slot hn => exact hn
  | nil => rfl

/-- With an entry on the list, its record says who gets the reply. -/
theorem dispatchReply_waiting {w : World} {id : Nat} {rest : CallbackEnds}
    (hlist : w.cc.commandCbList = .heap id :: rest) {target : Callback}
    (htarget : w.heap.cb id = some target) (h₁ : Handle) (cb : LuaRef) (r : Reply) :
    w.dispatchReply h₁ cb r = w.shift.deliverReply h₁ target.ref r := by
  have hspec := w.shift_spec
  obtain ⟨heq, -⟩ | ⟨list, heq, -⟩ | ⟨list, found, heap, heq, hdeliver⟩ :=
    w.dispatchReply_cases h₁ cb r
  · simp only [heq] at hspec
    rw [hlist] at hspec
    cases hspec
  · simp only [heq] at hspec
    obtain ⟨-, p, hp, hdead⟩ := hspec
    obtain rfl : CbPtr.heap id = p := (List.cons.inj (hlist.symm.trans hp)).1
    have hdead : w.heap.cb id = none := hdead
    rw [htarget] at hdead
    cases hdead
  · simp only [heq] at hspec
    obtain ⟨hshift, p, hp, hfound⟩ := hspec
    obtain rfl : CbPtr.heap id = p := (List.cons.inj (hlist.symm.trans hp)).1
    have hfound : w.heap.cb id = some found := hfound
    rw [htarget] at hfound
    rw [hdeliver, hshift, Option.some.inj hfound]

/-- A reply for the command of the first entry calls its callback and gives its reference
    back. -/
theorem dispatchReply_matching {w : World} {id : Nat} {fn : Option Fn} {rest : CallbackEnds}
    (hlist : w.cc.commandCbList = .heap id :: rest)
    (hleads : w.matching.lua.Leads (w.matching.ref id) fn) (h₁ : Handle) (cb : LuaRef) {r : Reply}
    (hr : readable r = true ∨ (w.dispatchReply h₁ cb r).fault = none) :
    (w.dispatchReply h₁ cb r).matching = { w.matching with
      calls := w.matching.calls ++ (replyCall (id, fn) r).toList
      list := w.matching.list.tail
      ref := fun i => (w.shift.heap.cb i).map Callback.ref
      lua := w.matching.lua.unref ((w.matching.ref id).getD .noref) } := by
  obtain ⟨target, htarget⟩ : ∃ target, w.heap.cb id = some target := by
    cases hcb : w.heap.cb id with
    | some target => exact ⟨target, rfl⟩
    | none =>
      rw [show w.matching.ref id = none from congrArg (Option.map Callback.ref) hcb] at hleads
      cases hleads
  have href : w.matching.ref id = some target.ref := congrArg (Option.map Callback.ref) htarget
  rw [href] at hleads
  rw [dispatchReply_waiting hlist htarget] at hr ⊢
  have hreadable : ∀ n, target.ref = .ref n → readable r = true := fun n hn =>
    hr.elim (fun h => h) fun hfault => deliverReply_readable hfault n hn
  have hcall : passedOn (w.shift.lua.rawgeti target.ref) r = (replyCall (id, fn) r).toList := by
    rw [show w.shift.lua.rawgeti target.ref = fn from hleads.rawgeti]
    cases fn <;> rfl
  have hshift : w.shift.matching = { w.matching with
      list := w.matching.list.tail
      ref := fun i => (w.shift.heap.cb i).map Callback.ref } :=
    congrArg (fun n => { w.shift.matching with next := n }) (shift_next w)
  rw [deliverReply_matching hreadable, hcall, href, hshift]
  rfl

theorem replied_matching (w : World) (reader : RedisReader) (r : Reply) :
    (w.replied reader false r).matching =
      { w.matching with answered := w.matching.answered ++ [r] } := by
  simp [replied, World.matching, World.log, issued, answered, commandCalls, calls]

/-- A reply on the command stream goes to the first waiting command. -/
theorem dispatchReply_ok {w : World} (h : w.matching.Ok) {c : Nat × Option Fn}
    {rest : List (Nat × Option Fn)} (hpending : w.matching.pending = c :: rest) {r : Reply}
    (hr : readable r = true) (reader : RedisReader) (h₁ : Handle) (cb : LuaRef) :
    ((w.replied reader false r).dispatchReply h₁ cb r).matching.Ok := by
  have hlist : w.cc.commandCbList = .heap c.1 :: rest.map fun d => .heap d.1 := by
    rw [show w.cc.commandCbList = _ from h.list, hpending, List.map_cons]
  have hleads := h.leads c (hpending ▸ List.mem_cons_self)
  rw [dispatchReply_matching (w := w.replied reader false r) hlist hleads h₁ cb (.inl hr),
    replied_matching]
  exact h.reply hpending r (fun i => (w.shift.heap.cb i).map Callback.ref)
    fun i hi => congrArg (Option.map Callback.ref) (shift_record hlist hi)

/-- The server answers no more commands than were sent, and well. -/
def Promised (w : World) : Prop :=
  (answered w.trace).length ≤ (issued w.trace).length ∧ ∀ r ∈ answered w.trace, readable r = true

theorem Update.apply_history (w : World) (u : Update)
    (hu : u.part ∉ [.obs .command, .obs .reply]) :
    (issued (u.apply w).trace, answered (u.apply w).trace) = (issued w.trace, answered w.trace) := by
  cases u with
  | log o =>
    cases o <;> first
      | simp at hu; done
      | simp [apply, World.log, issued, answered]
  | names p t => cases p <;> rfl
  | _ => rfl

theorem Touches.history {ks : List Part} {w w' : World} (h : Touches ks w w')
    (hks : ks.all (fun k => decide (k ∉ [.obs .command, .obs .reply])) = true) :
    (issued w'.trace, answered w'.trace) = (issued w.trace, answered w.trace) :=
  h.same (f := fun w => (issued w.trace, answered w.trace)) (fun w u hu => u.apply_history w hu) hks

/-- The end of a round changes nothing, except in monitor mode. -/
theorem endRead_matching {w : World} (hquiet : w.cc.flags.monitoring = false) (h₁ : Handle)
    (subMode : Bool) : (w.endRead h₁ subMode).matching = w.matching := by
  simp only [endRead, hquiet, Bool.false_eq_true, if_false]
  split <;> rfl

/-- A round on the subscription stream. -/
theorem subReply_matching (w : World) (reader : RedisReader) (r : Reply) (h₁ : Handle)
    (cb : LuaRef) : ((w.replied reader true r).push (.readLoop h₁ true cb)).matching = w.matching := by
  simp [replied, World.matching, World.log, World.push, issued, answered, commandCalls, calls]

/-- One round of the reply loop. -/
theorem readLoop_ok {w : World} (h : w.matching.Ok) (h₁ : Handle) (subMode : Bool) (cb : LuaRef)
    (hpromised : Promised (w.readLoop h₁ subMode cb)) :
    (w.readLoop h₁ subMode cb).matching.Ok := by
  have hround := readLoop_round w h₁ subMode cb
  generalize w.readLoop h₁ subMode cb = w' at hround hpromised ⊢
  cases hround with
  | exited | failed | stored | disconnecting => exact h
  | @ended reader _ _ =>
    exact (endRead_matching (w := { w with cc.reader := reader }) h.quiet h₁ subMode).symm ▸ h
  | @subError reader message _ _ =>
    exact (subReply_matching w reader (.error message) h₁ cb).symm ▸ h
  | @subReply reader r _ _ =>
    refine ((getAndCallSubCb_touches _ r).matching rfl).symm ▸ ?_
    exact (subReply_matching w reader r h₁ cb).symm ▸ h
  | @reply reader r _ _ =>
    -- the promise leaves a command for the reply
    have hhistory := (dispatchReply_touches (w.replied reader false r) h₁ cb r).history rfl
    obtain ⟨hissued, hanswered⟩ := Prod.mk.inj hhistory
    have hanswered₁ : answered (w.replied reader false r).trace = answered w.trace ++ [r] :=
      congrArg Matching.answered (replied_matching w reader r)
    have hissued₁ : issued (w.replied reader false r).trace = issued w.trace :=
      congrArg Matching.issued (replied_matching w reader r)
    obtain ⟨hle, hreadable⟩ := hpromised
    rw [hanswered, hanswered₁] at hreadable
    rw [hanswered, hissued, hanswered₁, hissued₁, List.length_append, List.length_singleton] at hle
    cases hpending : w.matching.pending with
    | nil =>
      have hge := List.drop_eq_nil_iff.mp hpending
      exact absurd (Nat.lt_of_lt_of_le hle hge) (Nat.lt_irrefl _)
    | cons c rest =>
      exact dispatchReply_ok h hpending
        (hreadable r (List.mem_append_right _ (List.mem_singleton_self r))) reader h₁ cb

/-! ## Other steps -/

/-- `on` takes a reference, and gives it back if it does not know the event. -/
theorem luaClientOn_matching (w : World) (event : Bytes) (fn : Fn) :
    (w.luaClientOn event fn).matching = { w.matching with lua := (w.matching.lua.ref fn).2 } ∨
      (w.luaClientOn event fn).matching = { w.matching with
        lua := (w.matching.lua.ref fn).2.unref (.ref (w.matching.lua.ref fn).1) } := by
  rw [show w.matching.lua = { w.lua with top := 0 } from rfl, Lua.ref_top]
  unfold luaClientOn
  dsimp only
  split
  · exact .inl rfl
  · split
    · exact .inl rfl
    · split
      · exact .inl rfl
      · exact .inr rfl

/-- References of handlers do not concern the waiting commands. -/
theorem Matching.Ok.on {m m' : Matching} (h : m.Ok) {f : Fn}
    (heq : m' = { m with lua := (m.lua.ref f).2 } ∨
      m' = { m with lua := (m.lua.ref f).2.unref (.ref (m.lua.ref f).1) }) : m'.Ok := by
  obtain ⟨hok, howned⟩ := h.ref f
  rcases heq with rfl | rfl
  · exact hok
  · exact hok.unref howned

theorem luaClientOn_ok {w : World} (h : w.matching.Ok) (event : Bytes) (fn : Fn) :
    (w.luaClientOn event fn).matching.Ok :=
  h.on (luaClientOn_matching w event fn)

/-- A new connection is not in monitor mode, as the old one. -/
theorem luaClientConnect_matching {w : World} (hquiet : w.cc.flags.monitoring = false) :
    w.luaClientConnect.matching = w.matching := by
  unfold luaClientConnect
  split
  · rfl
  · dsimp only
    rw [(uvPipeConnect_touches _ _).matching rfl, (uvPipeConnect_touches _ _).matching rfl,
      show ∀ w : World, ∀ h h', (w.log (.connect h h')).matching = w.matching from
        fun w h h' => Update.apply_matching w (.log (.connect h h')) (by simp [matchingParts])]
    have hflags : Flags.none.monitoring = w.cc.flags.monitoring := hquiet.symm
    exact congrArg (fun b => { w.matching with monitoring := b }) hflags

theorem luaClientConnect_ok {w : World} (h : w.matching.Ok) : w.luaClientConnect.matching.Ok :=
  (luaClientConnect_matching h.quiet).symm ▸ h

/-- A write that succeeds. -/
theorem onWrite_sent {w : World} (req : Request) {status readStart : Int} (hstatus : 0 ≤ status)
    (hread : 0 ≤ readStart) :
    (w.onWrite req status readStart).matching = w.matching := by
  unfold onWrite
  rw [if_neg (Int.not_lt.mpr hstatus), if_neg (Int.not_lt.mpr hread)]
  rfl

theorem teardown_mem (w : World) : .teardown ∈ w.teardown.trace :=
  (callHandler_touches _ _ _ _).trace.subset (List.mem_append_right _ (List.mem_singleton_self _))

/-- A close callback that leaves the other stream. -/
theorem onDisconnect_ok {w : World} {h₁ : Handle} (h : w.matching.Ok)
    (hteardown : .teardown ∉ (w.onDisconnect h₁).trace) : (w.onDisconnect h₁).matching.Ok := by
  have hfree : (w.freeStream h₁).matching = w.matching := (w.freeStream_touches h₁).matching rfl
  unfold onDisconnect at hteardown ⊢
  dsimp only at hteardown ⊢
  split at hteardown
  next hdata =>
    rw [if_pos hdata]
    exact hfree ▸ h
  next hdata =>
    rw [if_neg hdata]
    generalize (if (w.freeStream h₁).cc.streamFlags.stream then _ else _) = sf at hteardown ⊢
    split at hteardown
    next hsf => exact absurd (teardown_mem _) hteardown
    next hsf =>
      rw [if_neg hsf]
      exact hfree ▸ h

/-! ## The result -/

/-- A step of a client whose sends succeed, while the server keeps its promise. -/
def Succeeds (w : World) (e : Event) (w' : World) : Prop :=
  Promised w' ∧
    match e with
    | .api (.command args env) => ∀ argv timers, collect args = .ok argv timers →
        classify (argv.headD []) ≠ .monitor ∧
          Sendable w.sending (classify (argv.headD [])).subMode env
    | .api .exit => False
    | .written _ status readStart => 0 ≤ status ∧ 0 ≤ readStart
    | .closed _ => .teardown ∉ w'.trace
    | _ => True

theorem step_matching {w w' : World} {e : Event} (h : w.matching.Ok)
    (hstep : w.step e = some w') (hsucceeds : Succeeds w e w') : w'.matching.Ok := by
  have htouches := step_touches hstep
  obtain ⟨hfault, hs⟩ := step_cases hstep
  obtain ⟨hpromised, hcond⟩ := hsucceeds
  cases hs with
  | api c _ =>
    cases c with
    | on event fn => exact luaClientOn_ok h event fn
    | connect => exact luaClientConnect_ok h
    | command args env =>
      change (w.luaClientCommand args env).matching.Ok
      cases hcollect : collect args with
      | raise | fault =>
        have hrefused : Touches _ w (w.luaClientCommand args env) :=
          w.luaClientCommand_refused env (by simp [hcollect])
        exact (hrefused.matching rfl).symm ▸ h
      | ok argv timers =>
        obtain ⟨hkind, hsend⟩ := hcond argv timers hcollect
        refine ((luaClientCommand_sent hcollect hfault hsend).matching rfl).symm ▸ ?_
        exact entered_ok h hkind timers _ _
    | disconnect => exact (htouches.matching rfl).symm ▸ h
    | exit => exact hcond.elim
  | @resume f rest hstack _ =>
    cases f with
    | readLoop h₁ subMode cb => exact readLoop_ok (w := { w with stack := rest }) h h₁ subMode cb hpromised
    | _ =>
      rw [hstack] at htouches
      exact (htouches.matching rfl).symm ▸ h
  | @written i req status readStart _ _ _ _ _ => exact (onWrite_sent req hcond.1 hcond.2).symm ▸ h
  | @closed h₁ s _ _ _ _ _ =>
    refine onDisconnect_ok (w := w.log (.closed h₁)) ?_ hcond
    exact (Update.apply_matching w (.log (.closed h₁)) (by simp [matchingParts])).symm ▸ h
  | _ => exact (htouches.matching rfl).symm ▸ h

/-- The replies go to the commands in the order in which they were issued. -/
structure RepliesMatched (w : World) : Prop where
  /-- the list holds the commands without a reply, in order -/
  list : w.cc.commandCbList =
    ((issued w.trace).drop (answered w.trace).length).map fun c => .heap c.1
  /-- the `k`-th reply is passed to the callback of the `k`-th command; no command callback
      is called otherwise -/
  calls : commandCalls w.trace = matchedCalls (issued w.trace) (answered w.trace)

theorem matching_new (ignore : Bool) : (World.new ignore).matching.Ok where
  answered_le := Nat.le_refl _
  list := rfl
  calls := rfl
  quiet := rfl
  fresh _ hc := absurd hc List.not_mem_nil
  nodup := List.nodup_nil
  leads _ hc := absurd hc List.not_mem_nil
  owned := Lua.owned_empty

/-- **Matching of replies.**  In a run whose sends succeed, the list holds the unanswered
    commands and each reply is passed to the callback of its command. -/
theorem replies_matched {ignore : Bool} {es : List Event} {w : World}
    (hrun : Transition.RunsUnder World.step Succeeds (World.new ignore) es w) :
    RepliesMatched w := by
  have hok : w.matching.Ok := hrun.invariant (I := fun w => w.matching.Ok)
    (fun _ _ _ h hstep hsucceeds => step_matching h hstep hsucceeds) (matching_new ignore)
  exact ⟨hok.list, hok.calls⟩

/-- A ping whose callback sends another command, and a command without a callback. -/
def nestedRun : List Event :=
  [.api .connect, .connected 0 0, .connected 0 0,
   .api (.command [.string (ascii "ping"), .function 1] ⟨0, false⟩),
   .api (.command [.string (ascii "get"), .string (ascii "a")] ⟨0, false⟩),
   .written 0 0 0, .written 0 0 0,
   .read 0 (ascii "+PONG\r\n$1\r\nx\r\n") .noref, .resume,
   .api (.command [.string (ascii "echo"), .string (ascii "y"), .function 2] ⟨0, false⟩),
   .ret true, .resume, .resume, .written 0 0 0, .read 0 (ascii "$1\r\ny\r\n") .noref, .resume]

def sendableCheck (d : Sending) (subMode : Bool) (env : SendEnv) : Bool :=
  d.connected && !d.ending && decide (env.error = 0) &&
    match (d.target subMode).bind fun h => d.streams h with
    | some s => !s.freed && !s.closing
    | none => false

theorem sendable_of_check {d : Sending} {subMode : Bool} {env : SendEnv}
    (h : sendableCheck d subMode env = true) : Sendable d subMode env := by
  simp only [sendableCheck, Bool.and_eq_true, Bool.not_eq_true', decide_eq_true_eq] at h
  obtain ⟨⟨⟨hconn, hending⟩, herror⟩, hs⟩ := h
  split at hs
  next s heq =>
    obtain ⟨h₁, htarget, hstream⟩ := Option.bind_eq_some_iff.mp heq
    simp only [Bool.and_eq_true, Bool.not_eq_true'] at hs
    exact ⟨hconn, hending, herror, s, ⟨h₁, htarget, hstream, hs.1⟩, hs.2⟩
  · cases hs

def successCheck (w : World) (e : Event) : Bool :=
  (match w.step e with
    | some w' => decide ((answered w'.trace).length ≤ (issued w'.trace).length) &&
        (answered w'.trace).all readable
    | none => false) &&
  match e with
  | .api (.command args env) =>
    match collect args with
    | .ok argv _ => decide (classify (argv.headD []) ≠ .monitor) &&
        sendableCheck w.sending (classify (argv.headD [])).subMode env
    | _ => true
  | .api .exit => false
  | .written _ status readStart => decide (0 ≤ status) && decide (0 ≤ readStart)
  | .closed _ => false
  | _ => true

theorem succeeds_of_check {w w' : World} {e : Event} (h : successCheck w e = true)
    (hstep : w.step e = some w') : Succeeds w e w' := by
  simp only [successCheck, hstep, Bool.and_eq_true, decide_eq_true_eq, List.all_eq_true] at h
  obtain ⟨hpromised, hcond⟩ := h
  refine ⟨hpromised, ?_⟩
  cases e with
  | api c =>
    cases c with
    | command args env =>
      intro argv timers hcollect
      simp only [hcollect, Bool.and_eq_true, decide_eq_true_eq] at hcond
      exact ⟨hcond.1, sendable_of_check hcond.2⟩
    | exit => simp at hcond
    | _ => trivial
  | written i status readStart => simpa using hcond
  | closed h₁ => simp at hcond
  | _ => trivial

theorem replies_matched_nested :
    ∃ w, runs (World.new true) nestedRun = some w ∧ RepliesMatched w ∧
      (commandCalls w.trace).map (fun c => (c.1, c.2.1)) = [(.reply, 1), (.reply, 2)] := by
  have hrun : (Transition.runChecked World.step successCheck (World.new true) nestedRun).map
      (fun w => (commandCalls w.trace).map fun c => (c.1, c.2.1)) =
      some [(.reply, 1), (.reply, 2)] := by decide +kernel
  obtain ⟨w, hw, hcalls⟩ := Option.map_eq_some_iff.mp hrun
  have hunder := Transition.runsUnder_of_checked (C := Succeeds)
    (fun _ _ _ h hstep => succeeds_of_check h hstep) hw
  exact ⟨w, hunder.run_eq, replies_matched hunder, hcalls⟩

end CrazySnail
