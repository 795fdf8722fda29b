import CrazySnail.Verified.GivenFunctions

/-! # Replies nobody waits for

`shift_cb` leaves its target alone when the list is empty, and `on_read` goes on with what is
there: the record of the command answered last, or whatever was in the local variable.  Its
reference has been given back, so a surplus reply finds no function, unless the callback of that
command has called `on`: `luaL_ref` hands out the slot that was freed last.  So the replies of a
chunk reach the waiting commands, and nobody else, exactly if there are enough commands, or the
slot of the last one has been left alone (`surplusIgnored`).
-/

namespace CrazySnail

open Transition World

/-! ## Surplus replies -/

/-- The command of an entry, with the function it was given.  A record on the stack of a call of
    `on_read` that is over belongs to none. -/
def World.commandOf (w : World) : CbPtr → Nat × Option Fn
  | .heap id => (id, givenTo w.trace id)
  | .stack => (w.heap.next, none)

/-- The commands without a reply. -/
def World.unanswered (w : World) : List (Nat × Option Fn) := w.cc.commandCbList.map w.commandOf

/-- The handlers that `on` sets when no command waits any more. -/
def claims (w : World) : Event → List Bytes
  | .api (.on event _) =>
    if w.cc.commandCbList = [] ∧ (overwritten w event).isSome = true then [event] else []
  | _ => []

/-- What `on_read` has in its local variable when all commands have been answered refers to
    nothing: if no command was waiting, by chance, else because the callback of the last one, whose
    slot is free again, has set no handler. -/
def LeftAlone (w : World) (cb : LuaRef) (claimed : List Bytes) : Prop :=
  if w.cc.commandCbList = [] then w.lua.rawgeti cb = none else claimed = []

/-- `on_read` has not returned, and Lua code issues no command. -/
def WithinRead (w : World) (e : Event) (_ : World) : Prop :=
  w.stack ≠ [] ∧ ∀ args env, e ≠ .api (.command args env)

/-- What the trace has gained. -/
def since (w w' : World) : List Obs := w'.trace.drop w.trace.length

theorem LeftAlone.of_append {w : World} {cb : LuaRef} {claimed more : List Bytes}
    (h : LeftAlone w cb (claimed ++ more)) : LeftAlone w cb claimed := by
  unfold LeftAlone at h ⊢
  split at h
  next hnone => exact (if_pos hnone).symm ▸ h
  next hsome => exact (if_neg hsome).symm ▸ (List.append_eq_nil_iff.mp h).1

/-- Replies that come when all commands have been answered belong to none. -/
theorem matchedCalls_surplus {cs : List (Nat × Option Fn)} {rs : List Reply}
    (h : cs.length ≤ rs.length) (more : List Reply) :
    matchedCalls cs (rs ++ more) = matchedCalls cs rs := by
  induction cs generalizing rs with
  | nil => rfl
  | cons c cs ih =>
    cases rs with
    | nil => exact absurd h (Nat.not_succ_le_zero _)
    | cons r' rs =>
      have ih := ih (Nat.le_of_succ_le_succ h)
      simp only [matchedCalls, List.cons_append, List.zip_cons_cons, List.filterMap_cons] at ih ⊢
      rw [ih]

theorem since_eq {w w' : World} (h : w.trace <+: w'.trace) : w.trace ++ since w w' = w'.trace :=
  List.prefix_iff_eq_append.mp h

/-! ## The slot that was freed last -/

namespace Lua
variable {l : Lua}

theorem unref_rawgeti (l : Lua) (r : LuaRef) : (l.unref r).rawgeti r = none := by
  cases r with
  | ref n => exact Function.update_self ..
  | noref | refnil => rfl

/-- `luaL_ref` hands out the slot that was freed last. -/
theorem ref_freed {n : Nat} (hfree : l.free.head? = some n) (f : Fn) : (l.ref f).1 = n := by
  obtain ⟨free, hfree⟩ := List.head?_eq_some_iff.mp hfree
  simp only [ref, hfree]

theorem ref_rawgeti (l : Lua) (f : Fn) : (l.ref f).2.rawgeti (.ref (l.ref f).1) = some f := by
  unfold Lua.ref
  split <;> exact Function.update_self ..

end Lua

/-- `on` gives its slot to a handler, or back. -/
theorem luaClientOn_lua (w : World) (event : Bytes) (fn : Fn) :
    (w.luaClientOn event fn).lua = if (overwritten w event).isSome then (w.lua.ref fn).2
      else (w.lua.ref fn).2.unref (.ref (w.lua.ref fn).1) := by
  unfold luaClientOn overwritten
  dsimp only
  split
  · rfl
  split
  · rfl
  split <;> rfl

/-! ## Inside `on_read` -/

/-- Lua code that the client has called is running. -/
def World.InLua (w : World) : Prop := ∃ site top rest, w.stack = .lua site top :: rest

/-- What is left of `on_read`, and its local variable as long as the loop goes on. -/
inductive Inside (w : World) : Option LuaRef → Prop
  | returned : w.stack = [] → Inside w none
  | reporting {site : Site} {top : Int} {buf : Nat} : w.stack = [.lua site top, .bufFree buf] →
      Inside w none
  | freeing {buf : Nat} : w.stack = [.bufFree buf] → Inside w none
  | looping {h : Handle} {cb : LuaRef} : w.stack = [.readLoop h false cb] → Inside w (some cb)
  | calling {site : Site} {top : Int} {h : Handle} {cb : LuaRef} :
      w.stack = [.lua site top, .readLoop h false cb] → Inside w (some cb)

theorem Inside.congr {w w' : World} {v : Option LuaRef} (h : Inside w v)
    (hstack : w'.stack = w.stack) : Inside w' v := by
  cases h with
  | returned h => exact .returned (hstack.trans h)
  | reporting h => exact .reporting (hstack.trans h)
  | freeing h => exact .freeing (hstack.trans h)
  | looping h => exact .looping (hstack.trans h)
  | calling h => exact .calling (hstack.trans h)

theorem World.InLua.congr {w w' : World} (h : w'.InLua) (hstack : w'.stack = w.stack) : w.InLua := by
  obtain ⟨site, top, rest, h⟩ := h
  exact ⟨site, top, rest, hstack.symm.trans h⟩

theorem Touches.stack {ks : List Part} {w w' : World} (h : Touches ks w w')
    (hks : ks.all (fun k => decide (k ∉ [.frame .lua, .frame .readLoop, .frame .closeStream,
      .frame .bufFree, .frame .event, .frame .timer, .pop])) = true) : w'.stack = w.stack := by
  refine h.same (f := fun w => w.stack) (fun w u hu => ?_) hks
  cases u with
  | push f => cases f <;> simp at hu
  | pop => simp at hu
  | names p t => cases p <;> rfl
  | _ => rfl

/-- What a step inside `on_read` is; `v` is its local variable. -/
inductive ReadStep (w : World) (v : Option LuaRef) : Event → World → Prop
  /-- Lua code sets a handler -/
  | on (event : Bytes) (fn : Fn) : w.InLua →
      ReadStep w v (.api (.on event fn)) (w.luaClientOn event fn)
  | exit : w.InLua → ReadStep w v (.api .exit) w.luaClientExit
  /-- what concerns neither the replies nor the registry -/
  | quiet {e : Event} {w' : World} : w'.matching = w.matching → Inside w' v → (w'.InLua → w.InLua) →
      claims w e = [] → Expected w e w' → ReadStep w v e w'
  | round {h : Handle} {cb : LuaRef} {w' : World} : v = some cb → w.stack = [.readLoop h false cb] →
      Round { w with stack := [] } h false cb w' → ReadStep w v .resume w'

theorem readStep_of_step {w w' : World} {e : Event} {v : Option LuaRef} (hinside : Inside w v)
    (hquiet : w.cc.flags.monitoring = false) (hstep : w.step e = some w')
    (hwithin : WithinRead w e w') : ReadStep w v e w' := by
  have htouches := step_touches hstep
  obtain ⟨-, hs⟩ := step_cases hstep
  cases hs with
  | api c hruns =>
    -- an API function runs in Lua only while `on_read` waits for it
    have hlua : w.InLua := by
      unfold World.luaRuns at hruns
      split at hruns
      next hstack => exact absurd hstack hwithin.1
      next site top rest hstack => exact ⟨site, top, rest, hstack⟩
      next => cases hruns
    have hexpected : Expected w (.api c) (w.api c) := fun _ _ _ _ _ he => by cases he
    cases c with
    | on event fn => exact .on event fn hlua
    | exit => exact .exit hlua
    | command args env => exact absurd rfl (hwithin.2 args env)
    | connect =>
      have hstack := (w.luaClientConnect_touches).stack rfl
      exact .quiet (luaClientConnect_matching hquiet) (hinside.congr hstack) (·.congr hstack) rfl
        hexpected
    | disconnect =>
      have hstack := (w.luaClientDisconnect_touches).stack rfl
      exact .quiet (htouches.matching rfl) (hinside.congr hstack) (·.congr hstack) rfl hexpected
  | @ret site top rest ok hstack =>
    refine .quiet (htouches.matching rfl) ?_ (fun _ => ⟨site, top, rest, hstack⟩) rfl
      (fun _ _ _ _ _ he => by cases he)
    cases hinside with
    | returned h => exact absurd h hwithin.1
    | reporting h =>
      obtain ⟨-, rfl⟩ := List.cons.inj (h.symm.trans hstack)
      exact .freeing rfl
    | calling h =>
      obtain ⟨-, rfl⟩ := List.cons.inj (h.symm.trans hstack)
      exact .looping rfl
    | freeing h | looping h =>
      have := (List.cons.inj (h.symm.trans hstack)).1
      cases this
  | @resume f rest hstack hf =>
    cases hinside with
    | returned h => exact absurd h hwithin.1
    | reporting h | calling h =>
      obtain ⟨rfl, -⟩ := List.cons.inj (h.symm.trans hstack)
      exact absurd rfl hf
    | freeing h =>
      obtain ⟨rfl, rfl⟩ := List.cons.inj (h.symm.trans hstack)
      rw [h] at htouches
      refine .quiet (htouches.matching rfl) (.returned rfl) (fun hlua => ?_) rfl
        (fun h₁ cb rest reader reply _ hloop => ?_)
      · obtain ⟨site, top, rest, hempty⟩ := hlua
        cases hempty
      · have := (List.cons.inj (h.symm.trans hloop)).1
        cases this
    | @looping h₁ cb h =>
      obtain ⟨rfl, rfl⟩ := List.cons.inj (h.symm.trans hstack)
      exact .round rfl h (readLoop_round { w with stack := [] } h₁ false cb)
  | _ => exact absurd ‹w.stack = []› hwithin.1

theorem luaClientExit_exited {w : World} (hfault : w.luaClientExit.fault = none) :
    w.luaClientExit.cc.exited = true := by
  have hfree : ∀ (w : World) h, w.cc.exited = true → (w.exitStream h).cc.exited = true :=
    fun w h => Touches.exited (w.exitStream_touches h)
  unfold luaClientExit at hfault ⊢
  dsimp only at hfault ⊢
  split at hfault
  next hfirst =>
    rw [hfault] at hfirst
    cases hfirst
  next hfirst =>
  rw [if_neg hfirst]
  split at hfault
  next hsecond =>
    rw [hfault] at hsecond
    cases hsecond
  next hsecond =>
    rw [if_neg hsecond]
    exact hfree _ _ (hfree _ _ (Touches.exited (destroyAll_touches _) rfl))

/-! ## The invariant -/

/-- Since `base`, the replies `rs` have come, and besides their commands `extra` were called. -/
structure ReadSoFar (base w : World) (rs : List Reply)
    (extra : List (Site × Fn × List LuaValue)) : Prop where
  answered : CrazySnail.answered w.trace = CrazySnail.answered base.trace ++ rs
  calls : commandCalls w.trace =
    commandCalls base.trace ++ (matchedCalls base.unanswered rs ++ extra)

/-- What the local variable refers to when all commands have been answered. -/
inductive Leftover (base : World) (cb₀ : LuaRef) (w : World) : LuaRef → List Bytes → Prop
  /-- no command was waiting, and no reply has come yet -/
  | old {claimed : List Bytes} : base.cc.commandCbList = [] → ¬w.InLua →
      w.lua.rawgeti cb₀ = base.lua.rawgeti cb₀ → Leftover base cb₀ w cb₀ claimed
  /-- the slot of the last command is the first to be handed out again -/
  | free {cb : LuaRef} : base.cc.commandCbList ≠ [] → w.lua.rawgeti cb = none →
      (w.InLua → ∃ n, cb = .ref n ∧ w.lua.free.head? = some n) → Leftover base cb₀ w cb []
  /-- a handler has the slot of the last command -/
  | taken {cb : LuaRef} {claimed : List Bytes} : base.cc.commandCbList ≠ [] →
      w.lua.rawgeti cb ≠ none → claimed ≠ [] → Leftover base cb₀ w cb claimed

/-- There have not been more replies than commands; `v` is the local variable. -/
structure InTime (base : World) (cb₀ : LuaRef) (w : World) (claimed : List Bytes) (rs : List Reply)
    (v : Option LuaRef) : Prop where
  accounted : ∃ lost, Accounted w lost
  given : givenTo w.trace = givenTo base.trace
  progress : ReadSoFar base w rs []
  list : w.cc.commandCbList = base.cc.commandCbList.drop rs.length
  le : rs.length ≤ base.cc.commandCbList.length
  quiet : w.cc.flags.monitoring = false
  inside : Inside w v
  unclaimed : w.cc.commandCbList ≠ [] → claimed = []
  last : w.cc.commandCbList = [] → ∀ cb, v = some cb → Leftover base cb₀ w cb claimed

/-- Where `on_read` stands. -/
inductive Phase (base : World) (cb₀ : LuaRef) (w : World) (claimed : List Bytes) : Prop
  | waiting {rs : List Reply} {v : Option LuaRef} : InTime base cb₀ w claimed rs v →
      Phase base cb₀ w claimed
  /-- the client is gone, and no reply is read any more -/
  | exited {rs : List Reply} {v : Option LuaRef} : ReadSoFar base w rs [] →
      rs.length ≤ base.cc.commandCbList.length → w.cc.exited = true →
      w.cc.flags.monitoring = false → Inside w v → Phase base cb₀ w claimed
  /-- surplus replies have come, and found nothing -/
  | ignored {rs : List Reply} {v : Option LuaRef} : ReadSoFar base w rs [] →
      base.cc.commandCbList.length < rs.length → w.cc.commandCbList = [] →
      w.cc.flags.monitoring = false → Inside w v → ¬w.InLua →
      (∀ cb, v = some cb → w.lua.rawgeti cb = none) → LeftAlone base cb₀ claimed →
      Phase base cb₀ w claimed
  /-- a surplus reply has been passed on -/
  | answered {rs : List Reply} {extra : List (Site × Fn × List LuaValue)} :
      ReadSoFar base w rs extra → base.cc.commandCbList.length < rs.length → extra ≠ [] →
      ¬LeftAlone base cb₀ claimed → Phase base cb₀ w claimed

section
variable {base w w' : World} {cb₀ : LuaRef} {claimed : List Bytes} {rs : List Reply}
  {extra : List (Site × Fn × List LuaValue)} {v : Option LuaRef}

theorem ReadSoFar.congr (h : ReadSoFar base w rs extra)
    (hanswered : CrazySnail.answered w'.trace = CrazySnail.answered w.trace)
    (hcalls : commandCalls w'.trace = commandCalls w.trace) : ReadSoFar base w' rs extra :=
  ⟨hanswered.trans h.answered, hcalls.trans h.calls⟩

theorem ReadSoFar.quiet (h : ReadSoFar base w rs extra) (hmatching : w'.matching = w.matching) :
    ReadSoFar base w' rs extra :=
  h.congr (congrArg Matching.answered hmatching) (congrArg Matching.calls hmatching)

/-- Commands and answers are not undone. -/
theorem ReadSoFar.later (h : ReadSoFar base w rs extra) (htrace : w.trace <+: w'.trace)
    (hle : base.cc.commandCbList.length ≤ rs.length) :
    ∃ rs' extra', ReadSoFar base w' (rs ++ rs') (extra ++ extra') := by
  refine ⟨CrazySnail.answered (since w w'), commandCalls (since w w'), ?_, ?_⟩
  · rw [← since_eq htrace, answered_append, h.answered, List.append_assoc]
  · have hunanswered : base.unanswered.length ≤ rs.length := by
      rwa [World.unanswered, List.length_map]
    rw [← since_eq htrace, commandCalls_append, h.calls, matchedCalls_surplus hunanswered,
      List.append_assoc, List.append_assoc]

/-- Once a surplus reply has been passed on, it stays so. -/
theorem Phase.later (hprogress : ReadSoFar base w rs extra)
    (hlt : base.cc.commandCbList.length < rs.length) (hextra : extra ≠ [])
    (hclaimed : ¬LeftAlone base cb₀ claimed) (htrace : w.trace <+: w'.trace) (more : List Bytes) :
    Phase base cb₀ w' (claimed ++ more) := by
  obtain ⟨rs', extra', hlater⟩ := hprogress.later htrace (Nat.le_of_lt hlt)
  refine .answered hlater ?_ (fun hnil => hextra (List.append_eq_nil_iff.mp hnil).1)
    fun halone => hclaimed halone.of_append
  rw [List.length_append]
  exact Nat.lt_add_right _ hlt

/-! ## A reply -/

/-- A reply that is passed on, or not, by the function of a reference. -/
theorem deliverReply_inside (hstack : w.stack = []) {h₁ : Handle} {cb : LuaRef} {r : Reply}
    (hfault : (w.deliverReply h₁ cb r).fault = none) :
    Inside (w.deliverReply h₁ cb r) (some cb) ∧
      ((w.deliverReply h₁ cb r).InLua → w.lua.rawgeti cb ≠ none) := by
  have hnoLua : ∀ {w' : World}, w'.stack = [.readLoop h₁ false cb] → ¬w'.InLua := by
    rintro w' hw' ⟨site, top, rest, hlua⟩
    have := (List.cons.inj (hw'.symm.trans hlua)).1
    cases this
  have hloop : (w.push (.readLoop h₁ false cb)).stack = [.readLoop h₁ false cb] := by
    rw [World.push, hstack]
  cases cb with
  | noref | refnil => exact ⟨.looping hloop, fun hlua => absurd hlua (hnoLua hloop)⟩
  | ref n =>
    have hreadable := deliverReply_readable hfault n rfl
    simp only [World.deliverReply, hreadable, if_true]
    cases hslot : w.lua.slots n with
    | none =>
      have hloop : (((w.push (.readLoop h₁ false (.ref n))).unref (.ref n)).pcall .reply
          ((w.push (.readLoop h₁ false (.ref n))).lua.slots n) [.nil, pushReply r]).stack =
            [.readLoop h₁ false (.ref n)] := by
        simp [World.push, World.unref, World.pcall, hslot, hstack]
      exact ⟨.looping hloop, fun hlua => absurd hlua (hnoLua hloop)⟩
    | some f =>
      have hcalling : (((w.push (.readLoop h₁ false (.ref n))).unref (.ref n)).pcall .reply
          ((w.push (.readLoop h₁ false (.ref n))).lua.slots n) [.nil, pushReply r]).stack =
            [.lua .reply w.lua.top, .readLoop h₁ false (.ref n)] := by
        simp [World.push, World.unref, Lua.unref, World.pcall, hslot, hstack]
      refine ⟨.calling hcalling, fun _ hnone => ?_⟩
      rw [Lua.rawgeti, hslot] at hnone
      cases hnone

/-- The replies that have been passed on with this one. -/
theorem ReadSoFar.reply (h : ReadSoFar base w rs extra) {reader : RedisReader} {r : Reply}
    {called extra' : List (Site × Fn × List LuaValue)}
    (hanswered : CrazySnail.answered w'.trace = CrazySnail.answered (w.replied reader false r).trace)
    (hcalls : commandCalls w'.trace = commandCalls (w.replied reader false r).trace ++ called)
    (hmatched : matchedCalls base.unanswered rs ++ extra ++ called =
      matchedCalls base.unanswered (rs ++ [r]) ++ extra') :
    ReadSoFar base w' (rs ++ [r]) extra' := by
  have hreplied : CrazySnail.answered (w.replied reader false r).trace =
      CrazySnail.answered w.trace ++ [r] := congrArg Matching.answered (replied_matching w reader r)
  have hsame : commandCalls (w.replied reader false r).trace = commandCalls w.trace :=
    congrArg Matching.calls (replied_matching w reader r)
  refine ⟨?_, ?_⟩
  · rw [hanswered, hreplied, h.answered, List.append_assoc]
  · rw [hcalls, hsame, h.calls, List.append_assoc, hmatched]

/-- **A reply when nobody waits** goes to the function that the local variable refers to. -/
theorem ReadSoFar.surplus (h : ReadSoFar base w rs extra) (hlist : w.cc.commandCbList = [])
    (hle : base.cc.commandCbList.length ≤ rs.length) (hstack : w.stack = []) {reader : RedisReader}
    {h₁ : Handle} {cb : LuaRef} {r : Reply}
    (hfault : ((w.replied reader false r).dispatchReply h₁ cb r).fault = none) :
    let w' := (w.replied reader false r).dispatchReply h₁ cb r
    ReadSoFar base w' (rs ++ [r]) (extra ++ passedOn (w.lua.rawgeti cb) r) ∧
      w'.cc.commandCbList = [] ∧ w'.cc.flags.monitoring = w.cc.flags.monitoring ∧
      w'.lua.rawgeti cb = none ∧ Inside w' (some cb) ∧ (w'.InLua → w.lua.rawgeti cb ≠ none) := by
  have hdispatch : (w.replied reader false r).dispatchReply h₁ cb r =
      (w.replied reader false r).deliverReply h₁ cb r := by
    simp only [dispatchReply, replied, World.log, shiftCb, hlist]
    rfl
  rw [hdispatch] at hfault ⊢
  have hmatching : ((w.replied reader false r).deliverReply h₁ cb r).matching = _ :=
    deliverReply_matching (deliverReply_readable hfault)
  have hunanswered : base.unanswered.length ≤ rs.length := by
    rwa [World.unanswered, List.length_map]
  have hmatched : matchedCalls base.unanswered rs ++ extra ++ passedOn (w.lua.rawgeti cb) r =
      matchedCalls base.unanswered (rs ++ [r]) ++ (extra ++ passedOn (w.lua.rawgeti cb) r) := by
    rw [matchedCalls_surplus hunanswered, List.append_assoc]
  have hprogress := h.reply (congrArg Matching.answered hmatching)
    (congrArg Matching.calls hmatching) hmatched
  have hlua := congrArg (fun m => m.lua.rawgeti cb) hmatching
  have hinside := deliverReply_inside (w := w.replied reader false r) hstack hfault
  exact ⟨hprogress, (congrArg Matching.list hmatching).trans hlist,
    congrArg Matching.monitoring hmatching, hlua.trans (Lua.unref_rawgeti ..), hinside⟩

/-- The record of the first waiting command refers to the function it was given. -/
theorem InTime.first (h : InTime base cb₀ w claimed rs v) {id : Nat} {rest : CallbackEnds}
    (hlist : w.cc.commandCbList = .heap id :: rest) :
    ∃ target, w.heap.cb id = some target ∧ w.lua.rawgeti target.ref = givenTo base.trace id := by
  obtain ⟨lost, haccounted⟩ := h.accounted
  have hmem : CbPtr.heap id ∈ w.ledger.list := by
    change _ ∈ w.cc.commandCbList
    exact hlist ▸ List.mem_cons_self
  obtain ⟨ref, hcard⟩ := haccounted.balanced.single id hmem
  obtain ⟨target, htarget, -⟩ := Option.map_eq_some_iff.mp hcard
  have hnamed := haccounted.balanced.named id target.ref target.attach
    (congrArg (Option.map _) htarget)
  exact ⟨target, htarget, hnamed.trans (congrFun h.given id)⟩

/-- The calls of the next reply. -/
theorem matchedCalls_next {id : Nat} {rest : CallbackEnds}
    (hdrop : base.cc.commandCbList.drop rs.length = .heap id :: rest) (r : Reply) :
    matchedCalls base.unanswered (rs ++ [r]) =
      matchedCalls base.unanswered rs ++ passedOn (givenTo base.trace id) r := by
  have hpending : base.unanswered.drop rs.length =
      base.commandOf (.heap id) :: rest.map base.commandOf := by
    rw [World.unanswered, ← List.map_drop, hdrop, List.map_cons]
  rw [matchedCalls_reply hpending r, replyCall, passedOn, World.commandOf]
  cases givenTo base.trace id <;> rfl

/-- **A reply for the first waiting command** goes to its callback, whose slot is free again. -/
theorem InTime.reply (h : InTime base cb₀ w claimed rs v) {p : CbPtr} {rest : CallbackEnds}
    (hlist : w.cc.commandCbList = p :: rest) (hstack : w.stack = []) {reader : RedisReader}
    {h₁ : Handle} {cb : LuaRef} {r : Reply}
    (haccounted : ∃ lost, Accounted ((w.replied reader false r).dispatchReply h₁ cb r) lost)
    (hgiven : givenTo ((w.replied reader false r).dispatchReply h₁ cb r).trace = givenTo w.trace)
    (hfault : ((w.replied reader false r).dispatchReply h₁ cb r).fault = none) :
    ∃ ref, InTime base cb₀ ((w.replied reader false r).dispatchReply h₁ cb r) claimed (rs ++ [r])
      (some ref) := by
  -- the first entry is a record: a local one would be dead by now
  cases p with
  | stack =>
    have hdispatch : (w.replied reader false r).dispatchReply h₁ cb r =
        { w.replied reader false r with cc.commandCbList := rest }.crash .deadCallback := by
      simp only [dispatchReply, replied, World.log, shiftCb, hlist]
      rfl
    rw [hdispatch] at hfault
    exact absurd hfault (Option.isSome_iff_ne_none.mp (crash_isSome _ _))
  | heap id =>
    obtain ⟨target, htarget, hfn⟩ := h.first hlist
    have hdispatch := dispatchReply_waiting (w := w.replied reader false r) hlist htarget h₁ cb r
    rw [hdispatch] at haccounted hgiven hfault ⊢
    have hmatching : ((w.replied reader false r).shift.deliverReply h₁ target.ref r).matching = _ :=
      deliverReply_matching (deliverReply_readable hfault)
    have hdrop : base.cc.commandCbList.drop rs.length = .heap id :: rest := h.list ▸ hlist
    have htail : base.cc.commandCbList.drop (rs ++ [r]).length = rest := by
      rw [List.length_append, List.length_singleton, ← List.drop_drop, hdrop]
      rfl
    have hlt : rs.length < base.cc.commandCbList.length := by
      refine Nat.lt_of_not_le fun hle => ?_
      rw [List.drop_eq_nil_of_le hle] at hdrop
      cases hdrop
    have hlist' : ((w.replied reader false r).shift.deliverReply h₁ target.ref r).cc.commandCbList =
        rest := (congrArg Matching.list hmatching).trans (congrArg List.tail hlist)
    have hmatched : matchedCalls base.unanswered rs ++ [] ++ passedOn (w.lua.rawgeti target.ref) r =
        matchedCalls base.unanswered (rs ++ [r]) ++ [] := by
      rw [matchedCalls_next hdrop, hfn, List.append_nil, List.append_nil]
    have hinside := deliverReply_inside (w := (w.replied reader false r).shift) hstack hfault
    refine ⟨target.ref, haccounted, hgiven.trans h.given, ?_, hlist'.trans htail.symm, ?_,
      (congrArg Matching.monitoring hmatching).trans h.quiet, hinside.1, fun _ => ?_,
      fun _ cb hcb => ?_⟩
    · exact h.progress.reply (congrArg Matching.answered hmatching)
        (congrArg Matching.calls hmatching) hmatched
    · rw [List.length_append]
      exact hlt
    · exact h.unclaimed (by rw [hlist]; exact List.cons_ne_nil _ _)
    · cases hcb
      have hclaimed := h.unclaimed (by rw [hlist]; exact List.cons_ne_nil _ _)
      have hbase : base.cc.commandCbList ≠ [] := fun hnil => by simp [hnil] at hlt
      have hnone := congrArg (fun m => m.lua.rawgeti target.ref) hmatching
      rw [hclaimed]
      -- the slot has been given back just before the call
      refine .free hbase (hnone.trans (Lua.unref_rawgeti ..)) fun hlua => ?_
      have hsome := hinside.2 hlua
      cases href : target.ref with
      | ref n =>
        have hfree := congrArg (fun m => m.lua.free.head?) hmatching
        rw [href] at hfree
        exact ⟨n, rfl, hfree⟩
      | noref | refnil =>
        rw [href] at hsome
        exact absurd rfl hsome

/-- `on` may take the slot of the last command. -/
theorem Leftover.on {cb : LuaRef} {lost : List Nat} (haccounted : Accounted w lost)
    (h : Leftover base cb₀ w cb claimed) (hlua : w.InLua) (hlist : w.cc.commandCbList = [])
    (event : Bytes) (fn : Fn) :
    Leftover base cb₀ (w.luaClientOn event fn) cb
      (claimed ++ claims w (.api (.on event fn))) := by
  have hnew := luaClientOn_lua w event fn
  have hclaims : claims w (.api (.on event fn)) =
      if (overwritten w event).isSome then [event] else [] := by
    simp only [claims, hlist, true_and]
  rw [hclaims]
  cases h with
  | old _ hidle _ => exact absurd hlua hidle
  | free hbase hnone hfree =>
    obtain ⟨n, rfl, hhead⟩ := hfree hlua
    have hslot := Lua.ref_freed hhead fn
    split at hnew
    next hknown =>
      rw [if_pos hknown]
      -- the handler gets the slot that was freed last
      refine .taken hbase (fun hnil => ?_) (by simp)
      have hself := w.lua.ref_rawgeti fn
      rw [hnew, ← hslot, hself] at hnil
      cases hnil
    next hunknown =>
      rw [if_neg hunknown]
      rw [hslot] at hnew
      refine .free hbase (hnew ▸ Lua.unref_rawgeti ..) fun _ => ⟨n, rfl, ?_⟩
      rw [hnew]
      rfl
  | taken hbase hsome hclaimed =>
    have haccounts := haccounted.balanced.accounts
    have htakes := haccounts.takes fn
    rw [show w.ledger.lua = { w.lua with top := 0 } from rfl, Lua.ref_top] at htakes
    refine .taken hbase ?_ fun hnil => hclaimed (List.append_eq_nil_iff.mp hnil).1
    cases cb with
    | noref | refnil => exact absurd rfl hsome
    | ref n =>
      have hmem := (haccounts.functions n).mp (Option.isSome_iff_ne_none.mpr hsome)
      have hkept : (w.lua.ref fn).2.slots n = w.lua.slots n := htakes.kept n hmem
      have hreleased : ((w.lua.ref fn).2.unref (.ref (w.lua.ref fn).1)).slots n =
          (w.lua.ref fn).2.slots n := htakes.accounts.release_kept n hmem
      have hsame : (w.luaClientOn event fn).lua.slots n = w.lua.slots n := by
        rw [hnew]
        split
        · exact hkept
        · exact hreleased.trans hkept
      exact fun hnone => hsome (hsame.symm.trans hnone)

/-- What changes neither the registry nor who runs. -/
theorem Leftover.quiet {cb : LuaRef} (h : Leftover base cb₀ w cb claimed)
    (hmatching : w'.matching = w.matching) (hlua : w'.InLua → w.InLua) :
    Leftover base cb₀ w' cb claimed := by
  have hsame : ∀ cb, w'.lua.rawgeti cb = w.lua.rawgeti cb := fun cb =>
    congrArg (fun m => m.lua.rawgeti cb) hmatching
  have hfree : w'.lua.free = w.lua.free := congrArg (fun m => m.lua.free) hmatching
  cases h with
  | old hbase hidle hcb => exact .old hbase (fun h => hidle (hlua h)) ((hsame _).trans hcb)
  | free hbase hnone hhead =>
    exact .free hbase ((hsame _).trans hnone) fun h => hfree ▸ hhead (hlua h)
  | taken hbase hsome hclaimed =>
    exact .taken hbase (fun hnone => hsome ((hsame _).symm.trans hnone)) hclaimed

end

/-! ## The steps -/

section
variable {base w w' : World} {cb₀ : LuaRef} {claimed : List Bytes} {rs : List Reply}
  {v : Option LuaRef} {e : Event}

theorem claims_nil (hlist : w.cc.commandCbList ≠ []) (e : Event) : claims w e = [] := by
  unfold claims
  split
  · exact if_neg fun h => hlist h.1
  · rfl

theorem World.not_inLua (hstack : w.stack = []) : ¬w.InLua := by
  rintro ⟨site, top, rest, hlua⟩
  rw [hstack] at hlua
  cases hlua

/-- Handlers and records stay accounted for. -/
theorem InTime.expected (h : InTime base cb₀ w claimed rs v) (hstep : w.step e = some w')
    (hexpected : Expected w e w') (hfault : w'.fault = none) : ∃ lost, Accounted w' lost := by
  obtain ⟨lost, haccounted⟩ := h.accounted
  exact ⟨_, step_accounted haccounted hstep hexpected hfault⟩

/-- Only a command is given a function. -/
theorem step_givenTo (hstep : w.step e = some w')
    (hcommand : ∀ args env, e ≠ .api (.command args env)) : givenTo w'.trace = givenTo w.trace := by
  refine (step_touches hstep).same (f := fun w => givenTo w.trace) Update.apply_givenTo ?_
  cases e with
  | api c =>
    cases c with
    | command args env => exact absurd rfl (hcommand args env)
    | _ => rfl
  | resume =>
    cases w.stack with
    | nil => rfl
    | cons f rest => cases f <;> rfl
  | _ => rfl

theorem Touches.monitoring {ks : List Part} (h : Touches ks w w')
    (hks : ks.all (fun k => decide (k ∉ [.raise .monitoring, .clearFlags])) = true) :
    w'.cc.flags.monitoring = w.cc.flags.monitoring := by
  refine h.same (f := fun w => w.cc.flags.monitoring) (fun w u hu => ?_) hks
  cases u with
  | raise t => cases t <;> first | rfl | simp at hu
  | clearFlags => simp at hu
  | names p t => cases p <;> rfl
  | _ => rfl

/-- A step while there have not been more replies than commands. -/
theorem InTime.step (h : InTime base cb₀ w claimed rs v) (hstep : w.step e = some w')
    (hwithin : WithinRead w e w') (hfault' : w'.fault = none) :
    Phase base cb₀ w' (claimed ++ claims w e) := by
  have hgiven := step_givenTo hstep hwithin.2
  have hunclaimed : w.cc.commandCbList ≠ [] → claimed ++ claims w e = [] := fun hlist => by
    rw [h.unclaimed hlist, claims_nil hlist, List.append_nil]
  cases readStep_of_step h.inside h.quiet hstep hwithin with
  | on event fn hlua =>
    have hnoReply : Expected w (.api (.on event fn)) (w.luaClientOn event fn) :=
      fun _ _ _ _ _ he => by cases he
    have htouches := w.luaClientOn_touches event fn
    have hmatching := luaClientOn_matching w event fn
    obtain ⟨lua, hlua'⟩ : ∃ lua, (w.luaClientOn event fn).matching = { w.matching with lua } :=
      hmatching.elim (fun h => ⟨_, h⟩) fun h => ⟨_, h⟩
    have hlist : (w.luaClientOn event fn).cc.commandCbList = w.cc.commandCbList :=
      congrArg Matching.list hlua'
    refine .waiting ⟨h.expected hstep hnoReply hfault', hgiven.trans h.given,
      h.progress.congr (congrArg Matching.answered hlua') (congrArg Matching.calls hlua'),
      hlist.trans h.list, h.le, (congrArg Matching.monitoring hlua').trans h.quiet,
      h.inside.congr (htouches.stack rfl), fun hne => hunclaimed (hlist ▸ hne),
      fun hnil cb hcb => ?_⟩
    obtain ⟨lost, haccounted⟩ := h.accounted
    rw [hlist] at hnil
    exact (h.last hnil cb hcb).on haccounted hlua hnil event fn
  | exit _ =>
    have htouches := w.luaClientExit_touches
    have hhistory := Prod.mk.inj (htouches.history rfl)
    have hcalls := congrArg (List.filter fun c => c.1.ofCommand) (htouches.calls rfl)
    have hmonitoring := (htouches.monitoring rfl).trans h.quiet
    exact .exited (h.progress.congr hhistory.2 hcalls) h.le (luaClientExit_exited hfault')
      hmonitoring (h.inside.congr (htouches.stack rfl))
  | quiet hmatching hinside hlua hclaims hexpected =>
    have hlist : w'.cc.commandCbList = w.cc.commandCbList := congrArg Matching.list hmatching
    refine .waiting ⟨h.expected hstep hexpected hfault', hgiven.trans h.given,
      h.progress.quiet hmatching, hlist.trans h.list, h.le,
      (congrArg Matching.monitoring hmatching).trans h.quiet, hinside,
      fun hne => hunclaimed (hlist ▸ hne), fun hnil cb hcb => ?_⟩
    rw [hclaims, List.append_nil]
    exact (h.last (hlist ▸ hnil) cb hcb).quiet hmatching hlua
  | @round h₁ cb _ hv hstack hround =>
    rw [show claims w .resume = [] from rfl, List.append_nil]
    -- a round without a reply ends the loop
    have hends : w'.matching = w.matching → w'.stack = [] → Expected w .resume w' →
        Phase base cb₀ w' claimed := fun hmatching hstack' hexpected => by
      have hlist : w'.cc.commandCbList = w.cc.commandCbList := congrArg Matching.list hmatching
      exact .waiting ⟨h.expected hstep hexpected hfault',
        hgiven.trans h.given, h.progress.quiet hmatching, hlist.trans h.list, h.le,
        (congrArg Matching.monitoring hmatching).trans h.quiet, .returned hstack',
        fun hne => h.unclaimed (hlist ▸ hne), fun _ _ hcb => by cases hcb⟩
    have hexpected : (∀ reader r, redisReaderGetReply w.cc.reader = (reader, .ok, some r) →
        w.cc.commandCbList ≠ []) → Expected w .resume w' :=
      fun hne _ _ _ reader r _ _ hget hnil => absurd hnil (hne reader r hget)
    cases hround with
    | exited => exact absurd hfault' (Option.isSome_iff_ne_none.mp (crash_isSome _ _))
    | stored => exact absurd hfault' (Option.isSome_iff_ne_none.mp (crash_isSome _ _))
    | failed hget _ =>
      exact hends rfl rfl (hexpected fun _ _ hget' => by cases hget.symm.trans hget')
    | disconnecting hget _ =>
      exact hends rfl rfl (hexpected fun _ _ hget' => by cases hget.symm.trans hget')
    | @ended reader hget _ =>
      have hmatching := endRead_matching (w := { w with stack := [], cc.reader := reader }) h.quiet
        h₁ false
      have hstack' := (endRead_touches { w with stack := [], cc.reader := reader } h₁ false).stack rfl
      exact hends hmatching hstack' (hexpected fun _ _ hget' => by cases hget.symm.trans hget')
    | @reply reader r hget _ =>
      cases hlist : w.cc.commandCbList with
      | cons p rest =>
        have haccounted := h.expected hstep
          (hexpected fun _ _ _ => by rw [hlist]; exact List.cons_ne_nil _ _) hfault'
        have hpopped : InTime base cb₀ { w with stack := [] } claimed rs none :=
          ⟨h.accounted.imp fun _ ha => ⟨ha.balanced, ha.ended⟩, h.given, h.progress.congr rfl rfl,
            h.list, h.le, h.quiet, .returned rfl, h.unclaimed, fun _ _ hcb => by cases hcb⟩
        obtain ⟨ref, hwaiting⟩ := hpopped.reply hlist rfl haccounted hgiven hfault'
        exact .waiting hwaiting
      | nil =>
        have hle : base.cc.commandCbList.length ≤ rs.length :=
          List.drop_eq_nil_iff.mp (h.list ▸ hlist)
        have hpopped : ReadSoFar base { w with stack := [] } rs [] := h.progress.congr rfl rfl
        obtain ⟨hprogress, hlist', hmonitoring, hnone, hinside, hlua⟩ :=
          hpopped.surplus hlist hle rfl hfault'
        have hlt : base.cc.commandCbList.length < (rs ++ [r]).length := by
          rw [List.length_append]
          exact Nat.lt_succ_of_le hle
        -- whether it finds a function, and that this is what the condition says
        have hfound : w.lua.rawgeti cb = none ↔ LeftAlone base cb₀ claimed := by
          cases h.last hlist cb hv with
          | old hbase _ hcb => rw [hcb, LeftAlone, if_pos hbase]
          | free hbase hfree _ => simp [LeftAlone, if_neg hbase, hfree]
          | taken hbase hsome hclaimed => simp [LeftAlone, if_neg hbase, hsome, hclaimed]
        cases hfn : w.lua.rawgeti cb with
        | none =>
          have hprogress : ReadSoFar base _ (rs ++ [r]) (passedOn (w.lua.rawgeti cb) r) := hprogress
          rw [hfn] at hprogress
          exact .ignored hprogress hlt hlist' (hmonitoring.trans h.quiet) hinside
            (fun h => hlua h hfn) (fun _ hcb => by cases hcb; exact hnone) (hfound.mp hfn)
        | some f =>
          refine .answered hprogress hlt ?_ fun halone => ?_
          · change passedOn (w.lua.rawgeti cb) r ≠ []
            rw [hfn]
            exact List.cons_ne_nil _ _
          · rw [hfound.mpr halone] at hfn
            cases hfn
    | subReply _ hsub => cases hsub
    | subError _ hsub => cases hsub

/-- A step after `exit`. -/
theorem ReadSoFar.exited (h : ReadSoFar base w rs []) (hle : rs.length ≤ base.cc.commandCbList.length)
    (hexit : w.cc.exited = true) (hquiet : w.cc.flags.monitoring = false) (hinside : Inside w v)
    (hstep : w.step e = some w') (hwithin : WithinRead w e w') (hfault' : w'.fault = none)
    (claimed : List Bytes) : Phase base cb₀ w' claimed := by
  have hexit' : w'.cc.exited = true := Touches.exited (step_touches hstep) hexit
  cases readStep_of_step hinside hquiet hstep hwithin with
  | on event fn _ =>
    have htouches := w.luaClientOn_touches event fn
    have hhistory := Prod.mk.inj (htouches.history rfl)
    have hcalls := congrArg (List.filter fun c => c.1.ofCommand) (htouches.calls rfl)
    exact .exited (h.congr hhistory.2 hcalls) hle hexit' ((htouches.monitoring rfl).trans hquiet)
      (hinside.congr (htouches.stack rfl))
  | exit _ =>
    have htouches := w.luaClientExit_touches
    have hhistory := Prod.mk.inj (htouches.history rfl)
    have hcalls := congrArg (List.filter fun c => c.1.ofCommand) (htouches.calls rfl)
    exact .exited (h.congr hhistory.2 hcalls) hle hexit' ((htouches.monitoring rfl).trans hquiet)
      (hinside.congr (htouches.stack rfl))
  | quiet hmatching hinside' _ _ _ =>
    exact .exited (h.quiet hmatching) hle hexit'
      ((congrArg Matching.monitoring hmatching).trans hquiet) hinside'
  | @round h₁ cb _ _ hstack _ =>
    have hcrash : w' = ({ w with stack := [] } : World).crash .deadClient := by
      cases (step_cases hstep).2 with
      | resume hstack' _ =>
        rw [hstack] at hstack'
        cases hstack'
        exact if_pos hexit
    rw [hcrash] at hfault'
    exact absurd hfault' (Option.isSome_iff_ne_none.mp (crash_isSome _ _))

/-- A step when the last surplus reply has found nothing: the next one finds nothing either. -/
theorem ReadSoFar.ignored (h : ReadSoFar base w rs [])
    (hlt : base.cc.commandCbList.length < rs.length) (hlist : w.cc.commandCbList = [])
    (hquiet : w.cc.flags.monitoring = false) (hinside : Inside w v) (hidle : ¬w.InLua)
    (hnone : ∀ cb, v = some cb → w.lua.rawgeti cb = none) (halone : LeftAlone base cb₀ claimed)
    (hstep : w.step e = some w') (hwithin : WithinRead w e w') (hfault' : w'.fault = none) :
    Phase base cb₀ w' (claimed ++ claims w e) := by
  cases readStep_of_step hinside hquiet hstep hwithin with
  | on _ _ hlua | exit hlua => exact absurd hlua hidle
  | quiet hmatching hinside' hlua hclaims _ =>
    have hsame : ∀ cb, w'.lua.rawgeti cb = w.lua.rawgeti cb := fun cb =>
      congrArg (fun m => m.lua.rawgeti cb) hmatching
    rw [hclaims, List.append_nil]
    exact .ignored (h.quiet hmatching) hlt ((congrArg Matching.list hmatching).trans hlist)
      ((congrArg Matching.monitoring hmatching).trans hquiet) hinside' (fun h => hidle (hlua h))
      (fun cb hcb => (hsame cb).trans (hnone cb hcb)) halone
  | @round h₁ cb _ hv hstack hround =>
    rw [show claims w .resume = [] from rfl, List.append_nil]
    have hends : w'.matching = w.matching → w'.stack = [] → Phase base cb₀ w' claimed :=
      fun hmatching hstack' =>
        .ignored (v := none) (h.quiet hmatching) hlt
          ((congrArg Matching.list hmatching).trans hlist)
          ((congrArg Matching.monitoring hmatching).trans hquiet) (.returned hstack')
          (World.not_inLua hstack') (fun _ hcb => by cases hcb) halone
    cases hround with
    | exited | stored => exact absurd hfault' (Option.isSome_iff_ne_none.mp (crash_isSome _ _))
    | failed | disconnecting => exact hends rfl rfl
    | @ended reader _ _ =>
      have hmatching := endRead_matching (w := { w with stack := [], cc.reader := reader }) hquiet
        h₁ false
      have hstack' := (endRead_touches { w with stack := [], cc.reader := reader } h₁ false).stack rfl
      exact hends hmatching hstack'
    | @reply reader r _ _ =>
      have hpopped : ReadSoFar base { w with stack := [] } rs [] := h.congr rfl rfl
      obtain ⟨hprogress, hlist', hmonitoring, hafter, hinside', hlua⟩ :=
        hpopped.surplus hlist (Nat.le_of_lt hlt) rfl hfault'
      have hfn : w.lua.rawgeti cb = none := hnone cb hv
      have hprogress : ReadSoFar base _ (rs ++ [r]) (passedOn (w.lua.rawgeti cb) r) := hprogress
      -- the variable refers to no function, so the reply calls none
      rw [hfn] at hprogress
      refine .ignored hprogress ?_ hlist' (hmonitoring.trans hquiet) hinside' (fun h => hlua h hfn)
        (fun _ hcb => by cases hcb; exact hafter) halone
      rw [List.length_append]
      exact Nat.lt_succ_of_lt hlt
    | subReply _ hsub => cases hsub
    | subError _ hsub => cases hsub

/-- **One step** inside `on_read`. -/
theorem Phase.step (h : Phase base cb₀ w claimed) (hstep : w.step e = some w')
    (hwithin : WithinRead w e w') (hfault' : w'.fault = none) :
    Phase base cb₀ w' (claimed ++ claims w e) := by
  cases h with
  | waiting hwaiting => exact hwaiting.step hstep hwithin hfault'
  | exited hprogress hle hexit hquiet hinside =>
    exact hprogress.exited hle hexit hquiet hinside hstep hwithin hfault' _
  | ignored hprogress hlt hlist hquiet hinside hidle hnone halone =>
    exact hprogress.ignored hlt hlist hquiet hinside hidle hnone halone hstep hwithin hfault'
  | answered hprogress hlt hextra hclaimed =>
    exact .later hprogress hlt hextra hclaimed (step_trace hstep) _

end

/-! ## The result -/

end CrazySnail
