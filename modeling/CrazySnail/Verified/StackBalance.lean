import CrazySnail.Verified.ConfirmationLoop
import CrazySnail.Verified.RequestBlocks

/-! # The height of the Lua stack

A libuv callback runs until the control stack is empty again.  The stack of `cc->L` is then
as high as before if every step of the callback is `Balanced`: a called function returns
normally, what is called is a function, and no timer is started.  Every other step leaves
values on the stack that nothing pops (`stackBalanced`).

While a function called by a C function runs, the height that counts is the one it was
called at, since returning goes back to it.
-/

namespace CrazySnail

open SearchTree (Path)
open Transition World

/-! ## Heights -/

/-- The height at which the outermost Lua function was called. -/
def calledAt : List Frame → Option Int
  | [] => none
  | .lua _ top :: rest => some ((calledAt rest).getD top)
  | _ :: rest => calledAt rest

theorem calledAt_eq {f : Frame} (h : f.tag ≠ .lua) (rest : List Frame) :
    calledAt (f :: rest) = calledAt rest := by
  cases f <;> first | rfl | exact absurd rfl h

/-- Lua functions are on top of the C functions, and the outermost one was called by a callback of
    libuv. -/
def Shaped : List Frame → Prop
  | [] => True
  | .lua site _ :: rest => Shaped rest ∧ (calledAt rest = none → site ≠ .sendError)
  | _ :: rest => calledAt rest = none

theorem Shaped.of_quiet {stack : List Frame} (h : calledAt stack = none) : Shaped stack := by
  cases stack with
  | nil => trivial
  | cons f rest => cases f <;> first | exact h | simp [calledAt] at h

namespace World

/-- The height of the Lua stack, as far as the C functions see it. -/
def height (w : World) : Int := (calledAt w.stack).getD w.lua.top

end World

/-- The parts that matter to the height. -/
def heightParts : List Part := [.frame .lua, .top, .pop]

theorem Update.apply_height (w : World) (u : Update) (hu : u.part ∉ heightParts) :
    (calledAt (u.apply w).stack, (u.apply w).lua.top) = (calledAt w.stack, w.lua.top) := by
  cases u with
  | push f =>
    have htag : f.tag ≠ .lua := fun h => hu (by rw [Update.part, h]; simp [heightParts])
    simp [apply, World.push, calledAt_eq htag]
  | names p t => cases p <;> rfl
  | ref f =>
    simp only [apply, Lua.ref]
    split <;> rfl
  | unref r => cases r <;> rfl
  | top | pop => simp [heightParts] at hu
  | _ => rfl

theorem Touches.height {ks : List Part} {w w' : World} (h : Touches ks w w')
    (hks : ks.all (fun k => decide (k ∉ heightParts)) = true) :
    (calledAt w'.stack, w'.lua.top) = (calledAt w.stack, w.lua.top) :=
  h.same (f := fun v => (calledAt v.stack, v.lua.top)) (fun w u hu => u.apply_height w hu) hks

/-! ## What a C function leaves -/

/-- A C function that runs to its end, or to its first call into Lua, leaves nothing on the Lua
    stack if it is balanced, and something if it is not. -/
inductive Leaves (w w' : World) (balanced : Prop) : Prop
  | crashed : w'.fault ≠ none → Leaves w w' balanced
  | same : balanced → Shaped w'.stack → w'.height = w.height → Leaves w w' balanced
  | more : ¬balanced → Shaped w'.stack → w.height < w'.height → Leaves w w' balanced

namespace Leaves
variable {w v w' : World} {b b' : Prop} {ks : List Part}

theorem congr (h : Leaves w w' b) (hb : b ↔ b') : Leaves w w' b' := propext hb ▸ h

/-- What no part of the height is touched by leaves nothing. -/
theorem quiet (hquiet : calledAt w.stack = none) (h : Touches ks w w')
    (hks : ks.all (fun k => decide (k ∉ heightParts)) = true) (hb : b) : Leaves w w' b := by
  obtain ⟨hcalled, htop⟩ := Prod.mk.inj (h.height hks)
  refine .same hb (.of_quiet (hcalled.trans hquiet)) ?_
  rw [World.height, World.height, hcalled, htop]

theorem unchanged (hquiet : calledAt w.stack = none) (hb : b) : Leaves w w b :=
  .same hb (.of_quiet hquiet) rfl

theorem from_height (hl : Leaves v w' b) (hheight : v.height = w.height) : Leaves w w' b := by
  cases hl with
  | crashed hfault => exact .crashed hfault
  | same hb htail heq => exact .same hb htail (heq.trans hheight)
  | more hb htail hlt => exact .more hb htail (hheight ▸ hlt)

/-- What a C function does first may be left out. -/
theorem after (h : Touches ks w v) (hks : ks.all (fun k => decide (k ∉ heightParts)) = true)
    (hl : Leaves v w' b) : Leaves w w' b := by
  obtain ⟨hcalled, htop⟩ := Prod.mk.inj (h.height hks)
  exact hl.from_height (by rw [World.height, World.height, hcalled, htop])

end Leaves

namespace World
variable {w : World}

theorem crash_fault (w : World) (f : Fault) : (w.crash f).fault ≠ none := by
  cases h : w.fault <;> simp [crash, h]

/-- A call by a callback of libuv. -/
theorem pcall_leaves (hquiet : calledAt w.stack = none) (site : Site) (hsite : site ≠ .sendError)
    (fn : Option Fn) (args : List LuaValue) :
    Leaves w (w.pcall site fn args) (fn.isSome = true) := by
  cases fn with
  | some f =>
    exact .same rfl ⟨.of_quiet hquiet, fun _ => hsite⟩ (by simp [pcall, height, calledAt, hquiet])
  | none =>
    have hleft : site.leftover = 1 := by cases site <;> first | rfl | exact absurd rfl hsite
    refine .more (by simp) (.of_quiet hquiet) ?_
    simp [pcall, height, hquiet, hleft]

/-- A handler that is set is a function. -/
def Callable (w : World) (r : LuaRef) : Prop := ∀ n, r = .ref n → (w.lua.slots n).isSome = true

theorem callHandler_leaves (hquiet : calledAt w.stack = none) (site : Site)
    (hsite : site ≠ .sendError) (r : LuaRef) (args : List LuaValue) :
    Leaves w (w.callHandler site r args) (w.Callable r) := by
  cases r with
  | ref n =>
    refine (pcall_leaves hquiet site hsite (w.lua.slots n) args).congr ⟨fun h m hm => ?_, fun h => h n rfl⟩
    cases hm
    exact h
  | _ => exact .unchanged hquiet nofun

/-- The reference of the first command that waits for its reply. -/
def headRef (w : World) : LuaRef :=
  ((w.cc.commandCbList.head?.bind w.heap.deref).map Callback.ref).getD .noref

theorem shiftAndReport_leaves (hquiet : calledAt w.stack = none) (site : Site)
    (hsite : site ≠ .sendError) (error : LuaValue) :
    Leaves w (w.shiftAndReport site error id) (w.Callable w.headRef) := by
  have hspec := w.shift_spec
  have hshift : Touches [.shift] w w.shift := .of [.shift] rfl rfl
  unfold shiftAndReport
  split
  next heq =>
    simp only [heq] at hspec
    exact .unchanged hquiet (by simp [headRef, hspec, Callable])
  next list heq =>
    exact .crashed (crash_fault _ _)
  next list target heap heq =>
    simp only [heq] at hspec
    obtain ⟨hworld, p, hlist, htarget⟩ := hspec
    have hhead : w.headRef = target.ref := by simp [headRef, hlist, htarget]
    simp only [← hworld, hhead]
    obtain ⟨hcalled, -⟩ := Prod.mk.inj (hshift.height rfl)
    have hslots : w.shift.lua.slots = w.lua.slots := rfl
    split
    next n href =>
      have hunref : Touches [.shift, .unref] w (w.shift.unref (.ref n)) :=
        .of [.shift, .unref (.ref n)] rfl rfl
      have hcall := pcall_leaves (w := w.shift.unref (.ref n)) (hcalled.trans hquiet) site hsite
        (w.lua.slots n) [error]
      refine (hcall.after hunref rfl).congr ⟨fun h m hm => ?_, fun h => h n href⟩
      rw [href] at hm
      cases hm
      exact h
    next hnone => exact .quiet hquiet hshift rfl fun n href => absurd href (hnone n)

/-! ## Lists of callbacks -/

/-- What an entry of a list of callbacks has its loop call is a function. -/
def EntryCallable (w : World) {κ : Type} (t : NodeT κ) (leaf : Path) (i : Nat) : Prop :=
  ∀ key val p c, t.get? leaf = some (key, val) → val.cbList[i]? = some p → w.heap.deref p = some c →
    (w.lua.rawgeti c.ref).isSome = true

/-- A round of a loop over a list, at the entry found. -/
theorem callEntry_leaves (hquiet : calledAt w.stack = none) (site : Site) (hsite : site ≠ .sendError)
    (p : CbPtr) (args : Option (List LuaValue)) :
    Leaves w (w.callEntry site p args)
      (∀ c, w.heap.deref p = some c → (w.lua.rawgeti c.ref).isSome = true) := by
  unfold callEntry
  split
  next hdead => exact .crashed (crash_fault _ _)
  next c hc =>
    have hiff : (w.lua.rawgeti c.ref).isSome = true ↔
        ∀ c', w.heap.deref p = some c' → (w.lua.rawgeti c'.ref).isSome = true :=
      ⟨fun h c' hc' => Option.some.inj (hc.symm.trans hc') ▸ h, fun h => h c hc⟩
    split
    · split
      · exact (pcall_leaves hquiet site hsite _ _).congr hiff
      · exact .crashed (crash_fault _ _)
    · exact (pcall_leaves hquiet site hsite _ _).congr hiff

/-- A round of a loop over the list of a node. -/
theorem round_leaves (hquiet : calledAt w.stack = none) (site : Site) (hsite : site ≠ .sendError)
    {κ : Type} {t : NodeT κ} {leaf : Path} {key : κ} {val : NodeVal}
    (hget : t.get? leaf = some (key, val)) {f : Frame} (hf : f.tag ≠ .lua) (i : Nat)
    (args : Option (List LuaValue)) :
    Leaves w (val.cbList[i]?.elim w fun p => (w.push f).callEntry site p args)
      (w.EntryCallable t leaf i) := by
  have hval : ∀ {key' : κ} {val' : NodeVal}, t.get? leaf = some (key', val') → val' = val :=
    fun hget' => (Prod.mk.inj (Option.some.inj (hget'.symm.trans hget))).2
  cases hentry : val.cbList[i]? with
  | none =>
    refine .unchanged hquiet fun key' val' p c hget' hp _ => ?_
    rw [hval hget', hentry] at hp
    cases hp
  | some ptr =>
    have hpush : calledAt (w.push f).stack = none := (calledAt_eq hf w.stack).trans hquiet
    have hheight : (w.push f).height = w.height := by simp [height, push, calledAt_eq hf]
    have hcall := callEntry_leaves hpush site hsite ptr args
    have hiff : (∀ c, (w.push f).heap.deref ptr = some c →
        ((w.push f).lua.rawgeti c.ref).isSome = true) ↔ w.EntryCallable t leaf i := by
      refine ⟨fun h key' val' p c hget' hp hc => ?_, fun h c hc => h key val ptr c hget hentry hc⟩
      rw [hval hget', hentry] at hp
      cases hp
      exact h c hc
    exact (hcall.from_height hheight).congr hiff

theorem eventLoop_leaves (hquiet : calledAt w.stack = none) (p : Bool) (leaf : Path) (i : Nat)
    (reply : Reply) :
    Leaves w (w.eventLoop p leaf i reply) (w.EntryCallable (w.names p) leaf i) := by
  unfold eventLoop
  split
  · exact .crashed (crash_fault _ _)
  split
  · exact .crashed (crash_fault _ _)
  next key val hget =>
    have hround := round_leaves hquiet .event nofun hget (f := .event p leaf (i + 1) reply) nofun i
      (eventArgs reply)
    generalize val.cbList[i]? = entry at hround ⊢
    cases entry <;> exact hround

theorem timerLoop_leaves (hquiet : calledAt w.stack = none) (leaf : Path) (i : Nat)
    (rep timeout : UInt64) :
    Leaves w (w.timerLoop leaf i rep timeout) (w.EntryCallable w.cc.timers leaf i) := by
  unfold timerLoop
  split
  · exact .crashed (crash_fault _ _)
  split
  · exact .crashed (crash_fault _ _)
  next key val hget =>
    have hround := round_leaves hquiet .timer nofun hget (f := .timer leaf (i + 1) rep timeout) nofun i
      (some (timerArgs rep timeout))
    generalize val.cbList[i]? = entry at hround ⊢
    cases entry <;> exact hround

end World

/-! ## Confirmations -/

/-- A timer slot that waits to be started. -/
def Channel.Pending (ch : Channel) : Prop := ch.timerEvent = true ∧ ch.subscribed = false

/-- A confirmation starts no timer on its way through the list, and calls a function where it
    finds the slot. -/
def ConfirmBalanced (w : World) (sname : Bytes) : CallbackEnds → Prop
  | [] => True
  | p :: ps => ∀ c, w.heap.deref p = some c →
      (c.initialized = true → ConfirmBalanced w sname ps) ∧
      (c.initialized = false → (∀ ch ∈ c.channels, ¬ch.Pending) ∧
        (Exhausted sname c.channels → ConfirmBalanced w sname ps) ∧
        (¬Exhausted sname c.channels →
          w.cc.ignoreSubCmdReply = true ∨ (w.lua.rawgeti c.ref).isSome = true))

/-- The slot is found in a record that has one waiting for the name. -/
theorem markSlots_found (sname : Bytes) (chs : List Channel) :
    (markSlots sname chs false).2 = false ↔ Exhausted sname chs := by
  induction chs with
  | nil => exact ⟨fun _ => nofun, fun _ => rfl⟩
  | cons ch chs ih =>
    by_cases hwaits : ch.flag? = some false ∧ strcmp (ch.name.getD []) sname = .eq
    · rw [markSlots_first hwaits.1 hwaits.2]
      exact ⟨nofun, fun h => absurd hwaits.2 (h ch List.mem_cons_self hwaits.1)⟩
    · have hother : ch.flag? = some false → strcmp (ch.name.getD []) sname ≠ .eq :=
        fun hflag hname => hwaits ⟨hflag, hname⟩
      rw [markSlots, markSlot_other (.inr hother)]
      exact ih.trans ⟨fun h => List.forall_mem_cons.mpr ⟨hother, h⟩,
        fun h => (List.forall_mem_cons.mp h).2⟩

/-- Without timers to start, a record that is passed over keeps its slots. -/
theorem startSlots_same {chs : List Channel} (h : ∀ ch ∈ chs, ¬ch.Pending) :
    chs.map startSlot = chs := by
  refine (List.map_congr_left fun ch hch => ?_).trans (List.map_id chs)
  have hnot := h ch hch
  obtain ⟨chName, ikey, subscribed, timerEvent⟩ := ch
  cases timerEvent <;> cases subscribed <;> simp_all [startSlot, Channel.Pending]

namespace World
variable {w : World}

theorem startTimer_top (w : World) (ikey : UInt64) :
    (w.startTimer ikey).lua.top = w.lua.top + 1 := by
  unfold startTimer
  dsimp only
  split <;> rfl

theorem confirmChannel_top (sname : Bytes) (ch : Channel) (isDone : Bool) (w : World) :
    ¬ch.Pending ∧ (confirmChannel sname ch isDone w).2.2 = w ∨
      ch.Pending ∧ (confirmChannel sname ch isDone w).2.2.lua.top = w.lua.top + 1 := by
  unfold confirmChannel Channel.Pending
  cases hsub : ch.subscribed with
  | true => exact .inl ⟨nofun, rfl⟩
  | false =>
    cases htimer : ch.timerEvent with
    | true =>
      simp only [Bool.not_true, Bool.and_false, Bool.false_and, Bool.false_eq_true, if_false, if_true]
      exact .inr ⟨⟨trivial, trivial⟩, w.startTimer_top _⟩
    | false =>
      refine .inl ⟨nofun, ?_⟩
      simp only [Bool.false_eq_true, if_false]
      split <;> rfl

/-- Each timer that is started leaves the loop object. -/
theorem confirmChannels_top (sname : Bytes) (chs : List Channel) (isDone : Bool) (w : World) :
    (∀ ch ∈ chs, ¬ch.Pending) ∧ (confirmChannels sname chs isDone w).2.2 = w ∨
      (¬∀ ch ∈ chs, ¬ch.Pending) ∧
        w.lua.top < (confirmChannels sname chs isDone w).2.2.lua.top := by
  induction chs generalizing isDone w with
  | nil => exact .inl ⟨nofun, rfl⟩
  | cons ch chs ih =>
    have hone := confirmChannel_top sname ch isDone w
    rw [confirmChannels, List.forall_mem_cons]
    generalize confirmChannel sname ch isDone w = r at hone ⊢
    obtain ⟨ch', isDone', w'⟩ := r
    dsimp only at hone ⊢
    have hrest := ih isDone' w'
    generalize confirmChannels sname chs isDone' w' = r at hrest ⊢
    obtain ⟨hnot, rfl⟩ | ⟨hpending, htop⟩ := hone
    · obtain ⟨hnone, heq⟩ | ⟨hsome, hlt⟩ := hrest
      · exact .inl ⟨⟨hnot, hnone⟩, heq⟩
      · exact .inr ⟨fun h => hsome h.2, hlt⟩
    · refine .inr ⟨fun h => h.1 hpending, show w.lua.top < r.2.2.lua.top from ?_⟩
      obtain ⟨-, heq⟩ | ⟨-, hlt⟩ := hrest
      · rw [heq]
        omega
      · omega

/-- A record without timers to start that is passed over changes nothing for the rest. -/
theorem confirmBalanced_marked {id : Nat} {c : Callback} (hc : w.heap.cb id = some c)
    (hinit : c.initialized = false) {sname : Bytes} (hpending : ∀ ch ∈ c.channels, ¬ch.Pending)
    (hexhausted : Exhausted sname c.channels) (list : CallbackEnds) :
    ConfirmBalanced (w.marked id sname c) sname list ↔ ConfirmBalanced w sname list := by
  have hslots : (markSlots sname c.channels false).1 = c.channels := by
    rw [markSlots_exhausted hexhausted, startSlots_same hpending]
  generalize hinit' : c.channels.all Channel.subscribed = all
  have hmarked : w.marked id sname c =
      { w with heap := w.heap.update id fun c' => { c with initialized := all } } := by
    rw [marked_eq hc, hslots, hinit']
    simp only [Heap.update, hc, Option.map_some, hinit, Bool.false_or]
  rw [hmarked]
  induction list with
  | nil => exact Iff.rfl
  | cons p ps ih =>
    have hat : (w.heap.update id fun _ => { c with initialized := all }).deref (.heap id) =
        some { c with initialized := all } := by simp [Heap.deref, Heap.update, Heap.set, hc]
    by_cases hp : p = .heap id
    · subst hp
      have hderef : w.heap.deref (.heap id) = some c := hc
      simp only [ConfirmBalanced, hat, hderef, Option.some.injEq, forall_eq', ih]
      cases all with
      | false => simp [hinit, hexhausted]
      | true =>
        simp only [hinit, hexhausted, Bool.true_eq_false, Bool.false_eq_true, forall_const,
          false_imp_iff, and_true, not_true, true_and]
        exact ⟨fun h => ⟨hpending, h⟩, And.right⟩
    · have hother : (w.heap.update id fun _ => { c with initialized := all }).deref p =
          w.heap.deref p := by
        cases p with
        | stack => rfl
        | heap i =>
          have hne : i ≠ id := fun heq => hp (heq ▸ rfl)
          simp [Heap.deref, Heap.update, Heap.set, hne]
      simp only [ConfirmBalanced, hother, ih]

/-- A confirmation, from the timers of a record on. -/
theorem confirm_leaves (hquiet : calledAt w.stack = none) (sname : Bytes) (reply : Reply)
    (list : CallbackEnds) :
    Leaves w (confirm sname reply list w) (ConfirmBalanced w sname list) := by
  induction list generalizing w with
  | nil => exact .unchanged hquiet trivial
  | cons p ps ih =>
    have hentry := confirmEntry_confirmed sname reply p w
    unfold confirm
    generalize confirmEntry sname reply p w = r at hentry ⊢
    cases hentry with
    | dead _ => exact .crashed (crash_fault _ _)
    | @skipped id c hc hinit =>
      have hderef : w.heap.deref (.heap id) = some c := hc
      dsimp only
      split
      next hfault => exact .crashed (Option.ne_none_iff_isSome.mpr hfault)
      · refine (ih hquiet).congr ?_
        simp only [ConfirmBalanced, hderef, Option.some.injEq, forall_eq', hinit, forall_const]
        exact ⟨fun h => ⟨h, fun heq => by cases heq⟩, And.left⟩
    | @visited id c w₁ w' hc hinit hstart ht hresult =>
      have hderef : w.heap.deref (.heap id) = some c := hc
      obtain ⟨hignore, hslots, hheap, -, -, -, hstack⟩ := startTimer_same ht
      have hquiet₁ : calledAt (w₁.marked id sname c).stack = none := hstack ▸ hquiet
      have hmarked : Touches [.slots] w₁ (w₁.marked id sname c) := .of [.slots ..] rfl rfl
      have hfound := markSlots_found sname c.channels
      generalize (markSlots sname c.channels false).2 = found at hresult hfound ⊢
      -- what is left after the timers
      have hrest : Leaves w₁ (if found then w' else if w'.fault.isSome then w' else
          confirm sname reply ps w')
          ((Exhausted sname c.channels → ConfirmBalanced (w₁.marked id sname c) sname ps) ∧
            (¬Exhausted sname c.channels →
              w.cc.ignoreSubCmdReply = true ∨ (w.lua.rawgeti c.ref).isSome = true)) := by
        obtain ⟨hfault, rfl⟩ | ⟨rfl, hcase⟩ | ⟨rfl, -, hnot, rfl⟩ | ⟨rfl, -, rfl⟩ :=
          hresult
        · have hcrashed : w₁.fault ≠ none := Option.ne_none_iff_isSome.mpr hfault
          cases found with
          | false => exact if_pos hfault ▸ .crashed hcrashed
          | true => exact .crashed hcrashed
        · cases found with
          | false =>
            have hexhausted := hfound.mp rfl
            simp only [Bool.false_eq_true, if_false]
            split
            next hfault => exact .crashed (Option.ne_none_iff_isSome.mpr hfault)
            · exact ((ih hquiet₁).after hmarked rfl).congr
                ⟨fun h => ⟨fun _ => h, fun hn => absurd hexhausted hn⟩, fun h => h.1 hexhausted⟩
          | true =>
            have hignored : w.cc.ignoreSubCmdReply = true := by simpa using hcase
            exact .quiet (hstack ▸ hquiet) hmarked rfl
              ⟨fun he => absurd (hfound.mpr he) (by simp), fun _ => .inl hignored⟩
        · have hwaits : ¬Exhausted sname c.channels := fun he => absurd (hfound.mpr he) (by simp)
          have hcall := pcall_leaves hquiet₁ .confirmation (by decide) (w.lua.rawgeti c.ref)
            [.nil, pushSubReply reply]
          exact (hcall.after hmarked rfl).congr
            ⟨fun h => ⟨fun he => absurd he hwaits, fun _ => .inr h⟩,
              fun h => (h.2 hwaits).resolve_left (by simp [hnot])⟩
        · exact .crashed (crash_fault _ _)
      have htop := confirmChannels_top sname c.channels false w
      rw [hstart] at htop
      have hall : Leaves w (if found then w' else if w'.fault.isSome then w' else
          confirm sname reply ps w') (ConfirmBalanced w sname (.heap id :: ps)) := by
        obtain ⟨hnone, rfl⟩ | ⟨hsome, hlt⟩ := htop
        · refine hrest.congr ?_
          simp only [ConfirmBalanced, hderef, Option.some.injEq, forall_eq', hinit, Bool.false_eq_true,
            false_imp_iff, true_and, forall_const]
          refine ⟨fun h => ⟨hnone, fun he => ?_, h.2⟩, fun h => ⟨fun he => ?_, h.2.2⟩⟩
          · exact (confirmBalanced_marked hc hinit hnone he ps).mp (h.1 he)
          · exact (confirmBalanced_marked hc hinit hnone he ps).mpr (h.2.1 he)
        -- a timer was started, and what it left stays
        · have hheight : w.height < w₁.height := by simpa [height, hstack, hquiet] using hlt
          have hnot : ¬ConfirmBalanced w sname (.heap id :: ps) := fun h =>
            hsome ((h c hderef).2 hinit).1
          cases hrest with
          | crashed hfault => exact .crashed hfault
          | same _ htail heq => exact .more hnot htail (heq ▸ hheight)
          | more _ htail hmore => exact .more hnot htail (hheight.trans hmore)
      cases found <;> exact hall

end World

/-! ## Replies -/

/-- A reply of the subscription stream starts no timer, and what it has called is a function. -/
def SubBalanced (w : World) (reply : Reply) : Prop :=
  ∀ stype sname rest leaf key val, reply = .array (.string stype :: .string sname :: rest) →
    search sname (w.names (isPvariant stype)) = some leaf →
    (w.names (isPvariant stype)).get? leaf = some (key, val) →
      (subKind stype = .confirmation → ConfirmBalanced w sname val.cbList) ∧
        (subKind stype = .event → w.EntryCallable (w.names (isPvariant stype)) leaf 0)

/-- What the reply that `on_read` gets next has called. -/
def RoundBalanced (w : World) (subMode : Bool) (cb : LuaRef) : Prop :=
  ∀ reader reply, redisReaderGetReply w.cc.reader = (reader, .ok, some reply) →
    if subMode then SubBalanced w reply
    else w.Callable (if w.cc.commandCbList = [] then cb else w.headRef)

theorem confirmBalanced_congr {v w : World} (hheap : v.heap = w.heap) (hlua : v.lua = w.lua)
    (hignore : v.cc.ignoreSubCmdReply = w.cc.ignoreSubCmdReply) (sname : Bytes)
    (list : CallbackEnds) : ConfirmBalanced v sname list ↔ ConfirmBalanced w sname list := by
  induction list with
  | nil => exact Iff.rfl
  | cons p ps ih => simp only [ConfirmBalanced, hheap, hlua, hignore, ih]

/-- What a subscription reply needs. -/
theorem subBalanced_congr {v w : World} (hheap : v.heap = w.heap) (hlua : v.lua = w.lua)
    (hignore : v.cc.ignoreSubCmdReply = w.cc.ignoreSubCmdReply)
    (hchannels : v.cc.channels = w.cc.channels) (hpatterns : v.cc.patterns = w.cc.patterns)
    {reply : Reply} : SubBalanced v reply ↔ SubBalanced w reply := by
  have hnames : ∀ p, v.names p = w.names p := fun p => by simp only [names, hchannels, hpatterns]
  simp only [SubBalanced, hnames, confirmBalanced_congr hheap hlua hignore, EntryCallable, hheap,
    hlua]

namespace World
variable {w : World}

theorem getAndCallSubCb_leaves (hquiet : calledAt w.stack = none) (reply : Reply) :
    Leaves w (w.getAndCallSubCb reply) (SubBalanced w reply) := by
  have hdispatched := getAndCallSubCb_dispatched w reply
  generalize w.getAndCallSubCb reply = v at hdispatched ⊢
  have hfound : ∀ {stype sname : Bytes} {rest : List Reply} {leaf : Path} {key : Bytes}
      {val : NodeVal} {b : Prop}, reply = .array (.string stype :: .string sname :: rest) →
      (w.names (isPvariant stype)).lookup nameCmp sname = some leaf →
      (w.names (isPvariant stype)).get? leaf = some (key, val) →
      (b ↔ (subKind stype = .confirmation → ConfirmBalanced w sname val.cbList) ∧
        (subKind stype = .event → w.EntryCallable (w.names (isPvariant stype)) leaf 0)) →
      (b ↔ SubBalanced w reply) := fun heq hleaf hget hb => by
    rw [hb]
    refine ⟨fun h stype' sname' rest' leaf' key' val' heq' hleaf' hget' => ?_, fun h =>
      h _ _ _ _ _ _ heq (by rw [search_eq, hleaf]) hget⟩
    cases heq.symm.trans heq'
    rw [search_eq, hleaf] at hleaf'
    cases hleaf'
    cases hget.symm.trans hget'
    exact h
  cases hdispatched with
  | ignored hkind =>
    refine .unchanged hquiet fun stype sname rest _ _ _ heq _ _ => ?_
    rw [hkind stype sname rest heq]
    exact ⟨nofun, nofun⟩
  | malformed _ _ => exact .crashed (crash_fault _ _)
  | unknown _ _ _ => exact .crashed (crash_fault _ _)
  | unused _ _ _ _ _ => exact .crashed (crash_fault _ _)
  | confirmation heq hkind hleaf hget _ =>
    refine (confirm_leaves hquiet _ reply _).congr (hfound heq hleaf hget ?_)
    simp [hkind]
  | event heq hkind hleaf hget _ =>
    refine (eventLoop_leaves hquiet _ _ 0 reply).congr (hfound heq hleaf hget ?_)
    simp [hkind]

theorem deliverReply_leaves (hquiet : calledAt w.stack = none) (h : Handle) (cb : LuaRef)
    (reply : Reply) : Leaves w (w.deliverReply h cb reply) (w.Callable cb) := by
  have hpush : Touches [.frame .readLoop] w (w.push (.readLoop h false cb)) :=
    .of [.push (.readLoop h false cb)] rfl rfl
  unfold deliverReply
  cases cb with
  | ref n =>
    dsimp only
    split
    · have hunref : Touches [.frame .readLoop, .unref] w
          ((w.push (.readLoop h false (.ref n))).unref (.ref n)) :=
        .of [.push (.readLoop h false (.ref n)), .unref (.ref n)] rfl rfl
      have hcall := pcall_leaves (w := (w.push (.readLoop h false (.ref n))).unref (.ref n)) hquiet
        .reply nofun (w.lua.slots n) [.nil, pushReply reply]
      refine (hcall.after hunref rfl).congr ⟨fun h m hm => ?_, fun h => h n rfl⟩
      cases hm
      exact h
    · exact .crashed (crash_fault _ _)
  | _ => exact .quiet hquiet hpush rfl nofun

theorem dispatchReply_leaves (hquiet : calledAt w.stack = none) (h : Handle) (cb : LuaRef)
    (reply : Reply) :
    Leaves w (w.dispatchReply h cb reply)
      (w.Callable (if w.cc.commandCbList = [] then cb else w.headRef)) := by
  have hspec := w.shift_spec
  have hshift : Touches [.shift] w w.shift := .of [.shift] rfl rfl
  obtain ⟨hempty, heq⟩ | ⟨list, hdead, heq⟩ | ⟨list, target, heap, hok, heq⟩ :=
    w.dispatchReply_cases h cb reply
  · simp only [hempty] at hspec
    rw [heq, if_pos hspec]
    exact deliverReply_leaves hquiet h cb reply
  · rw [heq]
    exact .crashed (crash_fault _ _)
  · simp only [hok] at hspec
    obtain ⟨hworld, p, hlist, htarget⟩ := hspec
    have hhead : w.headRef = target.ref := by simp [headRef, hlist, htarget]
    rw [heq, ← hworld, if_neg (by simp [hlist]), hhead]
    exact (deliverReply_leaves (w := w.shift) hquiet h target.ref reply).after hshift rfl

theorem readLoop_leaves (hquiet : calledAt w.stack = none) (h : Handle) (subMode : Bool)
    (cb : LuaRef) : Leaves w (w.readLoop h subMode cb) (RoundBalanced w subMode cb) := by
  have hround := readLoop_round w h subMode cb
  generalize w.readLoop h subMode cb = v at hround ⊢
  have hnone : ∀ {reader : RedisReader} {r : Status × Option Reply}, (∀ reply, r ≠ (.ok, some reply)) →
      redisReaderGetReply w.cc.reader = (reader, r) → RoundBalanced w subMode cb :=
    fun hr hget _ reply hget' => absurd (Prod.mk.inj (hget.symm.trans hget')).2 (hr reply)
  have hreader : ∀ reader, Touches [.reader] w { w with cc.reader := reader } := fun reader =>
    .of [.reader reader] rfl rfl
  have hreplied : ∀ reader subMode reply,
      Touches [.reader, .obs .reply] w (w.replied reader subMode reply) := fun reader subMode reply =>
    .of [.reader reader, .log (.reply subMode reply)] rfl rfl
  have hpushed : ∀ reader reply, Touches [.reader, .obs .reply, .frame .readLoop] w
      ((w.replied reader true reply).push (.readLoop h true cb)) := fun reader reply =>
    .of [.reader reader, .log (.reply true reply), .push (.readLoop h true cb)] rfl rfl
  have hsome : ∀ {reader : RedisReader} {reply : Reply} {b : Prop},
      redisReaderGetReply w.cc.reader = (reader, .ok, some reply) →
      (b ↔ if subMode then SubBalanced w reply
        else w.Callable (if w.cc.commandCbList = [] then cb else w.headRef)) →
      (b ↔ RoundBalanced w subMode cb) := fun hget hb => by
    refine hb.trans ⟨fun h reader' reply' hget' => ?_, fun h => h _ _ hget⟩
    cases hget.symm.trans hget'
    exact h
  cases hround with
  | exited _ => exact .crashed (crash_fault _ _)
  | failed hget _ => exact .quiet hquiet (hreader _) rfl (hnone (by simp) hget)
  | stored _ _ => exact .crashed (crash_fault _ _)
  | disconnecting hget _ => exact .quiet hquiet (hreader _) rfl (hnone (by simp) hget)
  | @ended reader hget _ =>
    have hend := (hreader reader).mono (List.subset_append_left _ _) |>.trans
      ((endRead_touches _ h subMode).mono (List.subset_append_right _ _))
    exact .quiet hquiet hend rfl (hnone (by simp) hget)
  | @reply reader reply hget hsub =>
    have hcall := dispatchReply_leaves (w := w.replied reader false reply) hquiet h cb reply
    exact (hcall.after (hreplied reader false reply) rfl).congr (hsome hget (by simp [hsub]; rfl))
  | @subError reader message hget hsub =>
    have hpush := hpushed reader (.error message)
    refine .quiet hquiet hpush rfl ((hsome (b := True) hget ?_).mp trivial)
    rw [if_pos hsub]
    exact ⟨fun _ => nofun, fun _ => trivial⟩
  | @subReply reader reply hget hsub =>
    have hpush := hpushed reader reply
    have hcall := getAndCallSubCb_leaves (w := (w.replied reader true reply).push
      (.readLoop h true cb)) hquiet reply
    refine (hcall.after hpush rfl).congr (hsome hget ?_)
    rw [if_pos hsub]
    exact subBalanced_congr (v := (w.replied reader true reply).push (.readLoop h true cb)) (w := w)
      rfl rfl rfl rfl rfl

/-! ## Callbacks of libuv -/

/-- A handler called at the end of a function. -/
theorem handler_leaves {v : World} {ks : List Part} (hquiet : calledAt w.stack = none)
    (h : Touches ks w v)
    (hks : ks.all (fun k => decide (k ∉ [.ref, .unref, .frame .lua, .top, .pop])) = true)
    (site : Site) (hsite : site ≠ .sendError) (r : LuaRef) (args : List LuaValue) :
    Leaves w (v.callHandler site r args) (w.Callable r) := by
  have hks' : ks.all (fun k => decide (k ∉ heightParts)) = true :=
    all_not_mem_mono (by simp [heightParts]) hks
  have hquiet' := (Prod.mk.inj (h.height hks')).1.trans hquiet
  have hslots : v.lua.slots = w.lua.slots :=
    h.same (f := fun v => v.lua.slots) (fun w u hu => by
        cases u with
        | ref | unref => simp at hu
        | names p t => cases p <;> rfl
        | _ => rfl) hks
  refine ((callHandler_leaves hquiet' site hsite r args).after h hks').congr ?_
  simp only [Callable, hslots]

theorem onRead_leaves (hquiet : calledAt w.stack = none) (h : Handle) (data : Bytes) (cb : LuaRef) :
    Leaves w (w.onRead h data cb)
      (w.cc.flags.disconnecting = false → data ≠ [] →
        (redisReaderFeed w.cc.reader data).2 = .err → w.Callable w.cc.rErrorCb) := by
  have halloc : Touches [.bufs] w { w with bufs := w.bufs.alloc.2 } :=
    .of [.bufs w.bufs.alloc.2] rfl rfl
  unfold onRead
  dsimp only
  split
  next hdisc =>
    exact .quiet hquiet (halloc.step (.bufs _) (by simp)) rfl fun hd => by simp [hd] at hdisc
  next hdisc =>
    split
    next hdata =>
      split
      · exact .quiet hquiet ((halloc.mono (List.subset_append_left _ [.stream .readStop])).step
          (.stream .readStop h) (by simp)) rfl fun _ hne => absurd hdata hne
      · exact .quiet hquiet halloc rfl fun _ hne => absurd hdata hne
    next hdata =>
      split
      next heq =>
        have hpush : Touches [.bufs, .obs .fed, .obs .feedError, .frame .bufFree] w
            (((({ w with bufs := w.bufs.alloc.2 }.log
              (.fed (decide (w.cc.subStream = some h)) data))).log
              (.feedError (decide (w.cc.subStream = some h)) w.cc.reader.errstr)).push
                (.bufFree w.bufs.alloc.1)) :=
          .of [.bufs _, .log (.fed _ data), .log (.feedError _ _), .push (.bufFree _)] rfl rfl
        have hfeed : (redisReaderFeed w.cc.reader data).2 = .err := congrArg Prod.snd heq
        -- here the error handler is called, if there is one
        have hiff : w.Callable w.cc.rErrorCb ↔ (w.cc.flags.disconnecting = false → data ≠ [] →
            (redisReaderFeed w.cc.reader data).2 = .err → w.Callable w.cc.rErrorCb) := by
          simp [hdisc, hdata, hfeed]
        split
        next n hcb =>
          have hcall := handler_leaves hquiet hpush rfl .error nofun (.ref n)
            [.string (strdup w.cc.reader.errstr)]
          have href : w.cc.rErrorCb = .ref n := hcb
          exact hcall.congr (href ▸ hiff)
        next hnone =>
          have hfree : Touches [.bufs, .obs .fed, .obs .feedError] w
              (((({ w with bufs := w.bufs.alloc.2 }.log
                (.fed (decide (w.cc.subStream = some h)) data))).log
                (.feedError (decide (w.cc.subStream = some h)) w.cc.reader.errstr)).bufFree
                  w.bufs.alloc.1) :=
            .of [.bufs _, .log (.fed _ data), .log (.feedError _ _), .bufs _] rfl rfl
          exact .quiet hquiet hfree rfl (hiff.mp fun n hn => absurd hn (hnone n))
      next reader heq =>
        have hok : (redisReaderFeed w.cc.reader data).2 = .ok := congrArg Prod.snd heq
        have hpush : Touches [.bufs, .obs .fed, .reader, .frame .readLoop] w
            (({ { w with bufs := w.bufs.alloc.2 }.log
              (.fed (decide (w.cc.subStream = some h)) data) with cc.reader := reader }.bufFree
                w.bufs.alloc.1).push (.readLoop h (decide (w.cc.subStream = some h)) cb)) :=
          .of [.bufs _, .log (.fed _ data), .reader reader, .bufs _, .push (.readLoop h _ cb)] rfl rfl
        refine .quiet hquiet hpush rfl fun _ _ herr => ?_
        rw [hok] at herr
        cases herr

theorem onReadError_leaves (hquiet : calledAt w.stack = none) (h : Handle) (nread : Int) :
    Leaves w (w.onReadError h nread)
      (w.cc.flags.disconnecting = false → w.Callable w.cc.rErrorCb) := by
  have halloc : Touches [.bufs, .frame .closeStream] w { w with bufs := w.bufs.alloc.2 } :=
    .of [.bufs w.bufs.alloc.2] rfl rfl
  unfold onReadError
  dsimp only
  split
  next hdisc =>
    exact .quiet hquiet (halloc.step (.bufs _) (by simp)) rfl fun hd => by simp [hd] at hdisc
  next hdisc =>
    have hiff : w.Callable w.cc.rErrorCb ↔
        (w.cc.flags.disconnecting = false → w.Callable w.cc.rErrorCb) := by simp [hdisc]
    split
    next n hcb =>
      have hcall := handler_leaves hquiet (halloc.step (.push (.closeStream h)) (by simp)) rfl
        .error nofun (.ref n) [.strerror nread]
      exact hcall.congr (hcb ▸ hiff)
    next hnone =>
      exact .quiet hquiet ((halloc.mono (List.subset_append_left _ _)).trans
        ((uvClose_touches _ (some h)).mono (List.subset_append_right _ _))) rfl
        fun _ n hn => absurd hn (hnone n)

theorem onWrite_leaves (hquiet : calledAt w.stack = none) (req : Request) (status readStart : Int) :
    Leaves w (w.onWrite req status readStart)
      (status < 0 ∨ readStart < 0 → w.Callable w.headRef) := by
  have hfree : Touches [.stream .data, .reqFree, .stream .readStart] w ({ w with
      uv := w.uv.setStream req.handle fun s => { s with data := true } }.reqFree req.block) :=
    .of [.stream .data req.handle, .reqFree req.block] rfl rfl
  have hshift := fun error => (shiftAndReport_leaves (w := { w with
    uv := w.uv.setStream req.handle fun s => { s with data := true } }.reqFree req.block) hquiet
    .writeError nofun error).after hfree rfl
  unfold onWrite
  dsimp only
  split
  next hstatus => exact (hshift _).congr ⟨fun h _ => h, fun h => h (.inl hstatus)⟩
  next hstatus =>
    split
    next hread => exact (hshift _).congr ⟨fun h _ => h, fun h => h (.inr hread)⟩
    next hread =>
      exact .quiet hquiet (hfree.step (.stream .readStart req.handle) (by simp)) rfl
        fun h => absurd h (not_or.mpr ⟨hstatus, hread⟩)

theorem onConnect_leaves (hquiet : calledAt w.stack = none) (req : Request) (status : Int) :
    Leaves w (w.onConnect req status)
      ((status < 0 → w.Callable w.cc.rErrorCb) ∧
        (0 ≤ status → w.cc.streamFlags.stream = true ∨ w.cc.streamFlags.subStream = true →
          w.Callable w.cc.rConnectCb)) := by
  have hfree : Touches [.reqFree, .streamFlags, .raise .connected] w (w.reqFree req.block) :=
    .of [.reqFree req.block] rfl rfl
  unfold onConnect
  dsimp only
  split
  next hstatus =>
    have hiff : w.Callable w.cc.rErrorCb ↔ (status < 0 → w.Callable w.cc.rErrorCb) ∧
        (0 ≤ status → w.cc.streamFlags.stream = true ∨ w.cc.streamFlags.subStream = true →
          w.Callable w.cc.rConnectCb) :=
      ⟨fun h => ⟨fun _ => h, fun hle => absurd hstatus (by omega)⟩, fun h => h.1 hstatus⟩
    split
    next n hcb =>
      have hcall := handler_leaves hquiet hfree rfl .error nofun (.ref n) [.strerror status]
      have href : w.cc.rErrorCb = .ref n := hcb
      exact hcall.congr (href ▸ hiff)
    next hnone =>
      exact .quiet hquiet ((hfree.mono (List.subset_append_left _ _)).trans
        ((uvClose_touches _ _).mono (List.subset_append_right _ _))) rfl
        (hiff.mp fun n hn => absurd hn (hnone n))
  next hstatus =>
    have hup : (if !(w.reqFree req.block).cc.streamFlags.stream then
        { (w.reqFree req.block).cc.streamFlags with stream := true }
        else if !(w.reqFree req.block).cc.streamFlags.subStream then
          { (w.reqFree req.block).cc.streamFlags with subStream := true }
        else (w.reqFree req.block).cc.streamFlags) = Handling.up w.cc.streamFlags := rfl
    have hboth : ((Handling.up w.cc.streamFlags).stream && (Handling.up w.cc.streamFlags).subStream) =
        true ↔ w.cc.streamFlags.stream = true ∨ w.cc.streamFlags.subStream = true := by
      generalize w.cc.streamFlags = sf
      obtain ⟨stream, subStream⟩ := sf
      cases stream <;> cases subStream <;> decide
    rw [hup]
    have hsf := hfree.step (.streamFlags (Handling.up w.cc.streamFlags)) (by simp)
    split
    next hconnected =>
      have hcall := handler_leaves hquiet (hsf.step (.raise .connected) (by simp)) rfl
        .connect nofun w.cc.rConnectCb []
      exact hcall.congr ⟨fun h => ⟨fun hneg => absurd hneg hstatus, fun _ _ => h⟩, fun h =>
        h.2 (by omega) (hboth.mp hconnected)⟩
    next hnot =>
      exact .quiet hquiet hsf rfl ⟨fun hneg => absurd hneg hstatus, fun _ h =>
        absurd (hboth.mpr h) hnot⟩

theorem onDisconnect_leaves (hquiet : calledAt w.stack = none) (h : Handle) :
    Leaves w ((w.log (.closed h)).onDisconnect h)
      (w.TearsDown h → w.Callable w.cc.rDisconnectCb) := by
  by_cases htears : w.TearsDown h
  · have hfree : Touches beforeTeardown w (Update.apply (Update.apply
        ((w.log (.closed h)).freeStream h) (.streamFlags (Handling.down w.cc.streamFlags)))
        (.raise .freeing)) :=
      .of [.log (.closed h), .stream .free h, .log (.freed h), .streamFlags _, .raise .freeing] rfl rfl
    have hdestroy := (hfree.mono (List.subset_append_left _ (.obs .teardown :: destroyAllParts))).trans
      ((destroyAll_touches _).mono (by simp))
    rw [onDisconnect_tearsDown htears, teardown_eq]
    exact (handler_leaves hquiet (hdestroy.step (.log .teardown) (by simp)) rfl .disconnect nofun
      w.cc.rDisconnectCb []).congr
      ⟨fun h _ => h, fun h => h htears⟩
  · exact .quiet hquiet (onDisconnect_quiet htears) rfl fun h => absurd h htears

theorem onTimer_leaves (hquiet : calledAt w.stack = none) (rep timeout : UInt64) :
    Leaves w (w.onTimer rep timeout)
      (w.cc.flags.disconnecting = false → ∀ leaf, searchTimer rep w.cc.timers = some leaf →
        w.EntryCallable w.cc.timers leaf 0) := by
  unfold onTimer
  split
  next hdisc => exact .unchanged hquiet fun hd => by simp [hd] at hdisc
  next hdisc =>
    split
    · exact .crashed (crash_fault _ _)
    next leaf hleaf =>
      refine (timerLoop_leaves hquiet leaf 0 rep timeout).congr ?_
      simp [hdisc, hleaf]

end World

/-! ## Runs -/

/-- A step that leaves nothing on the Lua stack: what it calls is a function, no timer is
    started, and a function called by a C function does not raise an error. -/
def Balanced (w : World) (e : Event) (_ : World) : Prop :=
  match e with
  | .api _ => True
  | .ret ok => ok = true ∨ (calledAt w.stack.tail).isSome = true
  | .resume =>
    match w.stack with
    | .readLoop _ subMode cb :: _ => RoundBalanced w subMode cb
    | .event p leaf i _ :: _ => w.EntryCallable (w.names p) leaf i
    | .timer leaf i _ _ :: _ => w.EntryCallable w.cc.timers leaf i
    | _ => True
  | .read _ data _ => w.cc.flags.disconnecting = false → data ≠ [] →
      (redisReaderFeed w.cc.reader data).2 = .err → w.Callable w.cc.rErrorCb
  | .readError .. => w.cc.flags.disconnecting = false → w.Callable w.cc.rErrorCb
  | .written _ status readStart => status < 0 ∨ readStart < 0 → w.Callable w.headRef
  | .connected _ status => (status < 0 → w.Callable w.cc.rErrorCb) ∧
      (0 ≤ status → w.cc.streamFlags.stream = true ∨ w.cc.streamFlags.subStream = true →
        w.Callable w.cc.rConnectCb)
  | .closed h => w.TearsDown h → w.Callable w.cc.rDisconnectCb
  | .tick b _ => w.cc.flags.disconnecting = false → ∀ t leaf, w.uv.timers b = some t →
      searchTimer t.rep w.cc.timers = some leaf → w.EntryCallable w.cc.timers leaf 0

/-- The callback of an event of libuv, from its first step to its last. -/
structure CallbackRun (w : World) (e : Event) (es : List Event) (w' : World) : Prop where
  idle : w.stack = []
  event : ∀ c, e ≠ .api c
  run : ∃ w₁, w.step e = some w₁ ∧
    RunsUnder World.step (fun v _ _ => v.stack ≠ []) w₁ es w'
  done : w'.stack = []
  sound : w'.fault = none

namespace World
variable {w : World}

/-- A method called by a Lua function leaves the stack below alone. -/
theorem api_height {t : Int} (hcalled : calledAt w.stack = some t) (hshaped : Shaped w.stack)
    (c : ApiCall) : calledAt (w.api c).stack = some t ∧ Shaped (w.api c).stack := by
  have hparts : (apiParts c).all (fun k => decide (k ∉ [.pop, .frame .readLoop, .frame .closeStream,
      .frame .bufFree, .frame .event, .frame .timer])) = true := by cases c <;> rfl
  refine (w.api_touches c).keeps (I := fun v => calledAt v.stack = some t ∧ Shaped v.stack)
    (fun v u hu h => ?_) hparts ⟨hcalled, hshaped⟩
  obtain ⟨hcalled, hshaped⟩ := h
  cases u with
  | push f =>
    cases f with
    | lua site top =>
      refine ⟨by simp [Update.apply, push, calledAt, hcalled], hshaped, fun hnone => ?_⟩
      rw [hcalled] at hnone
      cases hnone
    | _ => simp at hu
  | pop => simp at hu
  | names p t => cases p <;> exact ⟨hcalled, hshaped⟩
  | _ => exact ⟨hcalled, hshaped⟩

/-- A C function that goes on. -/
theorem resume_leaves (hquiet : calledAt w.stack = none) {f : Frame} (hf : f.tag ≠ .lua) :
    Leaves w (w.resume f) (Balanced (w.push f) .resume w) := by
  cases f with
  | lua site top => exact absurd rfl hf
  | readLoop h subMode cb =>
    refine (readLoop_leaves hquiet h subMode cb).congr ?_
    refine forall₂_congr fun reader reply => forall_congr' fun _ => ?_
    cases subMode with
    | false => exact Iff.rfl
    | true =>
      exact subBalanced_congr (v := w) (w := w.push (.readLoop h true cb)) rfl rfl rfl rfl rfl
  | closeStream h => exact .quiet hquiet (uvClose_touches w (some h)) rfl trivial
  | bufFree buf =>
    have hfree : Touches [.bufs] w (w.bufFree buf) := .of [.bufs (w.bufs.free buf)] rfl rfl
    exact .quiet hquiet hfree rfl trivial
  | event p leaf i reply => exact eventLoop_leaves hquiet p leaf i reply
  | timer leaf i rep timeout => exact timerLoop_leaves hquiet leaf i rep timeout

end World

/-- A callback of libuv, up to its first call into Lua. -/
theorem event_leaves {w w' : World} {e : Event} (hs : Steps w e w') (hidle : w.stack = [])
    (hevent : ∀ c, e ≠ .api c) : Leaves w w' (Balanced w e w') := by
  have hquiet : calledAt w.stack = none := hidle ▸ rfl
  cases hs with
  | api c _ => exact absurd rfl (hevent c)
  | ret ok hstack => rw [hidle] at hstack; cases hstack
  | resume hstack _ => rw [hidle] at hstack; cases hstack
  | read h data cb _ _ => exact onRead_leaves hquiet h data cb
  | readError h nread _ _ _ => exact onReadError_leaves hquiet h nread
  | @written i req status readStart _ _ _ _ _ =>
    have hfinish : Touches [.finish] w (w.finish i) := .of [.finish i] rfl rfl
    exact (onWrite_leaves (w := w.finish i) hquiet req status readStart).after hfinish rfl
  | @connected i req status _ _ _ _ _ =>
    have hconnected : Touches [.finish, .stream .connect, .obs .connected] w
        ((w.finish i).uvConnected req.handle status) := by
      unfold uvConnected
      split
      · exact .of [.finish i] rfl rfl
      · exact .of [.finish i, .stream .connect req.handle, .log (.connected req.handle)] rfl rfl
    have hcalled := (Prod.mk.inj (hconnected.height rfl)).1.trans hquiet
    refine ((onConnect_leaves hcalled req status).after hconnected rfl).congr ?_
    unfold uvConnected
    split <;> exact Iff.rfl
  | closed _ _ _ _ _ => exact onDisconnect_leaves hquiet _
  | @tick b t timeout _ ht _ =>
    have hfired : Touches [.fired] w (w.fired b t) := .of [.fired b t] rfl rfl
    refine ((onTimer_leaves (w := w.fired b t) hquiet t.rep timeout).after hfired rfl).congr ?_
    refine ⟨fun h hdisc t' leaf ht' hleaf => ?_, fun h hdisc leaf hleaf => h hdisc t leaf ht hleaf⟩
    cases ht.symm.trans ht'
    exact h hdisc leaf hleaf

/-- What a step of a callback does with the height. -/
theorem step_height {w w' : World} {e : Event} (hstep : w.step e = some w')
    (hshaped : Shaped w.stack) (hevent : w.stack = [] → ∀ c, e ≠ .api c) (hfault : w'.fault = none) :
    Shaped w'.stack ∧ (Balanced w e w' ∧ w'.height = w.height ∨
      ¬Balanced w e w' ∧ w.height < w'.height) := by
  have hleaves : Leaves w w' (Balanced w e w') → Shaped w'.stack ∧
      (Balanced w e w' ∧ w'.height = w.height ∨ ¬Balanced w e w' ∧ w.height < w'.height) := fun h => by
    cases h with
    | crashed h => exact absurd hfault h
    | same hb hshaped heq => exact ⟨hshaped, .inl ⟨hb, heq⟩⟩
    | more hb hshaped hlt => exact ⟨hshaped, .inr ⟨hb, hlt⟩⟩
  obtain ⟨-, hs⟩ := step_cases hstep
  cases hstack : w.stack with
  | nil => exact hleaves (event_leaves hs hstack (hevent hstack))
  | cons f rest =>
    rw [hstack] at hshaped
    cases hs with
    | api c hruns =>
      rw [luaRuns, hstack] at hruns
      cases f with
      | lua site top =>
        have hcalled : calledAt w.stack = some ((calledAt rest).getD top) := by rw [hstack, calledAt]
        obtain ⟨hcalled', hshaped'⟩ := api_height hcalled (hstack ▸ hshaped) c
        exact ⟨hshaped', .inl ⟨trivial, by rw [height, height, hcalled, hcalled']; rfl⟩⟩
      | _ => cases hruns
    | @ret site top rest' ok hstack' =>
      cases hstack.symm.trans hstack'
      -- a return gives the stack back at the height of the call, and its error value on top
      have htail : (w.stack).tail = rest := by rw [hstack, List.tail_cons]
      refine ⟨hshaped.1, ?_⟩
      cases hcalled : calledAt rest with
      | some t =>
        have hnested : (calledAt w.stack.tail).isSome = true := by rw [htail, hcalled]; rfl
        exact .inl ⟨.inr hnested, by simp [height, hstack, calledAt, hcalled]⟩
      | none =>
        have hheight : w.height = top := by simp [height, hstack, calledAt, hcalled]
        cases ok with
        | true => exact .inl ⟨.inl rfl, by rw [hheight]; simp [height, hcalled]⟩
        | false =>
          have hleft : site.leftover = 1 := by
            have hsite := hshaped.2 hcalled
            cases site <;> first | rfl | exact absurd rfl hsite
          refine .inr ⟨?_, by rw [hheight]; simp [height, hcalled, hleft]⟩
          simp [Balanced, htail, hcalled]
    | @resume f' rest' hstack' hf =>
      cases hstack.symm.trans hstack'
      have hquiet : calledAt rest = none := by cases f <;> first | exact hshaped | exact absurd rfl hf
      have hheight : ({ w with stack := rest } : World).height = w.height := by
        simp [height, hstack, calledAt_eq hf]
      -- pushing the frame again gives the world before the step
      have hpush : ({ w with stack := rest } : World).push f = w := by
        rw [push]
        simp only [← hstack]
      have hresume := resume_leaves (w := { w with stack := rest }) hquiet hf
      rw [hpush] at hresume
      exact hleaves (hresume.from_height hheight)
    | read _ _ _ hidle _ => rw [hstack] at hidle; cases hidle
    | readError _ _ hidle _ _ => rw [hstack] at hidle; cases hidle
    | written _ _ hidle _ _ _ _ => rw [hstack] at hidle; cases hidle
    | connected _ hidle _ _ _ _ => rw [hstack] at hidle; cases hidle
    | closed hidle _ _ _ _ => rw [hstack] at hidle; cases hidle
    | tick _ hidle _ _ => rw [hstack] at hidle; cases hidle

/-- The run rule: as long as a callback goes on, the height only grows, and only at steps that are
    not balanced. -/
theorem run_height {w w' : World} {es : List Event}
    (hrun : RunsUnder World.step (fun v e _ => v.stack = [] → ∀ c, e ≠ .api c) w es w')
    (hshaped : Shaped w.stack) (hfault : w'.fault = none) :
    w.height ≤ w'.height ∧ (w'.height = w.height ↔ RunsUnder World.step Balanced w es w') := by
  induction hrun with
  | nil => exact ⟨le_refl _, fun _ => .nil, fun _ => rfl⟩
  | @cons v v' w' e es hstep hevent hrest ih =>
    have hsound : v'.fault = none := by
      cases hrest with
      | nil => exact hfault
      | cons hstep' _ _ => exact (step_cases hstep').1
    obtain ⟨hshaped', hheight⟩ := step_height hstep hshaped hevent hsound
    obtain ⟨hle, hiff⟩ := ih hshaped' hfault
    obtain ⟨hbalanced, heq⟩ | ⟨hnot, hlt⟩ := hheight
    · rw [← heq]
      refine ⟨hle, hiff.trans ⟨fun h => .cons hstep hbalanced h, fun h => ?_⟩⟩
      cases h with
      | cons hstep' _ h =>
        cases Option.some.inj (hstep.symm.trans hstep')
        exact h
    · refine ⟨by omega, fun h => by omega, fun h => ?_⟩
      cases h with
      | cons hstep' hb _ =>
        cases Option.some.inj (hstep.symm.trans hstep')
        exact absurd hb hnot

/-- **The Lua stack is balanced** over a callback of libuv exactly if every step of it is. -/
theorem stackBalanced {w w' : World} {e : Event} {es : List Event} (hrun : CallbackRun w e es w') :
    w'.lua.top = w.lua.top ↔ RunsUnder World.step Balanced w (e :: es) w' := by
  obtain ⟨hidle, hevent, ⟨w₁, hstep, hrest⟩, hdone, hfault⟩ := hrun
  have hinside : RunsUnder World.step (fun v e _ => v.stack = [] → ∀ c, e ≠ .api c) w₁ es w' :=
    hrest.mono fun _ _ _ hne hempty => absurd hempty hne
  have hheight := (run_height (.cons hstep (fun _ => hevent) hinside) (hidle ▸ trivial) hfault).2
  have hbefore : w.height = w.lua.top := by simp [height, hidle, calledAt]
  have hafter : w'.height = w'.lua.top := by simp [height, hdone, calledAt]
  rwa [hbefore, hafter] at hheight

/-- A callback that is run step by step. -/
def runCallback (w : World) (e : Event) (es : List Event) : Option World :=
  (w.step e).bind fun v => runChecked World.step (fun v _ => !v.stack.isEmpty) v es

theorem callbackRun_of_run {w w' : World} {e : Event} {es : List Event} (hidle : w.stack = [])
    (hevent : ∀ c, e ≠ .api c) (hrun : runCallback w e es = some w') (hdone : w'.stack = [])
    (hfault : w'.fault = none) : CallbackRun w e es w' := by
  obtain ⟨w₁, hstep, hrest⟩ := Option.bind_eq_some_iff.mp hrun
  refine ⟨hidle, hevent, ⟨w₁, hstep, ?_⟩, hdone, hfault⟩
  exact runsUnder_of_checked (fun v _ _ h _ => by simpa using h) hrest

/-- A command whose reply is about to be read. -/
def awaiting : List Event :=
  [.api .connect, .connected 0 0, .connected 0 0,
   .api (.command [.string (ascii "ping"), .function 1] ⟨0, false⟩), .written 0 0 0]

/-- The reply is read, and its callback returns or raises an error. -/
theorem awaiting_run (ok : Bool) :
    ∃ w w', runs (World.new true) awaiting = some w ∧
      CallbackRun w (.read 0 (ascii "+PONG\r\n") .noref) [.resume, .ret ok, .resume] w' ∧
      w.lua.top = 0 ∧ w'.lua.top = if ok then 0 else 1 := by
  have hrun : ((runs (World.new true) awaiting).bind fun w =>
      (runCallback w (.read 0 (ascii "+PONG\r\n") .noref) [.resume, .ret ok, .resume]).map fun w' =>
        (w.stack.isEmpty, w'.stack.isEmpty, w'.fault.isNone, w.lua.top, w'.lua.top)) =
      some (true, true, true, 0, if ok then 0 else 1) := by
    cases ok <;> decide +kernel
  obtain ⟨w, hw, hcallback⟩ := Option.bind_eq_some_iff.mp hrun
  obtain ⟨w', hw', hstate⟩ := Option.map_eq_some_iff.mp hcallback
  simp only [Prod.mk.injEq, List.isEmpty_iff, Option.isNone_iff_eq_none] at hstate
  obtain ⟨hidle, hdone, hfault, htop, htop'⟩ := hstate
  exact ⟨w, w', hw, callbackRun_of_run hidle nofun hw' hdone hfault, htop, htop'⟩

theorem stackBalanced_returned :
    ∃ w w', runs (World.new true) awaiting = some w ∧
      CallbackRun w (.read 0 (ascii "+PONG\r\n") .noref) [.resume, .ret true, .resume] w' ∧
      RunsUnder World.step Balanced w
        [.read 0 (ascii "+PONG\r\n") .noref, .resume, .ret true, .resume] w' := by
  obtain ⟨w, w', hw, hrun, htop, htop'⟩ := awaiting_run true
  exact ⟨w, w', hw, hrun, (stackBalanced hrun).mp (htop'.trans htop.symm)⟩

/-- The error value of a reply callback stays on the stack. -/
theorem stackBalanced_fails :
    ∃ w w', runs (World.new true) awaiting = some w ∧
      CallbackRun w (.read 0 (ascii "+PONG\r\n") .noref) [.resume, .ret false, .resume] w' ∧
      w'.lua.top ≠ w.lua.top := by
  obtain ⟨w, w', hw, hrun, htop, htop'⟩ := awaiting_run false
  exact ⟨w, w', hw, hrun, by simp [htop, htop']⟩

end CrazySnail
