import CrazySnail.Verified.ReplyLoop
import CrazySnail.Verified.NameTree

/-! # Dispatch on the subscription stream

`Dispatched` says what `get_and_call_sub_cb` makes of a reply: nothing, a confirmation
that is worked off on the list of its name, or an event.  `Confirmed` says what one visit
of the confirmation loop does.  The slots of a callback depend on their old values alone
(`markSlots`).
-/

namespace CrazySnail

open SearchTree (Tree Path)
open World

/-! ## Slots -/

/-- One round of the loop over the slots, without what it does to the world. -/
def markSlot (sname : Bytes) (ch : Channel) (isDone : Bool) : Channel × Bool :=
  if ch.subscribed then (ch, isDone)
  else if !isDone && !ch.timerEvent && decide (strcmp (ch.name.getD []) sname = .eq) then
    ({ ch with subscribed := true }, true)
  else if ch.timerEvent then ({ ch with subscribed := true }, isDone)
  else (ch, isDone)

/-- The slots after a visit, and `done`. -/
def markSlots (sname : Bytes) : List Channel → Bool → List Channel × Bool
  | [], isDone => ([], isDone)
  | ch :: chs, isDone =>
    ((markSlot sname ch isDone).1 :: (markSlots sname chs (markSlot sname ch isDone).2).1,
      (markSlots sname chs (markSlot sname ch isDone).2).2)

theorem confirmChannel_mark (sname : Bytes) (ch : Channel) (isDone : Bool) (w : World) :
    (confirmChannel sname ch isDone w).1 = (markSlot sname ch isDone).1 ∧
      (confirmChannel sname ch isDone w).2.1 = (markSlot sname ch isDone).2 := by
  unfold confirmChannel markSlot
  split
  · exact ⟨rfl, rfl⟩
  · split
    · exact ⟨rfl, rfl⟩
    · split <;> exact ⟨rfl, rfl⟩

theorem confirmChannels_mark (sname : Bytes) (chs : List Channel) (isDone : Bool) (w : World) :
    (confirmChannels sname chs isDone w).1 = (markSlots sname chs isDone).1 ∧
      (confirmChannels sname chs isDone w).2.1 = (markSlots sname chs isDone).2 := by
  induction chs generalizing isDone w with
  | nil => exact ⟨rfl, rfl⟩
  | cons ch chs ih =>
    have hmark := confirmChannel_mark sname ch isDone w
    rw [confirmChannels, markSlots]
    generalize confirmChannel sname ch isDone w = r at hmark ⊢
    obtain ⟨ch', isDone', w'⟩ := r
    obtain ⟨rfl, rfl⟩ := hmark
    obtain ⟨hchs, hdone⟩ := ih (markSlot sname ch isDone).2 w'
    exact ⟨congrArg (_ :: ·) hchs, hdone⟩

/-- Only flags are marked. -/
theorem markSlots_flags (sname : Bytes) (chs : List Channel) (isDone : Bool) :
    setFlags chs (markSlots sname chs isDone).1 = (markSlots sname chs isDone).1 := by
  induction chs generalizing isDone with
  | nil => rfl
  | cons ch chs ih =>
    have hch : { ch with subscribed := (markSlot sname ch isDone).1.subscribed } =
        (markSlot sname ch isDone).1 := by
      unfold markSlot
      split
      · rfl
      · split
        · rfl
        · split <;> rfl
    exact congrArg₂ List.cons hch (ih _)

/-- A visit leaves no timer that is not started. -/
theorem markSlots_timer {sname : Bytes} {chs : List Channel} {isDone : Bool} {ch : Channel}
    (h : ch ∈ (markSlots sname chs isDone).1) (htimer : ch.timerEvent = true) :
    ch.subscribed = true := by
  induction chs generalizing isDone with
  | nil => cases h
  | cons old chs ih =>
    rcases List.mem_cons.mp h with rfl | h
    · unfold markSlot at htimer ⊢
      grind
    · exact ih h

/-! ## Visits -/

namespace World

/-- The record of a callback after its slots have been looked through. -/
def marked (w : World) (id : Nat) (sname : Bytes) (c : Callback) : World :=
  Update.apply w (.slots id (markSlots sname c.channels false).1
    ((markSlots sname c.channels false).1.all Channel.subscribed))

theorem marked_eq {w : World} {id : Nat} {c : Callback} (hc : w.heap.cb id = some c)
    (sname : Bytes) :
    w.marked id sname c = { w with heap := w.heap.update id fun c' =>
      { c' with
        channels := (markSlots sname c.channels false).1
        initialized := c'.initialized ||
          (markSlots sname c.channels false).1.all Channel.subscribed } } :=
  slots_eq hc (markSlots_flags sname c.channels false) _

end World

/-- What a visit of the confirmation loop at an entry does: whether it found the slot, and
    the world afterwards. -/
inductive Confirmed (sname : Bytes) (reply : Reply) (w : World) : CbPtr → Bool × World → Prop
  | dead {p : CbPtr} : w.heap.deref p = none →
      Confirmed sname reply w p (true, w.crash .deadCallback)
  | skipped {id : Nat} {c : Callback} : w.heap.cb id = some c → c.initialized = true →
      Confirmed sname reply w (.heap id) (false, w)
  | visited {id : Nat} {c : Callback} {w₁ w' : World} : w.heap.cb id = some c →
      c.initialized = false → (confirmChannels sname c.channels false w).2.2 = w₁ →
      Touches startTimerParts w w₁ →
      (w₁.fault.isSome = true ∧ w' = w₁.marked id sname c ∨
        w' = w₁.marked id sname c ∧
          (w.cc.ignoreSubCmdReply || !(markSlots sname c.channels false).2) = true ∨
        w' = (w₁.marked id sname c).pcall .confirmation (w.lua.rawgeti c.ref)
            [.nil, pushSubReply reply] ∧ readable reply = true ∧
          w.cc.ignoreSubCmdReply = false ∧ (markSlots sname c.channels false).2 = true ∨
        w' = (w₁.marked id sname c).crash .nullElement ∧ readable reply = false ∧
          (markSlots sname c.channels false).2 = true) →
      Confirmed sname reply w (.heap id) ((markSlots sname c.channels false).2, w')

theorem confirmEntry_confirmed (sname : Bytes) (reply : Reply) (p : CbPtr) (w : World) :
    Confirmed sname reply w p (confirmEntry sname reply p w) := by
  cases p with
  | stack => exact .dead rfl
  | heap id =>
    cases hc : w.heap.cb id with
    | none =>
      simp only [confirmEntry, Heap.deref, hc]
      exact .dead hc
    | some c =>
      simp only [confirmEntry, Heap.deref, hc]
      split
      next hinit => exact .skipped hc hinit
      next hinit =>
        obtain ⟨hchs, hdone⟩ := confirmChannels_mark sname c.channels false w
        have htouches := w.confirmChannels_touches sname c.channels false
        generalize hr : confirmChannels sname c.channels false w = r at hchs hdone htouches ⊢
        obtain ⟨chs, isDone, w₁⟩ := r
        dsimp only at hchs hdone htouches ⊢
        subst hchs hdone
        have hstart := congrArg (fun r => r.2.2) hr
        obtain ⟨hignore, hslots, hheap, -⟩ := startTimer_same htouches
        have hmarked := marked_eq (w := w₁) (hheap ▸ hc) sname
        have hfn : w₁.lua.rawgeti c.ref = w.lua.rawgeti c.ref := by
          cases c.ref <;> simp [Lua.rawgeti, hslots]
        rw [hignore, hfn, ← hmarked]
        have hvisit := fun w' => @Confirmed.visited sname reply w id c w₁ w' hc
          (by simpa using hinit) hstart htouches
        split
        next hfault => exact hvisit _ (.inl ⟨hfault, rfl⟩)
        · split
          next hcall =>
            rw [Bool.and_eq_true, Bool.not_eq_true'] at hcall
            split
            next hread => exact hvisit _ (.inr (.inr (.inl ⟨rfl, hread, hcall⟩)))
            next hread => exact hvisit _ (.inr (.inr (.inr
              ⟨rfl, by simpa using hread, hcall.2⟩)))
          next hcall =>
            refine hvisit _ (.inr (.inl ⟨rfl, ?_⟩))
            simpa [Bool.or_comm, imp_iff_not_or] using hcall

/-- **Invariant rule** for the confirmation loop: what a whole visit of a record, the call of
    its function and a fault keep is kept. -/
theorem confirm_visits {I : World → Prop} {sname : Bytes} {reply : Reply} {list : CallbackEnds}
    (hcall : ∀ w fn args, I w → I (w.pcall .confirmation fn args)) (hcrash : ∀ w f, I w → I (w.crash f))
    (hvisit : ∀ w id c, .heap id ∈ list → I w → w.heap.cb id = some c → c.initialized = false →
      I ((confirmChannels sname c.channels false w).2.2.marked id sname c))
    {w : World} (hw : I w) : I (confirm sname reply list w) := by
  induction list generalizing w with
  | nil => exact hw
  | cons p ps ih =>
    have hentry := confirmEntry_confirmed sname reply p w
    unfold confirm
    generalize confirmEntry sname reply p w = r at hentry ⊢
    have hr : I r.2 := by
      cases hentry with
      | dead _ => exact hcrash w _ hw
      | skipped _ _ => exact hw
      | @visited id c w₁ w' hc hinit hchannels _ hresult =>
        have hmarked : I (w₁.marked id sname c) :=
          hchannels ▸ hvisit w id c List.mem_cons_self hw hc hinit
        obtain ⟨-, rfl⟩ | ⟨rfl, -⟩ | ⟨rfl, -⟩ | ⟨rfl, -⟩ := hresult
        · exact hmarked
        · exact hmarked
        · exact hcall _ _ _ hmarked
        · exact hcrash _ _ hmarked
    obtain ⟨found, w'⟩ := r
    cases found with
    | true => exact hr
    | false =>
      dsimp only
      split
      · exact hr
      · exact ih (fun w id c hid => hvisit w id c (List.mem_cons_of_mem p hid)) hr

/-- **Invariant rule** for the confirmation loop: what the marking of a record and updates
    of other parts keep is kept. -/
theorem confirm_keeps {I : World → Prop} {sname : Bytes} {reply : Reply}
    (hother : ∀ w (u : Update), u.part ∈ confirmParts → u.part ≠ .slots → I w → I (u.apply w))
    (hmark : ∀ w id c, I w → w.heap.cb id = some c → c.initialized = false →
      I (w.marked id sname c))
    {list : CallbackEnds} {w : World} (hw : I w) : I (confirm sname reply list w) := by
  have htouch : ∀ {ks : List Part} {w w' : World}, Touches ks w w' →
      ks.all (fun k => decide (k ∈ confirmParts ∧ k ≠ .slots)) = true → I w → I w' := by
    intro ks w w' ht hks hw
    refine ht.preserves (fun w u hu => ?_) hw
    have hk := of_decide_eq_true (List.all_eq_true.mp hks _ hu)
    exact hother w u hk.1 hk.2
  refine confirm_visits (fun w fn args => htouch (pcall_touches w .confirmation fn args) rfl)
    (fun w f => hother w (.crash f) (by simp) (by simp)) (fun w id c _ hw hc hinit => ?_) hw
  have hstarted := w.confirmChannels_touches sname c.channels false
  exact hmark _ id c (htouch hstarted rfl hw) (by rw [(startTimer_same hstarted).2.2.1, hc]) hinit

/-! ## Arrays -/

/-- What an array on the subscription stream is taken for. -/
inductive SubKind where
  | unsubscribe
  | confirmation
  | event
deriving DecidableEq, Repr

/-- The kind an array's first string announces. -/
def subKind (stype : Bytes) : SubKind :=
  let base := if isPvariant stype then stype.drop 1 else stype
  if strcmp base (ascii "unsubscribe") = .eq then .unsubscribe
  else if strcmp base (ascii "subscribe") = .eq then .confirmation
  else .event

/-- The shape that the assertions on a reply ask for. -/
def WellShaped (reply : Reply) : Prop :=
  ∃ stype element rest, reply = .array (.string stype :: element :: rest) ∧
    (subKind stype = .unsubscribe ∨ ∃ name, element = .string name)

/-- What `get_and_call_sub_cb` does with a reply. -/
inductive Dispatched (w : World) (reply : Reply) : World → Prop
  | ignored : (∀ stype sname rest, reply = .array (.string stype :: .string sname :: rest) →
      subKind stype = .unsubscribe) → Dispatched w reply w
  /-- an assertion on the shape of the reply fails -/
  | malformed {f : Fault} : f = .replyAssert ∨ f = .nullElement → ¬WellShaped reply →
      Dispatched w reply (w.crash f)
  | unknown {stype sname : Bytes} {rest : List Reply} :
      reply = .array (.string stype :: .string sname :: rest) → subKind stype ≠ .unsubscribe →
      (w.names (isPvariant stype)).lookup nameCmp sname = none →
      Dispatched w reply (w.crash .searchAssert)
  | unused {stype sname : Bytes} {rest : List Reply} {leaf : Path} {key : Bytes} {val : NodeVal} :
      reply = .array (.string stype :: .string sname :: rest) → subKind stype ≠ .unsubscribe →
      (w.names (isPvariant stype)).lookup nameCmp sname = some leaf →
      (w.names (isPvariant stype)).get? leaf = some (key, val) → val.cbList = [] →
      Dispatched w reply (w.crash .emptyListAssert)
  | confirmation {stype sname : Bytes} {rest : List Reply} {leaf : Path} {key : Bytes}
      {val : NodeVal} :
      reply = .array (.string stype :: .string sname :: rest) → subKind stype = .confirmation →
      (w.names (isPvariant stype)).lookup nameCmp sname = some leaf →
      (w.names (isPvariant stype)).get? leaf = some (key, val) → val.cbList ≠ [] →
      Dispatched w reply (confirm sname reply val.cbList w)
  | event {stype sname : Bytes} {rest : List Reply} {leaf : Path} {key : Bytes} {val : NodeVal} :
      reply = .array (.string stype :: .string sname :: rest) → subKind stype = .event →
      (w.names (isPvariant stype)).lookup nameCmp sname = some leaf →
      (w.names (isPvariant stype)).get? leaf = some (key, val) → val.cbList ≠ [] →
      Dispatched w reply (w.eventLoop (isPvariant stype) leaf 0 reply)

theorem getAndCallSubCb_dispatched (w : World) (reply : Reply) :
    Dispatched w reply (w.getAndCallSubCb reply) := by
  unfold getAndCallSubCb
  split
  next stype element₁ rest =>
    dsimp only
    have hkind : subKind stype =
        if strcmp (if isPvariant stype then stype.drop 1 else stype) (ascii "unsubscribe") = .eq
        then .unsubscribe
        else if strcmp (if isPvariant stype then stype.drop 1 else stype) (ascii "subscribe") = .eq
        then .confirmation else .event := rfl
    generalize (if isPvariant stype then stype.drop 1 else stype) = base at hkind ⊢
    -- the source tests for unsubscribe before it reads the name
    by_cases hunsub : strcmp base (ascii "unsubscribe") = .eq
    · rw [if_pos hunsub] at hkind ⊢
      refine .ignored fun _ _ _ heq => ?_
      cases heq
      exact hkind
    · rw [if_neg hunsub] at hkind ⊢
      have hnot : subKind stype ≠ .unsubscribe := by
        rw [hkind]
        split <;> simp
      cases element₁ with
      | string sname =>
        dsimp only
        rw [search_eq]
        cases hleaf : (w.names (isPvariant stype)).lookup nameCmp sname with
        | none => exact .unknown rfl hnot hleaf
        | some leaf =>
          obtain ⟨key, val, hget, -⟩ := Tree.exists_get?_of_lookup hleaf
          simp only [hget]
          by_cases hempty : val.cbList = []
          · rw [if_pos hempty]
            exact .unused rfl hnot hleaf hget hempty
          · rw [if_neg hempty]
            by_cases hsub : strcmp base (ascii "subscribe") = .eq
            · rw [if_pos hsub] at hkind ⊢
              exact .confirmation rfl hkind hleaf hget hempty
            · rw [if_neg hsub] at hkind ⊢
              exact .event rfl hkind hleaf hget hempty
      | _ =>
        refine .malformed (.inl rfl) ?_
        rintro ⟨_, _, _, heq, hshape⟩
        cases heq
        rcases hshape with hunsub | ⟨name, hname⟩
        · exact hnot hunsub
        · cases hname
  next elements hother =>
    refine .malformed (.inl rfl) ?_
    rintro ⟨stype, element, rest, heq, -⟩
    cases heq
    exact hother stype element rest rfl
  · refine .malformed (by split <;> simp) ?_
    rintro ⟨_, _, _, heq, -⟩
    cases heq
  next hother _ =>
    refine .ignored fun stype sname rest heq => ?_
    exact absurd heq (hother _)

end CrazySnail
