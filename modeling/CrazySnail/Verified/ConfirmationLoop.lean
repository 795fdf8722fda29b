import CrazySnail.Verified.Assertions
import CrazySnail.Verified.Queue

/-! # The confirmation loop

A confirmation is worked off on the list of its name.  Records without a slot that waits
for the name are passed over (`confirm_passes`); at the first one with such a slot, its
first such slot is marked and the loop ends (`confirm_marks`).
-/

namespace CrazySnail

open World

/-- The flag of a slot that belongs to a name. -/
def Channel.flag? (ch : Channel) : Option Bool := if ch.timerEvent then none else some ch.subscribed

/-- The flag of the slot in a place of a record. -/
def World.slotFlag (w : World) (slot : Nat × Nat) : Option Bool :=
  ((w.heap.cb slot.1).bind (·.channels[slot.2]?)).bind Channel.flag?

/-! ## One record -/

/-- What a visit does to a slot that it does not look for. -/
def startSlot (ch : Channel) : Channel := if ch.timerEvent then { ch with subscribed := true } else ch

@[simp] theorem startSlot_flag (ch : Channel) : (startSlot ch).flag? = ch.flag? := by
  unfold startSlot
  split
  next h => simp [Channel.flag?, h]
  · rfl

/-- No slot waits for the name. -/
def Exhausted (sname : Bytes) (chs : List Channel) : Prop :=
  ∀ ch ∈ chs, ch.flag? = some false → strcmp (ch.name.getD []) sname ≠ .eq

theorem Exhausted.start {sname : Bytes} {chs : List Channel} (h : Exhausted sname chs) :
    Exhausted sname (chs.map startSlot) := by
  intro ch hch hflag
  obtain ⟨ch, hold, rfl⟩ := List.mem_map.mp hch
  rw [startSlot_flag] at hflag
  have hname : (startSlot ch).name = ch.name := by
    unfold startSlot
    split <;> rfl
  rw [hname]
  exact h ch hold hflag

theorem markSlot_other {sname : Bytes} {ch : Channel} {isDone : Bool}
    (h : isDone = true ∨ (ch.flag? = some false → strcmp (ch.name.getD []) sname ≠ .eq)) :
    markSlot sname ch isDone = (startSlot ch, isDone) := by
  obtain ⟨chName, ikey, subscribed, timerEvent⟩ := ch
  cases timerEvent <;> cases subscribed <;> cases isDone <;>
    simp_all [markSlot, startSlot, Channel.flag?]

theorem markSlots_done (sname : Bytes) (chs : List Channel) :
    markSlots sname chs true = (chs.map startSlot, true) := by
  induction chs with
  | nil => rfl
  | cons ch chs ih => rw [markSlots, markSlot_other (.inl rfl), ih, List.map_cons]

/-- Slots that do not wait for the name are passed over. -/
theorem markSlots_append {sname : Bytes} {chs : List Channel} (h : Exhausted sname chs)
    (rest : List Channel) :
    markSlots sname (chs ++ rest) false =
      (chs.map startSlot ++ (markSlots sname rest false).1, (markSlots sname rest false).2) := by
  induction chs with
  | nil => rfl
  | cons ch chs ih =>
    rw [List.cons_append, markSlots, markSlot_other (.inr (h ch List.mem_cons_self)),
      ih fun ch' hch' => h ch' (List.mem_cons_of_mem _ hch')]
    rfl

theorem markSlots_exhausted {sname : Bytes} {chs : List Channel} (h : Exhausted sname chs) :
    markSlots sname chs false = (chs.map startSlot, false) := by
  have happend := markSlots_append h []
  simpa [markSlots] using happend

/-- The first slot that waits for the name is marked. -/
theorem markSlots_first {sname : Bytes} {ch : Channel} (hflag : ch.flag? = some false)
    (hname : strcmp (ch.name.getD []) sname = .eq) (rest : List Channel) :
    markSlots sname (ch :: rest) false =
      ({ ch with subscribed := true } :: rest.map startSlot, true) := by
  have hmark : markSlot sname ch false = ({ ch with subscribed := true }, true) := by
    obtain ⟨chName, ikey, subscribed, timerEvent⟩ := ch
    cases timerEvent <;> cases subscribed <;> simp_all [markSlot, Channel.flag?]
  rw [markSlots, hmark, markSlots_done]

/-- The flags of a record whose first waiting slot has been marked. -/
theorem marked_flags {ch : Channel} (hflag : ch.flag? = some false) (before after : List Channel)
    (k : Nat) :
    ((before.map startSlot ++ { ch with subscribed := true } :: after.map startSlot)[k]?).bind
        Channel.flag? =
      if k = before.length then some true
      else ((before ++ ch :: after)[k]?).bind Channel.flag? := by
  have htimer : ch.timerEvent = false := by
    unfold Channel.flag? at hflag
    split at hflag
    · cases hflag
    next h => simpa using h
  have hstart : ∀ o : Option Channel, (o.map startSlot).bind Channel.flag? = o.bind Channel.flag? := by
    rintro (_ | ch)
    · rfl
    · exact startSlot_flag ch
  by_cases hk : k = before.length
  · subst hk
    rw [if_pos rfl, List.getElem?_append_right (by simp)]
    simp [Channel.flag?, htimer]
  · rw [if_neg hk]
    by_cases hlt : k < before.length
    · rw [List.getElem?_append_left (by simpa using hlt), List.getElem?_append_left hlt,
        List.getElem?_map, hstart]
    · obtain ⟨j, rfl⟩ : ∃ j, k = before.length + (j + 1) := ⟨k - before.length - 1, by omega⟩
      rw [List.getElem?_append_right (by simp), List.getElem?_append_right (by simp)]
      simp [hstart]

/-! ## One list -/

namespace World
variable {w : World}

/-- A visit changes the flags of one record. -/
theorem marked_slotFlag {id : Nat} {c : Callback} (hc : w.heap.cb id = some c) (sname : Bytes)
    (slot : Nat × Nat) :
    (w.marked id sname c).slotFlag slot =
      if slot.1 = id then ((markSlots sname c.channels false).1[slot.2]?).bind Channel.flag?
      else w.slotFlag slot := by
  rw [marked_eq hc]
  unfold slotFlag
  by_cases hid : slot.1 = id
  · simp [Heap.update, Heap.set, hid, hc]
  · simp [Heap.update, Heap.set, hid]

theorem started_slotFlag {w₁ : World} (h : Touches startTimerParts w w₁) :
    w₁.slotFlag = w.slotFlag := by
  funext slot
  simp only [slotFlag, (startTimer_same h).2.2.1]

/-- No slot of the entries waits for the name. -/
def AllExhausted (w : World) (sname : Bytes) (list : CallbackEnds) : Prop :=
  ∀ q ∈ list, ∃ id c, q = .heap id ∧ w.heap.cb id = some c ∧ Exhausted sname c.channels

/-- Entries without a slot that waits are passed over; their timers start. -/
theorem confirm_passes {sname : Bytes} (reply : Reply) {before rest : CallbackEnds}
    (hfault : w.fault = none) (hserved : w.Served (before ++ rest))
    (hbefore : w.AllExhausted sname before) :
    ∃ w₁, confirm sname reply (before ++ rest) w = confirm sname reply rest w₁ ∧
      Touches (.slots :: startTimerParts) w w₁ ∧ w₁.fault = none ∧ w₁.slotFlag = w.slotFlag ∧
      ∀ i, .heap i ∉ before → w₁.heap.cb i = w.heap.cb i := by
  -- along the entries before the one that waits
  induction before generalizing w with
  | nil => exact ⟨w, rfl, .refl, hfault, rfl, fun _ _ => rfl⟩
  | cons q before ih =>
    obtain ⟨id, c, rfl, hc, hexhausted⟩ := hbefore q List.mem_cons_self
    obtain ⟨_, c', heq, hc', hknown⟩ := hserved (.heap id) List.mem_cons_self
    cases heq
    obtain rfl := Option.some.inj (hc.symm.trans hc')
    have hconfirmed := confirmEntry_confirmed sname reply (.heap id) w
    rw [List.cons_append, confirm]
    generalize confirmEntry sname reply (.heap id) w = r at hconfirmed ⊢
    cases hconfirmed with
    | dead hnone => rw [Heap.deref, hc] at hnone; cases hnone
    | skipped _ _ =>
      dsimp only
      rw [if_neg (by simp [hfault])]
      obtain ⟨w₁, hconfirm, ht, hfault₁, hflag, hother⟩ := ih hfault
        (fun q hq => hserved q (List.mem_cons_of_mem _ hq))
        fun q hq => hbefore q (List.mem_cons_of_mem _ hq)
      exact ⟨w₁, hconfirm, ht, hfault₁, hflag, fun i hi => hother i fun hmem =>
        hi (List.mem_cons_of_mem _ hmem)⟩
    | @visited _ c' w₁ w' hc' hinit hstart ht hresult =>
      obtain rfl := Option.some.inj (hc.symm.trans hc')
      -- no slot of the name is left in this record: only its timers are started
      rw [markSlots_exhausted hexhausted] at hresult ⊢
      have hfault₁ : w₁.fault = none := by
        rw [← hstart, confirmChannels_fault sname false (hknown c hc), hfault]
      have hc₁ : w₁.heap.cb id = some c := by rw [(startTimer_same ht).2.2.1, hc]
      obtain rfl : w' = w₁.marked id sname c := by
        obtain ⟨hsome, -⟩ | ⟨rfl, -⟩ | ⟨-, -, -, hfalse⟩ | ⟨-, -, hfalse⟩ := hresult
        · rw [hfault₁] at hsome; cases hsome
        · rfl
        · cases hfalse
        · cases hfalse
      have htouches : Touches (.slots :: startTimerParts) w (w₁.marked id sname c) :=
        (ht.mono (List.subset_cons_self _ _)).step (.slots id _ _) List.mem_cons_self
      have hflag₁ : (w₁.marked id sname c).slotFlag = w.slotFlag := by
        funext slot
        rw [marked_slotFlag hc₁, markSlots_exhausted hexhausted, started_slotFlag ht]
        split
        next hid =>
          simp only [List.getElem?_map, slotFlag, hid, hc, Option.bind_some]
          cases c.channels[slot.2]? <;> simp
        · rfl
      have hrecord : ∀ i, i ≠ id → (w₁.marked id sname c).heap.cb i = w.heap.cb i := by
        intro i hi
        rw [marked_eq hc₁, ← (startTimer_same ht).2.2.1]
        exact Function.update_of_ne hi _ _
      dsimp only
      rw [if_neg (by rw [show (w₁.marked id sname c).fault = none from hfault₁]; simp)]
      have hserved₁ : w.Served (before ++ rest) := fun q hq => hserved q (List.mem_cons_of_mem _ hq)
      have hserved₂ : (w₁.marked id sname c).Served (before ++ rest) :=
        Served.keep hserved₁ htouches rfl
      -- starting timers brings no slot of the name back
      have hbefore₁ : (w₁.marked id sname c).AllExhausted sname before := by
        intro q hq
        obtain ⟨i, c', rfl, hi, hexhausted'⟩ := hbefore q (List.mem_cons_of_mem _ hq)
        by_cases heq : i = id
        · subst heq
          refine ⟨i, { c with
            channels := c.channels.map startSlot
            initialized := c.initialized || (c.channels.map startSlot).all Channel.subscribed },
            rfl, ?_, hexhausted.start⟩
          rw [marked_eq hc₁, markSlots_exhausted hexhausted]
          simp [Heap.update, Heap.set, hc₁]
        · exact ⟨i, c', rfl, (hrecord i heq).trans hi, hexhausted'⟩
      obtain ⟨w₂, hconfirm, ht₂, hfault₂, hflag₂, hother⟩ :=
        ih (w := w₁.marked id sname c) hfault₁ hserved₂ hbefore₁
      refine ⟨w₂, hconfirm, htouches.trans ht₂, hfault₂, hflag₂.trans hflag₁, fun i hi => ?_⟩
      rw [List.mem_cons, not_or] at hi
      exact (hother i hi.2).trans (hrecord i fun heq => hi.1 (by rw [heq]))

/-- The slot that waits is marked, its callback is called, and the loop ends. -/
theorem confirm_marks {sname : Bytes} (reply : Reply) {id : Nat} {c : Callback}
    {before after : List Channel} {ch : Channel} (hfault : w.fault = none)
    (hknown : w.Known id) (hc : w.heap.cb id = some c) (hinit : c.initialized = false)
    (hchannels : c.channels = before ++ ch :: after) (hbefore : Exhausted sname before)
    (hflag : ch.flag? = some false) (hname : strcmp (ch.name.getD []) sname = .eq)
    (rest : CallbackEnds) :
    (confirm sname reply (.heap id :: rest) w).slotFlag =
        Function.update w.slotFlag (id, before.length) (some true) ∧
      (readable reply = true → calls (confirm sname reply (.heap id :: rest) w).trace = calls w.trace ++
        if w.cc.ignoreSubCmdReply then [] else
          (w.fnOf (.heap id)).toList.map fun f => (.confirmation, f, [.nil, pushSubReply reply])) := by
  -- the first slot of the name comes after those of `before`
  have hmark : markSlots sname c.channels false =
      (before.map startSlot ++ { ch with subscribed := true } :: after.map startSlot, true) := by
    rw [hchannels, markSlots_append hbefore, markSlots_first hflag hname]
  have hfn : w.fnOf (.heap id) = w.lua.rawgeti c.ref := by simp [fnOf, Heap.deref, hc]
  have hconfirmed := confirmEntry_confirmed sname reply (.heap id) w
  rw [confirm]
  generalize confirmEntry sname reply (.heap id) w = r at hconfirmed ⊢
  cases hconfirmed with
  | dead hnone => rw [Heap.deref, hc] at hnone; cases hnone
  | skipped hc' hinit' =>
    obtain rfl := Option.some.inj (hc.symm.trans hc')
    rw [hinit] at hinit'
    cases hinit'
  | @visited _ c' w₁ w' hc' _ hstart ht hresult =>
    obtain rfl := Option.some.inj (hc.symm.trans hc')
    rw [hmark] at hresult ⊢
    dsimp only
    have hfault₁ : w₁.fault = none := by
      rw [← hstart, confirmChannels_fault sname false (hknown c hc), hfault]
    have hc₁ : w₁.heap.cb id = some c := by rw [(startTimer_same ht).2.2.1, hc]
    have hflag₁ : (w₁.marked id sname c).slotFlag =
        Function.update w.slotFlag (id, before.length) (some true) := by
      funext slot
      rw [marked_slotFlag hc₁, hmark, started_slotFlag ht]
      obtain ⟨i, k⟩ := slot
      by_cases hi : i = id
      · subst hi
        have hold : w.slotFlag (i, k) = ((before ++ ch :: after)[k]?).bind Channel.flag? := by
          simp [slotFlag, hc, hchannels]
        rw [if_pos rfl, marked_flags hflag, ← hold]
        by_cases hk : k = before.length
        · subst hk
          rw [if_pos rfl, Function.update_self]
        · rw [if_neg hk, Function.update_of_ne (by simp [hk])]
      · rw [if_neg hi, Function.update_of_ne (by simp [hi])]
    have hcalls₁ : calls (w₁.marked id sname c).trace = calls w.trace :=
      congrArg calls (startTimer_same ht).2.2.2.2.2.1
    -- a fault, no call, a call, or a reply that cannot be read
    obtain ⟨hsome, -⟩ | ⟨rfl, hignore⟩ | ⟨rfl, -, hignore, -⟩ | ⟨rfl, hfalse, -⟩ := hresult
    · rw [hfault₁] at hsome
      cases hsome
    · refine ⟨hflag₁, fun _ => ?_⟩
      rw [if_pos (by simpa using hignore), List.append_nil, hcalls₁]
    · refine ⟨?_, fun _ => ?_⟩
      · refine Eq.trans ?_ hflag₁
        cases hf : w.lua.rawgeti c.ref <;> rfl
      · rw [pcall_calls, hcalls₁, hignore, hfn]
        rfl
    · refine ⟨hflag₁, fun hread => ?_⟩
      rw [hread] at hfalse
      cases hfalse

end World

end CrazySnail
