import CrazySnail.Verified.ConfirmationLoop
import CrazySnail.Verified.GivenFunctions
import CrazySnail.Verified.Initialized
import CrazySnail.Verified.SlotOrder

/-! # The order of confirmations

The n-th confirmation of a name marks the n-th slot of that name in the order of the
commands, and no other slot of a name.  It calls the function that was given to the subscription
of this slot, unless a slot of the registry was given back twice before (`confirmationOrder`).
-/

namespace CrazySnail

open World

/-! ## Confirmations -/

/-- A confirmation of a name of a variant. -/
def isConfirmation (p : Bool) (name : Bytes) : Reply → Bool
  | .array (.string stype :: .string sname :: _) =>
    decide (subKind stype = .confirmation) && decide (isPvariant stype = p) &&
      decide (strdup sname = strdup name)
  | _ => false

def confirmationsAfter (p : Bool) (name : Bytes) (n : Nat) : Obs → Nat
  | .reply true r => if isConfirmation p name r then n + 1 else n
  | .teardown => 0
  | _ => n

/-- How often a name was confirmed on the connection. -/
def confirmations (p : Bool) (name : Bytes) (trace : List Obs) : Nat :=
  trace.foldl (confirmationsAfter p name) 0

/-- The server confirms no name more often than it was subscribed to. -/
def Confirmable (w : World) : Prop :=
  ∀ p name, confirmations p name w.trace ≤ (slotsNamed (subscriptions p w.trace) name).length

/-- The steps of a client with such a server, without `exit`; the memory of new records
    looks uninitialized. -/
def ConfirmsSubscribed (w : World) (e : Event) (w' : World) : Prop :=
  CleanFlags w e w' ∧ e ≠ .api .exit ∧ Confirmable w'

/-- Such a step, on which no reply finds an old reference. -/
def ConfirmsOrderly (w : World) (e : Event) (w' : World) : Prop :=
  ConfirmsSubscribed w e w' ∧ Expected w e w'

/-- What the confirmation of the name of a slot does: the slot is marked, and the function given to
    its subscription is called. -/
structure ConfirmsSlot (s : Subscription) (k : Nat) (reply : Reply) (w w' : World) : Prop where
  waiting : w.slotFlag (s.cb, k) = some false
  flags : w'.slotFlag = Function.update w.slotFlag (s.cb, k) (some true)
  calls : calls w'.trace = calls w.trace ++
    if w.cc.ignoreSubCmdReply then [] else
      s.fn.toList.map fun f => (.confirmation, f, [.nil, pushSubReply reply])

/-! ## The invariant -/

theorem Update.apply_confirmations (p : Bool) (name : Bytes) (w : World) (u : Update)
    (hu : u.part ∉ [.obs .reply, .obs .teardown]) :
    confirmations p name (u.apply w).trace = confirmations p name w.trace := by
  cases u with
  | log o =>
    simp only [apply, World.log, confirmations, List.foldl_append, List.foldl_cons, List.foldl_nil]
    cases o <;> simp at hu <;> rfl
  | names p t => cases p <;> rfl
  | _ => rfl

namespace World
variable {w : World}

/-- The confirmed slots of a name are the first `n` ones. -/
def InOrder (w : World) (p : Bool) (name : Bytes) (n : Nat) : Prop :=
  ∀ i slot, (slotsNamed (subscriptions p w.trace) name)[i]? = some slot →
    w.Holds slot.1 fun chs => (chs[slot.2]?).bind Channel.flag? = some (decide (i < n))

def Ordered (w : World) : Prop := ∀ p name, w.InOrder p name (confirmations p name w.trace)

/-- What is no part of a subscription, a confirmation or a teardown. -/
@[simp] def orderedParts : List Part :=
  [.addChannel, .slots, .obs .command, .obs .reply, .obs .teardown]

theorem Ordered.keep {ks : List Part} {w' : World} (h : w.Ordered) (ht : Touches ks w w')
    (hks : ks.all (fun k => decide (k ∉ orderedParts)) = true) : w'.Ordered := by
  intro p name i slot hslot
  rw [ht.subscriptions (all_not_mem_mono (by simp) hks)] at hslot
  have hconfirmed : confirmations p name w'.trace = confirmations p name w.trace :=
    ht.same (f := fun w => confirmations p name w.trace) (Update.apply_confirmations p name)
      (all_not_mem_mono (by simp) hks)
  rw [hconfirmed]
  exact ht.keeps (I := fun w => w.Holds slot.1 _) (fun w u hu => Holds.update w u hu)
    (all_not_mem_mono (by simp) hks) (h p name i slot hslot)

/-- A reply of another kind. -/
theorem Ordered.replied (h : w.Ordered) {w' : World} (hheap : w'.heap = w.heap)
    (hsubs : ∀ p, subscriptions p w'.trace = subscriptions p w.trace)
    (hconfirmed : ∀ p name, confirmations p name w'.trace = confirmations p name w.trace) :
    w'.Ordered := by
  intro p name i slot hslot
  rw [hsubs] at hslot
  rw [hconfirmed, Holds, hheap]
  exact h p name i slot hslot

/-! ## A subscription -/

/-- New slots are not confirmed, and come after the old ones. -/
theorem Ordered.entered (h : w.Ordered) (hconf : Confirmable w) (argv timers : List Bytes)
    (fn : Option Fn) (flags : Bool) : (w.entered argv timers fn flags).Ordered := by
  have htouches := w.entered_touches argv timers fn flags
  intro p name i slot hslot
  have hconfirmed : confirmations p name (w.entered argv timers fn flags).trace =
      confirmations p name w.trace :=
    htouches.same (f := fun w => confirmations p name w.trace) (Update.apply_confirmations p name) rfl
  have hold : (slotsNamed (subscriptions p w.trace) name)[i]? = some slot →
      (w.entered argv timers fn flags).Holds slot.1 fun chs =>
        (chs[slot.2]?).bind Channel.flag? = some (decide (i < confirmations p name w.trace)) :=
    fun hslot => (h p name i slot hslot).entered argv timers fn flags
  rw [hconfirmed]
  rw [entered_subscriptions] at hslot
  by_cases hkind : classify (argv.headD []) = .subscribe p
  · rw [if_pos hkind, slotsNamed_snoc] at hslot
    -- old slots keep their places in front of the new ones
    by_cases hi : i < (slotsNamed (subscriptions p w.trace) name).length
    · rw [List.getElem?_append_left hi] at hslot
      exact hold hslot
    · have hnew := hslot
      rw [List.getElem?_append_right (Nat.le_of_not_lt hi)] at hnew
      obtain ⟨hcb, n, hn, -⟩ := Subscription.mem_slotsNamed.mp (List.mem_of_getElem? hnew)
      -- a new slot has flags 0, and no confirmation can have come for it
      obtain ⟨⟨k, hk⟩, hnext, -⟩ := registerCommand_record (w := w.noted _ argv timers fn) p
        argv.tail timers fn flags
      rw [decide_eq_false (fun hlt => hi (Nat.lt_of_lt_of_le hlt (hconf p name)))]
      unfold World.entered
      rw [hkind, hcb]
      refine ⟨hnext ▸ Nat.lt_succ_self _, fun c hc => ?_⟩
      obtain rfl := Option.some.inj (hk.symm.trans hc)
      rw [List.getElem?_append_left (by simpa using (List.getElem?_eq_some_iff.mp hn).1),
        List.getElem?_map, hn]
      rfl
  · rw [if_neg hkind] at hslot
    exact hold hslot

end World

/-! ## A confirmation -/

/-- A slot that is no timer is the slot of a name. -/
theorem slot_name {s : Subscription} {chs : List Channel} (hshape : chs.map Channel.blank = s.slots)
    {k : Nat} {ch : Channel} (hch : chs[k]? = some ch) {flag : Bool} (hflag : ch.flag? = some flag) :
    ∃ n, s.names[k]? = some n ∧ ch.name = some (strdup n) := by
  have hblank : s.slots[k]? = some ch.blank := by rw [← hshape, List.getElem?_map, hch]; rfl
  unfold Subscription.slots at hblank
  by_cases hk : k < (s.names.map createChannel).length
  · rw [List.getElem?_append_left hk, List.getElem?_map] at hblank
    obtain ⟨n, hn, hname⟩ := Option.map_eq_some_iff.mp hblank
    exact ⟨n, hn, (congrArg Channel.name hname).symm⟩
  · rw [List.getElem?_append_right (Nat.le_of_not_lt hk), List.getElem?_map] at hblank
    obtain ⟨key, -, hname⟩ := Option.map_eq_some_iff.mp hblank
    have htimer : ch.timerEvent = true := (congrArg Channel.timerEvent hname).symm
    simp [Channel.flag?, htimer] at hflag

/-- Where the slots for a name are confirmed, none of them waits. -/
theorem exhausted_take {s : Subscription} {chs : List Channel}
    (hshape : chs.map Channel.blank = s.slots) {sname : Bytes} (len : Nat)
    (h : ∀ k < len, (s.cb, k) ∈ s.slotsNamed sname → (chs[k]?).bind Channel.flag? = some true) :
    Exhausted sname (chs.take len) := by
  intro ch hch hflag heq
  obtain ⟨k, hk⟩ := List.mem_iff_getElem?.mp hch
  have hlt : k < len := by
    have := (List.getElem?_eq_some_iff.mp hk).1
    rw [List.length_take] at this
    omega
  rw [List.getElem?_take_of_lt hlt] at hk
  obtain ⟨n, hn, hname⟩ := slot_name hshape hk hflag
  rw [hname, Option.getD_some, strcmp_eq_iff, strdup_strdup] at heq
  have hconfirmed := h k hlt (Subscription.mem_slotsNamed.mpr ⟨rfl, n, hn, heq⟩)
  rw [hk, Option.bind_some, hflag] at hconfirmed
  cases hconfirmed

/-- A slot for a name that waits, among the other slots of its record. -/
theorem waiting_slot {s : Subscription} {chs : List Channel} (hshape : chs.map Channel.blank = s.slots)
    {k : Nat} (hwaits : (chs[k]?).bind Channel.flag? = some false) {sname : Bytes}
    (hslot : (s.cb, k) ∈ s.slotsNamed sname) :
    k < chs.length ∧ ∃ ch, chs = chs.take k ++ ch :: chs.drop (k + 1) ∧ ch.flag? = some false ∧
      strcmp (ch.name.getD []) sname = .eq := by
  obtain ⟨-, n, hn, hdup⟩ := Subscription.mem_slotsNamed.mp hslot
  obtain ⟨ch, hch, hflag⟩ := Option.bind_eq_some_iff.mp hwaits
  obtain ⟨n', hn', hname⟩ := slot_name hshape hch hflag
  obtain rfl : n = n' := Option.some.inj (hn.symm.trans hn')
  obtain ⟨hk, hck⟩ := List.getElem?_eq_some_iff.mp hch
  refine ⟨hk, ch, ?_, hflag, ?_⟩
  · rw [← hck, ← List.drop_eq_getElem_cons hk, List.take_append_drop]
  · rw [hname, Option.getD_some, strcmp_eq_iff, strdup_strdup, hdup]

/-- A callback with a slot that waits is not initialized. -/
theorem Callback.Marked.waiting {c : Callback} (h : c.Marked) {ch : Channel} (hch : ch ∈ c.channels)
    (hflag : ch.flag? = some false) : c.initialized = false := by
  by_contra hne
  rw [Bool.not_eq_false] at hne
  have hall := (h (List.ne_nil_of_mem hch)).mp hne ch hch
  unfold Channel.flag? at hflag
  rw [hall] at hflag
  split at hflag <;> cases hflag

namespace World
variable {w : World}

theorem Recorded.nodup_cb (h : w.Recorded) (p : Bool) :
    ((subscriptions p w.trace).map Subscription.cb).Nodup := by
  cases p with
  | false => exact h.nodup.of_append_left
  | true => exact h.nodup.of_append_right

/-- The list of a name up to the first entry of a subscription to it. -/
theorem Subscribed.entries_before (h : w.Subscribed) {p : Bool} {sname key : Bytes}
    {leaf : SearchTree.Path} {val : NodeVal} (hleaf : (w.names p).lookup nameCmp sname = some leaf)
    (hget : (w.names p).get? leaf = some (key, val)) {pre post : List Subscription} {s : Subscription}
    (hsubs : subscriptions p w.trace = pre ++ s :: post) {k : Nat}
    (hslot : (s.cb, k) ∈ s.slotsNamed sname) :
    ∃ before after, val.cbList = before ++ .heap s.cb :: after ∧
      ∀ q ∈ before, ∃ s' ∈ pre, q = .heap s'.cb := by
  obtain ⟨-, n, hn, hdup⟩ := Subscription.mem_slotsNamed.mp hslot
  rw [h.names p] at hleaf hget
  obtain ⟨m, val', hget', hfirst, hsharing⟩ := nameTree_get hleaf
  obtain ⟨-, rfl⟩ : key = m ∧ val = val' := by
    rw [hget] at hget'
    cases hget'
    exact ⟨rfl, rfl⟩
  rw [hsharing, hsubs]
  exact sharing_registrations ⟨n, List.mem_of_getElem? hn, hdup⟩ (hsubs ▸ hfirst)

/-- **The next confirmation of a name** is worked off by its next slot. -/
theorem confirm_next (hsub : w.Subscribed) (hcounts : w.Counts) (hrecorded : w.Recorded)
    (hmarked : w.AllMarked) (hfault : w.fault = none) {p : Bool} {sname key : Bytes}
    {leaf : SearchTree.Path} {val : NodeVal} (hleaf : (w.names p).lookup nameCmp sname = some leaf)
    (hget : (w.names p).get? leaf = some (key, val)) {n : Nat} (horder : w.InOrder p sname n)
    {slot : Nat × Nat} (hslot : (slotsNamed (subscriptions p w.trace) sname)[n]? = some slot)
    (reply : Reply) :
    w.slotFlag slot = some false ∧
      (confirm sname reply val.cbList w).slotFlag = Function.update w.slotFlag slot (some true) ∧
      (readable reply = true → calls (confirm sname reply val.cbList w).trace = calls w.trace ++
        if w.cc.ignoreSubCmdReply then [] else
          (w.fnOf (.heap slot.1)).toList.map fun f =>
            (.confirmation, f, [.nil, pushSubReply reply])) := by
  obtain ⟨pre, s, post, hsubs, hin, hearlier⟩ := slotsNamed_getElem? hslot
  obtain ⟨cb, k⟩ := slot
  obtain rfl : cb = s.cb := (Subscription.mem_slotsNamed.mp hin).1
  have hserved : w.Served val.cbList := hsub.served hcounts hleaf hget
  have hshape : ∀ s' ∈ pre ++ [s], w.HasSlots s'.cb s'.slots := fun s' hs' =>
    hrecorded.shaped p s' (by rw [hsubs, List.append_cons]; exact List.mem_append_left _ hs')
  -- earlier slots are confirmed
  have hflag : ∀ slot' c, (slot' ∈ slotsNamed pre sname ∨ slot' ∈ s.slotsNamed sname ∧ slot'.2 < k) →
      w.heap.cb slot'.1 = some c → (c.channels[slot'.2]?).bind Channel.flag? = some true := by
    intro slot' c hslot' hc
    obtain ⟨i, hi, hget'⟩ := hearlier slot' hslot'
    rw [(horder i slot' hget').2 c hc, decide_eq_true hi]
  obtain ⟨before, after, hlist, hbefore⟩ := hsub.entries_before hleaf hget hsubs hin
  have hnot : .heap s.cb ∉ before := by
    intro hmem
    obtain ⟨s', hs', heq⟩ := hbefore _ hmem
    have hnodup := hrecorded.nodup_cb p
    rw [hsubs, List.map_append, List.map_cons] at hnodup
    exact (List.nodup_append.mp hnodup).2.2 s'.cb (List.mem_map_of_mem hs') s.cb List.mem_cons_self
      (CbPtr.heap.inj heq).symm
  have hexhausted : w.AllExhausted sname before := by
    intro q hq
    obtain ⟨s', hs', rfl⟩ := hbefore q hq
    obtain ⟨_, c, heq, hc, -⟩ := hserved (.heap s'.cb) (hlist ▸ List.mem_append_left _ hq)
    cases heq
    have htake := exhausted_take ((hshape s' (List.mem_append_left _ hs')).2 c hc) c.channels.length
      fun k' _ hin' =>
        hflag (s'.cb, k') c (.inl (List.mem_flatMap.mpr ⟨s', hs', hin'⟩)) hc
    rw [List.take_length] at htake
    exact ⟨s'.cb, c, rfl, hc, htake⟩
  -- the record of the slot
  obtain ⟨_, c, heq, hc, hknown⟩ := hserved (.heap s.cb)
    (hlist ▸ List.mem_append_right _ List.mem_cons_self)
  cases heq
  have hslots := (hshape s (List.mem_append_right _ (List.mem_singleton_self s))).2 c hc
  have hwaits : (c.channels[k]?).bind Channel.flag? = some false := by
    rw [(horder n (s.cb, k) hslot).2 c hc, decide_eq_false (Nat.lt_irrefl n)]
  obtain ⟨hk, ch, hchannels, hchflag, hname⟩ := waiting_slot hslots hwaits hin
  have hinit : c.initialized = false :=
    (hmarked s.cb c hc).waiting (hchannels ▸ List.mem_append_right _ List.mem_cons_self) hchflag
  have htake := exhausted_take hslots k fun k' hk' hin' => hflag (s.cb, k') c (.inr ⟨hin', hk'⟩) hc
  -- pass the entries before it, and mark the slot
  rw [hlist] at hserved ⊢
  obtain ⟨w₁, hconfirm, ht, hfault₁, hflag₁, hother⟩ := confirm_passes reply hfault hserved
    hexhausted
  rw [hconfirm]
  have hc₁ : w₁.heap.cb s.cb = some c := (hother s.cb hnot).trans hc
  have hknown₁ : w₁.Known s.cb :=
    ht.keeps (I := fun w => w.Known s.cb) (fun w u hu => Known.update w u hu) rfl hknown
  obtain ⟨hflags, hcalls⟩ := confirm_marks reply hfault₁ hknown₁ hc₁ hinit hchannels htake
    hchflag hname after
  rw [List.length_take, Nat.min_eq_left (Nat.le_of_lt hk), hflag₁] at hflags
  refine ⟨?_, hflags, fun hread => ?_⟩
  · rw [slotFlag, hc, Option.bind_some]
    exact hwaits
  · have hqueue := ht.queue rfl
    have hfn : w₁.fnOf = w.fnOf := congrArg Queue.fnOf hqueue
    have hcalls₁ : calls w₁.trace = calls w.trace := congrArg Queue.calls hqueue
    have hignore : w₁.cc.ignoreSubCmdReply = w.cc.ignoreSubCmdReply :=
      ht.eq (f := fun w => w.cc.ignoreSubCmdReply) fun w u hu => by cases u <;> simp at hu <;> rfl
    rw [hcalls hread, hcalls₁, hignore, hfn]

/-- The record of a slot is there. -/
theorem Subscribed.slot_alive (h : w.Subscribed) (hcounts : w.Counts) {p : Bool} {name : Bytes}
    {slot : Nat × Nat} (hslot : slot ∈ slotsNamed (subscriptions p w.trace) name) :
    ∃ c, w.heap.cb slot.1 = some c := by
  obtain ⟨s, hs, hin⟩ := List.mem_flatMap.mp hslot
  obtain ⟨hcb, n, hn, -⟩ := Subscription.mem_slotsNamed.mp hin
  obtain ⟨leaf, key, val, hleaf, hget, -⟩ := h.found hs (List.mem_of_getElem? hn)
  obtain ⟨pre, post, hsubs⟩ := List.append_of_mem hs
  have hown : (s.cb, slot.2) ∈ s.slotsNamed n := Subscription.mem_slotsNamed.mpr ⟨rfl, n, hn, rfl⟩
  rw [search_eq] at hleaf
  obtain ⟨before, after, hlist, -⟩ := h.entries_before hleaf hget hsubs hown
  obtain ⟨_, c, heq, hc, -⟩ := h.served hcounts hleaf hget (.heap s.cb)
    (hlist ▸ List.mem_append_right _ List.mem_cons_self)
  cases heq
  exact ⟨c, hcb ▸ hc⟩

/-- A slot belongs to one name. -/
theorem Recorded.slot_name (h : w.Recorded) {p p' : Bool} {name name' : Bytes} {slot : Nat × Nat}
    (hslot : slot ∈ slotsNamed (subscriptions p w.trace) name)
    (hslot' : slot ∈ slotsNamed (subscriptions p' w.trace) name') :
    p = p' ∧ strdup name = strdup name' := by
  obtain ⟨s, hs, hcb, n, hn, hdup⟩ := mem_slotsNamed.mp hslot
  obtain ⟨s', hs', hcb', n', hn', hdup'⟩ := mem_slotsNamed.mp hslot'
  have hne := (List.nodup_append.mp h.nodup).2.2
  have heq : s.cb = s'.cb := hcb.symm.trans hcb'
  obtain rfl : p = p' := by
    cases p <;> cases p'
    · rfl
    · exact absurd heq (hne _ (List.mem_map_of_mem hs) _ (List.mem_map_of_mem hs'))
    · exact absurd heq.symm (hne _ (List.mem_map_of_mem hs') _ (List.mem_map_of_mem hs))
    · rfl
  obtain rfl : s = s' := List.inj_on_of_nodup_map (h.nodup_cb p) hs hs' heq
  obtain rfl : n = n' := Option.some.inj (hn.symm.trans hn')
  exact ⟨rfl, hdup.symm.trans hdup'⟩

end World

/-! ## Runs -/

theorem isConfirmation_iff {p : Bool} {name : Bytes} {reply : Reply} :
    isConfirmation p name reply = true ↔ ∃ stype sname rest,
      reply = .array (.string stype :: .string sname :: rest) ∧ subKind stype = .confirmation ∧
        isPvariant stype = p ∧ strdup sname = strdup name := by
  constructor
  · intro h
    unfold isConfirmation at h
    split at h
    next stype sname rest =>
      simp only [Bool.and_eq_true, decide_eq_true_eq] at h
      exact ⟨stype, sname, rest, rfl, h.1.1, h.1.2, h.2⟩
    · cases h
  · rintro ⟨stype, sname, rest, rfl, hkind, rfl, hdup⟩
    simp [isConfirmation, hkind, hdup]

theorem confirmations_reply (p : Bool) (name : Bytes) (trace : List Obs) (reply : Reply) :
    confirmations p name (trace ++ [.reply true reply]) =
      confirmations p name trace + if isConfirmation p name reply then 1 else 0 := by
  simp only [confirmations, List.foldl_append, List.foldl_cons, List.foldl_nil, confirmationsAfter]
  split <;> rfl

/-- Names that are equal as C strings are confirmed together. -/
theorem confirmations_congr {p : Bool} {name name' : Bytes} (h : strdup name = strdup name')
    (trace : List Obs) : confirmations p name trace = confirmations p name' trace := by
  have hreply : isConfirmation p name = isConfirmation p name' := by
    funext reply
    unfold isConfirmation
    split
    · rw [h]
    · rfl
  have hafter : confirmationsAfter p name = confirmationsAfter p name' := by
    funext n o
    cases o with
    | reply subMode r => cases subMode <;> simp [confirmationsAfter, hreply]
    | _ => rfl
  simp only [confirmations, hafter]

/-- What the order of confirmations rests on. -/
structure Orderly (w : World) : Prop where
  subscribed : w.Subscribed
  counts : w.Counts
  recorded : w.Recorded
  marked : w.AllMarked
  ordered : w.Ordered
  confirmable : Confirmable w
  running : w.cc.exited = false

namespace Orderly
variable {w w₁ : World} {reply : Reply}

/-- The slot of a confirmation is on the list that the lookup finds. -/
theorem confirm (h : Orderly w) (hfault : w.fault = none)
    (ht : Touches [.pop, .reader, .obs .reply, .frame .readLoop] w w₁)
    (htrace : w₁.trace = w.trace ++ [.reply true reply])
    (hconf : Confirmable (w₁.getAndCallSubCb reply)) {stype sname : Bytes} {rest : List Reply}
    (hreply : reply = .array (.string stype :: .string sname :: rest))
    (hkind : subKind stype = .confirmation) :
    ∃ slot, (slotsNamed (subscriptions (isPvariant stype) w.trace) sname)[confirmations
        (isPvariant stype) sname w.trace]? = some slot ∧
      w₁.slotFlag slot = some false ∧
      (w₁.getAndCallSubCb reply).slotFlag = Function.update w₁.slotFlag slot (some true) ∧
      (readable reply = true → calls (w₁.getAndCallSubCb reply).trace = calls w₁.trace ++
        if w₁.cc.ignoreSubCmdReply then [] else
          (w₁.fnOf (.heap slot.1)).toList.map fun f =>
            (.confirmation, f, [.nil, pushSubReply reply])) := by
  have hsubs := ht.subscriptions rfl
  have htouches := w₁.getAndCallSubCb_touches reply
  have hslot : confirmations (isPvariant stype) sname w.trace <
      (slotsNamed (subscriptions (isPvariant stype) w.trace) sname).length := by
    have hlength := hconf (isPvariant stype) sname
    have hconfirmed : confirmations (isPvariant stype) sname (w₁.getAndCallSubCb reply).trace =
        confirmations (isPvariant stype) sname w₁.trace :=
      htouches.same (f := fun w => confirmations (isPvariant stype) sname w.trace)
        (Update.apply_confirmations _ _) rfl
    rw [hconfirmed, htouches.subscriptions rfl, hsubs, htrace, confirmations_reply,
      if_pos (isConfirmation_iff.mpr ⟨stype, sname, rest, hreply, hkind, rfl, rfl⟩)] at hlength
    omega
  refine ⟨_, List.getElem?_eq_getElem hslot, ?_⟩
  generalize hget : (slotsNamed (subscriptions (isPvariant stype) w.trace) sname)[confirmations
    (isPvariant stype) sname w.trace] = slot
  have hslot' := (List.getElem?_eq_getElem hslot).trans (congrArg some hget)
  have hsub₁ := h.subscribed.keep ht rfl
  -- the name is found
  obtain ⟨s, hs, -, n, hn, hdup⟩ := mem_slotsNamed.mp (List.mem_of_getElem? hslot')
  obtain ⟨leaf', key', val', hleaf', hget', hne⟩ := hsub₁.found (hsubs _ ▸ hs) (List.mem_of_getElem? hn)
  rw [search_eq, ← lookup_strdup, hdup, lookup_strdup] at hleaf'
  have hdispatched := getAndCallSubCb_dispatched w₁ reply
  generalize w₁.getAndCallSubCb reply = w' at hdispatched ⊢
  cases hdispatched with
  | ignored hother =>
    rw [hother _ _ _ hreply] at hkind
    cases hkind
  | malformed _ hshape => exact absurd ⟨_, _, _, hreply, .inr ⟨_, rfl⟩⟩ hshape
  | unknown heq _ hnone =>
    rw [hreply] at heq
    cases heq
    rw [hnone] at hleaf'
    cases hleaf'
  | unused heq _ hleaf hget₁ hempty =>
    rw [hreply] at heq
    cases heq
    rw [hleaf] at hleaf'
    cases hleaf'
    rw [hget₁] at hget'
    cases hget'
    exact absurd hempty hne
  | event heq hkind' _ _ _ =>
    rw [hreply] at heq
    cases heq
    rw [hkind] at hkind'
    cases hkind'
  | confirmation heq _ hleaf hget₁ _ =>
    rw [hreply] at heq
    cases heq
    have horder : w₁.InOrder (isPvariant stype) sname (confirmations (isPvariant stype) sname w.trace) := by
      intro i slot' hi
      rw [hsubs] at hi
      exact ht.keeps (I := fun w => w.Holds slot'.1 _) (fun w u hu => Holds.update w u hu) rfl
        (h.ordered _ _ i slot' hi)
    exact confirm_next hsub₁ (h.counts.keep ht rfl) (h.recorded.keep ht rfl)
      (Records.keep ofFilled_marked h.marked ht rfl)
      ((ht.eq (f := World.fault) fun w u hu => by cases u <;> simp at hu <;> rfl).trans hfault) hleaf
      hget₁ horder (hsubs _ ▸ hslot') reply

/-- The order of the confirmed slots in the world after a dispatch. -/
theorem dispatch (h : Orderly w) (hfault : w.fault = none)
    (ht : Touches [.pop, .reader, .obs .reply, .frame .readLoop] w w₁)
    (htrace : w₁.trace = w.trace ++ [.reply true reply])
    (hconf : Confirmable (w₁.getAndCallSubCb reply)) : (w₁.getAndCallSubCb reply).Ordered := by
  have hsubs := ht.subscriptions rfl
  have hheap : w₁.heap = w.heap := ht.eq fun w u hu => by cases u <;> simp at hu <;> rfl
  have htouches := w₁.getAndCallSubCb_touches reply
  by_cases hkind : ∃ stype sname rest, reply = .array (.string stype :: .string sname :: rest) ∧
      subKind stype = .confirmation
  · obtain ⟨stype, sname, rest, hreply, hkind⟩ := hkind
    obtain ⟨slot, hslot, -, hflags, -⟩ := h.confirm hfault ht htrace hconf hreply hkind
    intro p name i slot' hslot'
    rw [htouches.subscriptions rfl, hsubs] at hslot'
    have hold := h.ordered p name i slot' hslot'
    have hnext : (w₁.getAndCallSubCb reply).heap.next = w₁.heap.next :=
      htouches.eq (f := fun w => w.heap.next) fun w u hu => by cases u <;> simp at hu <;> rfl
    refine ⟨by rw [hnext, hheap]; exact hold.1, fun c hc => ?_⟩
    have hflag : (c.channels[slot'.2]?).bind Channel.flag? =
        Function.update w₁.slotFlag slot (some true) slot' := by
      rw [← hflags, slotFlag, hc, Option.bind_some]
    have hconfirmed : confirmations p name (w₁.getAndCallSubCb reply).trace =
        confirmations p name w.trace + if isConfirmation p name reply then 1 else 0 := by
      rw [← confirmations_reply, ← htrace]
      exact htouches.same (f := fun w => confirmations p name w.trace)
        (Update.apply_confirmations p name) rfl
    refine hflag.trans ?_
    rw [hconfirmed]
    have hmem := List.mem_of_getElem? hslot
    by_cases heq : slot' = slot
    · -- the slot of this confirmation
      subst heq
      obtain ⟨rfl, hdup⟩ := h.recorded.slot_name hmem (List.mem_of_getElem? hslot')
      rw [slotsNamed_congr hdup, confirmations_congr hdup] at hslot
      have hi : i = confirmations (isPvariant stype) name w.trace := by
        have hnodup := slotsNamed_nodup (h.recorded.nodup_cb (isPvariant stype)) name
        have hlt := (List.getElem?_eq_some_iff.mp hslot').1
        exact (List.getElem?_inj hlt hnodup).mp (hslot'.trans hslot.symm)
      rw [Function.update_self, if_pos (isConfirmation_iff.mpr ⟨_, _, _, hreply, hkind, rfl, hdup⟩),
        decide_eq_true (by omega)]
    · obtain ⟨c', hc'⟩ := h.subscribed.slot_alive h.counts (List.mem_of_getElem? hslot')
      rw [Function.update_of_ne heq, slotFlag, hheap, hc', Option.bind_some, hold.2 c' hc']
      by_cases hsame : isConfirmation p name reply = true
      · -- the slot confirmed is another one of this name
        obtain ⟨_, _, _, heq', -, rfl, hdup⟩ := isConfirmation_iff.mp hsame
        rw [hreply] at heq'
        cases heq'
        rw [slotsNamed_congr hdup, confirmations_congr hdup] at hslot
        have hi : i ≠ confirmations (isPvariant stype) name w.trace := by
          rintro rfl
          exact heq (Option.some.inj (hslot'.symm.trans hslot))
        rw [if_pos hsame]
        congr 1
        exact decide_eq_decide.mpr (by omega)
      · rw [if_neg hsame, Nat.add_zero]
  · have hnot : ∀ p name, isConfirmation p name reply = false := by
      intro p name
      by_contra htrue
      rw [Bool.not_eq_false] at htrue
      obtain ⟨stype, sname, rest, hreply, hconfirms, -⟩ := isConfirmation_iff.mp htrue
      exact hkind ⟨stype, sname, rest, hreply, hconfirms⟩
    have hordered : w₁.Ordered := h.ordered.replied hheap hsubs fun p name => by
      rw [htrace, confirmations_reply, hnot, if_neg Bool.false_ne_true, Nat.add_zero]
    have hdispatched := getAndCallSubCb_dispatched w₁ reply
    generalize w₁.getAndCallSubCb reply = w' at hdispatched ⊢
    cases hdispatched with
    | ignored _ => exact hordered
    | malformed _ _ => exact hordered
    | unknown _ _ _ => exact hordered
    | unused _ _ _ _ _ => exact hordered
    | confirmation hreply hconfirms _ _ _ => exact absurd ⟨_, _, _, hreply, hconfirms⟩ hkind
    | event _ _ _ _ _ => exact hordered.keep (eventLoop_touches _ _ _ _ _) rfl

end Orderly

/-- **The confirmed slots are the first ones** after every step. -/
theorem step_ordered {w w' : World} {e : Event} (hstep : w.step e = some w') (h : Orderly w)
    (hconf : Confirmable w') (hexit : e ≠ .api .exit) : w'.Ordered := by
  have htouches := step_touches hstep
  obtain ⟨hfault, hs⟩ := step_cases hstep
  cases hs with
  | api c _ =>
    cases c with
    | command args env =>
      change (w.luaClientCommand args env).Ordered
      cases hcollect : collect args with
      | raise | fault =>
        exact h.ordered.keep (w.luaClientCommand_refused env (by simp [hcollect])) rfl
      | ok argv timers =>
        rw [luaClientCommand_eq hcollect]
        exact (h.ordered.entered h.confirmable argv timers (callbackOf args) env.flags).keep
          (sendCommand_touches _ _ _ _ _ _) rfl
    | exit => exact absurd rfl hexit
    | _ => exact h.ordered.keep htouches rfl
  | @closed h₁ _ _ _ _ =>
    obtain ht | ⟨w₁, ht, heq⟩ := onDisconnect_cases w h₁
    · exact h.ordered.keep ht rfl
    · -- nothing is subscribed to any more
      intro p name i slot hslot
      have hnone : subscriptions p ((w₁.destroyAll.log .teardown).callHandler .disconnect
          w.cc.rDisconnectCb []).trace = [] := by
        rw [Touches.subscriptions (callHandler_touches _ _ _ _) rfl]
        simp [World.log, subscriptionsAfter]
      rw [heq, hnone] at hslot
      cases hslot
  | @resume f rest hstack _ =>
    cases f with
    | readLoop h₁ subMode cb =>
      have hpop : ({ w with stack := rest } : World).Ordered := h.ordered
      have hround := readLoop_round { w with stack := rest } h₁ subMode cb
      change Confirmable (({ w with stack := rest } : World).readLoop h₁ subMode cb) at hconf
      change (({ w with stack := rest } : World).readLoop h₁ subMode cb).Ordered
      generalize ({ w with stack := rest } : World).readLoop h₁ subMode cb = w' at hround hconf ⊢
      cases hround with
      | exited _ => exact hpop
      | failed _ _ => exact hpop
      | stored _ _ => exact hpop
      | disconnecting _ _ => exact hpop
      | @ended reader _ _ =>
        have hreader : ({ w with stack := rest, cc.reader := reader } : World).Ordered := hpop
        exact hreader.keep (endRead_touches _ h₁ subMode) rfl
      | @reply reader reply _ _ =>
        have hreplied : (World.replied { w with stack := rest } reader false reply).Ordered := by
          refine hpop.replied rfl (fun p => ?_) fun p name => ?_
          · simp [World.replied, World.log, subscriptionsAfter]
          · simp [World.replied, World.log, confirmations, confirmationsAfter]
        exact hreplied.keep (dispatchReply_touches _ h₁ cb reply) rfl
      | @subError reader message _ _ =>
        refine hpop.replied rfl (fun p => ?_) fun p name => ?_
        · simp [World.replied, World.push, World.log, subscriptionsAfter]
        · have hnot : isConfirmation p name (.error message) = false := rfl
          refine (confirmations_reply p name w.trace (.error message)).trans ?_
          rw [hnot, if_neg Bool.false_ne_true, Nat.add_zero]
      | @subReply reader reply _ _ =>
        exact h.dispatch hfault (replied_touches hstack reader reply h₁ cb) rfl hconf
    | _ =>
      rw [hstack] at htouches
      exact h.ordered.keep htouches rfl
  | _ => exact h.ordered.keep htouches rfl

theorem step_orderly {w w' : World} {e : Event} (hstep : w.step e = some w')
    (hC : ConfirmsSubscribed w e w') (h : Orderly w) : Orderly w' where
  subscribed := by
    have hrunning := (step_exited hstep hC.2.1).trans h.running
    rcases step_subscribed hstep h.counts (.inr h.subscribed) with hexited | hsub
    · rw [hrunning] at hexited
      cases hexited
    · exact hsub
  counts := step_counts hstep h.counts
  recorded := step_recorded hstep h.recorded
  marked := step_marked hstep hC.1 h.marked
  ordered := step_ordered hstep h hC.2.2 hC.2.1
  confirmable := hC.2.2
  running := (step_exited hstep hC.2.1).trans h.running

theorem orderly_new (ignore : Bool) : Orderly (World.new ignore) where
  subscribed := reachable_subscribed ⟨ignore, [], rfl⟩ rfl
  counts := reachable_counts ⟨ignore, [], rfl⟩
  recorded := reachable_recorded ⟨ignore, [], rfl⟩
  marked := fun _ _ h => by cases h
  ordered := fun _ _ _ _ h => by cases h
  confirmable := fun _ _ => Nat.le_refl 0
  running := rfl

/-- **Confirmations are matched in order.**  With a server that confirms what was subscribed
    to, the next confirmation of a name marks the next slot of that name in the order of the
    commands and no other slot of a name, and calls the function given to its subscription. -/
theorem confirmationOrder {ignore : Bool} {es : List Event} {w w' : World} {h : Handle} {cb : LuaRef}
    {frames : List Frame} {reader : RedisReader} {stype name : Bytes} {n : Int}
    (hrun : Transition.RunsUnder World.step ConfirmsOrderly (World.new ignore) es w)
    (hstack : w.stack = .readLoop h true cb :: frames)
    (hreply : redisReaderGetReply w.cc.reader =
      (reader, .ok, some (.array [.string stype, .string name, .integer n])))
    (hkind : subKind stype = .confirmation) (hstep : w.step .resume = some w')
    (hconfirms : ConfirmsSubscribed w .resume w') :
    ∃ s ∈ subscriptions (isPvariant stype) w.trace, ∃ k,
      (slotsNamed (subscriptions (isPvariant stype) w.trace) name)[confirmations
        (isPvariant stype) name w.trace]? = some (s.cb, k) ∧
      ConfirmsSlot s k (.array [.string stype, .string name, .integer n]) w w' := by
  have horderly : Orderly w := hrun.invariant (I := Orderly)
    (fun _ _ _ hw hst hC => step_orderly hst hC.1 hw) (orderly_new ignore)
  have hfault := (step_cases hstep).1
  have htouches := replied_touches hstack reader (.array [.string stype, .string name, .integer n]) h cb
  have hw' := step_array horderly.running hstack hreply hstep
  have hconf := hconfirms.2.2
  rw [hw'] at hconf ⊢
  obtain ⟨slot, hslot, hwaiting, hflags, hcalls⟩ :=
    horderly.confirm hfault htouches rfl hconf rfl hkind
  have hmem := List.mem_of_getElem? hslot
  obtain ⟨s, hs, hin⟩ := List.mem_flatMap.mp hmem
  obtain ⟨k, rfl⟩ : ∃ k, slot = (s.cb, k) :=
    ⟨slot.2, Prod.ext (Subscription.mem_slotsNamed.mp hin).1 rfl⟩
  refine ⟨s, hs, k, hslot, hwaiting, hflags, (hcalls rfl).trans ?_⟩
  -- its record refers to the function it was given
  obtain ⟨c, hc⟩ := horderly.subscribed.slot_alive horderly.counts hmem
  have hexpected : Transition.RunsUnder World.step Expected (World.new ignore) es w :=
    hrun.mono fun _ _ _ hC => hC.2
  have hfn := (run_accounted hexpected hfault).subscription_function ⟨ignore, hrun.reachable⟩ hs hc
  rw [Touches.calls htouches rfl, ← hfn]
  rfl

/-- The names that replies of the subscription stream are about. -/
def repliedNames (trace : List Obs) : List Bytes :=
  trace.filterMap fun
    | .reply true (.array (.string _ :: .string sname :: _)) => some sname
    | _ => none

theorem repliedNames_of_confirmed {p : Bool} {name : Bytes} {trace : List Obs}
    (h : 0 < confirmations p name trace) :
    ∃ sname ∈ repliedNames trace, strdup sname = strdup name := by
  induction trace using List.reverseRecOn with
  | nil => cases h
  | append_singleton trace o ih =>
    have hold : (0 < confirmations p name trace) →
        ∃ sname ∈ repliedNames (trace ++ [o]), strdup sname = strdup name := fun hpos => by
      obtain ⟨sname, hmem, hdup⟩ := ih hpos
      refine ⟨sname, ?_, hdup⟩
      rw [repliedNames, List.filterMap_append]
      exact List.mem_append_left _ hmem
    by_cases hnew : ∃ reply, o = .reply true reply ∧ isConfirmation p name reply = true
    · obtain ⟨reply, rfl, hconf⟩ := hnew
      obtain ⟨stype, sname, rest, rfl, -, -, hdup⟩ := isConfirmation_iff.mp hconf
      exact ⟨sname, by simp [repliedNames], hdup⟩
    · refine hold ?_
      rw [confirmations, List.foldl_append, List.foldl_cons, List.foldl_nil] at h
      change 0 < confirmationsAfter p name (confirmations p name trace) o at h
      cases o with
      | reply subMode reply =>
        cases subMode with
        | false => exact h
        | true =>
          have hnot : isConfirmation p name reply ≠ true := fun hconf => hnew ⟨reply, rfl, hconf⟩
          rwa [confirmationsAfter, if_neg hnot] at h
      | teardown => cases h
      | _ => exact h

def confirmableCheck (w : World) : Bool :=
  [false, true].all fun p => (repliedNames w.trace).all fun name =>
    decide (confirmations p name w.trace ≤ (slotsNamed (subscriptions p w.trace) name).length)

theorem confirmable_of_check {w : World} (h : confirmableCheck w = true) : Confirmable w := by
  intro p name
  rcases Nat.eq_zero_or_pos (confirmations p name w.trace) with hzero | hpos
  · rw [hzero]
    exact Nat.zero_le _
  · obtain ⟨sname, hmem, hdup⟩ := repliedNames_of_confirmed hpos
    have hall := List.all_eq_true.mp h p (by cases p <;> simp)
    have hle := of_decide_eq_true (List.all_eq_true.mp hall sname hmem)
    rwa [confirmations_congr hdup, slotsNamed_congr hdup] at hle

def isExit : Event → Bool
  | .api .exit => true
  | _ => false

def confirmsCheck (w : World) (e : Event) : Bool :=
  !isExit e && cleanCheck w e && ((w.step e).map confirmableCheck).getD false

def orderlyCheck (w : World) (e : Event) : Bool := confirmsCheck w e && expectedCheck w e

theorem confirmsSubscribed_of_check {w w' : World} {e : Event} (h : confirmsCheck w e = true)
    (hstep : w.step e = some w') : ConfirmsSubscribed w e w' := by
  rw [confirmsCheck, hstep, Bool.and_eq_true, Bool.and_eq_true] at h
  obtain ⟨⟨hexit, hclean⟩, hconf⟩ := h
  refine ⟨cleanFlags_of_check hclean, ?_, confirmable_of_check hconf⟩
  rintro rfl
  cases hexit

/-- One callback subscribes to a name twice, another one to it and a timer; two of the three
    confirmations have been worked off. -/
def orderRun : List Event :=
  [.api .connect, .connected 0 0, .connected 0 0,
   .api (.command [.string (ascii "subscribe"), .string (ascii "a"), .string (ascii "a"),
     .function 1] ⟨0, false⟩),
   .api (.command [.string (ascii "subscribe"), .string (ascii "a"),
     .string (ascii "__timer@0__:50"), .function 2] ⟨0, false⟩),
   .written 0 0 0, .written 0 0 0,
   .read 1 (ascii "*3\r\n$9\r\nsubscribe\r\n$1\r\na\r\n:1\r\n" ++
     ascii "*3\r\n$9\r\nsubscribe\r\n$1\r\na\r\n:1\r\n" ++
     ascii "*3\r\n$9\r\nsubscribe\r\n$1\r\na\r\n:1\r\n") .noref,
   .resume, .ret true, .resume, .ret true]

/-- The loop on the subscription stream has a confirmation of `a` to work off. -/
def readsConfirmation (w : World) : Bool :=
  match w.stack, (redisReaderGetReply w.cc.reader).2 with
  | [.readLoop 1 true .noref], (.ok, some (.array [.string stype, .string name, .integer 1])) =>
    decide (stype = ascii "subscribe" ∧ name = ascii "a")
  | _, _ => false

theorem readsConfirmation_spec {w : World} (h : readsConfirmation w = true) :
    w.stack = [.readLoop 1 true .noref] ∧ (redisReaderGetReply w.cc.reader).2 =
      (.ok, some (.array [.string (ascii "subscribe"), .string (ascii "a"), .integer 1])) := by
  unfold readsConfirmation at h
  split at h
  next hstack hreply =>
    obtain ⟨rfl, rfl⟩ := of_decide_eq_true h
    exact ⟨hstack, hreply⟩
  · cases h

theorem confirmationOrder_orderRun :
    ∃ w w', runs (World.new false) orderRun = some w ∧ w.step .resume = some w' ∧
      ConfirmsSlot ⟨1, [ascii "a"], [ascii "__timer@0__:50"], some 2⟩ 0
        (.array [.string (ascii "subscribe"), .string (ascii "a"), .integer 1]) w w' ∧
      (calls w'.trace).map (fun c => c.2.1) = [1, 1, 2] := by
  have hrun : (Transition.runChecked World.step orderlyCheck (World.new false) orderRun).map
      (fun w => (readsConfirmation w && confirmsCheck w .resume &&
        decide (subscriptions false w.trace = [⟨0, [ascii "a", ascii "a"], [], some 1⟩,
          ⟨1, [ascii "a"], [ascii "__timer@0__:50"], some 2⟩]) &&
        decide ((slotsNamed (subscriptions false w.trace)
          (ascii "a"))[confirmations false (ascii "a") w.trace]? = some (1, 0)),
        (w.step .resume).map fun w' => (calls w'.trace).map fun c => c.2.1)) =
      some (true, some [1, 1, 2]) := by decide +kernel
  obtain ⟨w, hw, hstate⟩ := Option.map_eq_some_iff.mp hrun
  simp only [Prod.mk.injEq, Bool.and_eq_true, decide_eq_true_eq] at hstate
  obtain ⟨⟨⟨⟨hreads, hcheck⟩, hsubs⟩, hslot⟩, hstep⟩ := hstate
  obtain ⟨hstack, hreply⟩ := readsConfirmation_spec hreads
  obtain ⟨w', hw', hcalls⟩ := Option.map_eq_some_iff.mp hstep
  have hunder := Transition.runsUnder_of_checked (C := ConfirmsOrderly)
    (fun _ _ _ h hst => ⟨confirmsSubscribed_of_check (Bool.and_eq_true_iff.mp h).1 hst,
      expected_of_check (Bool.and_eq_true_iff.mp h).2⟩) hw
  obtain ⟨s, hs, k, hslot', hconfirms⟩ := confirmationOrder hunder hstack (Prod.ext rfl hreply)
    (by decide) hw' (confirmsSubscribed_of_check hcheck hw')
  obtain ⟨hcb, rfl⟩ := Prod.mk.inj (Option.some.inj (hslot.symm.trans hslot'))
  rw [show isPvariant (ascii "subscribe") = false by decide, hsubs] at hs
  -- the record tells which subscription it is
  rcases List.mem_cons.mp hs with rfl | hs
  · cases hcb
  · obtain rfl := List.mem_singleton.mp hs
    exact ⟨w, w', hunder.run_eq, hw', hconfirms, hcalls⟩

/-- After a reply that nobody waits for, two subscriptions share a slot of the registry. -/
def sharedRun : List Event :=
  [.api .connect, .connected 0 0, .connected 0 0,
   .api (.command [.string (ascii "ping"), .function 1] ⟨0, false⟩), .written 0 0 0,
   .read 0 (ascii "+a\r\n+b\r\n") .noref, .resume, .ret true, .resume, .resume,
   .api (.command [.string (ascii "subscribe"), .string (ascii "a"), .function 2] ⟨0, false⟩),
   .api (.command [.string (ascii "subscribe"), .string (ascii "b"), .function 3] ⟨0, false⟩),
   .written 0 0 0, .written 0 0 0,
   .read 1 (ascii "*3\r\n$9\r\nsubscribe\r\n$1\r\na\r\n:1\r\n") .noref]

/-- The confirmation of the first one calls the function of the second. -/
theorem confirmationOrder_shared :
    ∃ w w', Transition.RunsUnder World.step ConfirmsSubscribed (World.new false) sharedRun w ∧
      w.stack = [.readLoop 1 true .noref] ∧ (redisReaderGetReply w.cc.reader).2 =
        (.ok, some (.array [.string (ascii "subscribe"), .string (ascii "a"), .integer 1])) ∧
      w.step .resume = some w' ∧ ConfirmsSubscribed w .resume w' ∧
      ¬∃ s ∈ subscriptions false w.trace, ∃ k, (slotsNamed (subscriptions false w.trace)
          (ascii "a"))[confirmations false (ascii "a") w.trace]? = some (s.cb, k) ∧
        ConfirmsSlot s k (.array [.string (ascii "subscribe"), .string (ascii "a"), .integer 1])
          w w' := by
  have hrun : (Transition.runChecked World.step confirmsCheck (World.new false) sharedRun).map
      (fun w => (readsConfirmation w && confirmsCheck w .resume && !w.cc.ignoreSubCmdReply &&
        decide (subscriptions false w.trace =
          [⟨1, [ascii "a"], [], some 2⟩, ⟨2, [ascii "b"], [], some 3⟩]) &&
        decide ((slotsNamed (subscriptions false w.trace)
          (ascii "a"))[confirmations false (ascii "a") w.trace]? = some (1, 0)),
        (calls w.trace).map fun c => c.2.1,
        (w.step .resume).map fun w' => (calls w'.trace).map fun c => c.2.1)) =
      some (true, [1], some [1, 3]) := by decide +kernel
  obtain ⟨w, hw, hstate⟩ := Option.map_eq_some_iff.mp hrun
  simp only [Prod.mk.injEq, Bool.and_eq_true, Bool.not_eq_true', decide_eq_true_eq] at hstate
  obtain ⟨⟨⟨⟨⟨hreads, hcheck⟩, hignore⟩, hsubs⟩, hslot⟩, hbefore, hstep⟩ := hstate
  obtain ⟨hstack, hreply⟩ := readsConfirmation_spec hreads
  obtain ⟨w', hw', hcalls⟩ := Option.map_eq_some_iff.mp hstep
  have hunder := Transition.runsUnder_of_checked (C := ConfirmsSubscribed)
    (fun _ _ _ h hst => confirmsSubscribed_of_check h hst) hw
  refine ⟨w, w', hunder, hstack, hreply, hw', confirmsSubscribed_of_check hcheck hw', ?_⟩
  rintro ⟨s, hs, k, hslot', hconfirms⟩
  obtain ⟨hcb, rfl⟩ := Prod.mk.inj (Option.some.inj (hslot.symm.trans hslot'))
  rw [hsubs] at hs
  rcases List.mem_cons.mp hs with rfl | hs
  · have hcalled := congrArg (List.map fun c => c.2.1) hconfirms.calls
    rw [List.map_append, hbefore, hcalls, hignore] at hcalled
    exact absurd hcalled (by decide)
  · obtain rfl := List.mem_singleton.mp hs
    cases hcb

end CrazySnail
