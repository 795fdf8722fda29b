import CrazySnail.Verified.Subscriptions

/-! # The records of subscriptions

Every subscription of a connection has a record of its own, with a slot for each of its
names and then one for each of its timers (`reachable_recorded`).
-/

namespace CrazySnail

open SearchTree (Tree Path)
open World

/-- A slot without its flag. -/
def Channel.blank (ch : Channel) : Channel := { ch with subscribed := false }

/-- The slots of a subscription. -/
def Subscription.slots (s : Subscription) : List Channel :=
  s.names.map createChannel ++ s.timers.map fun key => createTimerChannel (timerKey key)

namespace World
variable {w : World}

/-- A record has these slots, if it is still there, and no new record replaces it. -/
def HasSlots (w : World) (id : Nat) (slots : List Channel) : Prop :=
  id < w.heap.next ∧ ∀ c, w.heap.cb id = some c → c.channels.map Channel.blank = slots

structure Recorded (w : World) : Prop where
  shaped : ∀ p, ∀ s ∈ subscriptions p w.trace, w.HasSlots s.cb s.slots
  nodup : ((subscriptions false w.trace).map Subscription.cb ++
    (subscriptions true w.trace).map Subscription.cb).Nodup

theorem setFlags_blank (chs news : List Channel) :
    (setFlags chs news).map Channel.blank = chs.map Channel.blank := by
  induction chs generalizing news with
  | nil => rfl
  | cons ch chs ih =>
    cases news with
    | nil => rfl
    | cons new news => exact congrArg₂ List.cons rfl (ih news)

/-- What holds of the slots of a record, if it is still there, and no new record replaces it. -/
def Holds (w : World) (id : Nat) (P : List Channel → Prop) : Prop :=
  id < w.heap.next ∧ ∀ c, w.heap.cb id = some c → P c.channels

/-- A record is replaced by one with slots of which the same holds, or goes. -/
theorem Holds.set {id i : Nat} {P : List Channel → Prop} (h : w.Holds id P) {w' : World}
    {c : Option Callback} (hheap : w'.heap = w.heap.set i c)
    (hc : ∀ c', c = some c' → ∃ c, w.heap.cb i = some c ∧ (P c.channels → P c'.channels)) :
    w'.Holds id P := by
  refine ⟨by rw [hheap]; exact h.1, fun c' hc' => ?_⟩
  rw [hheap] at hc'
  simp only [Heap.set, Function.update_apply] at hc'
  split at hc'
  next heq =>
    subst heq
    obtain ⟨c'', hc'', hkeep⟩ := hc c' hc'
    exact hkeep (h.2 c'' hc'')
  · exact h.2 c' hc'

theorem Holds.destroyWrapper {id : Nat} {P : List Channel → Prop} (h : w.Holds id P) {w' : World}
    {p : CbPtr} {heap : Heap} (hp : CrazySnail.destroyWrapper w.heap p = some heap)
    (hheap : w'.heap = heap) : w'.Holds id P := by
  cases p with
  | stack => cases hp
  | heap i =>
    cases hi : w.heap.cb i with
    | none => simp [CrazySnail.destroyWrapper, hi] at hp
    | some c =>
      simp only [CrazySnail.destroyWrapper, hi, Option.some.injEq] at hp
      refine h.set (hheap.trans hp.symm) fun c' hc' => ⟨c, hi, ?_⟩
      split at hc'
      · cases hc'
      · cases hc'
        exact fun hP => hP

/-- What neither adds nor marks a slot. -/
theorem Holds.update {id : Nat} {P : List Channel → Prop} (w : World) (u : Update)
    (hu : u.part ∉ [.addChannel, .slots]) (h : w.Holds id P) : (u.apply w).Holds id P := by
  cases u with
  | create ref flags =>
    refine ⟨Nat.lt_succ_of_lt h.1, fun c hc => ?_⟩
    simp only [Update.apply, newCallback, createCallback,
      Function.update_of_ne (Nat.ne_of_lt h.1)] at hc
    exact h.2 c hc
  | attach i =>
    refine h.set (i := i) rfl fun c' hc' => ?_
    obtain ⟨c, hc, rfl⟩ := Option.map_eq_some_iff.mp hc'
    exact ⟨c, hc, fun hP => hP⟩
  | detach p =>
    cases hp : CrazySnail.destroyWrapper w.heap p with
    | none => simpa [Holds, Update.apply, hp] using h
    | some heap => exact h.destroyWrapper hp (by simp [Update.apply, hp])
  | shift =>
    cases hp : w.cc.commandCbList.head?.bind (CrazySnail.destroyWrapper w.heap) with
    | none => simpa [Holds, Update.apply, World.shift, hp] using h
    | some heap =>
      obtain ⟨p, -, hp'⟩ := Option.bind_eq_some_iff.mp hp
      exact h.destroyWrapper hp' (by simp [Update.apply, World.shift, hp])
  | names p t => cases p <;> exact h
  | addChannel | slots => simp at hu
  | _ => exact h

/-- What adds no slots. -/
theorem HasSlots.update {id : Nat} {slots : List Channel} (w : World) (u : Update)
    (hu : u.part ∉ [.addChannel]) (h : w.HasSlots id slots) : (u.apply w).HasSlots id slots := by
  have hholds : w.Holds id fun chs => chs.map Channel.blank = slots := h
  cases u with
  | slots i chs all =>
    refine hholds.set (i := i) rfl fun c' hc' => ?_
    obtain ⟨c, hc, rfl⟩ := Option.map_eq_some_iff.mp hc'
    exact ⟨c, hc, fun heq => (setFlags_blank _ _).trans heq⟩
  | addChannel => simp at hu
  | _ => exact Holds.update w _ (by simp) hholds

/-- What is no part of a subscription or a teardown. -/
@[simp] def recordedParts : List Part := [.addChannel, .obs .command, .obs .teardown]

theorem Recorded.keep {ks : List Part} {w' : World} (h : w.Recorded) (ht : Touches ks w w')
    (hks : ks.all (fun k => decide (k ∉ recordedParts)) = true) : w'.Recorded := by
  have hsubs := ht.subscriptions (all_not_mem_mono (by simp) hks)
  refine ⟨fun p s hs => ?_, by rw [hsubs, hsubs]; exact h.nodup⟩
  exact ht.keeps (I := fun w => w.HasSlots s.cb s.slots) (fun w u hu => HasSlots.update w u hu)
    (all_not_mem_mono (by simp) hks) (h.shaped p s (hsubs p ▸ hs))

/-! ## A subscription -/

/-- The record of a callback after its slots have been filled. -/
theorem subscribe_record {cb : Nat} (p : Bool) (names timers : List Bytes) {c : Callback}
    (hc : w.heap.cb cb = some c) :
    let w' := timers.foldl (subscribeTimer cb) (names.foldl (subscribeName p cb) w)
    (∃ n, w'.heap.cb cb = some { c with
      attach := c.attach + n
      channels := c.channels ++ (names.map createChannel ++
        timers.map fun key => createTimerChannel (timerKey key)) }) ∧
      w'.heap.next = w.heap.next ∧ ∀ id ≠ cb, w'.heap.cb id = w.heap.cb id := by
  have hadd : ∀ {w : World} {c : Callback} (ch : Channel), w.heap.cb cb = some c →
      (w.addChannel cb ch).heap.cb cb = some { c with channels := c.channels ++ [ch] } ∧
        ∀ id ≠ cb, (w.addChannel cb ch).heap.cb id = w.heap.cb id := fun ch hc =>
    ⟨by simp [World.addChannel, Heap.update, Heap.set, hc],
      fun id hid => Function.update_of_ne hid _ _⟩
  have hattach : ∀ {w : World} {c : Callback}, w.heap.cb cb = some c →
      (w.attach cb).heap.cb cb = some { c with attach := c.attach + 1 } ∧
        ∀ id ≠ cb, (w.attach cb).heap.cb id = w.heap.cb id := fun hc =>
    ⟨by simp [World.attach, Heap.update, Heap.set, hc],
      fun id hid => Function.update_of_ne hid _ _⟩
  have htimers : ∀ {w : World} {c : Callback}, w.heap.cb cb = some c →
      (∃ n, (timers.foldl (subscribeTimer cb) w).heap.cb cb = some { c with
        attach := c.attach + n
        channels := c.channels ++ timers.map fun key => createTimerChannel (timerKey key) }) ∧
        (timers.foldl (subscribeTimer cb) w).heap.next = w.heap.next ∧
        ∀ id ≠ cb, (timers.foldl (subscribeTimer cb) w).heap.cb id = w.heap.cb id := by
    induction timers with
    | nil => exact fun hc => ⟨⟨0, by simpa using hc⟩, rfl, fun _ _ => rfl⟩
    | cons key timers ih =>
      intro w c hc
      obtain ⟨hadd₁, hother₁⟩ := hadd (createTimerChannel (timerKey key)) hc
      -- only a new interval takes a hold on the record
      cases hleaf : w.cc.timers.lookup timerCmp (timerKey key) with
      | none =>
        rw [List.foldl_cons, subscribeTimer_new hleaf]
        obtain ⟨hattach₁, hother₂⟩ := hattach (w := { w.addChannel cb
          (createTimerChannel (timerKey key)) with
          cc.timers := timersWith w.cc.timers cb (timerKey key) }) hadd₁
        obtain ⟨⟨n, hn⟩, hnext, hother⟩ := ih hattach₁
        refine ⟨⟨n + 1, ?_⟩, hnext, fun id hid =>
          (hother id hid).trans ((hother₂ id hid).trans (hother₁ id hid))⟩
        rw [hn]
        simp [Nat.add_assoc, Nat.add_comm 1]
      | some leaf =>
        rw [List.foldl_cons, subscribeTimer_known hleaf]
        obtain ⟨⟨n, hn⟩, hnext, hother⟩ := ih hadd₁
        refine ⟨⟨n, ?_⟩, hnext, fun id hid => (hother id hid).trans (hother₁ id hid)⟩
        rw [hn]
        simp
  induction names generalizing w c with
  | nil =>
    simpa only [List.foldl_nil, List.map_nil, List.nil_append] using htimers hc
  | cons name names ih =>
    obtain ⟨hadd₁, hother₁⟩ := hadd (createChannel name) hc
    obtain ⟨hattach₁, hother₂⟩ := hattach (w := (w.addChannel cb (createChannel name)).setNames p
      (namesWith (w.names p) cb name)) (by cases p <;> exact hadd₁)
    obtain ⟨⟨n, hn⟩, hnext, hother⟩ := ih hattach₁
    dsimp only
    rw [List.foldl_cons, subscribeName_eq]
    have hsame : ∀ id, ((w.addChannel cb (createChannel name)).setNames p
        (namesWith (w.names p) cb name)).heap.cb id =
        (w.addChannel cb (createChannel name)).heap.cb id := fun id => by cases p <;> rfl
    refine ⟨⟨n + 1, ?_⟩, hnext.trans (by cases p <;> rfl), fun id hid =>
      (hother id hid).trans ((hother₂ id hid).trans ((hsame id).trans (hother₁ id hid)))⟩
    rw [hn]
    simp [Nat.add_assoc, Nat.add_comm 1]

/-- A subscription makes one record and changes no other. -/
theorem registerCommand_record (p : Bool) (names timers : List Bytes) (fn : Option Fn)
    (flags : Bool) :
    let w' := w.registerCommand (.subscribe p) names timers fn flags
    (∃ n, w'.heap.cb w.heap.next = some ⟨(w.refCallback fn).1, flags, n,
      names.map createChannel ++ timers.map fun key => createTimerChannel (timerKey key)⟩) ∧
      w'.heap.next = w.heap.next + 1 ∧ ∀ id ≠ w.heap.next, w'.heap.cb id = w.heap.cb id := by
  obtain ⟨⟨n, hn⟩, hnext, hother⟩ := subscribe_record p names timers
    (newCallback_cb w fn (w.refCallback fn).1 flags)
  have hheap := w.refCallback_heap fn
  simp only [Nat.zero_add, List.nil_append] at hn
  refine ⟨⟨n, hn⟩, hnext.trans (by simp [newCallback, createCallback, hheap]),
    fun id hid => (hother id hid).trans ?_⟩
  simp [newCallback, createCallback, hheap, hid]

theorem Holds.register {id : Nat} {P : List Channel → Prop} (h : w.Holds id P) (kind : Kind)
    (names timers : List Bytes) (fn : Option Fn) (flags : Bool) :
    (w.registerCommand kind names timers fn flags).Holds id P := by
  cases kind with
  | subscribe p =>
    obtain ⟨-, hnext, hother⟩ := registerCommand_record (w := w) p names timers fn flags
    refine ⟨hnext ▸ Nat.lt_succ_of_lt h.1, fun c hc => h.2 c ?_⟩
    rwa [hother id (Nat.ne_of_lt h.1)] at hc
  | unsubscribe | monitor | ordinary =>
    exact (registerCommand_other (by simp) names timers fn flags).keeps
      (I := fun w => w.Holds id P) (fun w u hu => Holds.update w u hu) rfl h

/-- The slots of older records stay. -/
theorem Holds.entered {id : Nat} {P : List Channel → Prop} (h : w.Holds id P)
    (argv timers : List Bytes) (fn : Option Fn) (flags : Bool) :
    (w.entered argv timers fn flags).Holds id P :=
  Holds.register (w := w.noted (classify (argv.headD [])) argv timers fn) h _ _ _ _ _

theorem Recorded.entered (h : w.Recorded) (argv timers : List Bytes) (fn : Option Fn)
    (flags : Bool) : (w.entered argv timers fn flags).Recorded := by
  have hold : ∀ p, ∀ s ∈ subscriptions p w.trace,
      (w.entered argv timers fn flags).HasSlots s.cb s.slots := fun p s hs =>
    Holds.entered (P := fun chs => chs.map Channel.blank = s.slots) (h.shaped p s hs) _ _ _ _
  -- the identifier of the new record has not been used before
  have hfresh : ∀ p, w.heap.next ∉ (subscriptions p w.trace).map Subscription.cb := by
    intro p hmem
    obtain ⟨s, hs, hcb⟩ := List.mem_map.mp hmem
    exact Nat.ne_of_lt (h.shaped p s hs).1 hcb
  constructor
  · intro p s hs
    rw [entered_subscriptions] at hs
    split at hs
    next hkind =>
      rcases List.mem_append.mp hs with hs | hs
      · exact hold p s hs
      · obtain rfl := List.mem_singleton.mp hs
        obtain ⟨⟨n, hn⟩, hnext, -⟩ := registerCommand_record (w := w.noted _ argv timers fn) p
          argv.tail timers fn flags
        unfold World.entered
        rw [hkind]
        refine ⟨hnext ▸ Nat.lt_succ_self _, fun c hc => ?_⟩
        obtain rfl := Option.some.inj (hn.symm.trans hc)
        simp only [Subscription.slots, List.map_append, List.map_map]
        rfl
    · exact hold p s hs
  · rw [entered_subscriptions, entered_subscriptions]
    have hnodup := h.nodup
    cases hkind : classify (argv.headD []) with
    | subscribe p =>
      cases p with
      | false =>
        simp only [if_true, Kind.subscribe.injEq, Bool.false_eq_true, if_false, List.map_append,
          List.map_cons, List.map_nil, List.append_assoc, List.singleton_append]
        refine List.perm_middle.nodup_iff.mpr (List.nodup_cons.mpr ⟨?_, hnodup⟩)
        exact fun hmem => (List.mem_append.mp hmem).elim (hfresh false) (hfresh true)
      | true =>
        simp only [if_true, Kind.subscribe.injEq, Bool.true_eq_false, if_false, List.map_append,
          List.map_cons, List.map_nil]
        rw [← List.append_assoc]
        refine (List.perm_append_singleton _ _).nodup_iff.mpr (List.nodup_cons.mpr ⟨?_, hnodup⟩)
        exact fun hmem => (List.mem_append.mp hmem).elim (hfresh false) (hfresh true)
    | unsubscribe | monitor | ordinary => simpa using hnodup

end World

/-- **Every subscription keeps its record** in every step. -/
theorem step_recorded {w w' : World} {e : Event} (hstep : w.step e = some w') (h : w.Recorded) :
    w'.Recorded := by
  cases step_ownership hstep with
  | quiet ht hks => exact h.keep ht (all_not_mem_mono (by simp) hks)
  | @command args env argv timers hfault hcollect =>
    rw [luaClientCommand_eq hcollect]
    exact (h.entered argv timers (callbackOf args) env.flags).keep (sendCommand_touches _ _ _ _ _ _) rfl
  | @teardown h₁ w₁ _ ht heq =>
    subst heq
    have hnone : ∀ p, subscriptions p (w₁.destroyAll.log .teardown).trace = [] := fun p => by
      simp [World.log, subscriptionsAfter]
    have hempty : (w₁.destroyAll.log .teardown).Recorded := by
      refine ⟨fun p s hs => ?_, ?_⟩
      · rw [hnone] at hs
        cases hs
      · rw [hnone, hnone]
        exact List.nodup_nil
    exact hempty.keep (callHandler_touches _ _ _ _) rfl
  | exit ht _ ht' => exact ((h.keep ht rfl).keep (destroyAll_touches _) rfl).keep ht' rfl

/-- **The subscriptions of a client have their records**, one each. -/
theorem reachable_recorded {w : World} (h : Reachable w) : w.Recorded := by
  obtain ⟨ignore, hreach⟩ := h
  exact hreach.invariant (I := World.Recorded) (fun _ _ _ hw hst => step_recorded hst hw)
    ⟨fun _ _ hs => absurd hs List.not_mem_nil, List.nodup_nil⟩

end CrazySnail
