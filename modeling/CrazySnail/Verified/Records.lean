import CrazySnail.Verified.Confirming
import CrazySnail.Verified.SubscriptionRecords

/-! # Records of callbacks

The client changes a record in three ways: it fills the slots of a new one, counts its
wrappers, and marks its slots on a confirmation.  A property that survives these holds of
every record in every state (`reachable_records`); one that depends on how a record is filled
holds of every record in the runs that fill them so (`step_records`).
-/

namespace CrazySnail

open World

/-- A property of records that everything keeps but the command that fills a new one. -/
structure OfFilled (P : Callback → Prop) : Prop where
  empty : ∀ ref flags, P ⟨ref, flags, 0, []⟩
  attach : ∀ c n, P c → P { c with attach := n }
  marked : ∀ c sname, P c → c.initialized = false → P { c with
    channels := (markSlots sname c.channels false).1
    initialized := (markSlots sname c.channels false).1.all Channel.subscribed }

/-- A property of records that the functions of the client keep. -/
structure OfRecords (P : Callback → Prop) : Prop where
  fresh : ∀ ref flags attach slots, (∀ ch ∈ slots, ch.subscribed = false) →
    P ⟨ref, flags, attach, slots⟩
  attach : ∀ c n, P c → P { c with attach := n }
  marked : ∀ c sname, P c → c.initialized = false → P { c with
    channels := (markSlots sname c.channels false).1
    initialized := (markSlots sname c.channels false).1.all Channel.subscribed }

/-- A property that does not depend on the wrappers of a record, or only on there being some. -/
structure OfWrappers (P : Callback → Prop) : Prop where
  attach : ∀ c, P c → P { c with attach := c.attach + 1 }
  detach : ∀ c, P c → c.attach ≠ 1 → P { c with attach := c.attach - 1 }

theorem OfFilled.wrappers {P : Callback → Prop} (hP : OfFilled P) : OfWrappers P :=
  ⟨fun c h => hP.attach c _ h, fun c h _ => hP.attach c _ h⟩

theorem OfRecords.filled {P : Callback → Prop} (hP : OfRecords P) : OfFilled P :=
  ⟨fun ref flags => hP.fresh ref flags 0 [] fun _ hch => absurd hch List.not_mem_nil, hP.attach,
    hP.marked⟩

/-- The slots of a new record are not subscribed. -/
theorem slots_unsubscribed {names timers : List Bytes} :
    ∀ ch ∈ names.map createChannel ++ timers.map fun key => createTimerChannel (timerKey key),
      ch.subscribed = false := by
  intro ch hch
  rcases List.mem_append.mp hch with hname | htimer
  · obtain ⟨name, -, rfl⟩ := List.mem_map.mp hname
    rfl
  · obtain ⟨key, -, rfl⟩ := List.mem_map.mp htimer
    rfl

namespace World
variable {w : World} {P : Callback → Prop}

def Records (w : World) (P : Callback → Prop) : Prop := ∀ id c, w.heap.cb id = some c → P c

theorem Records.set (h : w.Records P) {w' : World} (id : Nat) {c : Option Callback}
    (hheap : w'.heap = w.heap.set id c) (hc : ∀ c', c = some c' → P c') : w'.Records P := by
  intro i c' hi
  rw [hheap] at hi
  simp only [Heap.set, Function.update_apply] at hi
  split at hi
  · exact hc c' hi
  · exact h i c' hi

theorem Records.destroyWrapper (hP : OfWrappers P) (h : w.Records P) {w' : World} {p : CbPtr}
    {heap : Heap} (hp : CrazySnail.destroyWrapper w.heap p = some heap) (hheap : w'.heap = heap) :
    w'.Records P := by
  cases p with
  | stack => cases hp
  | heap id =>
    cases hid : w.heap.cb id with
    | none => simp [CrazySnail.destroyWrapper, hid] at hp
    | some c =>
      simp only [CrazySnail.destroyWrapper, hid, Option.some.injEq] at hp
      refine h.set id (hheap.trans hp.symm) fun c' hc' => ?_
      split at hc'
      · cases hc'
      next hone =>
        cases hc'
        exact hP.detach c (h id c hid) hone

/-- What makes no record, and neither adds nor marks a slot. -/
theorem Records.count (hP : OfWrappers P) (w : World) (u : Update)
    (hu : u.part ∉ [.create, .addChannel, .slots]) (h : w.Records P) : (u.apply w).Records P := by
  cases u with
  | attach id =>
    refine h.set id rfl fun c' hc' => ?_
    obtain ⟨c, hc, rfl⟩ := Option.map_eq_some_iff.mp hc'
    exact hP.attach c (h id c hc)
  | detach p =>
    cases hp : CrazySnail.destroyWrapper w.heap p with
    | none => simpa [Records, Update.apply, hp] using h
    | some heap => exact h.destroyWrapper hP hp (by simp [Update.apply, hp])
  | shift =>
    cases hp : w.cc.commandCbList.head?.bind (CrazySnail.destroyWrapper w.heap) with
    | none => simpa [Records, Update.apply, World.shift, hp] using h
    | some heap =>
      obtain ⟨p, -, hp'⟩ := Option.bind_eq_some_iff.mp hp
      exact h.destroyWrapper hP hp' (by simp [Update.apply, World.shift, hp])
  | names p t => cases p <;> exact h
  | create | addChannel | slots => simp at hu
  | _ => exact h

/-- What neither adds nor marks a slot. -/
theorem Records.update (hP : OfFilled P) (w : World) (u : Update)
    (hu : u.part ∉ [.addChannel, .slots]) (h : w.Records P) : (u.apply w).Records P := by
  by_cases hcreate : u.part = .create
  · cases u with
    | create ref flags =>
      intro id c hid
      simp only [Update.apply, newCallback, createCallback, Function.update_apply] at hid
      split at hid
      · cases hid
        exact hP.empty ref flags
      · exact h id c hid
    | _ => simp at hcreate
  · exact h.count hP.wrappers w u fun hmem => (List.mem_cons.mp hmem).elim hcreate hu

theorem Records.keep (hP : OfFilled P) (h : w.Records P) {ks : List Part} {w' : World}
    (ht : Touches ks w w')
    (hks : ks.all (fun k => decide (k ∉ [.addChannel, .slots])) = true) : w'.Records P :=
  ht.keeps (fun w u hu => Records.update hP w u hu) hks h

/-- A command makes a record with the slots of its names and timers. -/
theorem Records.entered (hP : OfFilled P) (h : w.Records P) (argv timers : List Bytes)
    (fn : Option Fn) (flags : Bool)
    (hnew : ∀ p, classify (argv.headD []) = .subscribe p → ∀ ref attach,
      P ⟨ref, flags, attach, argv.tail.map createChannel ++
        timers.map fun key => createTimerChannel (timerKey key)⟩) :
    (w.entered argv timers fn flags).Records P := by
  have hnoted : (w.noted (classify (argv.headD [])) argv timers fn).Records P := h
  unfold World.entered
  cases hkind : classify (argv.headD []) with
  | subscribe p =>
    rw [hkind] at hnoted
    obtain ⟨⟨n, hn⟩, -, hother⟩ := registerCommand_record (w := w.noted (.subscribe p) argv timers fn)
      p argv.tail timers fn flags
    intro id c hid
    by_cases heq : id = (w.noted (.subscribe p) argv timers fn).heap.next
    · subst heq
      obtain rfl := Option.some.inj (hn.symm.trans hid)
      exact hnew p hkind _ _
    · exact hnoted id c ((hother id heq).symm.trans hid)
  | unsubscribe | monitor | ordinary =>
    rw [hkind] at hnoted
    exact hnoted.keep hP (registerCommand_other (by simp) argv.tail timers fn flags) rfl

/-- A confirmation marks records. -/
theorem Records.getAndCallSubCb (hP : OfFilled P) (h : w.Records P) (reply : Reply) :
    (w.getAndCallSubCb reply).Records P := by
  have hdispatched := getAndCallSubCb_dispatched w reply
  generalize w.getAndCallSubCb reply = w' at hdispatched ⊢
  cases hdispatched with
  | ignored _ => exact h
  | malformed _ _ => exact h
  | unknown _ _ _ => exact h
  | unused _ _ _ _ _ => exact h
  | @confirmation _ sname _ _ _ _ _ _ _ _ _ =>
    refine confirm_keeps (I := fun w => w.Records P) (fun w u hu hne hw => ?_)
      (fun w id c hw hc hinit => ?_) h
    · exact Records.update hP w u (by cases u <;> simp at hu hne ⊢) hw
    · rw [marked_eq hc]
      refine hw.set id rfl fun c' hc' => ?_
      obtain ⟨c'', hc'', rfl⟩ := Option.map_eq_some_iff.mp hc'
      obtain rfl := Option.some.inj (hc.symm.trans hc'')
      have hmarked := hP.marked c sname (hw id c hc) hinit
      rwa [hinit, Bool.false_or]
  | event _ _ _ _ _ => exact h.keep hP (eventLoop_touches _ _ _ _ _) rfl

end World

/-- **One step**, if the property holds of the record that it fills. -/
theorem step_records {P : Callback → Prop} (hP : OfFilled P) {w w' : World} {e : Event}
    (hstep : w.step e = some w')
    (hnew : ∀ args env argv timers p, e = .api (.command args env) →
      collect args = .ok argv timers → classify (argv.headD []) = .subscribe p → ∀ ref attach,
        P ⟨ref, env.flags, attach, argv.tail.map createChannel ++
          timers.map fun key => createTimerChannel (timerKey key)⟩)
    (h : w.Records P) : w'.Records P := by
  have htouches := step_touches hstep
  obtain ⟨-, hs⟩ := step_cases hstep
  cases hs with
  | api c _ =>
    cases c with
    | command args env =>
      change (w.luaClientCommand args env).Records P
      cases hcollect : collect args with
      | raise | fault => exact h.keep hP (w.luaClientCommand_refused env (by simp [hcollect])) rfl
      | ok argv timers =>
        rw [luaClientCommand_eq hcollect]
        have hentered := h.entered hP argv timers (callbackOf args) env.flags
          fun p => hnew args env argv timers p rfl hcollect
        exact hentered.keep hP (sendCommand_touches _ _ _ _ _ _) rfl
    | _ => exact h.keep hP htouches rfl
  | @resume f rest hstack _ =>
    cases f with
    -- a round of the loop is followed branch by branch, since it may confirm
    | readLoop h₁ subMode cb =>
      have hpop : ({ w with stack := rest } : World).Records P := h
      have hround := readLoop_round { w with stack := rest } h₁ subMode cb
      change (({ w with stack := rest } : World).readLoop h₁ subMode cb).Records P
      generalize ({ w with stack := rest } : World).readLoop h₁ subMode cb = w' at hround ⊢
      cases hround with
      | exited _ => exact hpop
      | failed _ _ => exact hpop
      | stored _ _ => exact hpop
      | disconnecting _ _ => exact hpop
      | @ended reader _ _ =>
        have hreader : ({ w with stack := rest, cc.reader := reader } : World).Records P := h
        exact hreader.keep hP (endRead_touches _ h₁ subMode) rfl
      | @reply reader reply _ _ =>
        have hreplied : (World.replied { w with stack := rest } reader false reply).Records P := h
        exact hreplied.keep hP (dispatchReply_touches _ h₁ cb reply) rfl
      | subError _ _ => exact hpop
      | @subReply reader reply _ _ =>
        have hreplied : ((World.replied { w with stack := rest } reader true reply).push
            (.readLoop h₁ true cb)).Records P := h
        exact hreplied.getAndCallSubCb hP reply
    | _ =>
      rw [hstack] at htouches
      exact h.keep hP htouches rfl
  | _ => exact h.keep hP htouches rfl

/-- **Invariant rule** for the records of a client. -/
theorem reachable_records {P : Callback → Prop} (hP : OfRecords P) {w : World} (h : Reachable w) :
    w.Records P := by
  obtain ⟨ignore, hreach⟩ := h
  refine hreach.invariant (I := fun w => w.Records P) (fun _ _ _ hw hst => ?_)
    fun _ _ hc => by cases hc
  exact step_records hP.filled hst
    (fun _ _ _ _ _ _ _ _ ref attach => hP.fresh ref _ attach _ slots_unsubscribed) hw

/-! ## The flag of `exit` -/

theorem Touches.exited_eq {ks : List Part} {w w' : World} (h : Touches ks w w')
    (hks : ks.all (fun k => decide (k ∉ [.exited])) = true) : w'.cc.exited = w.cc.exited := by
  refine h.same (f := fun w => w.cc.exited) (fun w u hu => ?_) hks
  cases u with
  | exited => simp at hu
  | names p t => cases p <;> rfl
  | _ => rfl

end CrazySnail
