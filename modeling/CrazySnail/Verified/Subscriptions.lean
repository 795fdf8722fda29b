import CrazySnail.Verified.Wrappers

/-! # The subscriptions of a connection

The trace tells which subscriptions a client took since its trees were last destroyed
(`subscriptions`).  In every state of a client that has not called `exit`, the trees of
names are what the library makes of these registrations, and every interval of a callback
on a name's list has a node (`reachable_subscribed`).
-/

namespace CrazySnail

open SearchTree (Tree Path registerAll registerAll_snoc)
open World

/-! ## The subscriptions -/

/-- A (p)subscribe command as the client took it. -/
structure Subscription where
  cb : Nat
  names : List Bytes
  timers : List Bytes
  fn : Option Fn
deriving DecidableEq, Repr

/-- What an entry of the trace says about the subscriptions of a variant. -/
def subscriptionsAfter (p : Bool) (subs : List Subscription) : Obs → List Subscription
  | .command (.subscribe q) argv timers fn cb =>
    if q = p then subs ++ [⟨cb, argv.tail, timers, fn⟩] else subs
  | .teardown => []
  | _ => subs

/-- The subscriptions of a variant since the trees were last destroyed, oldest first. -/
def subscriptions (p : Bool) (trace : List Obs) : List Subscription :=
  trace.foldl (subscriptionsAfter p) []

/-- What a subscription registers: its names, as C strings. -/
def Subscription.entries (s : Subscription) : List (Bytes × CbPtr) :=
  s.names.map fun name => (strdup name, .heap s.cb)

/-- The registrations of some subscriptions, in the order of the commands. -/
def registrations (subs : List Subscription) : List (Bytes × CbPtr) :=
  subs.flatMap Subscription.entries

/-- The tree of names that some subscriptions build. -/
def nameTree (subs : List Subscription) : NodeT Bytes :=
  registerAll nameCmp .fresh NodeVal.push (registrations subs)

@[simp] theorem subscriptions_snoc (p : Bool) (trace : List Obs) (o : Obs) :
    subscriptions p (trace ++ [o]) = subscriptionsAfter p (subscriptions p trace) o := by
  simp [subscriptions]

theorem Update.apply_subscriptions (p : Bool) (w : World) (u : Update)
    (hu : u.part ∉ [.obs .command, .obs .teardown]) :
    subscriptions p (u.apply w).trace = subscriptions p w.trace := by
  cases u with
  | log o =>
    simp only [apply, World.log, subscriptions_snoc]
    cases o <;> simp at hu <;> rfl
  | names p t => cases p <;> rfl
  | _ => rfl

theorem Touches.subscriptions {ks : List Part} {w w' : World} (h : Touches ks w w')
    (hks : ks.all (fun k => decide (k ∉ [.obs .command, .obs .teardown])) = true) (p : Bool) :
    subscriptions p w'.trace = subscriptions p w.trace :=
  h.same (f := fun w => CrazySnail.subscriptions p w.trace) (Update.apply_subscriptions p) hks

theorem nameTree_snoc (subs : List Subscription) (s : Subscription) :
    nameTree (subs ++ [s]) = s.names.foldl (fun t name => namesWith t s.cb name) (nameTree subs) := by
  simp only [nameTree, registrations, List.flatMap_append, List.flatMap_cons, List.flatMap_nil,
    List.append_nil, registerAll, List.foldl_append, Subscription.entries, List.foldl_map]
  rfl

/-! ## The trees -/

namespace World
variable {w : World}

/-- Every interval of a callback has a node. -/
def Known (w : World) (id : Nat) : Prop :=
  ∀ c, w.heap.cb id = some c → ∀ ch ∈ c.channels, ch.timerEvent = true →
    (w.cc.timers.lookup timerCmp ch.ikey).isSome

/-- The trees are those of the subscriptions. -/
structure Subscribed (w : World) : Prop where
  names : ∀ p, w.names p = nameTree (subscriptions p w.trace)
  known : ∀ p id, .heap id ∈ CrazySnail.wrappers (w.names p) → w.Known id

theorem setFlags_timers {chs news : List Channel} {ch : Channel} (h : ch ∈ setFlags chs news) :
    ∃ old ∈ chs, old.timerEvent = ch.timerEvent ∧ old.ikey = ch.ikey := by
  induction chs generalizing news with
  | nil => cases h
  | cons old chs ih =>
    cases news with
    | nil => exact ⟨ch, h, rfl, rfl⟩
    | cons new news =>
      rcases List.mem_cons.mp h with rfl | h
      · exact ⟨old, List.mem_cons_self, rfl, rfl⟩
      · obtain ⟨old', hold, heq⟩ := ih h
        exact ⟨old', List.mem_cons_of_mem _ hold, heq⟩

/-- A change of records that adds no slots. -/
theorem Known.heap {id : Nat} (h : w.Known id) {w' : World}
    (htimers : ∀ ikey, w'.cc.timers.lookup timerCmp ikey = w.cc.timers.lookup timerCmp ikey)
    (hheap : ∀ c', w'.heap.cb id = some c' → ∀ ch ∈ c'.channels, ∃ c, w.heap.cb id = some c ∧
      ∃ old ∈ c.channels, old.timerEvent = ch.timerEvent ∧ old.ikey = ch.ikey) : w'.Known id := by
  intro c' hc' ch hch htimer
  obtain ⟨c, hc, old, hold, hevent, hikey⟩ := hheap c' hc' ch hch
  rw [htimers, ← hikey]
  exact h c hc old hold (hevent.trans htimer)

/-- A record is replaced by one with the same intervals, or goes. -/
theorem Known.set {id i : Nat} (h : w.Known id) {w' : World} {c : Option Callback}
    (htimers : ∀ ikey, w'.cc.timers.lookup timerCmp ikey = w.cc.timers.lookup timerCmp ikey)
    (hheap : w'.heap = w.heap.set i c)
    (hc : ∀ c', c = some c' → ∀ ch ∈ c'.channels, ∃ c, w.heap.cb i = some c ∧
      ∃ old ∈ c.channels, old.timerEvent = ch.timerEvent ∧ old.ikey = ch.ikey) : w'.Known id := by
  refine h.heap htimers fun c' hc' ch hch => ?_
  rw [hheap] at hc'
  simp only [Heap.set, Function.update_apply] at hc'
  split at hc'
  next heq =>
    subst heq
    exact hc c' hc' ch hch
  · exact ⟨c', hc', ch, hch, rfl, rfl⟩

theorem Known.destroyWrapper {id : Nat} (h : w.Known id) {w' : World} {p : CbPtr} {heap : Heap}
    (htimers : ∀ ikey, w'.cc.timers.lookup timerCmp ikey = w.cc.timers.lookup timerCmp ikey)
    (hp : CrazySnail.destroyWrapper w.heap p = some heap) (hheap : w'.heap = heap) :
    w'.Known id := by
  cases p with
  | stack => cases hp
  | heap i =>
    cases hi : w.heap.cb i with
    | none => simp [CrazySnail.destroyWrapper, hi] at hp
    | some c =>
      simp only [CrazySnail.destroyWrapper, hi, Option.some.injEq] at hp
      refine h.set (i := i) htimers (hheap.trans hp.symm) fun c' hc' ch hch => ⟨c, hi, ch, ?_, rfl, rfl⟩
      split at hc'
      · cases hc'
      · cases hc'
        exact hch

/-- What adds no slots and leaves the timer tree alone. -/
theorem Known.update {id : Nat} (w : World) (u : Update) (hu : u.part ∉ [.addChannel, .timerTree])
    (h : w.Known id) : (u.apply w).Known id := by
  cases u with
  | create ref flags =>
    intro c hc ch hch
    simp only [Update.apply, newCallback, createCallback, Function.update_apply] at hc
    split at hc
    · cases hc
      cases hch
    · exact h c hc ch hch
  | attach i =>
    refine h.set (i := i) (fun _ => rfl) rfl fun c' hc' ch hch => ?_
    obtain ⟨c, hc, rfl⟩ := Option.map_eq_some_iff.mp hc'
    exact ⟨c, hc, ch, hch, rfl, rfl⟩
  | slots i chs all =>
    refine h.set (i := i) (fun _ => rfl) rfl fun c' hc' ch hch => ?_
    obtain ⟨c, hc, rfl⟩ := Option.map_eq_some_iff.mp hc'
    exact ⟨c, hc, setFlags_timers hch⟩
  | detach p =>
    cases hp : CrazySnail.destroyWrapper w.heap p with
    | none => simpa [Known, Update.apply, hp] using h
    | some heap => exact h.destroyWrapper (fun _ => rfl) hp (by simp [Update.apply, hp])
  | shift =>
    cases hp : w.cc.commandCbList.head?.bind (CrazySnail.destroyWrapper w.heap) with
    | none => simpa [Known, Update.apply, World.shift, hp] using h
    | some heap =>
      obtain ⟨p, -, hp'⟩ := Option.bind_eq_some_iff.mp hp
      exact h.destroyWrapper (fun _ => rfl) hp' (by simp [Update.apply, World.shift, hp])
  | timerData leaf b =>
    exact h.heap (fun ikey => Tree.lookup_modify _ _ _ _) fun c hc ch hch => ⟨c, hc, ch, hch, rfl, rfl⟩
  | names p t => cases p <;> exact h
  | addChannel | timerTree => simp at hu
  | _ => exact h

theorem Update.apply_names (p : Bool) (w : World) (u : Update) (hu : u.part ∉ [.names]) :
    (u.apply w).names p = w.names p := by
  cases u with
  | names p t => simp at hu
  | _ => rfl

theorem Touches.names {ks : List Part} {w w' : World} (h : Touches ks w w')
    (hks : ks.all (fun k => decide (k ∉ [.names])) = true) (p : Bool) : w'.names p = w.names p :=
  h.same (f := fun w => w.names p) (Update.apply_names p) hks

/-- What is no part of a subscription or a teardown. -/
@[simp] def subscribedParts : List Part :=
  [.addChannel, .names, .timerTree, .obs .command, .obs .teardown]

theorem Subscribed.keep {ks : List Part} {w' : World} (h : w.Subscribed) (ht : Touches ks w w')
    (hks : ks.all (fun k => decide (k ∉ subscribedParts)) = true) : w'.Subscribed := by
  have hnames := Touches.names ht (all_not_mem_mono (by simp) hks)
  refine ⟨fun p => ?_, fun p id hid => ?_⟩
  · rw [hnames, h.names p, ht.subscriptions (all_not_mem_mono (by simp) hks) p]
  · rw [hnames] at hid
    exact ht.keeps (I := fun w => w.Known id) (fun w u hu => Known.update w u hu)
      (all_not_mem_mono (by simp) hks) (h.known p id hid)

/-! ## A subscription -/

theorem subscribeName_names (q p : Bool) (cb : Nat) (w : World) (name : Bytes) :
    (subscribeName q cb w name).names p =
      if q = p then namesWith (w.names p) cb name else w.names p := by
  rw [subscribeName_eq]
  cases q <;> cases p <;> rfl

theorem subscribeTimer_names (p : Bool) (cb : Nat) (w : World) (key : Bytes) :
    (subscribeTimer cb w key).names p = w.names p := by
  cases hleaf : w.cc.timers.lookup timerCmp (timerKey key) with
  | none =>
    rw [subscribeTimer_new hleaf]
    cases p <;> rfl
  | some leaf =>
    rw [subscribeTimer_known hleaf]
    cases p <;> rfl

/-- What the two loops make of the tree of names. -/
theorem subscribe_names (q p : Bool) (cb : Nat) (names timers : List Bytes) (w : World) :
    (timers.foldl (subscribeTimer cb) (names.foldl (subscribeName q cb) w)).names p =
      if q = p then names.foldl (fun t name => namesWith t cb name) (w.names p) else w.names p := by
  have htimers : ∀ w, (timers.foldl (subscribeTimer cb) w).names p = w.names p := by
    induction timers with
    | nil => exact fun _ => rfl
    | cons key timers ih => exact fun w => (ih _).trans (subscribeTimer_names p cb w key)
  rw [htimers]
  induction names generalizing w with
  | nil => exact (ite_self _).symm
  | cons name names ih =>
    rw [List.foldl_cons, ih, subscribeName_names]
    split <;> rfl

theorem registerCommand_names (kind : Kind) (names timers : List Bytes) (fn : Option Fn)
    (flags : Bool) (p : Bool) :
    (w.registerCommand kind names timers fn flags).names p =
      if kind = .subscribe p then
        names.foldl (fun t name => namesWith t w.heap.next name) (w.names p)
      else w.names p := by
  have href : (w.refCallback fn).2.names p = w.names p :=
    Touches.names (w.refCallback_touches fn) rfl p
  unfold registerCommand
  generalize w.refCallback fn = r at href ⊢
  obtain ⟨ref, w₁⟩ := r
  cases kind with
  | subscribe q =>
    refine (subscribe_names q p _ names timers _).trans ?_
    have hnew : (w₁.newCallback ref flags).names p = w.names p := href
    simp only [hnew, Kind.subscribe.injEq]
  | unsubscribe => exact href
  | monitor => exact href
  | ordinary => exact href

theorem Known.addChannel {id cb : Nat} {ch : Channel} (h : w.Known id)
    (hch : ch.timerEvent = true → (w.cc.timers.lookup timerCmp ch.ikey).isSome) :
    (w.addChannel cb ch).Known id := by
  intro c hc ch' hch' htimer
  simp only [World.addChannel, Heap.update, Heap.set, Function.update_apply] at hc
  split at hc
  next heq =>
    obtain ⟨c', hc', rfl⟩ := Option.map_eq_some_iff.mp hc
    rcases List.mem_append.mp hch' with hold | hnew
    · exact h c' (heq ▸ hc') ch' hold htimer
    · obtain rfl := List.mem_singleton.mp hnew
      exact hch htimer
  · exact h c hc ch' hch' htimer

/-- The timer tree grows. -/
theorem Known.grow {id : Nat} {t : NodeT UInt64} (h : w.Known id)
    (ht : ∀ ikey, (w.cc.timers.lookup timerCmp ikey).isSome → (t.lookup timerCmp ikey).isSome) :
    ({ w with cc.timers := t } : World).Known id :=
  fun c hc ch hch htimer => ht _ (h c hc ch hch htimer)

theorem lookup_timersWith (t : NodeT UInt64) (cb : Nat) (ikey : UInt64) :
    ((timersWith t cb ikey).lookup timerCmp ikey).isSome ∧ ∀ ikey',
      (t.lookup timerCmp ikey').isSome → ((timersWith t cb ikey).lookup timerCmp ikey').isSome := by
  unfold timersWith
  refine ⟨?_, fun ikey' h => ?_⟩
  · rw [Tree.lookup_modify, Tree.lookup_insert_self timerCmp_lawful]
    rfl
  · obtain ⟨leaf, hleaf⟩ := Option.isSome_iff_exists.mp h
    rw [Tree.lookup_modify, Tree.lookup_insert timerCmp_lawful, hleaf]
    rfl

/-- While a callback is entered its intervals have nodes, and so have those of the others. -/
def Entering (w : World) (cb : Nat) : Prop :=
  w.Known cb ∧ ∀ p id, .heap id ∈ CrazySnail.wrappers (w.names p) → w.Known id

theorem Known.attach {id : Nat} (cb : Nat) (h : w.Known id) : (w.attach cb).Known id :=
  Known.update w (.attach cb) (by simp) h

theorem subscribeName_entering {cb : Nat} (p : Bool) (w : World) (name : Bytes)
    (h : w.Entering cb) : (subscribeName p cb w name).Entering cb := by
  have hknown : ∀ {id}, w.Known id → (subscribeName p cb w name).Known id := by
    intro id hid
    rw [subscribeName_eq]
    refine Known.attach cb ?_
    have hadd : (w.addChannel cb (createChannel name)).Known id := hid.addChannel (by simp [createChannel])
    cases p <;> exact hadd
  refine ⟨hknown h.1, fun q id hid => ?_⟩
  rw [subscribeName_names] at hid
  split at hid
  · rcases List.mem_cons.mp ((wrappers_namesWith _ cb name).mem_iff.mp hid) with heq | hold
    · cases heq
      exact hknown h.1
    · exact hknown (h.2 q id hold)
  · exact hknown (h.2 q id hid)

theorem subscribeTimer_entering {cb : Nat} (w : World) (key : Bytes) (h : w.Entering cb) :
    (subscribeTimer cb w key).Entering cb := by
  have hknown : ∀ {id}, w.Known id → (subscribeTimer cb w key).Known id := by
    intro id hid
    cases hleaf : w.cc.timers.lookup timerCmp (timerKey key) with
    | none =>
      rw [subscribeTimer_new hleaf]
      refine Known.attach cb ?_
      -- the node is there when the slot is
      obtain ⟨hself, hgrow⟩ := lookup_timersWith w.cc.timers cb (timerKey key)
      exact (hid.grow hgrow).addChannel fun _ => hself
    | some leaf =>
      rw [subscribeTimer_known hleaf]
      exact hid.addChannel fun _ => Option.isSome_of_eq_some hleaf
  refine ⟨hknown h.1, fun q id hid => ?_⟩
  rw [subscribeTimer_names] at hid
  exact hknown (h.2 q id hid)

theorem registerCommand_known
    (h : ∀ p id, .heap id ∈ CrazySnail.wrappers (w.names p) → w.Known id) (kind : Kind)
    (names timers : List Bytes) (fn : Option Fn) (flags : Bool) :
    ∀ p id, .heap id ∈ CrazySnail.wrappers
        ((w.registerCommand kind names timers fn flags).names p) →
      (w.registerCommand kind names timers fn flags).Known id := by
  have hkeep : ∀ {ks : List Part} {w' : World}, Touches ks w w' →
      ks.all (fun k => decide (k ∉ subscribedParts)) = true →
      ∀ p id, .heap id ∈ CrazySnail.wrappers (w'.names p) → w'.Known id := by
    intro ks w' ht hks p id hid
    rw [Touches.names ht (all_not_mem_mono (by simp) hks)] at hid
    exact ht.keeps (I := fun w => w.Known id) (fun w u hu => Known.update w u hu)
      (all_not_mem_mono (by simp) hks) (h p id hid)
  have href : Touches [.ref, .create] w (w.refCallback fn).2 :=
    (w.refCallback_touches fn).mono (by simp)
  have hnew := href.step (.create (w.refCallback fn).1 flags) (by simp)
  cases kind with
  | subscribe p =>
    refine (subscribe_keeps (I := fun w' => w'.Entering w.heap.next) (subscribeName_entering p)
      subscribeTimer_entering names timers ⟨?_, hkeep hnew rfl⟩).2
    -- the new record has no slots yet
    intro c hc ch hch
    obtain rfl := Option.some.inj ((newCallback_cb w fn _ _).symm.trans hc)
    cases hch
  | unsubscribe | monitor | ordinary =>
    exact hkeep (registerCommand_other (by simp) names timers fn flags) rfl

/-- What a command adds to the subscriptions. -/
theorem entered_subscriptions (w : World) (argv timers : List Bytes) (fn : Option Fn) (flags : Bool)
    (p : Bool) :
    subscriptions p (w.entered argv timers fn flags).trace =
      if classify (argv.headD []) = .subscribe p then
        subscriptions p w.trace ++ [⟨w.heap.next, argv.tail, timers, fn⟩]
      else subscriptions p w.trace := by
  have hregister := (registerCommand_touches (w.noted (classify (argv.headD [])) argv timers fn)
    (classify (argv.headD [])) argv.tail timers fn flags).subscriptions rfl p
  refine hregister.trans ?_
  have hnoted : subscriptions p (w.noted (classify (argv.headD [])) argv timers fn).trace =
      subscriptionsAfter p (subscriptions p w.trace)
        (.command (classify (argv.headD [])) argv timers fn w.heap.next) := by
    simp only [noted, World.log, subscriptions_snoc]
    rfl
  rw [hnoted]
  cases classify (argv.headD []) <;> simp [subscriptionsAfter]

theorem Subscribed.entered (h : w.Subscribed) (argv timers : List Bytes) (fn : Option Fn)
    (flags : Bool) : (w.entered argv timers fn flags).Subscribed := by
  have hnoted : (w.noted (classify (argv.headD [])) argv timers fn).names = w.names := by
    funext p
    cases p <;> rfl
  constructor
  · intro p
    rw [entered_subscriptions]
    refine (registerCommand_names (w := w.noted (classify (argv.headD [])) argv timers fn) _ _ timers
      fn flags p).trans ?_
    rw [hnoted, h.names p]
    split
    · exact (nameTree_snoc _ ⟨w.heap.next, argv.tail, timers, fn⟩).symm
    · rfl
  · refine registerCommand_known (w := w.noted (classify (argv.headD [])) argv timers fn) ?_ _ _ _ _ _
    rw [hnoted]
    exact h.known

/-- Without trees there is nothing to know. -/
theorem subscribed_null (hnames : ∀ p, w.names p = .null) (hsubs : ∀ p, subscriptions p w.trace = []) :
    w.Subscribed := by
  refine ⟨fun p => by rw [hnames, hsubs]; rfl, fun p id hid => ?_⟩
  rw [hnames] at hid
  cases hid

theorem Touches.exited {ks : List Part} {w' : World} (h : Touches ks w w')
    (hexit : w.cc.exited = true) : w'.cc.exited = true := by
  refine h.preserves (I := fun w => w.cc.exited = true) (fun w u _ hw => ?_) hexit
  cases u with
  | exited => rfl
  | names p t => cases p <;> exact hw
  | _ => exact hw

end World

/-- Only `exit` ends a client. -/
theorem step_exited {w w' : World} {e : Event} (hstep : w.step e = some w')
    (hexit : e ≠ .api .exit) : w'.cc.exited = w.cc.exited := by
  have hupdate : ∀ w (u : Update), u.part ∉ [.exited] →
      (u.apply w).cc.exited = w.cc.exited := by
    intro w u hu
    cases u with
    | exited => simp at hu
    | names p t => cases p <;> rfl
    | _ => rfl
  refine (step_touches hstep).same (f := fun w => w.cc.exited) hupdate ?_
  generalize w.stack.head?.map Frame.tag = top
  cases e with
  | api c =>
    cases c with
    | exit => exact absurd rfl hexit
    | _ => rfl
  | resume =>
    cases top with
    | none => rfl
    | some tag => cases tag <;> rfl
  | _ => rfl

/-- **The trees follow the subscriptions in every step** of a client that does not exit. -/
theorem step_subscribed {w w' : World} {e : Event} (hstep : w.step e = some w') (hcounts : w.Counts)
    (h : w.cc.exited = true ∨ w.Subscribed) : w'.cc.exited = true ∨ w'.Subscribed := by
  rcases h with hexit | h
  · exact .inl (Touches.exited (step_touches hstep) hexit)
  cases step_ownership hstep with
  | quiet ht hks => exact .inr (h.keep ht (all_not_mem_mono (by simp) hks))
  | @command args env argv timers hfault hcollect =>
    rw [luaClientCommand_eq hcollect]
    exact .inr ((h.entered argv timers (callbackOf args) env.flags).keep
      (sendCommand_touches _ _ _ _ _ _) rfl)
  | teardown ht heq =>
    subst heq
    have hcc := (destroyAll_spec (hcounts.keep ht rfl)).2
    refine .inr (Subscribed.keep (subscribed_null (fun p => ?_) fun p => ?_)
      (callHandler_touches _ _ _ _) rfl)
    · cases p <;> simp [names, World.log, hcc]
    · simp [World.log, subscriptionsAfter]
  | exit _ hexit ht' => exact .inl (Touches.exited ht' (Touches.exited (destroyAll_touches _) hexit))

/-- **The trees of a client** hold the subscriptions of its connection. -/
theorem reachable_subscribed {w : World} (h : Reachable w) (hexit : w.cc.exited = false) :
    w.Subscribed := by
  obtain ⟨ignore, hreach⟩ := h
  have hinv : w.Counts ∧ (w.cc.exited = true ∨ w.Subscribed) := by
    refine hreach.invariant (I := fun w => w.Counts ∧ (w.cc.exited = true ∨ w.Subscribed))
      (fun _ _ _ hw hst => ⟨step_counts hst hw.1, step_subscribed hst hw.1 hw.2⟩) ⟨?_, .inr ?_⟩
    · exact reachable_counts ⟨ignore, [], rfl⟩
    · exact subscribed_null (fun p => by cases p <;> rfl) fun _ => rfl
  rcases hinv.2 with htrue | hsub
  · rw [hexit] at htrue
    cases htrue
  · exact hsub

end CrazySnail
