import CrazySnail.Verified.Assertions
import CrazySnail.Verified.RequestBlocks
import CrazySnail.Verified.SubscriptionRecords
import CrazySnail.Verified.TimerNodes

/-! # Who owns a timer

`insert_timer` reports `SNAIL_OK` for an interval that has a node, and `lua_client_command`
takes that for a failure: the slot of the second subscriber is not marked, and its
confirmation starts another timer, which replaces the first one at the node.  While every
interval is subscribed to once, each active timer belongs to one node, and a teardown stops it
(`timersOwned`).
-/

namespace CrazySnail

open SearchTree (Tree Path)
open Transition World

/-! ## Ownership -/

/-- The timers of a client belong to the nodes of its timer tree. -/
structure TimersOwned (w : World) : Prop where
  /-- an active timer is the data of exactly one node, and repeats at the interval of the node -/
  owned : ∀ b t, w.uv.timers b = some t → t.active = true →
    ∃ p val, w.cc.timers.get? p = some (t.rep, val) ∧ val.data = some b ∧
      ∀ p' k val', w.cc.timers.get? p' = some (k, val') → val'.data = some b → p' = p
  /-- a teardown leaves no timer active -/
  stopped : ∀ h w', w.step (.closed h) = some w' → w.TearsDown h →
    ∀ b t, w'.uv.timers b = some t → t.active = false
  /-- a tick that is not ignored finds its node -/
  found : ∀ b t timeout w', w.uv.timers b = some t → w.step (.tick b timeout) = some w' →
    w.cc.flags.disconnecting = false → ∃ p, searchTimer t.rep w.cc.timers = some p

/-- A subscription names no interval twice and none that has a node, and a write is accepted
    only while the client is not ending. -/
def OncePerInterval (w : World) (e : Event) (_ : World) : Prop :=
  match e with
  | .api (.command args env) => ∀ argv timers, collect args = .ok argv timers →
      (∀ p, classify (argv.headD []) = .subscribe p → (timers.map timerKey).Nodup ∧
        ∀ key ∈ timers, searchTimer (timerKey key) w.cc.timers = none) ∧
      (w.sending.ending = true → ¬w.sending.Accepts (classify (argv.headD [])).subMode env.error)
  | _ => True

/-! ## The slots -/

namespace World
variable {w : World}

/-- Every interval of a subscription has a node of its own, whose timer runs exactly if the slot
    is marked. -/
structure HasNodes (w : World) (s : Subscription) : Prop where
  nodup : (s.timers.map timerKey).Nodup
  node : ∀ key ∈ s.timers, ∃ p val, w.cc.timers.get? p = some (timerKey key, val) ∧
    val.cbList = [.heap s.cb] ∧ w.Holds s.cb fun chs => ∀ ch ∈ chs, ch.timerEvent = true →
      ch.ikey = timerKey key → ch.subscribed = val.data.isSome

theorem HasNodes.keep {s : Subscription} (h : w.HasNodes s) {ks : List Part} {w' : World}
    (ht : Touches ks w w')
    (hks : ks.all (fun k => decide (k ∉ [.addChannel, .slots, .timerTree, .timerData])) = true) :
    w'.HasNodes s := by
  have hsame : ∀ (v : World) (u : Update), u.part ∉ [.timerTree, .timerData] →
      (u.apply v).cc.timers = v.cc.timers := by
    intro v u hu
    cases u with
    | names p t => cases p <;> rfl
    | timerTree | timerData => simp at hu
    | _ => rfl
  have htree : w'.cc.timers = w.cc.timers :=
    ht.same (f := fun w => w.cc.timers) hsame (all_not_mem_mono (by simp) hks)
  refine ⟨h.nodup, fun key hkey => ?_⟩
  obtain ⟨p, val, hget, hlist, hholds⟩ := h.node key hkey
  exact ⟨p, val, htree ▸ hget, hlist, ht.keeps (I := fun w => w.Holds s.cb _)
    (fun w u hu => Holds.update w u hu) (all_not_mem_mono (by simp) hks) hholds⟩

/-- The slots of a record are those of its subscription. -/
theorem Recorded.timerSlots (h : w.Recorded) {p : Bool} {s : Subscription}
    (hs : s ∈ subscriptions p w.trace) {c : Callback} (hc : w.heap.cb s.cb = some c) :
    (c.channels.filter Channel.timerEvent).map Channel.ikey = s.timers.map timerKey := by
  have hblank := (h.shaped p s hs).2 c hc
  have hkeep : (c.channels.map Channel.blank).filter Channel.timerEvent =
      (c.channels.filter Channel.timerEvent).map Channel.blank := List.filter_map ..
  have hslots : (s.slots.filter Channel.timerEvent).map Channel.ikey = s.timers.map timerKey := by
    simp only [Subscription.slots, List.filter_append, List.map_append, List.filter_map]
    simp [Function.comp_def, createChannel, createTimerChannel]
  rw [← hblank, hkeep, List.map_map] at hslots
  exact hslots

/-- A timer slot of a record is at an interval of its subscription. -/
theorem Recorded.slot_key (h : w.Recorded) {p : Bool} {s : Subscription}
    (hs : s ∈ subscriptions p w.trace) {c : Callback} (hc : w.heap.cb s.cb = some c) {ch : Channel}
    (hch : ch ∈ c.channels) (htimer : ch.timerEvent = true) :
    ∃ key ∈ s.timers, timerKey key = ch.ikey := by
  have hmem : ch.ikey ∈ (c.channels.filter Channel.timerEvent).map Channel.ikey :=
    List.mem_map_of_mem (List.mem_filter.mpr ⟨hch, htimer⟩)
  rw [h.timerSlots hs hc] at hmem
  exact List.mem_map.mp hmem

/-! ### Confirmations -/

/-- What the confirmation loop keeps, with the subscriptions there are. -/
structure Confirming (subs : Bool → List Subscription) (w : World) : Prop where
  held : w.TimersHeld
  recorded : w.Recorded
  same : ∀ p, subscriptions p w.trace = subs p
  nodes : ∀ p, ∀ s ∈ subs p, w.HasNodes s

variable {subs : Bool → List Subscription}

theorem Confirming.keep (h : Confirming subs w) {ks : List Part} {w' : World} (ht : Touches ks w w')
    (hks : ks.all (fun k => decide (k ∉ timersHeldParts ++ poolParts ++
      [.addChannel, .slots, .obs .command, .obs .teardown])) = true) : Confirming subs w' := by
  have hsubs := ht.subscriptions (all_not_mem_mono (by simp) hks)
  refine ⟨h.held.keep ht (all_not_mem_mono (by simp) hks),
    h.recorded.keep ht (all_not_mem_mono (by simp) hks), fun p => (hsubs p).trans (h.same p),
    fun p s hs => ?_⟩
  exact (h.nodes p s hs).keep ht (all_not_mem_mono (by simp [timersHeldParts]) hks)

/-- A visit starts the timers of a record and marks its slots. -/
theorem Confirming.visit (h : Confirming subs w) {p : Bool} {s : Subscription} (hs : s ∈ subs p)
    {c : Callback} (hc : w.heap.cb s.cb = some c) (sname : Bytes) :
    Confirming subs ((confirmChannels sname c.channels false w).2.2.marked s.cb sname c) := by
  have hs' : s ∈ subscriptions p w.trace := (h.same p).symm ▸ hs
  have hkeys := h.recorded.timerSlots hs' hc
  have hown := h.nodes p s hs
  have hslot : ∀ ch ∈ c.channels, ch.timerEvent = true →
      ∃ q val, w.cc.timers.get? q = some (ch.ikey, val) ∧ ch.subscribed = val.data.isSome := by
    intro ch hch htimer
    obtain ⟨key, hkey, heq⟩ := h.recorded.slot_key hs' hc hch htimer
    obtain ⟨q, val, hget, -, hholds⟩ := hown.node key hkey
    exact ⟨q, val, heq ▸ hget, hholds.2 c hc ch hch htimer heq.symm⟩
  obtain ⟨hheld, hstarted⟩ := h.held.confirmChannels sname false hslot (hkeys ▸ hown.nodup)
  rw [hkeys] at hstarted
  have htouches := w.confirmChannels_touches sname c.channels false
  generalize (confirmChannels sname c.channels false w).2.2 = w₁ at hheld hstarted htouches ⊢
  have hheap : w₁.heap = w.heap := (startTimer_same htouches).2.2.1
  have hslots : Touches [.slots] w₁ (w₁.marked s.cb sname c) :=
    .of [.slots s.cb (markSlots sname c.channels false).1
      ((markSlots sname c.channels false).1.all Channel.subscribed)] rfl rfl
  refine ⟨hheld.keep hslots rfl, (h.recorded.keep htouches rfl).keep hslots rfl, fun q =>
    (hslots.subscriptions rfl q).trans ((htouches.subscriptions rfl q).trans (h.same q)),
    fun q s' hs'' => ?_⟩
  have hnodes := h.nodes q s' hs''
  refine ⟨hnodes.nodup, fun key hkey => ?_⟩
  obtain ⟨leaf, val, hget, hlist, hlt, hholds⟩ := hnodes.node key hkey
  obtain ⟨data, hget', hdata⟩ := (hstarted leaf).2 _ val hget
  refine ⟨leaf, ⟨val.cbList, data⟩, hget', hlist, ?_, fun c' hc' ch hch htimer hikey => ?_⟩
  · change s'.cb < w₁.heap.next
    rw [hheap]
    exact hlt
  · rw [marked_eq (hheap ▸ hc)] at hc'
    simp only [hheap, Heap.update, Heap.set, Function.update_apply] at hc'
    change ch.subscribed = data.isSome
    rw [hdata]
    split at hc'
    next hcb =>
      -- the record that is visited: all its timers run now
      rw [hc] at hc'
      cases hc'
      have hold : ch ∈ setFlags c.channels (markSlots sname c.channels false).1 := by
        rw [markSlots_flags]
        exact hch
      obtain ⟨old, hold, htimer', hikey'⟩ := setFlags_timers hold
      have hmem : timerKey key ∈ s.timers.map timerKey := by
        rw [← hkeys, ← hikey, ← hikey']
        exact List.mem_map_of_mem (List.mem_filter.mpr ⟨hold, htimer'.trans htimer⟩)
      rw [markSlots_timer hch htimer, decide_eq_true hmem, Bool.or_true]
    next hcb =>
      -- another record: its intervals are others
      have hother : timerKey key ∉ s.timers.map timerKey := fun hmem => by
        obtain ⟨key', hkey', heq⟩ := List.mem_map.mp hmem
        obtain ⟨leaf', val', hget'', hlist', -⟩ := hown.node key' hkey'
        rw [heq] at hget''
        obtain rfl := Option.some.inj ((h.held.keyed leaf' _ _ hget'').symm.trans
          (h.held.keyed leaf _ _ hget))
        rw [hget] at hget''
        obtain ⟨-, rfl⟩ := Prod.mk.inj (Option.some.inj hget'')
        rw [hlist] at hlist'
        exact hcb (CbPtr.heap.inj (List.cons.inj hlist').1)
      rw [decide_eq_false hother, Bool.or_false]
      exact hholds c' hc' ch hch htimer hikey

/-- A reply on the subscription stream. -/
theorem Confirming.getAndCallSubCb (h : Confirming subs w) (hsub : w.Subscribed) (reply : Reply) :
    Confirming subs (w.getAndCallSubCb reply) := by
  have hcrash : ∀ (v : World) f, Confirming subs v → Confirming subs (v.crash f) := fun v f hv =>
    hv.keep (crash_touches v f) rfl
  have hdispatched := getAndCallSubCb_dispatched w reply
  generalize w.getAndCallSubCb reply = w' at hdispatched ⊢
  cases hdispatched with
  | ignored _ => exact h
  | malformed _ _ => exact hcrash w _ h
  | unknown _ _ _ => exact hcrash w _ h
  | unused _ _ _ _ _ => exact hcrash w _ h
  | @confirmation stype sname rest leaf key val _ _ hleaf hget _ =>
    refine confirm_visits (I := Confirming subs)
      (fun v fn args hv => hv.keep (pcall_touches v .confirmation fn args) rfl) hcrash
      (fun v id c hid hv hc _ => ?_) h
    obtain ⟨s, hs, heq⟩ := hsub.entry hleaf hget hid
    cases heq
    exact hv.visit (h.same _ ▸ hs) hc sname
  | event _ _ _ _ _ => exact h.keep (eventLoop_touches _ _ _ _ _) rfl

/-! ## Steps -/

/-- The invariant of a client whose subscriptions have nodes of their own. -/
structure TimersKept (w : World) : Prop where
  held : w.TimersHeld
  nodes : w.cc.exited = false → ∀ p, ∀ s ∈ subscriptions p w.trace, w.HasNodes s

/-- What changes the pool alone. -/
theorem TimersKept.of_pool (h : w.TimersKept) {ks : List Part} {w' : World} (ht : Touches ks w w')
    (hks : ks.all (fun k => decide (k ∉ timersHeldParts ++
      [.addChannel, .slots, .obs .command, .obs .teardown])) = true)
    (hpool : w'.Holding [] (dataBlocks w.cc.timers)) : w'.TimersKept := by
  have hsubs := ht.subscriptions (all_not_mem_mono (by simp) hks)
  refine ⟨h.held.of_pool ht (all_not_mem_mono (by simp) hks) hpool, fun hexit p s hs => ?_⟩
  have hrunning : w.cc.exited = false := by
    cases hw : w.cc.exited with
    | false => rfl
    | true => rw [Touches.exited ht hw] at hexit; cases hexit
  exact (h.nodes hrunning p s (hsubs p ▸ hs)).keep ht
    (all_not_mem_mono (by simp [timersHeldParts]) hks)

theorem TimersKept.keep (h : w.TimersKept) {ks : List Part} {w' : World} (ht : Touches ks w w')
    (hks : ks.all (fun k => decide (k ∉ timersHeldParts ++ poolParts ++
      [.addChannel, .slots, .obs .command, .obs .teardown])) = true) : w'.TimersKept :=
  h.of_pool ht (all_not_mem_mono (by simp) hks)
    (h.held.holding.keep ht (all_not_mem_mono (by simp) hks))

/-- The nodes of a client stay when a command is entered. -/
theorem entered_node (h : Keyed w.cc.timers) (argv timers : List Bytes) (fn : Option Fn)
    (flags : Bool) {p : Path} {kv : UInt64 × NodeVal} (hget : w.cc.timers.get? p = some kv) :
    (w.entered argv timers fn flags).cc.timers.get? p = some kv := by
  cases hkind : classify (argv.headD []) with
  | subscribe q =>
    rw [w.entered_timers hkind]
    exact (added_foldl w.heap.next h (timers.map timerKey)).kept p kv hget
  | unsubscribe | monitor | ordinary =>
    have hother : ∀ p, classify (argv.headD []) ≠ .subscribe p := by
      rw [hkind]
      exact fun _ heq => by cases heq
    rw [w.entered_timers_other hother]
    exact hget

/-- A command whose intervals are new. -/
theorem TimersKept.entered (h : w.TimersKept) {argv timers : List Bytes}
    (hnew : ∀ p, classify (argv.headD []) = .subscribe p → (timers.map timerKey).Nodup ∧
      ∀ key ∈ timers, searchTimer (timerKey key) w.cc.timers = none)
    (fn : Option Fn) (flags : Bool) : (w.entered argv timers fn flags).TimersKept := by
  refine ⟨h.held.entered argv timers fn flags, fun hexit p s hs => ?_⟩
  have hrunning : w.cc.exited = false := by
    cases hw : w.cc.exited with
    | false => rfl
    | true => rw [Touches.exited (w.entered_touches argv timers fn flags) hw] at hexit; cases hexit
  have hold : ∀ s ∈ subscriptions p w.trace, (w.entered argv timers fn flags).HasNodes s := by
    intro s hs
    have hnodes := h.nodes hrunning p s hs
    refine ⟨hnodes.nodup, fun key hkey => ?_⟩
    obtain ⟨leaf, val, hget, hlist, hholds⟩ := hnodes.node key hkey
    exact ⟨leaf, val, entered_node h.held.keyed argv timers fn flags hget, hlist, hholds.entered ..⟩
  rw [entered_subscriptions] at hs
  split at hs
  next hkind =>
    rcases List.mem_append.mp hs with hs | hs
    · exact hold s hs
    · obtain rfl := List.mem_singleton.mp hs
      obtain ⟨hnodup, hnone⟩ := hnew p hkind
      have hadded := added_foldl w.heap.next h.held.keyed (timers.map timerKey)
      refine ⟨hnodup, fun key hkey => ?_⟩
      obtain ⟨leaf, hleaf⟩ := hadded.node (List.mem_map_of_mem hkey)
        (searchTimer_eq _ _ ▸ hnone key hkey) h.held.keyed
      refine ⟨leaf, _, (w.entered_timers hkind timers fn flags).symm ▸ hleaf, rfl, ?_⟩
      -- the slots of the new record are not marked
      obtain ⟨⟨n, hn⟩, hnext, -⟩ := registerCommand_record (w := w.noted _ argv timers fn) p
        argv.tail timers fn flags
      unfold World.entered
      rw [hkind]
      refine ⟨hnext ▸ Nat.lt_succ_self _, fun c hc ch hch htimer _ => ?_⟩
      obtain rfl := Option.some.inj (hn.symm.trans hc)
      rcases List.mem_append.mp hch with hname | htime
      · obtain ⟨name, -, rfl⟩ := List.mem_map.mp hname
        cases htimer
      · obtain ⟨key', -, rfl⟩ := List.mem_map.mp htime
        rfl
  · exact hold s hs

/-- The trees are destroyed. -/
theorem TimersKept.destroyed (h : w.TimersKept) (hcounts : w.Counts) {ks : List Part} {w' : World}
    (ht : Touches ks w.destroyAll w')
    (hks : ks.all (fun k => decide (k ∉ timersHeldParts ++ poolParts)) = true)
    (hgone : w'.cc.exited = true ∨ ∀ p, subscriptions p w'.trace = []) : w'.TimersKept := by
  refine ⟨(h.held.destroyAll hcounts).keep ht hks, fun hexit p s hs => ?_⟩
  obtain htrue | hnone := hgone
  · rw [hexit] at htrue
    cases htrue
  · rw [hnone] at hs
    cases hs

theorem TimersKept.readLoop (h : w.TimersKept) (hsub : w.cc.exited = false → w.Subscribed)
    (hrecorded : w.Recorded) (h₁ : Handle) (subMode : Bool) (cb : LuaRef) :
    (w.readLoop h₁ subMode cb).TimersKept := by
  cases hexit : w.cc.exited with
  | true =>
    simp only [World.readLoop, hexit, if_true]
    exact h.keep (crash_touches w .deadClient) rfl
  | false =>
    have hread : ∀ reader, Touches [.reader] w { w with cc.reader := reader } := fun reader =>
      .of [.reader reader] rfl rfl
    have hreader : ∀ reader, ({ w with cc.reader := reader } : World).TimersKept := fun reader =>
      h.keep (hread reader) rfl
    have hreplied : ∀ reader subMode reply, Touches [.reader, .obs .reply, .frame .readLoop] w
        ((w.replied reader subMode reply).push (.readLoop h₁ true cb)) := fun reader subMode reply =>
      .of [.reader reader, .log (.reply subMode reply), .push (.readLoop h₁ true cb)] rfl rfl
    have hround := readLoop_round w h₁ subMode cb
    generalize w.readLoop h₁ subMode cb = w' at hround ⊢
    cases hround with
    | exited htrue =>
      rw [hexit] at htrue
      cases htrue
    | failed _ _ => exact hreader _
    | @stored reader _ _ _ =>
      have hcrashed : Touches [.reader, .fault] w
          (({ w with cc.reader := reader } : World).crash .nullElement) :=
        .of [.reader reader, .crash .nullElement] rfl rfl
      exact h.keep hcrashed rfl
    | disconnecting _ _ => exact hreader _
    | @ended reader _ _ => exact (hreader reader).keep (endRead_touches _ h₁ subMode) rfl
    | @reply reader reply _ _ =>
      have hlog : Touches [.reader, .obs .reply] w (w.replied reader false reply) :=
        .of [.reader reader, .log (.reply false reply)] rfl rfl
      exact (h.keep hlog rfl).keep (dispatchReply_touches _ h₁ cb reply) rfl
    | subError _ _ => exact h.keep (hreplied _ _ _) rfl
    | @subReply reader reply _ _ =>
      have htouches := hreplied reader true reply
      have hkept := h.keep htouches rfl
      -- a reply on the subscription stream may start timers
      have hconfirming : Confirming (fun p => subscriptions p w.trace)
          ((w.replied reader true reply).push (.readLoop h₁ true cb)) :=
        ⟨hkept.held, hrecorded.keep htouches rfl, htouches.subscriptions rfl,
          fun p s hs => hkept.nodes hexit p s ((htouches.subscriptions rfl p).symm ▸ hs)⟩
      have hdone := hconfirming.getAndCallSubCb ((hsub hexit).keep htouches rfl) reply
      exact ⟨hdone.held, fun _ p s hs => hdone.nodes p s (hdone.same p ▸ hs)⟩

end World

/-- **One step.** -/
theorem step_timers {w w' : World} {e : Event} (hreach : CrazySnail.Reachable w)
    (hstep : w.step e = some w') (honce : OncePerInterval w e w') (h : w.TimersKept) :
    w'.TimersKept := by
  have hcounts := reachable_counts hreach
  have htouches := step_touches hstep
  obtain ⟨hfault, hs⟩ := step_cases hstep
  cases hs with
  | api c _ =>
    cases c with
    | on event fn => exact h.keep htouches rfl
    | connect => exact h.of_pool htouches rfl h.held.holding.luaClientConnect
    | command args env =>
      change (w.luaClientCommand args env).TimersKept
      cases hcollect : collect args with
      | raise | fault => exact h.keep (w.luaClientCommand_refused env (by simp [hcollect])) rfl
      | ok argv timers =>
        obtain ⟨hnew, hending⟩ := honce argv timers hcollect
        have hentered := h.entered hnew (callbackOf args) env.flags
        rw [luaClientCommand_eq hcollect]
        refine hentered.of_pool (sendCommand_touches _ _ _ _ _ _) rfl
          (hentered.held.holding.sendCommand _ _ _ ?_)
        rw [(w.entered_touches argv timers (callbackOf args) env.flags).sending rfl]
        exact hending
    | disconnect => exact h.keep htouches rfl
    | exit =>
      change w.luaClientExit.TimersKept
      obtain ht | ⟨-, -, w₁, ht, hexit, ht'⟩ := luaClientExit_cases w
      · exact h.keep ht rfl
      · exact (h.keep ht rfl).destroyed (hcounts.keep ht rfl) ht' rfl
          (.inl (Touches.exited ht' (Touches.exited (destroyAll_touches _) hexit)))
  | ret ok hstack => exact h.keep htouches rfl
  | @resume f rest hstack _ =>
    cases f with
    | readLoop h₁ subMode cb =>
      have hpop : Touches [.pop] w { w with stack := rest } :=
        .of [.pop] (by simp [Update.apply, hstack]) rfl
      exact (h.keep hpop rfl).readLoop
        (fun hexit => (reachable_subscribed hreach hexit).keep hpop rfl)
        ((reachable_recorded hreach).keep hpop rfl) h₁ subMode cb
    | _ =>
      rw [hstack] at htouches
      exact h.keep htouches rfl
  | read h₁ data cb _ _ => exact h.keep htouches rfl
  | readError h₁ nread _ _ _ => exact h.keep htouches rfl
  | @written i req status readStart _ hreq _ _ _ =>
    exact h.of_pool htouches rfl ((h.held.holding.finish hreq).onWrite status readStart)
  | @connected i req status _ hreq _ _ _ =>
    exact h.of_pool htouches rfl (h.held.holding.connectCompleted hreq status)
  | @closed h₁ s _ _ _ _ _ =>
    obtain ht | ⟨w₁, ht, heq⟩ := onDisconnect_cases w h₁
    · exact h.keep ht rfl
    · rw [heq]
      -- the teardown stops the timers of the tree and forgets the subscriptions
      have hlog : Touches [.obs .teardown, .top, .frame .lua, .obs (.call .disconnect)] w₁.destroyAll
          ((w₁.destroyAll.log .teardown).callHandler .disconnect w.cc.rDisconnectCb []) :=
        (Touches.of [.log .teardown] rfl rfl).trans
          ((callHandler_touches _ _ _ _).mono (by simp))
      refine (h.keep ht rfl).destroyed (hcounts.keep ht rfl) hlog rfl (.inr fun p => ?_)
      rw [(callHandler_touches _ _ _ _).subscriptions rfl]
      simp [World.log, subscriptionsAfter]
  | @tick b t timeout _ ht hactive =>
    -- a timer that has fired is still the one of its node
    have hfired : (w.fired b t).TimersKept :=
      have hrepeats : Touches [.fired] w (w.fired b t) := .of [.fired b t] rfl rfl
      ⟨h.held.fired ht hactive, fun hexit p s hs => (h.nodes hexit p s hs).keep hrepeats rfl⟩
    exact hfired.keep (onTimer_touches _ _ _) rfl

theorem timersHeld_new (ignoreSubCmdReply : Bool) : (World.new ignoreSubCmdReply).TimersHeld where
  holding := ⟨List.nodup_nil, fun b hb => absurd hb List.not_mem_nil⟩
  active _ _ ht := by cases ht
  started _ _ _ _ hget := by simp [World.new] at hget
  keyed _ _ _ hget := by simp [World.new] at hget
  bare p := by cases p <;> rfl

/-- The timers of a run that subscribes to every interval once. -/
theorem timersKept {ignoreSubCmdReply : Bool} {w : World} {es : List Event}
    (hrun : RunsUnder World.step OncePerInterval (World.new ignoreSubCmdReply) es w) :
    w.TimersKept := by
  have hinv := hrun.invariant (I := fun w => CrazySnail.Reachable w ∧ w.TimersKept)
    (fun _ _ _ h hstep honce => ⟨h.1.extend hstep, step_timers h.1 hstep honce h.2⟩)
    ⟨⟨ignoreSubCmdReply, [], rfl⟩, timersHeld_new _, fun _ _ s hs => absurd hs List.not_mem_nil⟩
  exact hinv.2

/-- A teardown leaves no timer tree. -/
theorem teardown_timers {w : World} (hcounts : w.Counts) (site : Site) (r : LuaRef)
    (args : List LuaValue) :
    ((w.destroyAll.log .teardown).callHandler site r args).cc.timers = .null := by
  have hcall : ((w.destroyAll.log .teardown).callHandler site r args).cc.timers =
      w.destroyAll.cc.timers :=
    (callHandler_touches _ site r args).eq (f := fun w => w.cc.timers)
      fun w u hu => by cases u <;> simp at hu <;> rfl
  rw [hcall]
  exact congrArg ClientContext.timers (destroyAll_spec hcounts).2

theorem tearsDown_timers {w : World} (hcounts : w.Counts) {h : Handle} (htears : w.TearsDown h) :
    ((w.log (.closed h)).onDisconnect h).cc.timers = .null := by
  have hbefore : Touches beforeTeardown w (Update.apply (Update.apply
      ((w.log (.closed h)).freeStream h) (.streamFlags (Handling.down w.cc.streamFlags)))
      (.raise .freeing)) :=
    .of [.log (.closed h), .stream .free h, .log (.freed h),
      .streamFlags (Handling.down w.cc.streamFlags), .raise .freeing] rfl rfl
  rw [onDisconnect_tearsDown htears, teardown_eq]
  exact teardown_timers (hcounts.keep hbefore rfl) _ _ _

/-- A close callback keeps the timers, or stops them all. -/
theorem World.TimersHeld.closed {w w' : World} (h : w.TimersHeld) (hcounts : w.Counts) {h₁ : Handle}
    (hstep : w.step (.closed h₁) = some w') : w'.TimersHeld := by
  cases (step_cases hstep).2 with
  | closed =>
    obtain ht | ⟨w₁, ht, heq⟩ := onDisconnect_cases w h₁
    · exact h.keep ht rfl
    · have hdestroyed := (h.keep ht rfl).destroyAll (hcounts.keep ht rfl)
      have hlog : Touches [.obs .teardown, .top, .frame .lua, .obs (.call .disconnect)] w₁.destroyAll
          ((w₁.destroyAll.log .teardown).callHandler .disconnect w.cc.rDisconnectCb []) :=
        (Touches.of [.log .teardown] rfl rfl).trans
          ((callHandler_touches _ _ _ _).mono (by simp))
      exact heq ▸ hdestroyed.keep hlog rfl

/-- The timers of the nodes are all there are, and a teardown stops them. -/
theorem World.TimersHeld.owned {w : World} (hreach : CrazySnail.Reachable w) (hheld : w.TimersHeld) :
    TimersOwned w := by
  refine ⟨fun b t ht hactive => ?_, fun h w' hstep htears b t ht => ?_,
    fun b t timeout w' ht hstep _ => ?_⟩
  · obtain ⟨p, val, hget, hdata⟩ := hheld.active b t ht hactive
    have hnodup : (dataBlocks w.cc.timers).Nodup :=
      (List.nodup_append.mp (List.nodup_append.mp hheld.holding.nodup).2.1).2.1
    exact ⟨p, val, hget, hdata, fun p' k val' hget' hdata' =>
      dataBlocks_unique hnodup hget hdata hget' hdata'⟩
  · have hheld' := hheld.closed (reachable_counts hreach) hstep
    have htree : w'.cc.timers = .null := by
      cases (step_cases hstep).2 with
      | closed => exact tearsDown_timers (reachable_counts hreach) htears
    cases hactive : t.active with
    | false => rfl
    | true =>
      obtain ⟨p, val, hget, -⟩ := hheld'.active b t ht hactive
      rw [htree] at hget
      simp at hget
  · cases (step_cases hstep).2 with
    | tick timeout _ ht' hactive =>
      obtain rfl := Option.some.inj (ht.symm.trans ht')
      obtain ⟨p, val, hget, -⟩ := hheld.active b t ht hactive
      exact ⟨p, (searchTimer_eq _ _).trans (hheld.keyed p _ _ hget)⟩

/-- **Timer ownership and teardown.**  While every interval is subscribed to once, active timers
    belong to nodes, a teardown stops them, and ticks find their nodes. -/
theorem timersOwned {ignoreSubCmdReply : Bool} {w : World} {es : List Event}
    (hrun : RunsUnder World.step OncePerInterval (World.new ignoreSubCmdReply) es w) :
    TimersOwned w :=
  (timersKept hrun).held.owned ⟨ignoreSubCmdReply, hrun.reachable⟩

def onceCheck (w : World) : Event → Bool
  | .api (.command args _) => !w.sending.ending &&
    match collect args with
    | .ok _ timers => decide (timers.map timerKey).Nodup &&
      timers.all fun key => (searchTimer (timerKey key) w.cc.timers).isNone
    | _ => true
  | _ => true

theorem oncePerInterval_of_check {w w' : World} {e : Event} (h : onceCheck w e = true) :
    OncePerInterval w e w' := by
  cases e with
  | api c =>
    cases c with
    | command args env =>
      intro argv timers hcollect
      simp only [onceCheck, hcollect, Bool.and_eq_true, Bool.not_eq_true', decide_eq_true_eq,
        List.all_eq_true, Option.isNone_iff_eq_none] at h
      obtain ⟨hending, hnodup, hnone⟩ := h
      refine ⟨fun _ _ => ⟨hnodup, hnone⟩, fun htrue => ?_⟩
      rw [hending] at htrue
      cases htrue
    | _ => trivial
  | _ => trivial

/-- Two subscriptions of different intervals, and the confirmation of the first. -/
def twoIntervals : List Event :=
  confirmedRun false ++
    [.api (.command [.string (ascii "subscribe"), .string (ascii "b"),
      .string (ascii "__timer@0__:70"), .function 2] ⟨0, false⟩)]

theorem timersOwned_twoIntervals :
    ∃ w, runs (World.new true) twoIntervals = some w ∧ TimersOwned w ∧
      ((w.uv.timers 1).map fun t => (t.active, t.rep)) = some (true, 50) := by
  have hrun : (runChecked World.step onceCheck (World.new true) twoIntervals).map
      (fun w => (w.uv.timers 1).map fun t => (t.active, t.rep)) = some (some (true, 50)) := by
    decide +kernel
  obtain ⟨w, hw, hstate⟩ := Option.map_eq_some_iff.mp hrun
  have hunder := runsUnder_of_checked (C := OncePerInterval)
    (fun _ _ _ h _ => oncePerInterval_of_check h) hw
  exact ⟨w, hunder.run_eq, timersOwned hunder, hstate⟩

/-- A second subscription of the same interval, confirmed. -/
def sameInterval : List Event :=
  confirmedRun false ++
    [.api (.command [.string (ascii "subscribe"), .string (ascii "b"),
      .string (ascii "__timer@0__:50"), .function 2] ⟨0, false⟩),
     .written 0 0 0, .read 1 (ascii "*3\r\n$9\r\nsubscribe\r\n$1\r\nb\r\n:2\r\n") .noref,
     .resume, .resume]

/-- Its timer replaces the first one at the node, and both are active. -/
theorem timersOwned_fails :
    ∃ w, runs (World.new true) sameInterval = some w ∧ dataBlocks w.cc.timers = [0] ∧
      w.uv.timers 0 = some ⟨50, true⟩ ∧ w.uv.timers 1 = some ⟨50, true⟩ ∧ ¬TimersOwned w := by
  have hrun : (runs (World.new true) sameInterval).map
      (fun w => (dataBlocks w.cc.timers, w.uv.timers 0, w.uv.timers 1)) =
      some ([0], some ⟨50, true⟩, some ⟨50, true⟩) := by decide +kernel
  obtain ⟨w, hw, hstate⟩ := Option.map_eq_some_iff.mp hrun
  simp only [Prod.mk.injEq] at hstate
  obtain ⟨hdata, hsecond, hfirst⟩ := hstate
  refine ⟨w, hw, hdata, hsecond, hfirst, fun h => ?_⟩
  obtain ⟨p, val, hget, hval, -⟩ := h.owned 1 _ hfirst rfl
  have hmem : 1 ∈ dataBlocks w.cc.timers := mem_dataBlocks.mpr ⟨p, _, val, hget, hval⟩
  rw [hdata] at hmem
  simp at hmem

end CrazySnail
