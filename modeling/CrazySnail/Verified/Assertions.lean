import CrazySnail.Verified.Confirming
import CrazySnail.Verified.Subscriptions

/-! # The assertions of the dispatch

A reply of a conforming server names something the client subscribed to on the connection.
`get_and_call_sub_cb` finds the node of the name, with a list that is not empty, and the
node of every interval whose timer it starts (`dispatchSafe`).
-/

namespace CrazySnail

open SearchTree (Tree Path registerAll firstMatch sharing lookup_registerAll firstMatch_eq_none
  sharing_ne_nil)
open World

/-! ## Conforming replies -/

/-- The faults that are failed assertions of the dispatch. -/
def Fault.isAssertion : Fault → Bool
  | .searchAssert | .searchTimerAssert | .emptyListAssert | .replyAssert => true
  | _ => false

/-- The arrays a server sends on the subscription stream: about a name that was subscribed
    to on the connection, or an (p)unsubscribe confirmation. -/
inductive Conforming (w : World) : Reply → Prop
  | unsubscribe {stype : Bytes} {element : Reply} {rest : List Reply} :
      subKind stype = .unsubscribe → Conforming w (.array (.string stype :: element :: rest))
  | named {stype name : Bytes} {rest : List Reply} {s : Subscription} :
      s ∈ subscriptions (isPvariant stype) w.trace → name ∈ s.names →
      Conforming w (.array (.string stype :: .string name :: rest))

/-- What the dispatch of a conforming reply comes to: a lookup ends at a node with entries,
    and no assertion fails. -/
structure DispatchSafe (w w' : World) (reply : Reply) : Prop where
  found : ∀ stype name rest, reply = .array (.string stype :: .string name :: rest) →
    subKind stype ≠ .unsubscribe → ∃ leaf key val,
      search name (w.names (isPvariant stype)) = some leaf ∧
      (w.names (isPvariant stype)).get? leaf = some (key, val) ∧ val.cbList ≠ []
  holds : ∀ f, w'.fault = some f → f.isAssertion = false

/-! ## Lookups -/

/-- A lookup among names runs off the tree or ends at the node of the first match, whose list
    has the callbacks that share it. -/
theorem lookup_nameTree (subs : List Subscription) (name : Bytes) :
    ((nameTree subs).lookup nameCmp name = none ∧
        firstMatch nameCmp (registrations subs) name = none) ∨
      ∃ leaf m val, (nameTree subs).lookup nameCmp name = some leaf ∧
        (nameTree subs).get? leaf = some (m, val) ∧
        firstMatch nameCmp (registrations subs) name = some m ∧
        val.cbList = sharing nameCmp (registrations subs) m := by
  have hspec := @lookup_registerAll _ _ _ nameCmp .fresh NodeVal.push NodeVal.cbList _ nameCmp_lawful
    rfl (fun _ _ => rfl) (registrations subs) name
  rw [show registerAll nameCmp .fresh NodeVal.push (registrations subs) = nameTree subs from rfl]
    at hspec
  cases hlookup : (nameTree subs).lookup nameCmp name with
  | none =>
    rw [hlookup] at hspec
    exact .inl ⟨rfl, hspec⟩
  | some leaf =>
    rw [hlookup] at hspec
    obtain ⟨m, val, hspec⟩ := hspec
    exact .inr ⟨leaf, m, val, rfl, hspec⟩

theorem nameTree_get {subs : List Subscription} {name : Bytes} {leaf : Path}
    (h : (nameTree subs).lookup nameCmp name = some leaf) :
    ∃ m val, (nameTree subs).get? leaf = some (m, val) ∧
      firstMatch nameCmp (registrations subs) name = some m ∧
      val.cbList = sharing nameCmp (registrations subs) m := by
  obtain ⟨hnone, -⟩ | ⟨leaf', m, val, hleaf, hspec⟩ := lookup_nameTree subs name
  · rw [h] at hnone
    cases hnone
  · obtain rfl : leaf = leaf' := Option.some.inj (h.symm.trans hleaf)
    exact ⟨m, val, hspec⟩

theorem registrations_append (subs new : List Subscription) :
    registrations (subs ++ new) = registrations subs ++ registrations new :=
  List.flatMap_append

/-- A name is found where the first match of another one is, when it has the same. -/
theorem nameTree_lookup_iff {subs : List Subscription} {name m : Bytes} {leaf : Path} {val : NodeVal}
    (h : (nameTree subs).lookup nameCmp name = some leaf)
    (hget : (nameTree subs).get? leaf = some (m, val)) (name' : Bytes) :
    (nameTree subs).lookup nameCmp name' = some leaf ↔
      firstMatch nameCmp (registrations subs) name' = some m := by
  constructor
  · intro h'
    obtain ⟨m', val', hget', hfirst, -⟩ := nameTree_get h'
    rw [hget] at hget'
    cases hget'
    exact hfirst
  · intro hfirst
    obtain ⟨-, hnone⟩ | ⟨leaf', m', val', hleaf', hget', hfirst', -⟩ := lookup_nameTree subs name'
    · rw [hnone] at hfirst
      cases hfirst
    · obtain rfl : m' = m := Option.some.inj (hfirst'.symm.trans hfirst)
      -- both searches end where that of the match ends
      have hkey := Tree.lookup_key nameCmp_lawful h hget
      have hkey' := Tree.lookup_key nameCmp_lawful hleaf' hget'
      rw [hleaf', ← hkey', hkey]

/-- The list of a node after more subscriptions: those to names that are found there are added. -/
theorem nameTree_append {subs : List Subscription} {name m : Bytes} {leaf : Path} {val : NodeVal}
    (h : (nameTree subs).lookup nameCmp name = some leaf)
    (hget : (nameTree subs).get? leaf = some (m, val)) (new : List Subscription) :
    (nameTree (subs ++ new)).lookup nameCmp name = some leaf ∧
      ∃ val', (nameTree (subs ++ new)).get? leaf = some (m, val') ∧
        val'.cbList = val.cbList ++ ((registrations new).filter fun r =>
          (nameTree subs).lookup nameCmp r.1 = some leaf).map Prod.snd := by
  have hlookup : (nameTree (subs ++ new)).lookup nameCmp name = some leaf := by
    rw [nameTree, registrations_append]
    exact SearchTree.lookup_registerAll_append nameCmp_lawful h _
  obtain ⟨m₁, val₁, hget₁, hfirst₁, hlist₁⟩ := nameTree_get h
  obtain ⟨rfl, rfl⟩ : m = m₁ ∧ val = val₁ := by
    rw [hget] at hget₁
    cases hget₁
    exact ⟨rfl, rfl⟩
  have hself := SearchTree.firstMatch_idem nameCmp_lawful hfirst₁
  obtain ⟨m', val', hget', hfirst', hlist'⟩ := nameTree_get hlookup
  obtain rfl : m = m' := by
    rw [registrations_append, SearchTree.firstMatch_append, hfirst₁] at hfirst'
    exact Option.some.inj hfirst'
  refine ⟨hlookup, val', hget', ?_⟩
  rw [hlist', registrations_append, SearchTree.sharing_append hself, hlist₁]
  simp only [nameTree_lookup_iff h hget]

theorem mem_registrations {subs : List Subscription} {s : Subscription} {name : Bytes}
    (hs : s ∈ subs) (hname : name ∈ s.names) : (strdup name, CbPtr.heap s.cb) ∈ registrations subs :=
  List.mem_flatMap.mpr ⟨s, hs, List.mem_map_of_mem hname⟩

/-- A name that was subscribed to is found. -/
theorem nameTree_lookup {subs : List Subscription} {s : Subscription} {name : Bytes} (hs : s ∈ subs)
    (hname : name ∈ s.names) : ∃ leaf, (nameTree subs).lookup nameCmp name = some leaf := by
  obtain ⟨-, hnone⟩ | ⟨leaf, m, val, hleaf, -⟩ := lookup_nameTree subs name
  · have hself : nameCmp name (strdup name) = .eq := by
      rw [← nameCmp_strdup]
      exact nameCmp_lawful.refl _
    exact absurd hself (firstMatch_eq_none.mp hnone _ (List.mem_map_of_mem (mem_registrations hs hname)))
  · exact ⟨leaf, hleaf⟩

namespace World
variable {w : World}

theorem Subscribed.found (h : w.Subscribed) {p : Bool} {s : Subscription} {name : Bytes}
    (hs : s ∈ subscriptions p w.trace) (hname : name ∈ s.names) :
    ∃ leaf key val, search name (w.names p) = some leaf ∧
      (w.names p).get? leaf = some (key, val) ∧ val.cbList ≠ [] := by
  rw [search_eq, h.names p]
  obtain ⟨leaf, hleaf⟩ := nameTree_lookup hs hname
  obtain ⟨m, val, hget, hfirst, hlist⟩ := nameTree_get hleaf
  exact ⟨leaf, m, val, hleaf, hget, hlist ▸ sharing_ne_nil nameCmp_lawful hfirst⟩

/-! ## The confirmation loop -/

theorem startTimer_fault {ikey : UInt64} (h : (w.cc.timers.lookup timerCmp ikey).isSome) :
    (w.startTimer ikey).fault = w.fault := by
  obtain ⟨leaf, hleaf⟩ := Option.isSome_iff_exists.mp h
  simp [startTimer, searchTimer_eq, hleaf, uvTimerStart]

theorem Touches.timerLookup {ks : List Part} {w' : World} (h : Touches ks w w')
    (hks : ks.all (fun k => decide (k ∉ [.timerTree])) = true) (ikey : UInt64) :
    w'.cc.timers.lookup timerCmp ikey = w.cc.timers.lookup timerCmp ikey :=
  h.same (f := fun w => w.cc.timers.lookup timerCmp ikey)
    (fun w u hu => by
      cases u with
      | timerTree t => exact absurd (List.mem_singleton_self Part.timerTree) hu
      | timerData leaf b => exact Tree.lookup_modify _ _ _ _
      | names p t => cases p <;> rfl
      | _ => rfl) hks

/-- Intervals that have nodes are started. -/
theorem confirmChannels_fault (sname : Bytes) {chs : List Channel} (isDone : Bool)
    (h : ∀ ch ∈ chs, ch.timerEvent = true → (w.cc.timers.lookup timerCmp ch.ikey).isSome) :
    (confirmChannels sname chs isDone w).2.2.fault = w.fault := by
  induction chs generalizing isDone w with
  | nil => rfl
  | cons ch chs ih =>
    have hch : (confirmChannel sname ch isDone w).2.2.fault = w.fault := by
      unfold confirmChannel
      split
      · rfl
      · split
        · rfl
        · split
          next htimer => exact startTimer_fault (h ch List.mem_cons_self htimer)
          · rfl
    have htouches := w.confirmChannel_touches sname ch isDone
    refine (ih (w := (confirmChannel sname ch isDone w).2.2) (confirmChannel sname ch isDone w).2.1
      fun ch' hch' htimer => ?_).trans hch
    rw [Touches.timerLookup htouches rfl]
    exact h ch' (List.mem_cons_of_mem _ hch') htimer

/-- The entries of a list lead to records whose intervals have nodes. -/
def Served (w : World) (list : CallbackEnds) : Prop :=
  ∀ q ∈ list, ∃ id c, q = .heap id ∧ w.heap.cb id = some c ∧ w.Known id

/-- A change of flags or elsewhere. -/
theorem Served.keep {list : CallbackEnds} {ks : List Part} {w' : World} (h : w.Served list)
    (ht : Touches ks w w')
    (hks : ks.all (fun k => decide (k ∉ [.detach, .shift, .addChannel, .timerTree, .create])) = true) :
    w'.Served list := by
  intro q hq
  obtain ⟨id, c, rfl, hc, hknown⟩ := h q hq
  have halive : w'.heap.cb id ≠ none := by
    refine ht.keeps (I := fun w => w.heap.cb id ≠ none) (fun w u hu hw => ?_) hks
      (by rw [hc]; exact Option.some_ne_none c)
    cases u with
    | attach i => exact alive_update hw
    | slots i chs all => exact alive_update hw
    | names p t => cases p <;> exact hw
    | detach | shift | addChannel | timerTree | create => simp at hu
    | _ => exact hw
  obtain ⟨c', hc'⟩ := Option.ne_none_iff_exists'.mp halive
  exact ⟨id, c', rfl, hc', ht.keeps (I := fun w => w.Known id) (fun w u hu => Known.update w u hu)
    (all_not_mem_mono (by simp) hks) hknown⟩

theorem confirm_fault (sname : Bytes) (reply : Reply) {list : CallbackEnds} (hfault : w.fault = none)
    (h : w.Served list) :
    (confirm sname reply list w).fault = none ∨
      (confirm sname reply list w).fault = some .nullElement := by
  induction list generalizing w with
  | nil => exact .inl hfault
  | cons q list ih =>
    obtain ⟨id, c, rfl, hc, hknown⟩ := h q List.mem_cons_self
    have htouches := w.confirmEntry_touches sname reply (.heap id)
    have hentry : ((confirmEntry sname reply (.heap id) w).2.fault = none ∨
        (confirmEntry sname reply (.heap id) w).2.fault = some .nullElement) := by
      have hconfirmed := confirmEntry_confirmed sname reply (.heap id) w
      generalize confirmEntry sname reply (.heap id) w = r at hconfirmed ⊢
      cases hconfirmed with
      | dead hnone => rw [Heap.deref, hc] at hnone; cases hnone
      | skipped => exact .inl hfault
      | @visited _ c' w₁ w' hc' _ hstart _ hresult =>
        obtain rfl := Option.some.inj (hc.symm.trans hc')
        have hfault₁ : w₁.fault = none := by
          rw [← hstart, confirmChannels_fault sname false (hknown c hc), hfault]
        have hmarked : (w₁.marked id sname c).fault = none := hfault₁
        obtain ⟨hsome, -⟩ | ⟨rfl, -⟩ | ⟨rfl, -⟩ | ⟨rfl, -⟩ := hresult
        · rw [hfault₁] at hsome
          cases hsome
        · exact .inl hmarked
        · exact .inl (((pcall_touches _ .confirmation _ _).eq (f := World.fault) fun w u hu => by
            cases u <;> simp at hu <;> rfl).trans hmarked)
        · exact .inr (by simp [World.crash, hmarked])
    unfold confirm
    generalize confirmEntry sname reply (.heap id) w = r at htouches hentry ⊢
    obtain ⟨found, w'⟩ := r
    cases found with
    | true => exact hentry
    | false =>
      dsimp only at hentry ⊢
      split
      · exact hentry
      next hnone =>
        rcases hentry with hnone' | hsome
        · exact ih hnone' (Served.keep (fun q hq => h q (List.mem_cons_of_mem _ hq)) htouches rfl)
        · rw [hsome] at hnone
          exact absurd rfl hnone

/-! ## The event loop -/

theorem callEntry_fault {site : Site} {id : Nat} {c : Callback} (hc : w.heap.cb id = some c)
    (hfault : w.fault = none) (args : Option (List LuaValue)) :
    (w.callEntry site (.heap id) args).fault = none ∨
      (w.callEntry site (.heap id) args).fault = some .nullElement := by
  have hcall : ∀ fn args, (w.pcall site fn args).fault = none := fun fn args =>
    ((w.pcall_touches site fn args).eq (f := World.fault) fun w u hu => by
      cases u <;> simp at hu <;> rfl).trans hfault
  simp only [callEntry, Heap.deref, hc]
  split
  · cases args with
    | some args => exact .inl (hcall _ _)
    | none => exact .inr (by simp [World.crash, hfault])
  · exact .inl (hcall _ _)

/-- An entry of a name's list is the record of a subscription. -/
theorem Subscribed.entry (h : w.Subscribed) {p : Bool} {name key : Bytes} {leaf : Path}
    {val : NodeVal} (hleaf : (w.names p).lookup nameCmp name = some leaf)
    (hget : (w.names p).get? leaf = some (key, val)) {q : CbPtr} (hq : q ∈ val.cbList) :
    ∃ s ∈ subscriptions p w.trace, q = .heap s.cb := by
  rw [h.names p] at hleaf hget
  obtain ⟨m, val', hget', -, hlist⟩ := nameTree_get hleaf
  obtain ⟨-, rfl⟩ : key = m ∧ val = val' := by
    rw [hget] at hget'
    cases hget'
    exact ⟨rfl, rfl⟩
  rw [hlist] at hq
  obtain ⟨r, hr, rfl⟩ := List.mem_map.mp hq
  obtain ⟨s, hs, hr⟩ := List.mem_flatMap.mp (List.mem_filter.mp hr).1
  obtain ⟨n, -, rfl⟩ := List.mem_map.mp hr
  exact ⟨s, hs, rfl⟩

/-- The entries of a node are alive. -/
theorem Counts.entry (h : w.Counts) {p : Bool} {leaf : Path} {key : Bytes} {val : NodeVal}
    (hget : (w.names p).get? leaf = some (key, val)) {id : Nat} (hid : .heap id ∈ val.cbList) :
    w.heap.cb id ≠ none := by
  have hmem : .heap id ∈ CrazySnail.wrappers (w.names p) := mem_wrappers.mpr ⟨leaf, key, val, hget, hid⟩
  refine Counted.alive h id ?_
  cases p with
  | false => exact List.mem_append_right _ (List.mem_append_left _ hmem)
  | true => exact List.mem_append_right _ (List.mem_append_right _ (List.mem_append_left _ hmem))

/-- The list a lookup ends at leads to records whose intervals have nodes. -/
theorem Subscribed.served (h : w.Subscribed) (hcounts : w.Counts) {p : Bool} {name key : Bytes}
    {leaf : Path} {val : NodeVal} (hleaf : (w.names p).lookup nameCmp name = some leaf)
    (hget : (w.names p).get? leaf = some (key, val)) : w.Served val.cbList := by
  intro q hq
  obtain ⟨s, -, rfl⟩ := h.entry hleaf hget hq
  obtain ⟨c, hc⟩ := Option.ne_none_iff_exists'.mp (hcounts.entry hget hq)
  exact ⟨s.cb, c, rfl, hc, h.known p s.cb (mem_wrappers.mpr ⟨leaf, key, val, hget, hq⟩)⟩

/-- The event loop starts with an entry that is alive. -/
theorem eventLoop_fault {p : Bool} {leaf : Path} {key : Bytes} {val : NodeVal} (reply : Reply)
    (hexit : w.cc.exited = false) (hfault : w.fault = none) (hget : (w.names p).get? leaf = some (key, val))
    (h : w.Served val.cbList) :
    (w.eventLoop p leaf 0 reply).fault = none ∨
      (w.eventLoop p leaf 0 reply).fault = some .nullElement := by
  unfold eventLoop
  rw [if_neg (by simp [hexit]), hget]
  dsimp only
  cases hlist : val.cbList with
  | nil => exact .inl hfault
  | cons q list =>
    obtain ⟨id, c, rfl, hc, -⟩ := h q (hlist ▸ List.mem_cons_self)
    exact callEntry_fault (w := w.push (.event p leaf 1 reply)) hc hfault _

/-- The dispatch of a conforming reply. -/
theorem getAndCallSubCb_safe (h : w.Subscribed) (hcounts : w.Counts) (hexit : w.cc.exited = false)
    (hfault : w.fault = none) {reply : Reply} (hconf : Conforming w reply) :
    DispatchSafe w (w.getAndCallSubCb reply) reply := by
  have hsafe : ∀ {w' : World}, w'.fault = none ∨ w'.fault = some .nullElement →
      ∀ f, w'.fault = some f → f.isAssertion = false := by
    rintro w' (hnone | hsome) f hf
    · rw [hnone] at hf
      cases hf
    · rw [hsome] at hf
      cases hf
      rfl
  -- a name that was subscribed to has a node with a list
  have hfound : ∀ stype name rest, reply = .array (.string stype :: .string name :: rest) →
      subKind stype ≠ .unsubscribe → ∃ leaf key val,
        search name (w.names (isPvariant stype)) = some leaf ∧
        (w.names (isPvariant stype)).get? leaf = some (key, val) ∧ val.cbList ≠ [] := by
    intro stype name rest heq hkind
    cases hconf with
    | unsubscribe hunsub => cases heq; exact absurd hunsub hkind
    | named hs hname => cases heq; exact h.found hs hname
  refine ⟨hfound, hsafe ?_⟩
  have hdispatched := getAndCallSubCb_dispatched w reply
  generalize w.getAndCallSubCb reply = w' at hdispatched ⊢
  cases hdispatched with
  | ignored _ => exact .inl hfault
  | malformed _ hshape =>
    refine absurd ?_ hshape
    cases hconf with
    | unsubscribe hunsub => exact ⟨_, _, _, rfl, .inl hunsub⟩
    | named => exact ⟨_, _, _, rfl, .inr ⟨_, rfl⟩⟩
  | unknown heq hkind hnone =>
    obtain ⟨leaf, key, val, hleaf, -⟩ := hfound _ _ _ heq hkind
    rw [search_eq, hnone] at hleaf
    cases hleaf
  | unused heq hkind hleaf hget hempty =>
    obtain ⟨leaf, key, val, hleaf', hget', hne⟩ := hfound _ _ _ heq hkind
    rw [search_eq, hleaf] at hleaf'
    cases hleaf'
    rw [hget] at hget'
    cases hget'
    exact absurd hempty hne
  | confirmation heq hkind hleaf hget hne =>
    exact confirm_fault _ reply hfault (h.served hcounts hleaf hget)
  | event heq hkind hleaf hget hne =>
    exact eventLoop_fault reply hexit hfault hget (h.served hcounts hleaf hget)

end World

/-- **The dispatch never trips its assertions** on a conforming server: whenever `on_read`
    has a conforming reply of the subscription stream, its step is safe. -/
theorem dispatchSafe {w w' : World} {h : Handle} {cb : LuaRef} {rest : List Frame}
    {reader : RedisReader} {reply : Reply} (hreach : Reachable w) (hexit : w.cc.exited = false)
    (hstack : w.stack = .readLoop h true cb :: rest)
    (hreply : redisReaderGetReply w.cc.reader = (reader, .ok, some reply))
    (hconf : Conforming w reply) (hstep : w.step .resume = some w') : DispatchSafe w w' reply := by
  have hsub := reachable_subscribed hreach hexit
  have hcounts := reachable_counts hreach
  have hfault := (step_cases hstep).1
  have hdispatch := replied_touches hstack reader reply h cb
  have hsub₁ := hsub.keep hdispatch rfl
  have hcounts₁ := hcounts.keep hdispatch rfl
  have hconf₁ : Conforming
      ((World.replied { w with stack := rest } reader true reply).push (.readLoop h true cb)) reply := by
    cases hconf with
    | unsubscribe hunsub => exact .unsubscribe hunsub
    | named hs hname => exact .named (hdispatch.subscriptions rfl _ ▸ hs) hname
  have hw' : w' = ((World.replied { w with stack := rest } reader true reply).push
      (.readLoop h true cb)).getAndCallSubCb reply := by
    cases hconf <;> exact step_array hexit hstack hreply hstep
  rw [hw']
  have hsafe := getAndCallSubCb_safe hsub₁ hcounts₁ hexit hfault hconf₁
  refine ⟨fun stype name rest heq hkind => ?_, hsafe.holds⟩
  rw [← Touches.names hdispatch rfl]
  exact hsafe.found stype name rest heq hkind

/-- Subscribe to a name, and to a prefix of it and a timer; read the confirmation of the
    prefix. -/
def prefixRun : List Event :=
  [.api .connect, .connected 0 0, .connected 0 0,
   .api (.command [.string (ascii "subscribe"), .string (ascii "ab"), .function 1] ⟨0, false⟩),
   .api (.command [.string (ascii "subscribe"), .string (ascii "a"),
     .string (ascii "__timer@0__:50"), .function 2] ⟨0, false⟩),
   .written 0 0 0, .written 0 0 0,
   .read 1 (ascii "*3\r\n$9\r\nsubscribe\r\n$1\r\na\r\n:1\r\n") .noref]

theorem dispatchSafe_prefixRun :
    ∃ w w', runs (World.new false) prefixRun = some w ∧ w.step .resume = some w' ∧
      DispatchSafe w w'
        (.array [.string (ascii "subscribe"), .string (ascii "a"), .integer 1]) := by
  have hrun : (runs (World.new false) prefixRun).map
      (fun w => (w.stack, (redisReaderGetReply w.cc.reader).2, subscriptions false w.trace,
        w.cc.exited, (w.step .resume).isSome)) =
      some ([.readLoop 1 true .noref],
        (.ok, some (.array [.string (ascii "subscribe"), .string (ascii "a"), .integer 1])),
        [⟨0, [ascii "ab"], [], some 1⟩, ⟨1, [ascii "a"], [ascii "__timer@0__:50"], some 2⟩],
        false, true) := by rfl
  obtain ⟨w, hw, hstate⟩ := Option.map_eq_some_iff.mp hrun
  simp only [Prod.mk.injEq] at hstate
  obtain ⟨hstack, hreply, hsubs, hexit, hstep⟩ := hstate
  obtain ⟨w', hw'⟩ := Option.isSome_iff_exists.mp hstep
  have hsub : (⟨1, [ascii "a"], [ascii "__timer@0__:50"], some 2⟩ : Subscription) ∈
      subscriptions (isPvariant (ascii "subscribe")) w.trace := by
    rw [show isPvariant (ascii "subscribe") = false from by decide, hsubs]
    simp
  exact ⟨w, w', hw, hw', dispatchSafe ⟨false, _, hw⟩ hexit hstack (Prod.ext rfl hreply)
    (.named hsub (by simp)) hw'⟩

end CrazySnail
