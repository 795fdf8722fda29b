import CrazySnail.Verified.Assertions
import CrazySnail.Verified.Queue

/-! # The dispatch of events

The event loop looks its list up again for every entry, and the Lua functions it calls may
have added to the list in the meantime.  A dispatch serves the entries that were on the list
when the event arrived, as long as nothing is subscribed that ends at their node
(`eventDispatch`).
-/

namespace CrazySnail

open SearchTree (Tree Path)
open World
open Transition (RunsUnder outputs)

/-! ## Visits -/

/-- The functions called for events. -/
def eventCalls (trace : List Obs) : List Fn :=
  trace.filterMap fun
    | .call .event fn _ => some fn
    | _ => none

namespace World
variable (w : World)

/-- The place of an entry on the list of a node. -/
def entryAt (p : Bool) (leaf : Path) (i : Nat) : Option CbPtr :=
  ((w.names p).get? leaf).bind fun kv => kv.2.cbList[i]?

/-- The list on which an event finds its callbacks. -/
def listFor (p : Bool) (name : Bytes) : CallbackEnds :=
  (((search name (w.names p)).bind (w.names p).get?).map fun kv => kv.2.cbList).getD []

/-- An event is about to be dispatched: the reply loop of the subscription stream has its array
    from the reader. -/
structure Arrives (stype name : Bytes) (rest : List Reply) : Prop where
  running : w.cc.exited = false
  head : ∃ h cb below, w.stack = .readLoop h true cb :: below
  reply : ∃ reader, redisReaderGetReply w.cc.reader =
    (reader, .ok, some (.array (.string stype :: .string name :: rest)))
  readable : readable (.array (.string stype :: .string name :: rest)) = true
  event : subKind stype = .event

/-- The entry that the event loop visits in a step. -/
def visited : Event → Option CbPtr
  | .resume =>
    match w.stack with
    | .event p leaf i _ :: _ => w.entryAt p leaf i
    | .readLoop _ true _ :: _ =>
      match redisReaderGetReply w.cc.reader with
      | (_, .ok, some (.array (.string stype :: .string name :: _))) =>
        if subKind stype = .event then (w.listFor (isPvariant stype) name).head? else none
      | _ => none
    | _ => none
  | _ => none

/-- A visit: the entry, and the function of its record. -/
def visit (e : Event) : List (CbPtr × Option Fn) :=
  ((w.visited e).map fun q => (q, w.fnOf q)).toList

/-- What a step subscribes to among the names of a variant. -/
def taken (p : Bool) : Event → List Subscription
  | .api (.command args _) =>
    match collect args with
    | .ok argv timers =>
      if classify (argv.headD []) = .subscribe p then
        [⟨w.heap.next, argv.tail, timers, callbackOf args⟩] else []
    | _ => []
  | _ => []

/-- A step of a dispatch that is not over, which leaves the list of a name alone: it takes no
    subscription that ends at the node of the name, and the client does not exit. -/
def LeavesList (height : Nat) (p : Bool) (name : Bytes) (e : Event) : Prop :=
  height < w.stack.length ∧ e ≠ .api .exit ∧ ∀ s ∈ w.taken p e, ∀ name' ∈ s.names,
    search name' (w.names p) ≠ search name (w.names p)

end World

/-- The dispatch of an event, from its arrival in `w` up to `v`, serves a list. -/
structure Serves (list : CallbackEnds) (visits : List (CbPtr × Option Fn)) (w v : World) : Prop where
  /-- its entries are visited in order -/
  visited : visits.map Prod.fst <+: list
  /-- every visit calls the function of its record, and there are no other calls -/
  called : eventCalls v.trace = eventCalls w.trace ++ visits.filterMap Prod.snd
  /-- when the dispatch is over all of them have been visited -/
  complete : v.stack.length ≤ w.stack.length → visits.map Prod.fst = list
  /-- the loop goes on without a fault, and without a visit only to its end -/
  goesOn : ∀ p leaf i reply below, v.stack = .event p leaf i reply :: below → v.fault = none →
    ∃ v', v.step .resume = some v' ∧ v'.fault = none ∧
      (v.visited .resume = none → v'.stack.length ≤ w.stack.length)

/-! ## Frames -/

/-- The frames that C functions leave on the stack. -/
@[simp] def cFrameParts : List Part :=
  [.pop, .frame .readLoop, .frame .closeStream, .frame .bufFree, .frame .event, .frame .timer]

/-- Without C frames a function puts nothing but Lua functions on the stack. -/
theorem Touches.luaFrames {ks : List Part} {w w' : World} (h : Touches ks w w')
    (hks : ks.all (fun k => decide (k ∉ cFrameParts)) = true) :
    ∃ luas, w'.stack = luas ++ w.stack ∧ ∀ f ∈ luas, f.tag = .lua := by
  refine h.keeps (I := fun v => ∃ luas, v.stack = luas ++ w.stack ∧ ∀ f ∈ luas, f.tag = .lua)
    (fun v u hu hv => ?_) hks ⟨[], rfl, by simp⟩
  obtain ⟨luas, hstack, hluas⟩ := hv
  cases u with
  | push f =>
    refine ⟨f :: luas, congrArg (f :: ·) hstack, List.forall_mem_cons.mpr ⟨?_, hluas⟩⟩
    cases f <;> simp at hu ⊢
  | pop => simp at hu
  | names p t => cases p <;> exact ⟨luas, hstack, hluas⟩
  | _ => exact ⟨luas, hstack, hluas⟩

theorem Update.apply_eventCalls (w : World) (u : Update) (hu : u.part ∉ [.obs (.call .event)]) :
    eventCalls (u.apply w).trace = eventCalls w.trace := by
  cases u with
  | log o =>
    cases o with
    | call site fn args =>
      cases site <;> simp at hu <;> simp [apply, World.log, eventCalls]
    | _ => simp [apply, World.log, eventCalls]
  | names p t => cases p <;> rfl
  | _ => rfl

theorem Touches.eventCalls {ks : List Part} {w w' : World} (h : Touches ks w w')
    (hks : ks.all (fun k => decide (k ∉ [.obs (.call .event)])) = true) :
    CrazySnail.eventCalls w'.trace = CrazySnail.eventCalls w.trace :=
  h.same (f := fun w => CrazySnail.eventCalls w.trace) Update.apply_eventCalls hks

/-! ## What Lua code may do -/

/-- A step of Lua code adds its subscriptions to those of the connection. -/
theorem api_subscriptions (w : World) (c : ApiCall) (p : Bool) :
    subscriptions p (w.api c).trace = subscriptions p w.trace ++ w.taken p (.api c) := by
  cases c with
  | command args env =>
    simp only [World.api, taken]
    cases hcollect : collect args with
    | ok argv timers =>
      rw [luaClientCommand_eq hcollect]
      have hsend := (sendCommand_touches (w.entered argv timers (callbackOf args) env.flags)
        (classify (argv.headD [])).subMode (redisFormatCommandArgv argv)
        (if (classify (argv.headD [])).pending then some w.heap.next else none) w.nextCmd
        env.error).subscriptions rfl p
      rw [hsend, entered_subscriptions]
      dsimp only
      split
      · rfl
      · exact (List.append_nil _).symm
    | raise e =>
      simp only [luaClientCommand, hcollect, List.append_nil]
      have hraised : Touches [.obs .raised] w (w.log (.raised e)) := .of [.log (.raised e)] rfl rfl
      exact hraised.subscriptions rfl p
    | fault f =>
      simp only [luaClientCommand, hcollect, List.append_nil]
      rfl
  | on | connect | disconnect | exit =>
    exact ((w.api_touches _).subscriptions rfl p).trans (List.append_nil _).symm

/-! ## Rounds of the loop -/

namespace World
variable {w : World}

theorem pcall_event (w : World) (fn : Option Fn) (args : List LuaValue) :
    (∃ luas, (w.pcall .event fn args).stack = luas ++ w.stack ∧ ∀ f ∈ luas, f.tag = .lua) ∧
      eventCalls (w.pcall .event fn args).trace = eventCalls w.trace ++ fn.toList ∧
      (w.pcall .event fn args).fault = w.fault := by
  refine ⟨(w.pcall_touches .event fn args).luaFrames rfl, ?_, ?_⟩
  · cases fn with
    | none => simp [pcall]
    | some f => simp [pcall, eventCalls]
  · cases fn <;> rfl

/-- A record that is alive is called with one argument list or another. -/
theorem callEntry_alive {q : CbPtr} {c : Callback} (hq : w.heap.deref q = some c) (site : Site)
    (args : List LuaValue) : ∃ args', w.callEntry site q (some args) = w.pcall site (w.fnOf q) args' := by
  have hfn : w.fnOf q = w.lua.rawgeti c.ref := by rw [fnOf, hq, Option.bind_some]
  rw [hfn]
  simp only [callEntry, hq]
  split
  · exact ⟨_, rfl⟩
  · exact ⟨_, rfl⟩

section
variable {p : Bool} {leaf : Path} {m : Bytes} {val : NodeVal} {i : Nat} (reply : Reply)

/-- Behind the last entry the loop ends. -/
theorem eventLoop_end (hexit : w.cc.exited = false) (hget : (w.names p).get? leaf = some (m, val))
    (hi : val.cbList[i]? = none) : w.eventLoop p leaf i reply = w := by
  simp [eventLoop, hexit, hget, hi]

/-- A round calls the function of its entry. -/
theorem eventLoop_next {q : CbPtr} (hexit : w.cc.exited = false)
    (hget : (w.names p).get? leaf = some (m, val)) (hi : val.cbList[i]? = some q)
    (halive : w.heap.deref q ≠ none) (hreadable : CrazySnail.readable reply = true) :
    (∃ luas, (w.eventLoop p leaf i reply).stack = luas ++ .event p leaf (i + 1) reply :: w.stack ∧
        ∀ f ∈ luas, f.tag = .lua) ∧
      eventCalls (w.eventLoop p leaf i reply).trace = eventCalls w.trace ++ (w.fnOf q).toList ∧
      (w.eventLoop p leaf i reply).fault = w.fault := by
  obtain ⟨c, hc⟩ := Option.ne_none_iff_exists'.mp halive
  obtain ⟨args, hcall⟩ := callEntry_alive (w := w.push (.event p leaf (i + 1) reply)) hc .event
    [.nil, pushSubReply reply]
  have hround : w.eventLoop p leaf i reply =
      (w.push (.event p leaf (i + 1) reply)).pcall .event (w.fnOf q) args := by
    simp only [eventLoop, hexit, Bool.false_eq_true, if_false, hget, hi, eventArgs, hreadable, if_true]
    exact hcall
  rw [hround]
  exact pcall_event _ _ _

end

/-- The entries of a node that a search finds are alive. -/
theorem Subscribed.entries_alive (h : w.Subscribed) (hcounts : w.Counts) {p : Bool}
    {name m : Bytes} {leaf : Path} {val : NodeVal}
    (hleaf : (w.names p).lookup nameCmp name = some leaf)
    (hget : (w.names p).get? leaf = some (m, val)) :
    ∀ q ∈ val.cbList, w.heap.deref q ≠ none := by
  intro q hq
  obtain ⟨id, c, rfl, hc, -⟩ := h.served hcounts hleaf hget q hq
  rw [Heap.deref, hc]
  exact Option.some_ne_none c

end World

/-! ## The dispatch -/

/-- The event loop stands before an entry, or is over. -/
inductive LoopAt (p : Bool) (leaf : Path) (reply : Reply) (list : CallbackEnds) (below : List Frame) :
    List Frame → CallbackEnds → Prop
  | inside {luas : List Frame} {i : Nat} : (∀ f ∈ luas, f.tag = .lua) → i ≤ list.length →
      LoopAt p leaf reply list below (luas ++ .event p leaf i reply :: below) (list.take i)
  | done : LoopAt p leaf reply list below below list

/-- A dispatch in progress: the node of the event still has the list it had. -/
structure Dispatching (p : Bool) (name : Bytes) (leaf : Path) (reply : Reply) (list : CallbackEnds)
    (below : List Frame) (before : List Fn) (v : World) (visits : List (CbPtr × Option Fn)) :
    Prop where
  reach : Reachable v
  running : v.cc.exited = false
  found : (v.names p).lookup nameCmp name = some leaf
  node : ∃ m val, (v.names p).get? leaf = some (m, val) ∧ val.cbList = list
  called : eventCalls v.trace = before ++ visits.filterMap Prod.snd
  place : LoopAt p leaf reply list below v.stack (visits.map Prod.fst)

section
variable {p : Bool} {name : Bytes} {leaf : Path} {reply : Reply} {list : CallbackEnds}
  {below : List Frame} {before : List Fn} {v v' : World} {visits : List (CbPtr × Option Fn)}

/-- Steps that take no subscription keep the node. -/
theorem Dispatching.keep (h : Dispatching p name leaf reply list below before v visits)
    {e : Event} (hstep : v.step e = some v') (hexit : v'.cc.exited = false)
    (hnames : v'.names p = v.names p) (hcalls : eventCalls v'.trace = eventCalls v.trace)
    (hplace : LoopAt p leaf reply list below v'.stack (visits.map Prod.fst)) :
    Dispatching p name leaf reply list below before v' visits :=
  ⟨h.reach.extend hstep, hexit, by rw [hnames]; exact h.found, by rw [hnames]; exact h.node,
    hcalls.trans h.called, hplace⟩

/-- Subscriptions that end elsewhere leave the list of a node as it is. -/
theorem node_kept {w w' : World} {m : Bytes} {val : NodeVal} {new : List Subscription}
    (hsub : w.Subscribed) (hsub' : w'.Subscribed)
    (hnew : subscriptions p w'.trace = subscriptions p w.trace ++ new)
    (hleaf : (w.names p).lookup nameCmp name = some leaf)
    (hget : (w.names p).get? leaf = some (m, val))
    (hother : ∀ s ∈ new, ∀ name' ∈ s.names, (w.names p).lookup nameCmp name' ≠ some leaf) :
    (w'.names p).lookup nameCmp name = some leaf ∧
      ∃ m' val', (w'.names p).get? leaf = some (m', val') ∧ val'.cbList = val.cbList := by
  rw [hsub.names p] at hleaf hget hother
  rw [hsub'.names p, hnew]
  obtain ⟨hlookup, val', hget', hlist⟩ := nameTree_append hleaf hget new
  refine ⟨hlookup, m, val', hget', hlist.trans ?_⟩
  have hnone : (registrations new).filter
      (fun r => (nameTree (subscriptions p w.trace)).lookup nameCmp r.1 = some leaf) = [] := by
    refine List.filter_eq_nil_iff.mpr fun r hr => ?_
    obtain ⟨s, hs, hr⟩ := List.mem_flatMap.mp hr
    obtain ⟨name', hname', rfl⟩ := List.mem_map.mp hr
    rw [lookup_strdup]
    simpa using hother s hs name' hname'
  rw [hnone, List.map_nil, List.append_nil]

/-- A dispatch that is not over stands in a Lua function or before an entry. -/
theorem Dispatching.inside (h : Dispatching p name leaf reply list below before v visits)
    (hlong : below.length < v.stack.length) : ∃ luas i, (∀ f ∈ luas, f.tag = .lua) ∧
      i ≤ list.length ∧ v.stack = luas ++ .event p leaf i reply :: below ∧
      visits.map Prod.fst = list.take i := by
  have hplace := h.place
  generalize v.stack = stack at hlong hplace ⊢
  generalize visits.map Prod.fst = vs at hplace ⊢
  cases hplace with
  | inside hluas hi => exact ⟨_, _, hluas, hi, rfl, rfl⟩
  | done => exact absurd hlong (Nat.lt_irrefl _)

/-- The dispatch goes on. -/
theorem step_dispatching {e : Event} (h : Dispatching p name leaf reply list below before v visits)
    (hreadable : readable reply = true) (hstep : v.step e = some v')
    (hleaves : v.LeavesList below.length p name e) :
    Dispatching p name leaf reply list below before v' (visits ++ v.visit e) := by
  obtain ⟨hlong, hexit, hother⟩ := hleaves
  have hrunning : v'.cc.exited = false := (step_exited hstep hexit).trans h.running
  obtain ⟨luas, i, hluas, hi, hstack, hvisits⟩ := h.inside hlong
  have hbusy : v.stack ≠ [] := by rw [hstack]; simp
  have htouches := step_touches hstep
  obtain ⟨-, hs⟩ := step_cases hstep
  cases hs with
  | api c _ =>
    have hvisit : v.visit (.api c) = [] := rfl
    rw [hvisit, List.append_nil]
    obtain ⟨m, val, hget, hlist⟩ := h.node
    have hsub := reachable_subscribed h.reach h.running
    have hsub' := reachable_subscribed (h.reach.extend hstep) hrunning
    obtain ⟨hfound, m', val', hget', hlist'⟩ := node_kept hsub hsub' (api_subscriptions v c p)
      h.found hget fun s hs name' hname' heq => hother s hs name' hname' (by
        rw [search_eq, search_eq, heq, h.found])
    obtain ⟨luas', hstack', hluas'⟩ := (v.api_touches c).luaFrames (by cases c <;> rfl)
    have hcalls := (v.api_touches c).eventCalls (by cases c <;> rfl)
    refine ⟨h.reach.extend hstep, hrunning, hfound, ⟨m', val', hget', hlist'.trans hlist⟩,
      hcalls.trans h.called, ?_⟩
    rw [hstack', hstack, hvisits, ← List.append_assoc]
    exact .inside (List.forall_mem_append.mpr ⟨hluas', hluas⟩) hi
  | @ret site top rest ok hstack' =>
    have hvisit : v.visit (.ret ok) = [] := rfl
    rw [hvisit, List.append_nil]
    refine h.keep hstep hrunning rfl rfl ?_
    rw [hstack] at hstack'
    rw [hvisits]
    cases luas with
    | nil => cases hstack'
    | cons f luas =>
      cases hstack'
      exact .inside (fun f hf => hluas f (List.mem_cons_of_mem _ hf)) hi
  | @resume f rest hstack' hlua =>
    -- the function that was called has returned: the loop looks for its next entry
    obtain ⟨rfl, rfl, rfl⟩ : luas = [] ∧ f = .event p leaf i reply ∧ rest = below := by
      rw [hstack] at hstack'
      cases luas with
      | nil => cases hstack'; exact ⟨rfl, rfl, rfl⟩
      | cons f' luas =>
        cases hstack'
        exact absurd (hluas _ List.mem_cons_self) hlua
    obtain ⟨m, val, hget, rfl⟩ := h.node
    have hget' : (({ v with stack := rest } : World).names p).get? leaf = some (m, val) := hget
    have hvisit : v.visit .resume = (val.cbList[i]?.map fun q => (q, v.fnOf q)).toList := by
      simp only [visit, visited, hstack', entryAt, hget, Option.bind_some]
    have hnames : (({ v with stack := rest } : World).resume (.event p leaf i reply)).names p =
        v.names p := Touches.names (resume_touches { v with stack := rest } _) rfl p
    rw [hvisit]
    cases hentry : val.cbList[i]? with
    | none =>
      have hend := eventLoop_end (w := { v with stack := rest }) reply h.running hget' hentry
      have hall : visits.map Prod.fst = val.cbList := by
        rw [hvisits, List.take_of_length_le (List.getElem?_eq_none_iff.mp hentry)]
      rw [Option.map_none, Option.toList_none, List.append_nil]
      refine h.keep hstep hrunning hnames (congrArg (eventCalls ·.trace) hend) ?_
      rw [hall, show (({ v with stack := rest } : World).resume (.event p leaf i reply)).stack = rest
        from congrArg World.stack hend]
      exact .done
    | some q =>
      have halive := (reachable_subscribed h.reach h.running).entries_alive (reachable_counts h.reach)
        h.found hget q (List.mem_of_getElem? hentry)
      obtain ⟨⟨luas', hstack₁, hluas'⟩, hcalls, -⟩ :=
        eventLoop_next (w := { v with stack := rest }) reply h.running hget' hentry halive hreadable
      refine ⟨h.reach.extend hstep, hrunning, by rw [hnames]; exact h.found,
        ⟨m, val, by rw [hnames]; exact hget, rfl⟩, ?_, ?_⟩
      · refine hcalls.trans ?_
        rw [show eventCalls ({ v with stack := rest } : World).trace = _ from h.called,
          List.filterMap_append, ← List.append_assoc]
        rfl
      · rw [show (({ v with stack := rest } : World).resume (.event p leaf i reply)).stack = _
          from hstack₁, List.map_append, hvisits]
        have htake : val.cbList.take i ++ [q] = val.cbList.take (i + 1) := by
          rw [List.take_add_one, hentry, Option.toList_some]
        have hlt : i < val.cbList.length := (List.getElem?_eq_some_iff.mp hentry).1
        change LoopAt p leaf reply val.cbList rest _ (val.cbList.take i ++ [q])
        rw [htake]
        exact .inside hluas' hlt
  | read _ _ _ hidle _ => exact absurd hidle hbusy
  | readError _ _ hidle _ _ => exact absurd hidle hbusy
  | written _ _ hidle _ _ _ _ => exact absurd hidle hbusy
  | connected _ hidle _ _ _ _ => exact absurd hidle hbusy
  | closed hidle _ _ _ _ => exact absurd hidle hbusy
  | tick _ hidle _ _ => exact absurd hidle hbusy

/-- What a dispatch in progress comes to. -/
theorem Dispatching.serves {w : World} (h : Dispatching p name leaf reply list w.stack
    (eventCalls w.trace) v visits) (hreadable : readable reply = true)
    (hhead : ∃ h cb below, w.stack = .readLoop h true cb :: below) : Serves list visits w v := by
  have hplace := h.place
  refine ⟨?_, h.called, fun hdone => ?_, fun p' leaf' i' reply' below' hstack hfault => ?_⟩
  · generalize v.stack = stack at hplace
    generalize visits.map Prod.fst = vs at hplace ⊢
    cases hplace with
    | inside _ _ => exact List.take_prefix _ _
    | done => exact List.prefix_rfl
  · generalize v.stack = stack at hplace hdone
    generalize visits.map Prod.fst = vs at hplace ⊢
    cases hplace with
    | inside _ _ =>
      simp only [List.length_append, List.length_cons] at hdone
      omega
    | done => rfl
  · rw [hstack] at hplace
    -- the frame of the event is on top: what it called has returned
    obtain ⟨hfirst, rfl⟩ : Frame.event p' leaf' i' reply' = .event p leaf i' reply ∧
        below' = w.stack := by
      generalize hs : Frame.event p' leaf' i' reply' :: below' = stack at hplace
      generalize visits.map Prod.fst = vs at hplace
      cases hplace with
      | @inside luas i hluas _ =>
        cases luas with
        | nil => cases hs; exact ⟨rfl, rfl⟩
        | cons f luas =>
          obtain rfl : _ = f := (List.cons.inj hs).1
          exact absurd (hluas _ List.mem_cons_self) (by simp)
      | done =>
        obtain ⟨h, cb, below, hhead⟩ := hhead
        rw [hhead] at hs
        cases hs
    cases hfirst
    obtain ⟨m, val, hget, rfl⟩ := h.node
    have hstep : v.step .resume = some (({ v with stack := w.stack } : World).eventLoop p leaf i'
        reply) := by
      simp only [World.step, hfault, hstack]
      rfl
    have hvisited : v.visited .resume = val.cbList[i']? := by
      simp only [World.visited, hstack, entryAt, hget, Option.bind_some]
    have hget' : (({ v with stack := w.stack } : World).names p).get? leaf = some (m, val) := hget
    refine ⟨_, hstep, ?_⟩
    rw [hvisited]
    cases hentry : val.cbList[i']? with
    | none =>
      rw [eventLoop_end (w := { v with stack := w.stack }) reply h.running hget' hentry]
      exact ⟨hfault, fun _ => Nat.le_refl _⟩
    | some q =>
      have halive := (reachable_subscribed h.reach h.running).entries_alive (reachable_counts h.reach)
        h.found hget q (List.mem_of_getElem? hentry)
      obtain ⟨-, -, hfault'⟩ :=
        eventLoop_next (w := { v with stack := w.stack }) reply h.running hget' hentry halive hreadable
      exact ⟨hfault'.trans hfault, nofun⟩

/-- The arrival: the list is looked up, and its first entry is visited. -/
theorem arrives_dispatching {w w₁ : World} {stype : Bytes} {rest : List Reply} (hreach : Reachable w)
    (harrive : w.Arrives stype name rest) (hstep : w.step .resume = some w₁) :
    w₁.fault.isSome = true ∧ w.listFor (isPvariant stype) name = [] ∧ w₁.stack = w.stack ∧
        eventCalls w₁.trace = eventCalls w.trace ∨
      ∃ leaf, Dispatching (isPvariant stype) name leaf (.array (.string stype :: .string name :: rest))
        (w.listFor (isPvariant stype) name) w.stack (eventCalls w.trace) w₁ (w.visit .resume) := by
  obtain ⟨hrunning, ⟨h, cb, below, hstack⟩, ⟨reader, hreply⟩, hreadable, hevent⟩ := harrive
  have hw₁ := step_array hrunning hstack hreply hstep
  have hsub := reachable_subscribed hreach hrunning
  have hbefore := replied_touches hstack reader (.array (.string stype :: .string name :: rest)) h cb
  generalize hw₀ : (World.replied { w with stack := below } reader true
    (.array (.string stype :: .string name :: rest))).push (.readLoop h true cb) = w₀ at hw₁ hbefore
  have hsub₀ := hsub.keep hbefore rfl
  have hcounts₀ := (reachable_counts hreach).keep hbefore rfl
  have hnames₀ := Touches.names hbefore rfl (isPvariant stype)
  have hcalls₀ := hbefore.eventCalls rfl
  have hstack₀ : w₀.stack = w.stack := by rw [hstack, ← hw₀]; rfl
  have hlist : ∀ leaf, (w.names (isPvariant stype)).lookup nameCmp name = some leaf →
      ∀ m val, (w.names (isPvariant stype)).get? leaf = some (m, val) →
      w.listFor (isPvariant stype) name = val.cbList := by
    intro leaf hleaf m val hget
    simp only [listFor, search_eq, hleaf, Option.bind_some, hget, Option.map_some, Option.getD_some]
  have hdispatched := getAndCallSubCb_dispatched w₀ (.array (.string stype :: .string name :: rest))
  rw [← hw₁] at hdispatched
  cases hdispatched with
  | ignored hunsub => rw [hunsub _ _ _ rfl] at hevent; cases hevent
  | malformed _ hshape => exact absurd ⟨_, _, _, rfl, .inr ⟨_, rfl⟩⟩ hshape
  | unknown heq _ hnone =>
    cases heq
    rw [hnames₀] at hnone
    refine .inl ⟨crash_isSome _ _, ?_, hstack₀, hcalls₀⟩
    simp only [listFor, search_eq, hnone, Option.bind_none, Option.map_none, Option.getD_none]
  | unused heq _ hleaf hget hempty =>
    cases heq
    rw [hsub₀.names] at hleaf hget
    obtain ⟨m, val, hget', hfirst, hsharing⟩ := nameTree_get hleaf
    rw [hget] at hget'
    cases hget'
    -- a node comes from a subscription, which is on its list
    exact absurd (hsharing.symm.trans hempty) (SearchTree.sharing_ne_nil nameCmp_lawful hfirst)
  | confirmation heq hkind => cases heq; rw [hkind] at hevent; cases hevent
  | @event _ _ _ leaf m val heq _ hleaf hget hne =>
    cases heq
    have hexit₀ : w₀.cc.exited = false := by rw [← hw₀]; exact hrunning
    have hnames₁ := Touches.names (w₀.eventLoop_touches (isPvariant stype) leaf 0
      (.array (.string stype :: .string name :: rest))) rfl (isPvariant stype)
    -- the list is not empty, so there is a first entry to visit
    obtain ⟨q, hq⟩ : ∃ q, val.cbList[0]? = some q := by
      obtain ⟨q, l, hl⟩ := List.exists_cons_of_ne_nil hne
      exact ⟨q, by rw [hl]; rfl⟩
    obtain ⟨⟨luas, hstack₁, hluas⟩, hcalls₁, -⟩ := eventLoop_next _ hexit₀ hget hq
      (hsub₀.entries_alive hcounts₀ hleaf hget q (List.mem_of_getElem? hq)) hreadable
    have hfn : w₀.fnOf q = w.fnOf q := by rw [← hw₀]; rfl
    rw [hnames₀] at hleaf hget
    have hvisit : w.visit .resume = [(q, w.fnOf q)] := by
      simp only [visit, visited, hstack, hreply, hevent, if_true, hlist leaf hleaf m val hget,
        List.head?_eq_getElem?, hq, Option.map_some, Option.toList_some]
    rw [hlist leaf hleaf m val hget, hvisit]
    refine .inr ⟨leaf, hreach.extend hstep, ?_, ?_, ⟨m, val, ?_, rfl⟩, ?_, ?_⟩
    · exact (step_exited hstep (by simp)).trans hrunning
    · rw [hnames₁, hnames₀]
      exact hleaf
    · rw [hnames₁, hnames₀]
      exact hget
    · rw [hcalls₁, hcalls₀, hfn]
      rfl
    · have htake : val.cbList.take 1 = [q] := by
        rw [List.take_add_one, List.take_zero, hq]
        rfl
      rw [hstack₁, hstack₀]
      change LoopAt _ _ _ _ _ _ [q]
      rw [← htake]
      exact .inside hluas (List.length_pos_of_ne_nil hne)

end

/-- From a state with a fault no run leads on. -/
theorem run_faulted {C : World → Event → World → Prop} {w v : World} {es : List Event}
    (hfault : w.fault.isSome = true) (hrun : RunsUnder World.step C w es v) : es = [] ∧ v = w := by
  cases hrun with
  | nil => exact ⟨rfl, rfl⟩
  | cons hstep _ _ =>
    rw [(step_cases hstep).1] at hfault
    cases hfault

/-- The run rule: from its arrival on, a dispatch serves the list that the event finds. -/
theorem arrives_serves {w w₁ v : World} {stype name : Bytes} {rest : List Reply} {es : List Event}
    (hreach : Reachable w) (harrive : w.Arrives stype name rest) (hstep : w.step .resume = some w₁)
    (hrun : RunsUnder World.step
      (fun u e _ => u.LeavesList w.stack.length (isPvariant stype) name e) w₁ es v) :
    Serves (w.listFor (isPvariant stype) name)
      (outputs World.step World.visit w (.resume :: es)) w v := by
  rw [Transition.outputs_cons hstep]
  obtain ⟨hfault, hlist, hstack, hcalls⟩ | ⟨leaf, hdispatching⟩ :=
    arrives_dispatching hreach harrive hstep
  · obtain ⟨rfl, rfl⟩ := run_faulted hfault hrun
    have hvisit : w.visit .resume = [] := by
      obtain ⟨h, cb, below, hhead⟩ := harrive.head
      obtain ⟨reader, hreply⟩ := harrive.reply
      simp only [visit, visited, hhead, hreply, harrive.event, if_true, hlist, List.head?_nil,
        Option.map_none, Option.toList_none]
    rw [hvisit, hlist]
    refine ⟨List.nil_prefix, hcalls.trans (List.append_nil _).symm, fun _ => rfl, ?_⟩
    intro p leaf i reply below htop hnone
    rw [hnone] at hfault
    cases hfault
  · have hdone := hrun.invariant_outputs
      (I := Dispatching (isPvariant stype) name leaf (.array (.string stype :: .string name :: rest))
        (w.listFor (isPvariant stype) name) w.stack (eventCalls w.trace))
      (fun _ _ _ _ hi hst hC => step_dispatching hi harrive.readable hst hC) hdispatching
    exact hdone.serves harrive.readable harrive.head

/-- **The dispatch of an event** serves the list that the event finds when it arrives, if Lua code
    leaves this list alone. -/
theorem eventDispatch {w w₁ v : World} {stype name : Bytes} {rest : List Reply} {es : List Event}
    (hreach : Reachable w) (harrive : w.Arrives stype name rest) (hstep : w.step .resume = some w₁)
    (hrun : RunsUnder World.step
      (fun u e _ => u.LeavesList w.stack.length (isPvariant stype) name e) w₁ es v) :
    Serves (w.listFor (isPvariant stype) name)
      (outputs World.step World.visit w (.resume :: es)) w v :=
  arrives_serves hreach harrive hstep hrun

/-- Subscribe the functions 1 and 2 to `a` and read a message. -/
def messaged : List Event :=
  [.api .connect, .connected 0 0, .connected 0 0,
   .api (.command [.string (ascii "subscribe"), .string (ascii "a"), .function 1] ⟨0, false⟩),
   .api (.command [.string (ascii "subscribe"), .string (ascii "a"), .function 2] ⟨0, false⟩),
   .written 0 0 0, .written 0 0 0, .read 1 (ascii "*3\r\n$7\r\nmessage\r\n$1\r\na\r\n$1\r\nx\r\n") .noref]

/-- The dispatch goes on, and Lua code subscribes to other names only. -/
def sparing (p : Bool) (name : Bytes) (w : World) (e : Event) : Bool :=
  decide (1 < w.stack.length) &&
    (match e with
    | .api .exit => false
    | _ => true) &&
    (w.taken p e).all fun s => s.names.all fun name' =>
      decide (search name' (w.names p) ≠ search name (w.names p))

theorem leavesList_of_sparing {w : World} {e : Event} {p : Bool} {name : Bytes}
    (h : sparing p name w e = true) : w.LeavesList 1 p name e := by
  simp only [sparing, Bool.and_eq_true, List.all_eq_true, decide_eq_true_eq] at h
  obtain ⟨⟨hheight, hexit⟩, hnames⟩ := h
  refine ⟨hheight, ?_, hnames⟩
  rintro rfl
  cases hexit

/-- The message has arrived; what its dispatch visits in some steps is computed. -/
theorem messaged_arrives (check : World → Event → Bool) (es : List Event)
    (visits : List (CbPtr × Option Fn)) (hvisits : (runs (World.new true) messaged).map (fun w =>
      (outputs World.step World.visit w (.resume :: es),
        ((w.step .resume).bind (Transition.runChecked World.step check · es)).isSome)) =
      some (visits, true)) :
    ∃ w w₁ v, Reachable w ∧ w.Arrives (ascii "message") (ascii "a") [.string (ascii "x")] ∧
      w.stack.length = 1 ∧ w.listFor (isPvariant (ascii "message")) (ascii "a") = [.heap 0, .heap 1] ∧
      w.step .resume = some w₁ ∧ Transition.runChecked World.step check w₁ es = some v ∧
      outputs World.step World.visit w (.resume :: es) = visits := by
  have hrun : (runs (World.new true) messaged).map
      (fun w => (w.cc.exited, w.stack, (redisReaderGetReply w.cc.reader).2,
        w.listFor (isPvariant (ascii "message")) (ascii "a"))) =
      some (false, [.readLoop 1 true .noref],
        (.ok, some (.array [.string (ascii "message"), .string (ascii "a"), .string (ascii "x")])),
        [.heap 0, .heap 1]) := by rfl
  obtain ⟨w, hw, hstate⟩ := Option.map_eq_some_iff.mp hrun
  rw [hw, Option.map_some, Option.some.injEq, Prod.mk.injEq] at hvisits
  simp only [Prod.mk.injEq] at hstate
  obtain ⟨hexit, hstack, hreply, hlist⟩ := hstate
  obtain ⟨v, hv⟩ := Option.isSome_iff_exists.mp hvisits.2
  obtain ⟨w₁, hw₁, hv⟩ := Option.bind_eq_some_iff.mp hv
  exact ⟨w, w₁, v, ⟨true, _, hw⟩,
    ⟨hexit, ⟨_, _, _, hstack⟩, ⟨_, Prod.ext rfl hreply⟩, by decide, by decide⟩,
    by rw [hstack]; rfl, hlist, hw₁, hv, hvisits.1⟩

/-- The first function called subscribes to another name, and the second one just returns. -/
theorem eventDispatch_returned :
    ∃ w w₁ v, w.Arrives (ascii "message") (ascii "a") [.string (ascii "x")] ∧
      w.step .resume = some w₁ ∧
      runs w₁ [.api (.command [.string (ascii "subscribe"), .string (ascii "b"), .function 3] ⟨0, false⟩),
        .ret true, .resume, .ret true, .resume] = some v ∧
      Serves [.heap 0, .heap 1] [(.heap 0, some 1), (.heap 1, some 2)] w v := by
  obtain ⟨w, w₁, v, hreach, harrive, hheight, hlist, hw₁, hv, hvisits⟩ :=
    messaged_arrives (sparing (isPvariant (ascii "message")) (ascii "a"))
      [.api (.command [.string (ascii "subscribe"), .string (ascii "b"), .function 3] ⟨0, false⟩),
        .ret true, .resume, .ret true, .resume]
      [(.heap 0, some 1), (.heap 1, some 2)] (by decide +kernel)
  have hrun := Transition.runsUnder_of_checked (C := fun u e _ => u.LeavesList w.stack.length
    (isPvariant (ascii "message")) (ascii "a") e)
    (fun u e _ h _ => hheight ▸ leavesList_of_sparing h) hv
  have hserves := eventDispatch hreach harrive hw₁ hrun
  rw [hlist, hvisits] at hserves
  exact ⟨w, w₁, v, harrive, hw₁, hrun.run_eq, hserves⟩

/-- The function called subscribes once more to the same name: its new entry is visited too. -/
theorem eventDispatch_fails :
    ∃ w w₁ v es, Reachable w ∧ w.Arrives (ascii "message") (ascii "a") [.string (ascii "x")] ∧
      es = [.api (.command [.string (ascii "subscribe"), .string (ascii "a"), .function 3] ⟨0, false⟩),
        .ret true, .resume, .ret true, .resume] ∧
      w.step .resume = some w₁ ∧ runs w₁ es = some v ∧
      ¬Serves (w.listFor (isPvariant (ascii "message")) (ascii "a"))
        (outputs World.step World.visit w (.resume :: es)) w v := by
  obtain ⟨w, w₁, v, hreach, harrive, -, hlist, hw₁, hv, hvisits⟩ := messaged_arrives (fun _ _ => true)
    [.api (.command [.string (ascii "subscribe"), .string (ascii "a"), .function 3] ⟨0, false⟩),
      .ret true, .resume, .ret true, .resume]
    [(.heap 0, some 1), (.heap 1, some 2), (.heap 2, some 3)] (by decide +kernel)
  have hrun := Transition.runsUnder_of_checked (C := fun _ _ _ => True) (fun _ _ _ _ _ => trivial) hv
  refine ⟨w, w₁, v, _, hreach, harrive, rfl, hw₁, hrun.run_eq, fun h => ?_⟩
  have hvisited := h.visited
  rw [hvisits, hlist] at hvisited
  exact absurd hvisited.length_le (by decide)

end CrazySnail
