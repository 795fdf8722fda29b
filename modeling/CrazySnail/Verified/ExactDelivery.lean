import CrazySnail.Verified.GivenFunctions

/-! # Delivery by name

The event of a name goes to the node its search ends at, and a search compares no more
characters than the name has.  The event calls exactly the functions subscribed with its
name, if no other name leads to the same node and no slot of the registry was ever given back
twice (`exactDelivery`).
-/

namespace CrazySnail

open SearchTree (Tree Path firstMatch sharing)
open World
open Transition (RunsUnder outputs)

/-- The subscriptions to a name, once for each time, in the order of the commands. -/
def subscribedAs (subs : List Subscription) (name : Bytes) : List Subscription :=
  subs.flatMap fun s => (s.names.filter fun n => decide (n = name)).map fun _ => s

/-- A dispatch from `w` to `v` that visits these entries delivers to a list of subscriptions: it
    calls the functions that were given to them. -/
structure DeliversTo (subs : List Subscription) (visits : List (CbPtr × Option Fn)) (w v : World) :
    Prop where
  visited : visits.map Prod.fst = subs.map fun s => .heap s.cb
  called : eventCalls v.trace = eventCalls w.trace ++ subs.filterMap Subscription.fn

/-- A C string without a NUL is its own copy. -/
theorem strdup_of_not_mem {s : Bytes} (h : (0 : Byte) ∉ s) : strdup s = s :=
  List.takeWhile_eq_self_iff.mpr fun _ hc => decide_eq_true fun heq => h (heq ▸ hc)

/-- The registrations of a name. -/
theorem subscribedAs_eq {subs : List Subscription}
    (hnul : ∀ s ∈ subs, ∀ name ∈ s.names, (0 : Byte) ∉ name) (name : Bytes) :
    (subscribedAs subs name).map (fun s => CbPtr.heap s.cb) =
      ((registrations subs).filter fun r => decide (r.1 = name)).map Prod.snd := by
  induction subs with
  | nil => rfl
  | cons s subs ih =>
    obtain ⟨hs, hrest⟩ := List.forall_mem_cons.mp hnul
    have hentries : s.entries = s.names.map fun n => (n, CbPtr.heap s.cb) :=
      List.map_congr_left fun n hn => by rw [strdup_of_not_mem (hs n hn)]
    rw [subscribedAs, List.flatMap_cons, registrations, List.flatMap_cons, List.filter_append,
      List.map_append, List.map_append, hentries, List.filter_map, List.map_map, List.map_map]
    exact congrArg _ (ih hrest)

theorem mem_of_subscribedAs {subs : List Subscription} {name : Bytes} {s : Subscription}
    (h : s ∈ subscribedAs subs name) : s ∈ subs := by
  obtain ⟨s', hs', hs⟩ := List.mem_flatMap.mp h
  obtain ⟨-, -, rfl⟩ := List.mem_map.mp hs
  exact hs'

/-- Visits of the subscriptions that find the given functions call these. -/
theorem called_given {subs : List Subscription} {visits : List (CbPtr × Option Fn)}
    (hvisited : visits.map Prod.fst = subs.map fun s => .heap s.cb)
    (hgiven : ∀ x ∈ visits, ∀ s ∈ subs, x.1 = .heap s.cb → x.2 = s.fn) :
    visits.filterMap Prod.snd = subs.filterMap Subscription.fn := by
  induction visits generalizing subs with
  | nil =>
    obtain rfl := List.map_eq_nil_iff.mp hvisited.symm
    rfl
  | cons x visits ih =>
    cases subs with
    | nil => cases hvisited
    | cons s subs =>
      obtain ⟨hx, hrest⟩ := List.cons.inj hvisited
      have hfn := hgiven x List.mem_cons_self s List.mem_cons_self hx
      rw [List.filterMap_cons, List.filterMap_cons, hfn, ih hrest fun y hy t ht =>
        hgiven y (List.mem_cons_of_mem _ hy) t (List.mem_cons_of_mem _ ht)]

/-- Two selections of which one is part of the other agree only if they select the same. -/
theorem filter_map_eq_iff {α β : Type} {l : List α} {P Q : α → Bool} (f : α → β)
    (hQP : ∀ a ∈ l, Q a = true → P a = true) :
    (l.filter P).map f = (l.filter Q).map f ↔ ∀ a ∈ l, P a = true → Q a = true := by
  constructor
  · intro heq a ha hP
    have hsub : (l.filter P).filter Q = l.filter Q := by
      rw [List.filter_filter]
      refine List.filter_congr fun b hb => ?_
      cases hQ : Q b with
      | false => rfl
      | true => rw [hQP b hb hQ]; rfl
    have hall : (l.filter P).filter Q = l.filter P := by
      refine List.filter_sublist.eq_of_length ?_
      rw [hsub]
      simpa using (congrArg List.length heq).symm
    exact List.filter_eq_self.mp hall a (List.mem_filter.mpr ⟨ha, hP⟩)
  · intro hPQ
    refine congrArg _ (List.filter_congr fun a ha => ?_)
    exact Bool.eq_iff_iff.mpr ⟨hPQ a ha, hQP a ha⟩

namespace World
variable {w : World}

/-- The list an event finds: the callbacks of all names whose search ends at the same node. -/
theorem Subscribed.listFor_eq (h : w.Subscribed) (p : Bool) (name : Bytes) :
    w.listFor p name = ((registrations (subscriptions p w.trace)).filter fun r =>
      decide (search r.1 (w.names p) = search name (w.names p))).map Prod.snd := by
  simp only [listFor, search_eq]
  rw [h.names p]
  cases hleaf : (nameTree (subscriptions p w.trace)).lookup nameCmp name with
  | none =>
    -- whatever is registered is found
    have hempty : (registrations (subscriptions p w.trace)).filter (fun r =>
        decide ((nameTree (subscriptions p w.trace)).lookup nameCmp r.1 = none)) = [] := by
      refine List.filter_eq_nil_iff.mpr fun r hr => ?_
      obtain ⟨s, hs, hr⟩ := List.mem_flatMap.mp hr
      obtain ⟨name', hname', rfl⟩ := List.mem_map.mp hr
      obtain ⟨leaf, hleaf⟩ := nameTree_lookup hs hname'
      simp [lookup_strdup, hleaf]
    rw [hempty]
    rfl
  | some leaf =>
    obtain ⟨m, val, hget, hfirst, hlist⟩ := nameTree_get hleaf
    rw [Option.bind_some, hget, Option.map_some, Option.getD_some, hlist]
    simp only [sharing, ← nameTree_lookup_iff hleaf hget]

end World

/-- **Exact delivery.**  In a run without a reply that finds an old reference, an event calls exactly
    the functions subscribed with its name, if and only if no other name that was subscribed to leads
    to the node of this one. -/
theorem exactDelivery {ignore : Bool} {es₀ es : List Event} {w w₁ v : World} {stype name : Bytes}
    {rest : List Reply} (hrun₀ : RunsUnder World.step Expected (World.new ignore) es₀ w)
    (harrive : w.Arrives stype name rest)
    (hnul : ∀ s ∈ subscriptions (isPvariant stype) w.trace, ∀ n ∈ s.names, (0 : Byte) ∉ n)
    (hstep : w.step .resume = some w₁)
    (hrun : RunsUnder World.step
      (fun u e _ => u.LeavesList w.stack.length (isPvariant stype) name e) w₁ es v)
    (hdone : v.stack.length ≤ w.stack.length) :
    DeliversTo (subscribedAs (subscriptions (isPvariant stype) w.trace) name)
        (outputs World.step World.visit w (.resume :: es)) w v ↔
      ∀ s ∈ subscriptions (isPvariant stype) w.trace, ∀ n ∈ s.names,
        search n (w.names (isPvariant stype)) = search name (w.names (isPvariant stype)) →
        n = name := by
  have hreach : Reachable w := ⟨ignore, hrun₀.reachable⟩
  have hserves := arrives_serves hreach harrive hstep hrun
  have hgiven := visits_given hrun₀ harrive hstep hrun
  have hsub := reachable_subscribed hreach harrive.running
  have hfound := (hsub.listFor_eq (isPvariant stype) name).symm
  rw [← hserves.complete hdone] at hfound
  -- the functions follow from the entries, which each refer to what they were given
  have hdelivers : DeliversTo (subscribedAs (subscriptions (isPvariant stype) w.trace) name)
      (outputs World.step World.visit w (.resume :: es)) w v ↔
      (outputs World.step World.visit w (.resume :: es)).map Prod.fst =
        (subscribedAs (subscriptions (isPvariant stype) w.trace) name).map fun s => .heap s.cb := by
    refine ⟨DeliversTo.visited, fun h => ⟨h, ?_⟩⟩
    rw [hserves.called, called_given h fun x hx s hs =>
      hgiven x hx s (mem_of_subscribedAs hs)]
  -- two filters of one list agree if and only if their conditions do on its members
  rw [hdelivers, subscribedAs_eq hnul, ← hfound, filter_map_eq_iff]
  · simp only [decide_eq_true_eq, registrations, List.mem_flatMap, forall_exists_index, and_imp]
    constructor
    · intro h s hs n hn hsame
      have hentry : (n, CbPtr.heap s.cb) ∈ s.entries :=
        List.mem_map.mpr ⟨n, hn, by rw [strdup_of_not_mem (hnul s hs n hn)]⟩
      exact h _ s hs hentry hsame
    · intro h r s hs hr hsame
      obtain ⟨n, hn, rfl⟩ := List.mem_map.mp hr
      rw [strdup_of_not_mem (hnul s hs n hn)] at hsame ⊢
      exact h s hs n hn hsame
  · intro r _ hr
    rw [of_decide_eq_true hr]
    exact decide_eq_true rfl

/-- Subscribe the function 1 to one name and the function 2 to another, and read a message for
    `a`. -/
def messagedTwo (first second : Bytes) : List Event :=
  [.api .connect, .connected 0 0, .connected 0 0,
   .api (.command [.string (ascii "subscribe"), .string first, .function 1] ⟨0, false⟩),
   .api (.command [.string (ascii "subscribe"), .string second, .function 2] ⟨0, false⟩),
   .written 0 0 0, .written 0 0 0,
   .read 1 (ascii "*3\r\n$7\r\nmessage\r\n$1\r\na\r\n$1\r\nx\r\n") .noref]

/-- The dispatch goes on, and Lua code just returns. -/
def returning (w : World) : Event → Bool
  | .ret _ => decide (1 < w.stack.length)
  | .resume => decide (1 < w.stack.length)
  | _ => false

theorem leavesList_of_returning {w : World} {e : Event} (h : returning w e = true) (p : Bool)
    (name : Bytes) : w.LeavesList 1 p name e := by
  cases e with
  | ret ok => exact ⟨of_decide_eq_true h, by simp, by simp [taken]⟩
  | resume => exact ⟨of_decide_eq_true h, by simp, by simp [taken]⟩
  | _ => cases h

/-- The message has arrived, and the functions called just return. -/
theorem messagedTwo_arrives (first second : Bytes) (es : List Event)
    (visits : List (CbPtr × Option Fn))
    (hstate : (Transition.runChecked World.step expectedCheck (World.new true)
        (messagedTwo first second)).map (fun w =>
        (w.cc.exited, w.stack, (redisReaderGetReply w.cc.reader).2,
          subscriptions (isPvariant (ascii "message")) w.trace)) =
      some (false, [.readLoop 1 true .noref],
        (.ok, some (.array [.string (ascii "message"), .string (ascii "a"), .string (ascii "x")])),
        [⟨0, [first], [], some 1⟩, ⟨1, [second], [], some 2⟩]))
    (hvisits : (runs (World.new true) (messagedTwo first second)).map (fun w =>
        (outputs World.step World.visit w (.resume :: es),
          ((w.step .resume).bind (Transition.runChecked World.step returning · es)).map
            fun v => v.stack.length)) = some (visits, some 1)) :
    ∃ w w₁ v, RunsUnder World.step Expected (World.new true) (messagedTwo first second) w ∧
      w.Arrives (ascii "message") (ascii "a") [.string (ascii "x")] ∧
      subscriptions (isPvariant (ascii "message")) w.trace =
        [⟨0, [first], [], some 1⟩, ⟨1, [second], [], some 2⟩] ∧
      w.step .resume = some w₁ ∧ v.stack.length ≤ w.stack.length ∧
      RunsUnder World.step (fun u e _ => u.LeavesList w.stack.length (isPvariant (ascii "message"))
        (ascii "a") e) w₁ es v ∧
      outputs World.step World.visit w (.resume :: es) = visits := by
  obtain ⟨w, hchecked, hstate⟩ := Option.map_eq_some_iff.mp hstate
  have hunder := Transition.runsUnder_of_checked (C := Expected)
    (fun _ _ _ h _ => expected_of_check h) hchecked
  have hw : runs (World.new true) (messagedTwo first second) = some w := hunder.run_eq
  rw [hw, Option.map_some, Option.some.injEq, Prod.mk.injEq] at hvisits
  simp only [Prod.mk.injEq] at hstate
  obtain ⟨hexit, hstack, hreply, hsubs⟩ := hstate
  obtain ⟨v, hv, hheight⟩ := Option.map_eq_some_iff.mp hvisits.2
  obtain ⟨w₁, hw₁, hv⟩ := Option.bind_eq_some_iff.mp hv
  have hone : w.stack.length = 1 := by rw [hstack]; rfl
  exact ⟨w, w₁, v, hunder,
    ⟨hexit, ⟨_, _, _, hstack⟩, ⟨_, Prod.ext rfl hreply⟩, by decide, by decide⟩, hsubs, hw₁,
    by rw [hheight, hone],
    Transition.runsUnder_of_checked (fun u e _ h _ => hone ▸ leavesList_of_returning h _ _) hv,
    hvisits.1⟩

/-- A name after its prefix has a node of its own. -/
theorem exactDelivery_prefixFirst :
    ∃ w v, w.Arrives (ascii "message") (ascii "a") [.string (ascii "x")] ∧
      DeliversTo [⟨0, [ascii "a"], [], some 1⟩] [(.heap 0, some 1)] w v := by
  obtain ⟨w, w₁, v, hunder, harrive, hsubs, hw₁, hdone, hrun, hvisits⟩ :=
    messagedTwo_arrives (ascii "a") (ascii "ab") [.ret true, .resume] [(.heap 0, some 1)] (by rfl)
      (by decide +kernel)
  have hnul : ∀ s ∈ subscriptions (isPvariant (ascii "message")) w.trace, ∀ n ∈ s.names,
      (0 : Byte) ∉ n := by
    rw [hsubs]
    decide
  have hdelivers := (exactDelivery hunder harrive hnul hw₁ hrun hdone).mpr (by
    rw [(reachable_subscribed ⟨true, hunder.reachable⟩ harrive.running).names, hsubs]
    decide)
  rw [hsubs, hvisits] at hdelivers
  exact ⟨w, v, harrive, hdelivers⟩

/-- A name before its prefix is reached by the events of the prefix. -/
theorem exactDelivery_fails :
    ∃ w w₁ v es, Reachable w ∧ w.Arrives (ascii "message") (ascii "a") [.string (ascii "x")] ∧
      subscriptions (isPvariant (ascii "message")) w.trace =
        [⟨0, [ascii "ab"], [], some 1⟩, ⟨1, [ascii "a"], [], some 2⟩] ∧
      w.step .resume = some w₁ ∧ runs w₁ es = some v ∧ es = [.ret true, .resume, .ret true, .resume] ∧
      v.stack.length ≤ w.stack.length ∧
      ¬DeliversTo (subscribedAs (subscriptions (isPvariant (ascii "message")) w.trace) (ascii "a"))
        (outputs World.step World.visit w (.resume :: es)) w v := by
  obtain ⟨w, w₁, v, hunder, harrive, hsubs, hw₁, hdone, hrun, hvisits⟩ :=
    messagedTwo_arrives (ascii "ab") (ascii "a") [.ret true, .resume, .ret true, .resume]
      [(.heap 0, some 1), (.heap 1, some 2)] (by rfl) (by decide +kernel)
  refine ⟨w, w₁, v, _, ⟨true, hunder.reachable⟩, harrive, hsubs, hw₁, hrun.run_eq, rfl, hdone, fun h => ?_⟩
  have hvisited := h.visited
  rw [hvisits, hsubs] at hvisited
  exact absurd (congrArg List.length hvisited) (by decide)

end CrazySnail
