import CrazySnail.Verified.EventDispatch
import CrazySnail.Verified.FailedSend
import CrazySnail.Verified.References

/-! # The functions given to subscriptions

The record of a subscription refers to the function that `subscribe` was given, as long as no
slot is given back twice (`subscription_function`).  So an event calls the functions that were
given to the subscriptions on its list (`visits_given`).
-/

namespace CrazySnail

open World
open Transition (RunsUnder outputs)

namespace World
variable {w : World}

/-! ## The notes on subscriptions -/

/-- The last note on the record of a subscription is its own. -/
def Given (w : World) : Prop := ∀ p, ∀ s ∈ subscriptions p w.trace, givenTo w.trace s.cb = s.fn

theorem Update.apply_givenTo (w : World) (u : Update) (hu : u.part ∉ [.obs .command]) :
    givenTo (u.apply w).trace = givenTo w.trace := by
  cases u with
  | log o =>
    refine (givenTo_snoc w.trace o).trans ?_
    cases o <;> first | rfl | simp at hu
  | names p t => cases p <;> rfl
  | _ => rfl

theorem Given.keep {ks : List Part} {w' : World} (h : w.Given) (ht : Touches ks w w')
    (hks : ks.all (fun k => decide (k ∉ [.obs .command, .obs .teardown])) = true) : w'.Given := by
  have hgiven : givenTo w'.trace = givenTo w.trace :=
    ht.same (f := fun w => givenTo w.trace) Update.apply_givenTo (all_not_mem_mono (by simp) hks)
  intro p s hs
  rw [ht.subscriptions hks] at hs
  rw [hgiven]
  exact h p s hs

/-- A new subscription has a record of its own. -/
theorem Given.entered (h : w.Given) (hrecorded : w.Recorded) (argv timers : List Bytes)
    (fn : Option Fn) (flags : Bool) : (w.entered argv timers fn flags).Given := by
  have hgiven : givenTo (w.entered argv timers fn flags).trace =
      Function.update (givenTo w.trace) w.heap.next fn := by
    have hregister := (registerCommand_touches (w.noted (classify (argv.headD [])) argv timers fn)
      (classify (argv.headD [])) argv.tail timers fn flags).same
      (f := fun w => givenTo w.trace) Update.apply_givenTo rfl
    refine hregister.trans ?_
    simp only [noted, World.log, givenTo_snoc, givenAfter]
  intro p s hs
  rw [hgiven]
  rw [entered_subscriptions] at hs
  have hold : s ∈ subscriptions p w.trace →
      Function.update (givenTo w.trace) w.heap.next fn s.cb = s.fn := fun hs => by
    rw [Function.update_of_ne (Nat.ne_of_lt (hrecorded.shaped p s hs).1)]
    exact h p s hs
  split at hs
  · rcases List.mem_append.mp hs with hs | hs
    · exact hold hs
    · obtain rfl := List.mem_singleton.mp hs
      exact Function.update_self ..
  · exact hold hs

end World

theorem step_given {w w' : World} {e : Event} (hstep : w.step e = some w') (hrecorded : w.Recorded)
    (h : w.Given) : w'.Given := by
  cases step_ownership hstep with
  | quiet ht hks => exact h.keep ht (all_not_mem_mono (by simp) hks)
  | @command args env argv timers hfault hcollect =>
    rw [luaClientCommand_eq hcollect]
    exact (h.entered hrecorded argv timers (callbackOf args) env.flags).keep
      (sendCommand_touches _ _ _ _ _ _) rfl
  | @teardown h₁ w₁ _ ht heq =>
    subst heq
    have hempty : (w₁.destroyAll.log .teardown).Given := by
      intro p s hs
      simp [World.log, subscriptionsAfter] at hs
    exact hempty.keep (callHandler_touches _ _ _ _) rfl
  | exit ht _ ht' => exact ((h.keep ht rfl).keep (destroyAll_touches _) rfl).keep ht' rfl

theorem reachable_given {w : World} (h : Reachable w) : w.Given := by
  obtain ⟨ignore, hreach⟩ := h
  have hboth := hreach.invariant (I := fun w => w.Recorded ∧ w.Given)
    (fun _ _ _ hw hst => ⟨step_recorded hst hw.1, step_given hst hw.1 hw.2⟩)
    ⟨reachable_recorded ⟨ignore, [], rfl⟩, fun _ _ hs => absurd hs List.not_mem_nil⟩
  exact hboth.2

/-- **The record of a subscription refers to the function it was given.** -/
theorem Accounted.subscription_function {w : World} {lost : List Nat} (h : Accounted w lost)
    (hreach : Reachable w) {p : Bool} {s : Subscription} (hs : s ∈ subscriptions p w.trace)
    {c : Callback} (hc : w.heap.cb s.cb = some c) : w.fnOf (.heap s.cb) = s.fn :=
  (h.fnOf hc).trans (reachable_given hreach p s hs)

/-- The entry of a failed command leads to the function that it was given. -/
theorem Accounted.writeFailure_function {w : World} {lost : List Nat} (h : Accounted w lost)
    (hcounts : w.Counts) {req : Request} {error : Int} {id : Nat}
    (hown : (w.writeFailure req error).own = some (.heap id)) :
    (w.writeFailure req error).fn = givenTo w.trace id := by
  have hmem : .heap id ∈ w.cc.commandCbList := by
    simpa using (Option.filter_eq_some_iff.mp hown).2
  have hwrapper : .heap id ∈ w.wrappers := List.mem_append_left _ hmem
  obtain ⟨c, hc⟩ := Option.ne_none_iff_exists'.mp (hcounts.alive id hwrapper)
  have hfn : (w.writeFailure req error).fn = (w.writeFailure req error).own.bind w.fnOf := rfl
  rw [hfn, hown]
  exact h.fnOf hc

/-! ## Dispatches -/

section
variable {w v : World} {lost : List Nat}

/-- What the event loop visits is alive. -/
theorem visited_alive (hcounts : v.Counts) {e : Event} {id : Nat}
    (h : v.visited e = some (.heap id)) : v.heap.cb id ≠ none := by
  unfold World.visited at h
  split at h
  next =>
    split at h
    next p leaf i reply _ _ =>
      obtain ⟨⟨m, val⟩, hget, hid⟩ := Option.bind_eq_some_iff.mp h
      exact hcounts.entry hget (List.mem_of_getElem? hid)
    next =>
      split at h
      next stype name rest _ =>
        split at h
        next =>
          have hmem := List.mem_of_head? h
          unfold World.listFor at hmem
          cases hleaf : (search name (v.names (isPvariant stype))).bind
              (v.names (isPvariant stype)).get? with
          | none => simp [hleaf] at hmem
          | some kv =>
            obtain ⟨leaf, -, hget⟩ := Option.bind_eq_some_iff.mp hleaf
            rw [hleaf] at hmem
            exact hcounts.entry hget hmem
        next => cases h
      next => cases h
    next => cases h
  next => cases h

/-- A visit finds the function that was given to its subscription. -/
theorem visit_given (haccounted : Accounted v lost) (hreach : Reachable v) {e : Event} {p : Bool}
    {s : Subscription} (hs : s ∈ subscriptions p v.trace) {x : CbPtr × Option Fn}
    (hx : x ∈ v.visit e) (hcb : x.1 = .heap s.cb) : x.2 = s.fn := by
  obtain ⟨q, hq, rfl⟩ := Option.map_eq_some_iff.mp (Option.mem_toList.mp hx)
  subst hcb
  obtain ⟨c, hc⟩ := Option.ne_none_iff_exists'.mp (visited_alive (reachable_counts hreach) hq)
  exact haccounted.subscription_function hreach hs hc

/-- Within a callback of libuv no tree is destroyed but by `exit`, and no subscription is lost. -/
theorem subscriptions_kept {v' : World} {e : Event} (hstep : v.step e = some v') (hbusy : v.stack ≠ [])
    (p : Bool) : subscriptions p v.trace ⊆ subscriptions p v'.trace := by
  have htouches := step_touches hstep
  obtain ⟨-, hs⟩ := step_cases hstep
  cases hs with
  | api c _ =>
    rw [api_subscriptions]
    exact List.subset_append_left _ _
  | ret ok _ => exact List.Subset.refl _
  | @resume f rest hstack _ =>
    rw [hstack] at htouches
    rw [htouches.subscriptions (by cases f <;> rfl)]
    exact List.Subset.refl _
  | _ => exact absurd ‹v.stack = []› hbusy

/-- The visits of a dispatch find the functions that were given to the subscriptions `subs`. -/
structure CallsGiven (p : Bool) (subs : List Subscription) (v : World)
    (visits : List (CbPtr × Option Fn)) : Prop where
  accounted : v.fault = none → ∃ lost, Accounted v lost
  subscribed : subs ⊆ subscriptions p v.trace
  given : ∀ x ∈ visits, ∀ s ∈ subs, x.1 = .heap s.cb → x.2 = s.fn

theorem CallsGiven.step {p : Bool} {subs : List Subscription} {visits : List (CbPtr × Option Fn)}
    (h : CallsGiven p subs v visits) (hreach : Reachable v) {v' : World} {e : Event}
    (hstep : v.step e = some v') (hexpected : Expected v e v') (hbusy : v.stack ≠ []) :
    CallsGiven p subs v' (visits ++ v.visit e) where
  accounted hfault := by
    obtain ⟨lost, haccounted⟩ := h.accounted (step_cases hstep).1
    exact ⟨_, step_accounted haccounted hstep hexpected hfault⟩
  subscribed := List.Subset.trans h.subscribed (subscriptions_kept hstep hbusy p)
  given x hx s hs hcb := by
    rcases List.mem_append.mp hx with hx | hx
    · exact h.given x hx s hs hcb
    · obtain ⟨lost, haccounted⟩ := h.accounted (step_cases hstep).1
      exact visit_given haccounted hreach (h.subscribed hs) hx hcb

/-- A dispatch is not in the loop of the command stream. -/
theorem Dispatching.expected {p : Bool} {name : Bytes} {leaf : SearchTree.Path} {reply : Reply}
    {list : CallbackEnds} {below : List Frame} {before : List Fn} {visits : List (CbPtr × Option Fn)}
    (h : Dispatching p name leaf reply list below before v visits)
    (hlong : below.length < v.stack.length) (e : Event) (v' : World) : Expected v e v' := by
  obtain ⟨luas, i, hluas, -, hstack, -⟩ := h.inside hlong
  intro h₁ cb rest reader reply' _ htop _ _
  rw [hstack] at htop
  cases luas with
  | nil => cases htop
  | cons f luas =>
    obtain rfl := (List.cons.inj htop).1
    cases hluas _ List.mem_cons_self

/-- **The dispatch of an event** calls the functions that were given to the subscriptions on its
    list. -/
theorem visits_given {ignore : Bool} {es₀ es : List Event} {w₁ : World} {stype name : Bytes}
    {rest : List Reply} (hrun₀ : RunsUnder World.step Expected (World.new ignore) es₀ w)
    (harrive : w.Arrives stype name rest) (hstep : w.step .resume = some w₁)
    (hrun : RunsUnder World.step
      (fun u e _ => u.LeavesList w.stack.length (isPvariant stype) name e) w₁ es v) :
    ∀ x ∈ outputs World.step World.visit w (.resume :: es),
      ∀ s ∈ subscriptions (isPvariant stype) w.trace, x.1 = .heap s.cb → x.2 = s.fn := by
  have hreach : Reachable w := ⟨ignore, hrun₀.reachable⟩
  have haccounted := run_accounted hrun₀ (step_cases hstep).1
  have hstart : CallsGiven (isPvariant stype) (subscriptions (isPvariant stype) w.trace) w [] :=
    ⟨fun _ => ⟨_, haccounted⟩, List.Subset.refl _, by simp⟩
  obtain ⟨h₁, cb, below, hstack⟩ := harrive.head
  have hfirst := hstart.step hreach hstep
    (fun h₂ cb' rest' reader reply _ htop _ _ => by rw [hstack] at htop; cases htop)
    (by rw [hstack]; exact List.cons_ne_nil _ _)
  rw [List.nil_append] at hfirst
  rw [Transition.outputs_cons hstep]
  obtain ⟨hfault, -⟩ | ⟨leaf, hdispatching⟩ := arrives_dispatching hreach harrive hstep
  · obtain ⟨rfl, rfl⟩ := run_faulted hfault hrun
    exact (List.append_nil _).symm ▸ hfirst.given
  · have hdone := hrun.invariant_outputs
      (I := fun u visits => Dispatching (isPvariant stype) name leaf
          (.array (.string stype :: .string name :: rest)) (w.listFor (isPvariant stype) name) w.stack
          (eventCalls w.trace) u visits ∧
        CallsGiven (isPvariant stype) (subscriptions (isPvariant stype) w.trace) u visits)
      (fun u e u' visits hi hst hC => ⟨step_dispatching hi.1 harrive.readable hst hC,
        hi.2.step hi.1.reach hst (hi.1.expected hC.1 e u')
          (List.ne_nil_of_length_pos (Nat.zero_lt_of_lt hC.1))⟩) ⟨hdispatching, hfirst⟩
    exact hdone.2.given

end

end CrazySnail
