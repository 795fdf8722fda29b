import Mathlib

/-! # Runs of partial step functions

A system is a partial step function `step : σ → ε → Option σ`: `none` means that
the event is not enabled in the state.  This module provides the closure of such
a function over event lists, runs whose every step satisfies a side condition,
the invariant rule for both, and monitors over event traces.

Nothing here depends on what the states and events are.
-/

namespace Transition

variable {σ ε : Type*}

/-! ## Runs -/

/-- Run a partial step function along a list of events. -/
def run (step : σ → ε → Option σ) : σ → List ε → Option σ
  | s, [] => some s
  | s, e :: es => (step s e).bind fun t => run step t es

/-- A run from `s` to `t` along the listed events all of whose steps satisfy the
    side condition `C`, which sees the state before, the event and the state after. -/
inductive RunsUnder (step : σ → ε → Option σ) (C : σ → ε → σ → Prop) : σ → List ε → σ → Prop
  | nil {s : σ} : RunsUnder step C s [] s
  | cons {s t u : σ} {e : ε} {es : List ε} :
      step s e = some t → C s e t → RunsUnder step C t es u → RunsUnder step C s (e :: es) u

/-- `t` is reachable from `s`. -/
def Reachable (step : σ → ε → Option σ) (s t : σ) : Prop :=
  ∃ es, run step s es = some t

section
variable {step : σ → ε → Option σ} {C : σ → ε → σ → Prop}

@[simp] theorem run_nil (s : σ) : run step s [] = some s := rfl

theorem run_cons (s : σ) (e : ε) (es : List ε) :
    run step s (e :: es) = (step s e).bind fun t => run step t es := rfl

theorem run_append (s : σ) (es fs : List ε) :
    run step s (es ++ fs) = (run step s es).bind fun t => run step t fs := by
  induction es generalizing s with
  | nil => rfl
  | cons e es ih =>
    simp only [List.cons_append, run_cons]
    cases step s e with
    | none => rfl
    | some t => exact ih t

/-- Dropping the side condition leaves a plain run. -/
theorem RunsUnder.run_eq {s t : σ} {es : List ε} (h : RunsUnder step C s es t) :
    run step s es = some t := by
  induction h with
  | nil => rfl
  | cons hstep _ _ ih => rw [run_cons, hstep]; exact ih

/-- Every plain run is a run under the trivial side condition. -/
theorem runsUnder_true {s t : σ} {es : List ε} (h : run step s es = some t) :
    RunsUnder step (fun _ _ _ => True) s es t := by
  induction es generalizing s with
  | nil => cases h; exact .nil
  | cons e es ih =>
    rw [run_cons, Option.bind_eq_some_iff] at h
    obtain ⟨u, hstep, hrest⟩ := h
    exact .cons hstep trivial (ih hrest)

/-- **Invariant rule.**  What every admissible step preserves holds at the end of
    every admissible run. -/
theorem RunsUnder.invariant {I : σ → Prop}
    (hstep : ∀ s e t, I s → step s e = some t → C s e t → I t)
    {s t : σ} {es : List ε} (h : RunsUnder step C s es t) (hs : I s) : I t := by
  induction h with
  | nil => exact hs
  | cons hst hC _ ih => exact ih (hstep _ _ _ hs hst hC)

/-- **Invariant rule** for reachable states, without a side condition. -/
theorem Reachable.invariant {I : σ → Prop}
    (hstep : ∀ s e t, I s → step s e = some t → I t)
    {s t : σ} (h : Reachable step s t) (hs : I s) : I t := by
  obtain ⟨es, hes⟩ := h
  exact (runsUnder_true hes).invariant (fun s e t hi hst _ => hstep s e t hi hst) hs

theorem RunsUnder.reachable {s t : σ} {es : List ε} (h : RunsUnder step C s es t) :
    Reachable step s t := ⟨es, h.run_eq⟩

/-- A weaker side condition admits every run. -/
theorem RunsUnder.mono {D : σ → ε → σ → Prop} (hCD : ∀ s e t, C s e t → D s e t)
    {s t : σ} {es : List ε} (h : RunsUnder step C s es t) : RunsUnder step D s es t := by
  induction h with
  | nil => exact .nil
  | cons hst hC _ ih => exact .cons hst (hCD _ _ _ hC) ih

/-- One more step. -/
theorem RunsUnder.snoc {s t u : σ} {e : ε} {es : List ε} (h : RunsUnder step C s es t)
    (hstep : step t e = some u) (hC : C t e u) : RunsUnder step C s (es ++ [e]) u := by
  induction h with
  | nil => exact .cons hstep hC .nil
  | cons hst hCst _ ih => exact .cons hst hCst (ih hstep hC)

theorem Reachable.extend {s t u : σ} {e : ε} (h : Reachable step s t) (hstep : step t e = some u) :
    Reachable step s u := by
  obtain ⟨es, hes⟩ := h
  refine ⟨es ++ [e], ?_⟩
  rw [run_append, hes, Option.bind_some, run_cons, hstep]
  rfl

/-- **Simulation rule.**  What takes every step of an admissible run takes the run. -/
theorem RunsUnder.simulate {τ δ : Type*} {step' : τ → δ → Option τ} {g : δ → ε} {R : τ → σ → Prop}
    (h : ∀ t s e s', R t s → step s (g e) = some s' → C s (g e) s' →
      ∃ t', step' t e = some t' ∧ R t' s')
    {s s' : σ} {t : τ} {es : List δ} (hrun : RunsUnder step C s (es.map g) s') (hR : R t s) :
    ∃ t', run step' t es = some t' ∧ R t' s' := by
  induction es generalizing s t with
  | nil => cases hrun; exact ⟨t, rfl, hR⟩
  | cons e es ih =>
    cases hrun with
    | cons hst hC hrest =>
      obtain ⟨t₁, hstep, hR₁⟩ := h t _ e _ hR hst hC
      obtain ⟨t', ht', hR'⟩ := ih hrest hR₁
      refine ⟨t', ?_, hR'⟩
      rw [run_cons, hstep]
      exact ht'

/-- **Lockstep rule.**  Two systems whose steps keep a relation have runs that keep it, and take
    the same events. -/
theorem run_rel {τ : Type*} {step' : τ → ε → Option τ} {R : σ → τ → Prop}
    (h : ∀ s t e, R s t → Option.Rel R (step s e) (step' t e)) {s : σ} {t : τ} (hR : R s t)
    (es : List ε) : Option.Rel R (run step s es) (run step' t es) := by
  induction es generalizing s t with
  | nil => exact .some hR
  | cons e es ih =>
    have hrel := h s t e hR
    rw [run_cons, run_cons]
    cases hs : step s e with
    | none =>
      cases ht : step' t e with
      | none => exact .none
      | some t' => rw [hs, ht] at hrel; cases hrel
    | some s' =>
      cases ht : step' t e with
      | none => rw [hs, ht] at hrel; cases hrel
      | some t' =>
        rw [hs, ht] at hrel
        cases hrel with
        | some hR' => exact ih hR'

/-- One run after another. -/
theorem RunsUnder.append {s t u : σ} {es fs : List ε} (h : RunsUnder step C s es t)
    (h' : RunsUnder step C t fs u) : RunsUnder step C s (es ++ fs) u := by
  induction h with
  | nil => exact h'
  | cons hst hC _ ih => exact .cons hst hC (ih h')

/-! ## Measures -/

/-- **Measure rule.**  Where the events of one kind take from a quantity, and the others add one at
    most, a run has no more of the first kind than was there and was added. -/
theorem RunsUnder.countP_le {m : σ → ℕ} {p : ε → Bool}
    (hstep : ∀ s e t, step s e = some t → C s e t →
      (if p e then 1 else 0) + m t ≤ m s + (if p e then 0 else 1))
    {s t : σ} {es : List ε} (h : RunsUnder step C s es t) :
    es.countP p + m t ≤ m s + es.countP (fun e => !p e) := by
  induction h with
  | nil => simp
  | @cons s t u e es hst hC _ ih =>
    have hpays := hstep s e t hst hC
    rw [List.countP_cons, List.countP_cons]
    cases hp : p e <;> simp only [hp, Bool.not_true, Bool.not_false, Bool.false_eq_true, if_true,
      if_false] at hpays ⊢ <;> omega

/-- **Progress rule.**  Where something can always be done that takes from a quantity, the end is
    reached. -/
theorem exists_run_of_measure {m : σ → ℕ} {p : ε → Prop} {Done : σ → Prop}
    (hstep : ∀ s, ¬Done s → ∃ e t, p e ∧ step s e = some t ∧ m t < m s) (s : σ) :
    ∃ es t, (∀ e ∈ es, p e) ∧ run step s es = some t ∧ es.length ≤ m s ∧ Done t := by
  induction hm : m s using Nat.strong_induction_on generalizing s with
  | _ n ih =>
    subst hm
    by_cases hs : Done s
    · exact ⟨[], s, fun e he => absurd he List.not_mem_nil, rfl, Nat.zero_le _, hs⟩
    · obtain ⟨e, t, he, hst, hlt⟩ := hstep s hs
      obtain ⟨es, u, hes, hrun, hlen, hu⟩ := ih (m t) hlt t rfl
      refine ⟨e :: es, u, List.forall_mem_cons.mpr ⟨he, hes⟩, ?_, ?_, hu⟩
      · rw [run_cons, hst]
        exact hrun
      · rw [List.length_cons]
        omega

/-! ## Outputs

`out s e` is what the event `e` shows in the state `s`. -/

variable {ω : Type*}

/-- What a run shows, step by step. -/
def outputs (step : σ → ε → Option σ) (out : σ → ε → List ω) : σ → List ε → List ω
  | _, [] => []
  | s, e :: es => out s e ++ (step s e).elim [] fun t => outputs step out t es

theorem outputs_cons {out : σ → ε → List ω} {s t : σ} {e : ε} (h : step s e = some t)
    (es : List ε) : outputs step out s (e :: es) = out s e ++ outputs step out t es := by
  rw [outputs, h, Option.elim_some]

/-- **Invariant rule** for the state and what the run has shown so far. -/
theorem RunsUnder.invariant_outputs {out : σ → ε → List ω} {I : σ → List ω → Prop}
    (hstep : ∀ s e t os, I s os → step s e = some t → C s e t → I t (os ++ out s e))
    {s t : σ} {es : List ε} (h : RunsUnder step C s es t) {os : List ω} (hs : I s os) :
    I t (os ++ outputs step out s es) := by
  induction h generalizing os with
  | nil => rwa [outputs, List.append_nil]
  | cons hst hC _ ih =>
    rw [outputs_cons hst, ← List.append_assoc]
    exact ih (hstep _ _ _ _ hs hst hC)

end

/-! ## Steps that answer

A step may also answer the caller. -/

/-- The answers to a list of events. -/
def answers {ω : Type*} (step : σ → ε → Option (σ × ω)) : σ → List ε → Option (List ω)
  | _, [] => some []
  | s, e :: es => (step s e).bind fun t => (answers step t.1 es).map (t.2 :: ·)

/-- **Simulation rule.**  What takes every step of an admissible run, with the same answer, gives
    the same answers. -/
theorem RunsUnder.answers_eq {τ ω : Type*} {step : σ → ε → Option (σ × ω)}
    {step' : τ → ε → Option (τ × ω)} {C : τ → ε → τ → Prop} {R : σ → τ → Prop}
    (h : ∀ s t e t' o, R s t → step' t e = some (t', o) → C t e t' →
      ∃ s', step s e = some (s', o) ∧ R s' t')
    {s : σ} {t u : τ} {es : List ε}
    (hrun : RunsUnder (fun t e => (step' t e).map Prod.fst) C t es u) (hR : R s t) :
    answers step s es = answers step' t es := by
  induction hrun generalizing s with
  | nil => rfl
  | cons hst hC _ ih =>
    obtain ⟨⟨t', o⟩, hstep', rfl⟩ := Option.map_eq_some_iff.mp hst
    obtain ⟨s', hstep, hR'⟩ := h s _ _ t' o hR hstep' hC
    rw [answers, answers, hstep, hstep', Option.bind_some, Option.bind_some, ih hR']

/-! ## Observers

An observer keeps a state of its own, which the events change and which the system does not
look at. -/

/-- A step with an observer. -/
def watched {γ : Type*} (step : σ → ε → Option σ) (next : γ → σ → ε → γ) (s : σ × γ) (e : ε) :
    Option (σ × γ) :=
  (step s.1 e).map fun t => (t, next s.2 s.1 e)

section
variable {γ : Type*} {step : σ → ε → Option σ} {next : γ → σ → ε → γ}

theorem watched_eq_some {s t : σ × γ} {e : ε} :
    watched step next s e = some t ↔ step s.1 e = some t.1 ∧ next s.2 s.1 e = t.2 := by
  simp only [watched, Option.map_eq_some_iff, Prod.ext_iff]
  constructor
  · rintro ⟨u, hstep, rfl, hnext⟩
    exact ⟨hstep, hnext⟩
  · rintro ⟨hstep, hnext⟩
    exact ⟨t.1, hstep, rfl, hnext⟩

/-- Without the observer, a run is a run of the system. -/
theorem run_of_watched {s t : σ} {c d : γ} {es : List ε}
    (h : run (watched step next) (s, c) es = some (t, d)) : run step s es = some t := by
  induction es generalizing s c with
  | nil => cases h; rfl
  | cons e es ih =>
    rw [run_cons, Option.bind_eq_some_iff] at h
    obtain ⟨⟨u, c'⟩, hstep, hrest⟩ := h
    rw [run_cons, (watched_eq_some.mp hstep).1]
    exact ih hrest

end

/-! ## Runs that can be computed -/

/-- Run as long as a test allows the steps. -/
def runChecked (step : σ → ε → Option σ) (check : σ → ε → Bool) : σ → List ε → Option σ
  | s, [] => some s
  | s, e :: es =>
    if check s e then (step s e).bind fun t => runChecked step check t es else none

/-- A test that implies the side condition finds admissible runs. -/
theorem runsUnder_of_checked {step : σ → ε → Option σ} {C : σ → ε → σ → Prop}
    {check : σ → ε → Bool} (hcheck : ∀ s e t, check s e = true → step s e = some t → C s e t)
    {s t : σ} {es : List ε} (h : runChecked step check s es = some t) :
    RunsUnder step C s es t := by
  induction es generalizing s with
  | nil => cases h; exact .nil
  | cons e es ih =>
    simp only [runChecked, Option.ite_none_right_eq_some, Option.bind_eq_some_iff] at h
    obtain ⟨hc, u, hstep, hrest⟩ := h
    exact .cons hstep (hcheck s e u hc hstep) (ih hrest)

/-! ## Monitors over traces

A trace lists what happened, oldest first.  A monitor `ok past o` says that `o`
may happen after `past`. -/

/-- Every entry of the trace was allowed by the entries before it. -/
def Always {ω : Type*} (ok : List ω → ω → Prop) (trace : List ω) : Prop :=
  ∀ past o future, trace = past ++ o :: future → ok past o

section
variable {ω : Type*} {ok : List ω → ω → Prop}

theorem always_nil : Always ok [] := by
  intro past o future h
  simp at h

/-- A trace grows under its monitor one allowed entry at a time. -/
theorem always_snoc {trace : List ω} {o : ω} :
    Always ok (trace ++ [o]) ↔ Always ok trace ∧ ok trace o := by
  constructor
  · intro h
    refine ⟨fun past p future heq => h past p (future ++ [o]) ?_, h trace o [] rfl⟩
    rw [heq]; simp
  · rintro ⟨htrace, ho⟩ past p future heq
    rcases List.eq_nil_or_concat future with rfl | ⟨front, last, rfl⟩
    · obtain ⟨rfl, hop⟩ := List.append_inj' heq rfl
      cases hop; exact ho
    · rw [List.concat_eq_append, ← List.cons_append, ← List.append_assoc] at heq
      exact htrace past p front (List.append_inj' heq rfl).1

/-- What a monitor does not look at may be left out of the trace. -/
theorem Always.of_filter {p : ω → Bool} {trace : List ω} (h : Always ok (trace.filter p))
    (hpast : ∀ past o, ok (past.filter p) o → ok past o) (hother : ∀ past o, p o = false → ok past o) :
    Always ok trace := by
  rintro past o future rfl
  cases ho : p o with
  | false => exact hother past o ho
  | true =>
    refine hpast past o (h (past.filter p) o (future.filter p) ?_)
    rw [List.filter_append, List.filter_cons, ho, if_pos rfl]

end

end Transition
