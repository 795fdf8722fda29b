import Mathlib

/-! # Decoders that can be interrupted

A decoder works off a sequence of symbols item by item and may run out of symbols
in the middle of an item.  It then keeps a state and the symbols it has not used,
and continues when more symbols arrive.  `Lawful` says that what a step does on a
sequence does not depend on what follows the sequence, so that the cuts between
chunks leave no trace in the output (`Decodes.append`).

The last section is about several tagged streams that share one decoder.  Their
outputs are what each stream gives alone, as long as no stream is cut in the middle
of a message when another one is heard (`Receives.separate`).
-/

namespace Decoder

variable {σ ι ο ε τ : Type*}

/-! ## Steps -/

/-- An attempt at the next item of a sequence. -/
inductive Outcome (σ ι ο ε : Type*) where
  /-- the sequence ends inside the item -/
  | more (s : σ) (rest : List ι)
  /-- the item is complete, with the message it completes -/
  | next (s : σ) (rest : List ι) (out : Option ο)
  /-- the sequence is malformed -/
  | fail (e : ε)

/-- What is left when no further item can be decoded. -/
inductive Ending (σ ι ε : Type*) where
  | blocked (s : σ) (rest : List ι)
  | failed (e : ε)

/-- What a step owes a decoder. -/
structure Lawful (step : σ → List ι → Outcome σ ι ο ε) : Prop where
  more_append : ∀ {s xs s' rest} (ys), step s xs = .more s' rest →
    step s (xs ++ ys) = step s' (rest ++ ys)
  next_append : ∀ {s xs s' rest out} (ys), step s xs = .next s' rest out →
    step s (xs ++ ys) = .next s' (rest ++ ys) out
  fail_append : ∀ {s xs e} (ys), step s xs = .fail e → step s (xs ++ ys) = .fail e
  next_shrinks : ∀ {s xs s' rest out}, step s xs = .next s' rest out → rest.length < xs.length

/-! ## Decoding a sequence -/

/-- `step` turns `xs` into the messages `os`, starting from `s`. -/
inductive Decodes (step : σ → List ι → Outcome σ ι ο ε) :
    σ → List ι → List ο → Ending σ ι ε → Prop
  | more {s s' : σ} {xs rest : List ι} :
      step s xs = .more s' rest → Decodes step s xs [] (.blocked s' rest)
  | next {s s' : σ} {xs rest : List ι} {out : Option ο} {os : List ο} {e : Ending σ ι ε} :
      step s xs = .next s' rest out → Decodes step s' rest os e →
      Decodes step s xs (out.toList ++ os) e
  | fail {s : σ} {xs : List ι} {e : ε} :
      step s xs = .fail e → Decodes step s xs [] (.failed e)

section
variable {step : σ → List ι → Outcome σ ι ο ε} {s s' : σ} {xs rest : List ι} {os os' : List ο}
  {e e' : Ending σ ι ε}

/-- A sequence is decoded in one way only. -/
theorem Decodes.det (h : Decodes step s xs os e) (h' : Decodes step s xs os' e') :
    os = os' ∧ e = e' := by
  induction h generalizing os' with
  | more hs =>
    cases h' with
    | more hs' => rw [hs] at hs'; cases hs'; exact ⟨rfl, rfl⟩
    | next hs' _ => rw [hs] at hs'; cases hs'
    | fail hs' => rw [hs] at hs'; cases hs'
  | next hs _ ih =>
    cases h' with
    | more hs' => rw [hs] at hs'; cases hs'
    | next hs' hrest =>
      rw [hs] at hs'; cases hs'
      obtain ⟨rfl, rfl⟩ := ih hrest
      exact ⟨rfl, rfl⟩
    | fail hs' => rw [hs] at hs'; cases hs'
  | fail hs =>
    cases h' with
    | more hs' => rw [hs] at hs'; cases hs'
    | next hs' _ => rw [hs] at hs'; cases hs'
    | fail hs' => rw [hs] at hs'; cases hs'; exact ⟨rfl, rfl⟩

/-- What `step` comes to on `xs`, up to the next message. -/
inductive Fetches (step : σ → List ι → Outcome σ ι ο ε) :
    σ → List ι → Outcome σ ι ο ε → Prop
  | more {s s' : σ} {xs rest : List ι} :
      step s xs = .more s' rest → Fetches step s xs (.more s' rest)
  | fail {s : σ} {xs : List ι} {e : ε} : step s xs = .fail e → Fetches step s xs (.fail e)
  | message {s s' : σ} {xs rest : List ι} {o : ο} :
      step s xs = .next s' rest (some o) → Fetches step s xs (.next s' rest (some o))
  | next {s s' : σ} {xs rest : List ι} {i : Outcome σ ι ο ε} :
      step s xs = .next s' rest none → Fetches step s' rest i → Fetches step s xs i

theorem Fetches.det {i j : Outcome σ ι ο ε} (h : Fetches step s xs i) (h' : Fetches step s xs j) :
    i = j := by
  induction h with
  | more hs | fail hs | message hs =>
    cases h' with
    | more hs' | fail hs' | message hs' | next hs' _ => rw [hs] at hs'; cases hs' <;> rfl
  | next hs _ ih =>
    cases h' with
    | more hs' | fail hs' | message hs' => rw [hs] at hs'; cases hs'
    | next hs' hrest => rw [hs] at hs'; cases hs'; exact ih hrest

/-- Decoding goes on behind the next message. -/
theorem Fetches.decodes_message {o : ο} (h : Fetches step s xs (.next s' rest (some o)))
    (hrest : Decodes step s' rest os e) : Decodes step s xs (o :: os) e := by
  generalize hi : Outcome.next s' rest (some o) = i at h
  induction h with
  | more | fail => cases hi
  | message hs => cases hi; exact .next hs hrest
  | next hs _ ih => exact .next hs (ih hi)

theorem Fetches.decodes_more (h : Fetches step s xs (.more s' rest)) :
    Decodes step s xs [] (.blocked s' rest) := by
  generalize hi : Outcome.more s' rest = i at h
  induction h with
  | more hs => cases hi; exact .more hs
  | fail | message => cases hi
  | next hs _ ih => exact .next hs (ih hi)

theorem Fetches.decodes_fail {err : ε} (h : Fetches step s xs (.fail err)) :
    Decodes step s xs [] (.failed err) := by
  generalize hi : Outcome.fail err = i at h
  induction h with
  | fail hs => cases hi; exact .fail hs
  | more | message => cases hi
  | next hs _ ih => exact .next hs (ih hi)

/-- On the way from `s` and `xs` the decoder comes to `t` and `ys`, where it tries the next item. -/
inductive Passes (step : σ → List ι → Outcome σ ι ο ε) : σ → List ι → σ → List ι → Prop
  | refl {s : σ} {xs : List ι} : Passes step s xs s xs
  | next {s s' t : σ} {xs rest ys : List ι} {out : Option ο} :
      step s xs = .next s' rest out → Passes step s' rest t ys → Passes step s xs t ys

/-- A failure has a place. -/
theorem Fetches.passes_fail {err : ε} (h : Fetches step s xs (.fail err)) :
    ∃ t ys, Passes step s xs t ys ∧ step t ys = .fail err := by
  generalize hi : Outcome.fail err = i at h
  induction h with
  | fail hs => cases hi; exact ⟨_, _, .refl, hs⟩
  | more | message => cases hi
  | next hs _ ih =>
    obtain ⟨t, ys, hpasses, hfail⟩ := ih hi
    exact ⟨t, ys, .next hs hpasses, hfail⟩

/-- Every sequence is decoded. -/
theorem Lawful.exists_decodes (hl : Lawful step) (s : σ) (xs : List ι) :
    ∃ os e, Decodes step s xs os e := by
  cases hs : step s xs with
  | more s' rest => exact ⟨_, _, .more hs⟩
  | fail e => exact ⟨_, _, .fail hs⟩
  | next s' rest out =>
    have := hl.next_shrinks hs
    obtain ⟨os, e, hrest⟩ := hl.exists_decodes s' rest
    exact ⟨_, _, .next hs hrest⟩
termination_by xs.length

/-- **Chunks.**  Decoding a sequence and then, from where that stopped, what follows
    it is decoding all of it at once. -/
theorem Decodes.append (hl : Lawful step) {ys : List ι}
    (h : Decodes step s xs os (.blocked s' rest)) (h' : Decodes step s' (rest ++ ys) os' e) :
    Decodes step s (xs ++ ys) (os ++ os') e := by
  generalize hb : Ending.blocked s' rest = b at h
  induction h with
  | more hs =>
    cases hb
    -- the interrupted item is taken up again with the new symbols
    have hstep := hl.more_append ys hs
    cases h' with
    | more hs' => exact .more (hstep.trans hs')
    | next hs' hrest => exact .next (hstep.trans hs') hrest
    | fail hs' => exact .fail (hstep.trans hs')
  | next hs _ ih =>
    rw [List.append_assoc]
    exact .next (hl.next_append ys hs) (ih hb)
  | fail _ => cases hb

/-- A failure stays where it is. -/
theorem Decodes.failed_append (hl : Lawful step) {err : ε}
    (h : Decodes step s xs os (.failed err)) (ys : List ι) :
    Decodes step s (xs ++ ys) os (.failed err) := by
  generalize hb : Ending.failed err = b at h
  induction h with
  | more _ => cases hb
  | next hs _ ih => exact .next (hl.next_append ys hs) (ih hb)
  | fail hs => cases hb; exact .fail (hl.fail_append ys hs)

/-- A longer sequence gives the same messages first. -/
theorem Decodes.mono (hl : Lawful step) {ys : List ι} (h : Decodes step s xs os e)
    (h' : Decodes step s (xs ++ ys) os' e') : os <+: os' := by
  cases e with
  | blocked s₁ rest =>
    obtain ⟨os₂, e₂, h₂⟩ := hl.exists_decodes s₁ (rest ++ ys)
    obtain ⟨rfl, -⟩ := (h.append hl h₂).det h'
    exact List.prefix_append _ _
  | failed err =>
    obtain ⟨rfl, -⟩ := (h.failed_append hl ys).det h'
    exact List.prefix_rfl

/-- What precedes a well-formed sequence is well formed as far as it goes. -/
theorem Decodes.blocked_of_append (hl : Lawful step) {ys : List ι}
    (h : Decodes step s (xs ++ ys) os (.blocked s' rest)) :
    ∃ os₁ s₁ rest₁, Decodes step s xs os₁ (.blocked s₁ rest₁) := by
  obtain ⟨os₁, e₁, h₁⟩ := hl.exists_decodes s xs
  cases e₁ with
  | blocked s₁ rest₁ => exact ⟨os₁, s₁, rest₁, h₁⟩
  | failed err => cases ((h₁.failed_append hl ys).det h).2

end

/-! ## Streams that share a decoder -/

/-- What a receiver of tagged chunks reports: a message, or that it refuses a chunk
    because an earlier one was malformed. -/
inductive Report (τ ο ε : Type*) where
  | got (t : τ) (out : ο)
  | refused (t : τ) (e : ε)
deriving DecidableEq, Repr

/-- A receiver feeds every chunk, whatever its tag, to one decoder. -/
inductive Receives (step : σ → List ι → Outcome σ ι ο ε) (start : Ending σ ι ε) :
    List (τ × List ι) → List (Report τ ο ε) → Ending σ ι ε → Prop
  | nil : Receives step start [] [] start
  | chunk {cs : List (τ × List ι)} {rs : List (Report τ ο ε)} {s : σ} {rest : List ι} {t : τ}
      {c : List ι} {os : List ο} {e : Ending σ ι ε} :
      Receives step start cs rs (.blocked s rest) → Decodes step s (rest ++ c) os e →
      Receives step start (cs ++ [(t, c)]) (rs ++ os.map (.got t)) e
  | refuse {cs : List (τ × List ι)} {rs : List (Report τ ο ε)} {err : ε} {t : τ} {c : List ι} :
      Receives step start cs rs (.failed err) →
      Receives step start (cs ++ [(t, c)]) (rs ++ [.refused t err]) (.failed err)

/-- The symbols with a tag. -/
def symbols [DecidableEq τ] (t : τ) (cs : List (τ × List ι)) : List ι :=
  (cs.filter fun c => c.1 = t).flatMap Prod.snd

/-- The messages reported for a tag. -/
def messages [DecidableEq τ] (t : τ) (rs : List (Report τ ο ε)) : List ο :=
  rs.filterMap fun
    | .got t' out => if t' = t then some out else none
    | .refused _ _ => none

section
variable {step : σ → List ι → Outcome σ ι ο ε} {start : Ending σ ι ε}
  {cs : List (τ × List ι)} {rs rs' : List (Report τ ο ε)} {e e' : Ending σ ι ε}

theorem Receives.det (h : Receives step start cs rs e) (h' : Receives step start cs rs' e') :
    rs = rs' ∧ e = e' := by
  induction h generalizing rs' e' with
  | nil =>
    generalize hcs : ([] : List (τ × List ι)) = cs at h'
    cases h' with
    | nil => exact ⟨rfl, rfl⟩
    | chunk _ _ => simp at hcs
    | refuse _ => simp at hcs
  | chunk _ hd ih =>
    generalize hcs : _ ++ [_] = cs at h'
    cases h' with
    | nil => simp at hcs
    | chunk hr' hd' =>
      obtain ⟨rfl, hc⟩ := List.append_inj' hcs rfl
      cases hc
      obtain ⟨rfl, he⟩ := ih hr'
      cases he
      obtain ⟨rfl, rfl⟩ := hd.det hd'
      exact ⟨rfl, rfl⟩
    | refuse hr' =>
      obtain ⟨rfl, hc⟩ := List.append_inj' hcs rfl
      cases hc
      cases (ih hr').2
  | refuse _ ih =>
    generalize hcs : _ ++ [_] = cs at h'
    cases h' with
    | nil => simp at hcs
    | chunk hr' hd' =>
      obtain ⟨rfl, hc⟩ := List.append_inj' hcs rfl
      cases hc
      cases (ih hr').2
    | refuse hr' =>
      obtain ⟨rfl, hc⟩ := List.append_inj' hcs rfl
      cases hc
      obtain ⟨rfl, he⟩ := ih hr'
      cases he
      exact ⟨rfl, rfl⟩

/-- What a receiver does after some chunks is what one does that starts where they left it. -/
theorem Receives.split {cs' : List (τ × List ι)} {rs₀ : List (Report τ ο ε)}
    {e₀ : Ending σ ι ε} (h₀ : Receives step start cs rs₀ e₀)
    (h : Receives step start (cs ++ cs') rs e) :
    ∃ rs', rs = rs₀ ++ rs' ∧ Receives step e₀ cs' rs' e := by
  induction cs' using List.reverseRecOn generalizing rs e with
  | nil =>
    rw [List.append_nil] at h
    obtain ⟨rfl, rfl⟩ := h₀.det h
    exact ⟨[], by simp, .nil⟩
  | append_singleton cs' c ih =>
    rw [← List.append_assoc] at h
    generalize hcs : cs ++ cs' ++ [c] = all at h
    cases h with
    | nil => simp at hcs
    | chunk hr hd =>
      obtain ⟨rfl, hc⟩ := List.append_inj' hcs rfl
      cases hc
      obtain ⟨rs', rfl, hr'⟩ := ih hr
      exact ⟨_, List.append_assoc _ _ _, .chunk hr' hd⟩
    | refuse hr =>
      obtain ⟨rfl, hc⟩ := List.append_inj' hcs rfl
      cases hc
      obtain ⟨rs', rfl, hr'⟩ := ih hr
      exact ⟨_, List.append_assoc _ _ _, .refuse hr'⟩

variable [DecidableEq τ]

@[simp] theorem symbols_nil (t : τ) : symbols (ι := ι) t [] = [] := rfl

theorem symbols_snoc (t t' : τ) (c : List ι) (cs : List (τ × List ι)) :
    symbols t (cs ++ [(t', c)]) = symbols t cs ++ if t' = t then c else [] := by
  by_cases h : t' = t <;> simp [symbols, h]

@[simp] theorem messages_nil (t : τ) : messages t ([] : List (Report τ ο ε)) = [] := rfl

theorem messages_append (t : τ) (rs rs' : List (Report τ ο ε)) :
    messages t (rs ++ rs') = messages t rs ++ messages t rs' := by
  simp [messages]

theorem messages_got (t t' : τ) (os : List ο) :
    messages t (os.map (Report.got (ε := ε) t')) = if t' = t then os else [] := by
  induction os with
  | nil => split <;> rfl
  | cons o os ih =>
    rw [List.map_cons, ← List.singleton_append, messages_append, ih]
    by_cases h : t' = t <;> simp [messages, h]

/-- The chunks of a tag are heard only while the symbols of every other tag are whole
    messages. -/
def Alternates (step : σ → List ι → Outcome σ ι ο ε) (s₀ : σ) (cs : List (τ × List ι)) : Prop :=
  ∀ pre t c post, cs = pre ++ (t, c) :: post → ∀ t', t' ≠ t →
    ∃ os, Decodes step s₀ (symbols t' pre) os (.blocked s₀ [])

theorem Alternates.of_snoc {s₀ : σ} {c : τ × List ι} (h : Alternates step s₀ (cs ++ [c])) :
    Alternates step s₀ cs := by
  intro pre t d post hcs
  exact h pre t d (post ++ [c]) (by rw [hcs]; simp)

theorem alternates_nil {s₀ : σ} : Alternates step s₀ ([] : List (τ × List ι)) := by
  intro pre t c post hcs
  simp at hcs

theorem Alternates.snoc {s₀ : σ} {t : τ} (h : Alternates step s₀ cs) (c : List ι)
    (ht : ∀ t', t' ≠ t → ∃ os, Decodes step s₀ (symbols t' cs) os (.blocked s₀ [])) :
    Alternates step s₀ (cs ++ [(t, c)]) := by
  intro pre u d post hcs
  rcases List.eq_nil_or_concat post with rfl | ⟨front, last, rfl⟩
  · obtain ⟨rfl, hc⟩ := List.append_inj' hcs rfl
    cases hc
    exact ht
  · rw [List.concat_eq_append, ← List.cons_append, ← List.append_assoc] at hcs
    exact h pre u d front (List.append_inj' hcs rfl).1

/-- **Separation.**  Streams that alternate between whole messages do not notice that
    they share a decoder: it never refuses a chunk, and the messages reported for a
    stream are those of its own symbols. -/
theorem Receives.separate (hl : Lawful step) {s₀ : σ} (h₀ : step s₀ [] = .more s₀ [])
    (h : Receives step (.blocked s₀ []) cs rs e) (halt : Alternates step s₀ cs)
    (hwf : ∀ t, ∃ os s rest, Decodes step s₀ (symbols t cs) os (.blocked s rest)) :
    (∀ t err, .refused t err ∉ rs) ∧
      ∃ owner : Option τ, (∀ t, owner = some t → Decodes step s₀ (symbols t cs) (messages t rs) e) ∧
        (∀ t, owner ≠ some t → Decodes step s₀ (symbols t cs) (messages t rs) (.blocked s₀ [])) ∧
        (owner = none → e = .blocked s₀ []) := by
  induction h with
  | nil =>
    refine ⟨by simp, none, by simp, fun t _ => .more h₀, fun _ => rfl⟩
  | @chunk cs rs s rest t c os e hr hd ih =>
    have hpre : ∀ t', ∃ os s rest, Decodes step s₀ (symbols t' cs) os (.blocked s rest) := by
      intro t'
      obtain ⟨os', s', rest', hd'⟩ := hwf t'
      rw [symbols_snoc] at hd'
      exact hd'.blocked_of_append hl
    obtain ⟨hnone, owner, hown, hother, hstart⟩ := ih halt.of_snoc hpre
    -- before the chunk the shared decoder is where the stream of the chunk left off
    have hleft : Decodes step s₀ (symbols t cs) (messages t rs) (.blocked s rest) := by
      cases owner with
      | none => rw [hstart rfl]; exact hother t (by simp)
      | some t₀ =>
        by_cases ht : t₀ = t
        · exact hown t (by rw [ht])
        · obtain ⟨os', hclean⟩ := halt cs t c [] rfl t₀ ht
          obtain ⟨-, he⟩ := (hown t₀ rfl).det hclean
          rw [he]; exact hother t (by simpa using ht)
    have hwhole : ∀ t', t' ≠ t →
        Decodes step s₀ (symbols t' cs) (messages t' rs) (.blocked s₀ []) := by
      intro t' ht'
      obtain ⟨os', hclean⟩ := halt cs t c [] rfl t' ht'
      by_cases hown' : owner = some t'
      · obtain ⟨rfl, -⟩ := (hown t' hown').det hclean
        exact hclean
      · exact hother t' hown'
    refine ⟨?_, some t, ?_, ?_, by simp⟩
    · intro t' err hmem
      rcases List.mem_append.mp hmem with hmem | hmem
      · exact hnone t' err hmem
      · simp at hmem
    · rintro t' ht'
      cases ht'
      simp only [symbols_snoc, messages_append, messages_got, if_true]
      exact hleft.append hl hd
    · intro t' ht'
      have hne : t ≠ t' := by simpa using ht'
      simp only [symbols_snoc, messages_append, messages_got, if_neg hne, List.append_nil]
      exact hwhole t' hne.symm
  | @refuse cs rs err t c hr ih =>
    -- a refusal presupposes a malformed stream
    have hpre : ∀ t', ∃ os s rest, Decodes step s₀ (symbols t' cs) os (.blocked s rest) := by
      intro t'
      obtain ⟨os', s', rest', hd'⟩ := hwf t'
      rw [symbols_snoc] at hd'
      exact hd'.blocked_of_append hl
    obtain ⟨-, owner, hown, -, hstart⟩ := ih halt.of_snoc hpre
    cases owner with
    | none => cases hstart rfl
    | some t₀ =>
      obtain ⟨os', s', rest', hd'⟩ := hpre t₀
      cases ((hown t₀ rfl).det hd').2

end

end Decoder
