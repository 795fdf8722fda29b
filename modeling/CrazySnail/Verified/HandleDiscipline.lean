import CrazySnail.Verified.Handling
import CrazySnail.Verified.Registry

/-! # Handle discipline

A stream is written to while it is connected and not closed, closed once and freed once,
after its close callback.  The client does not see to this by itself: `CONNECTED` survives a
close, `disconnect` closes what `on_read` has closed, and bits of one connection count for the
next.  In a run that stays away from these, the discipline is kept (`handleDiscipline`).
-/

namespace CrazySnail

open Transition (Always always_snoc always_nil)

/-- What may happen to a handle after `past`. -/
def handleOk (past : List Obs) : Obs → Prop
  | .uvWrite h _ => .connected h ∈ past ∧ .uvClose h ∉ past
  | .uvClose h => .uvClose h ∉ past
  | .freed h => .closed h ∈ past ∧ .freed h ∉ past
  | _ => True

/-- Handles are used in order, and a handle is freed when its close callback has run. -/
structure HandleDiscipline (w : World) : Prop where
  trace : Always handleOk w.trace
  freed : ∀ h, .closed h ∈ w.trace → .freed h ∈ w.trace

namespace Handling
variable {v : Handling} {gone : List Handle}

/-- A handle is there and has a property. -/
def Has (v : Handling) (f : Stream → Bool) (h : Handle) : Prop :=
  ∃ s, v.streams h = some s ∧ f s = true

theorem has_change_same {f : Stream → Bool} {t : StreamTag} (hf : ∀ s, f (s.change t) = f s)
    {h h' : Handle} : (v.change t h').Has f h ↔ v.Has f h := by
  simp only [Has, change_streams]
  by_cases heq : h = h'
  · subst heq
    cases v.streams h <;> simp [hf]
  · simp [heq]

theorem has_change_self {f : Stream → Bool} {t : StreamTag} {h : Handle} :
    (v.change t h).Has f h ↔ v.Has (fun s => f (s.change t)) h := by
  simp only [Has, change_streams, if_true]
  cases v.streams h <;> simp

theorem has_change_of_ne {f : Stream → Bool} {t : StreamTag} {h h' : Handle} (hne : h ≠ h') :
    (v.change t h').Has f h ↔ v.Has f h := by
  simp [Has, change_streams, hne]

theorem has_change_mono {f : Stream → Bool} {t : StreamTag}
    (hf : ∀ s, f s = true → f (s.change t) = true) {h h' : Handle} (hh : v.Has f h) :
    (v.change t h').Has f h := by
  by_cases heq : h = h'
  · subst heq
    exact has_change_self.mpr (hh.imp fun s hs => ⟨hs.1, hf s hs.2⟩)
  · exact (has_change_of_ne heq).mpr hh

theorem Has.unique {f g : Stream → Bool} {h : Handle} (hf : v.Has f h) (hg : v.Has g h) :
    v.Has (fun s => f s && g s) h := by
  obtain ⟨s, hs, hf⟩ := hf
  obtain ⟨t, ht, hg⟩ := hg
  obtain rfl := Option.some.inj (hs.symm.trans ht)
  exact ⟨s, hs, by simp [hf, hg]⟩

/-- One of the two handles of the last connection. -/
def Current (v : Handling) (h : Handle) : Prop := v.stream = some h ∨ v.subStream = some h

/-- The property holds of the handles of the last connection. -/
def Both (v : Handling) (p : Handle → Prop) : Prop :=
  ∃ s ss, v.stream = some s ∧ v.subStream = some ss ∧ s ≠ ss ∧ p s ∧ p ss

theorem Both.imp {p q : Handle → Prop} (h : v.Both p) (hpq : ∀ h, p h → q h) : v.Both q := by
  obtain ⟨s, ss, hs, hss, hne, hp, hp'⟩ := h
  exact ⟨s, ss, hs, hss, hne, hpq s hp, hpq ss hp'⟩

theorem Both.current {p : Handle → Prop} (h : v.Both p) {h' : Handle} (hh : v.Current h') :
    p h' := by
  obtain ⟨s, ss, hs, hss, -, hp, hp'⟩ := h
  rcases hh with hh | hh
  · exact Option.some.inj (hs.symm.trans hh) ▸ hp
  · exact Option.some.inj (hss.symm.trans hh) ▸ hp'

/-- A connect request in flight. -/
def Connecting (v : Handling) (h : Handle) : Prop := (.connect, h) ∈ v.requests

/-- The other connect requests are for other handles. -/
theorem finish_connecting (hdistinct : (v.requests.filter fun r => r.1 = .connect).Nodup)
    {i : Nat} {h h' : Handle} (hi : v.requests[i]? = some (.connect, h))
    (hh : (v.finish i).Connecting h') : h' ≠ h := by
  rintro rfl
  obtain ⟨hlt, hget⟩ := List.getElem?_eq_some_iff.mp hi
  have hsplit : v.requests = v.requests.take i ++ (.connect, h') :: v.requests.drop (i + 1) := by
    rw [← hget, List.cons_getElem_drop_succ, List.take_append_drop]
  rw [hsplit, List.filter_append, List.filter_cons, if_pos (by simp)] at hdistinct
  have hrest : (ReqKind.connect, h') ∈ v.requests.take i ++ v.requests.drop (i + 1) :=
    List.eraseIdx_eq_take_drop_succ v.requests i ▸ hh
  have hnot := (List.nodup_middle.mp hdistinct)
  rw [List.nodup_cons, ← List.filter_append] at hnot
  exact hnot.1 (List.mem_filter.mpr ⟨hrest, by simp⟩)

/-- A new connection has two new handles. -/
theorem has_connect {f : Stream → Bool} {h : Handle} :
    v.connect.Has f h ↔
      (h = v.next ∨ h = v.next + 1) ∧ f .init = true ∨
        (h ≠ v.next ∧ h ≠ v.next + 1) ∧ v.Has f h := by
  simp only [Has, Handling.connect, Function.update_apply]
  by_cases h₁ : h = v.next + 1
  · simp [h₁]
  · by_cases h₂ : h = v.next <;> simp [h₁, h₂]

theorem connect_known (hknown : ∀ h s, v.streams h = some s → h < v.next) {h : Handle}
    {s : Stream} (hs : v.connect.streams h = some s) : h < v.connect.next := by
  rcases has_connect.mp (⟨s, hs, rfl⟩ : v.connect.Has (fun _ => true) h) with
    ⟨rfl | rfl, -⟩ | ⟨-, t, ht, -⟩
  · exact Nat.lt_add_of_pos_right Nat.two_pos
  · exact Nat.lt_succ_self _
  · exact Nat.lt_add_right 2 (hknown h t ht)

/-- The connect requests of a new connection, if no other is in flight. -/
theorem connect_requests (hidle : ∀ h, ¬v.Connecting h) :
    v.connect.requests.filter (fun r => r.1 = ReqKind.connect) =
      [(.connect, v.next), (.connect, v.next + 1)] := by
  have hnone : v.requests.filter (fun r => r.1 = ReqKind.connect) = [] := by
    refine List.filter_eq_nil_iff.mpr fun r hr hkind => ?_
    obtain ⟨kind, h⟩ := r
    obtain rfl : kind = .connect := by simpa using hkind
    exact hidle h hr
  simp [Handling.connect, hnone]

theorem connect_connecting (hidle : ∀ h, ¬v.Connecting h) {h : Handle}
    (hh : v.connect.Connecting h) : h = v.next ∨ h = v.next + 1 := by
  have hh : (ReqKind.connect, h) ∈
      v.requests ++ [(ReqKind.connect, v.next)] ++ [(ReqKind.connect, v.next + 1)] := hh
  rw [List.append_assoc, List.mem_append] at hh
  simpa using hh.resolve_left (hidle h)

/-- A handle that can be closed. -/
def isOpen (s : Stream) : Bool := !s.freed && !s.closing

theorem open_iff {h : Handle} : v.Open h ↔ v.Has isOpen h := by
  simp [Open, Has, isOpen]

/-- A handle that is closing is not open. -/
theorem not_open_of_closing {h : Handle} (hclosing : v.Has Stream.closing h) :
    ¬v.Has isOpen h := by
  intro hopen
  obtain ⟨s, -, hs⟩ := hclosing.unique hopen
  obtain ⟨hclosed, -, hnot⟩ : s.closing = true ∧ s.freed = false ∧ s.closing = false := by
    simpa [isOpen] using hs
  rw [hclosed] at hnot
  cases hnot

/-- The invariant; `gone` are the streams that have been given up. -/
structure Sound (v : Handling) (gone : List Handle) : Prop where
  trace : Always handleOk v.trace
  connected : ∀ h, v.Has Stream.connected h → .connected h ∈ v.trace
  closed : ∀ h, .uvClose h ∈ v.trace → v.Has Stream.closing h
  closing : ∀ h, v.Has Stream.closing h → h ∈ gone
  freed : ∀ h, .freed h ∈ v.trace → v.Has Stream.freed h
  released : ∀ h, .closed h ∈ v.trace → .freed h ∈ v.trace
  freedClosing : ∀ h, v.Has Stream.freed h → v.Has Stream.closing h
  known : ∀ h s, v.streams h = some s → h < v.next
  current : v.stream = none ∧ v.subStream = none ∨ v.Both (v.Has fun _ => true)
  /-- a bit stands for a stream that is connected -/
  bit : (v.streamFlags.stream || v.streamFlags.subStream) = true →
    ∃ h, v.Current h ∧ v.Has Stream.connected h
  bits : (v.streamFlags.stream && v.streamFlags.subStream) = true → v.Both (v.Has Stream.connected)
  up : v.connected = true → v.Both (v.Has Stream.connected)
  connecting : ∀ h, v.Connecting h → v.Current h ∧ v.Has (fun s => !s.connected) h
  distinct : (v.requests.filter fun r => r.1 = .connect).Nodup
  /-- the streams `on_read` is about to close -/
  waiting : ∀ h ∈ v.closing, v.Has isOpen h ∧ h ∈ gone
  once : v.closing.Nodup

namespace Sound

/-! ## Changes of a handle -/

/-- A change that does not connect the handle, if it keeps freed handles closed and waiting
    ones open. -/
theorem change (hv : v.Sound gone) {t : StreamTag} (ht : t ≠ .connect) {h : Handle}
    (hclosing : ∀ h', (v.change t h).Has Stream.closing h' → h' ∈ gone)
    (hfreed : ∀ h', (v.change t h).Has Stream.freed h' → (v.change t h).Has Stream.closing h')
    (hwaiting : ∀ h' ∈ v.closing, (v.change t h).Has isOpen h') : (v.change t h).Sound gone := by
  have hconn : ∀ s : Stream, (s.change t).connected = s.connected := by
    intro s
    cases t <;> first | rfl | exact absurd rfl ht
  have hsame : ∀ {h'}, (v.change t h).Has Stream.connected h' ↔ v.Has Stream.connected h' :=
    has_change_same hconn
  have hmono : ∀ {f : Stream → Bool} {h'}, (∀ s, f s = true → f (s.change t) = true) → v.Has f h' →
      (v.change t h).Has f h' := fun hf hh => has_change_mono hf hh
  refine { hv with
    connected := fun h' hh => hv.connected h' (hsame.mp hh)
    closed := fun h' hh => hmono (fun s hs => by cases t <;> first | exact hs | rfl) (hv.closed h' hh)
    closing := hclosing
    freed := fun h' hh => hmono (fun s hs => by cases t <;> first | exact hs | rfl) (hv.freed h' hh)
    freedClosing := hfreed
    known := ?_
    current := hv.current.imp_right fun hb => hb.imp fun _ hh => hmono (fun _ _ => rfl) hh
    bit := fun hbit => (hv.bit hbit).imp fun h' hh => ⟨hh.1, hsame.mpr hh.2⟩
    bits := fun hbits => (hv.bits hbits).imp fun _ hh => hsame.mpr hh
    up := fun hup => (hv.up hup).imp fun _ hh => hsame.mpr hh
    connecting := fun h' hh => ⟨(hv.connecting h' hh).1,
      (has_change_same fun s => by rw [hconn]).mpr (hv.connecting h' hh).2⟩
    waiting := fun h' hh => ⟨hwaiting h' hh, (hv.waiting h' hh).2⟩ }
  intro h' s hs
  rw [change_streams] at hs
  split at hs
  next heq =>
    obtain ⟨s', hs', -⟩ := Option.map_eq_some_iff.mp hs
    exact hv.known h' s' (heq ▸ hs')
  · exact hv.known h' s hs

/-- A change of other fields than the ones the invariant looks at. -/
theorem mild (hv : v.Sound gone) {t : StreamTag} (ht : t ∈ [.data, .readStop, .readStart])
    (h : Handle) : (v.change t h).Sound gone := by
  have hclosing : ∀ s : Stream, (s.change t).closing = s.closing := by
    intro s; cases t <;> first | rfl | simp at ht
  have hfreed : ∀ s : Stream, (s.change t).freed = s.freed := by
    intro s; cases t <;> first | rfl | simp at ht
  refine hv.change (by rintro rfl; simp at ht) (fun h' hh => ?_) (fun h' hh => ?_) fun h' hh => ?_
  · exact hv.closing h' ((has_change_same hclosing).mp hh)
  · exact (has_change_same hclosing).mpr (hv.freedClosing h' ((has_change_same hfreed).mp hh))
  · exact (has_change_same fun s => by simp [isOpen, hclosing, hfreed]).mpr (hv.waiting h' hh).1

/-- More streams may be given up. -/
theorem give (hv : v.Sound gone) {gone' : List Handle} (hsub : gone ⊆ gone') : v.Sound gone' :=
  { hv with
    closing := fun h hh => hsub (hv.closing h hh)
    waiting := fun h hh => ⟨(hv.waiting h hh).1, hsub (hv.waiting h hh).2⟩ }

/-- An entry of the trace that is in order. -/
theorem note (hv : v.Sound gone) {o : Obs} (hok : handleOk v.trace o)
    (hclose : ∀ h, o = .uvClose h → v.Has Stream.closing h)
    (hfree : ∀ h, o ≠ .freed h ∧ o ≠ .closed h) : (v.note o).Sound gone := by
  have hmem : ∀ {p : Obs}, p ≠ o → (p ∈ v.trace ++ [o] ↔ p ∈ v.trace) := by
    intro p hp
    simp [hp]
  refine { hv with
    trace := always_snoc.mpr ⟨hv.trace, hok⟩
    connected := fun h hh => List.mem_append_left _ (hv.connected h hh)
    closed := ?_
    freed := fun h hh => hv.freed h ((hmem (hfree h).1.symm).mp hh)
    released := fun h hh =>
      List.mem_append_left _ (hv.released h ((hmem (hfree h).2.symm).mp hh)) }
  intro h hh
  by_cases heq : .uvClose h = o
  · exact hclose h heq.symm
  · exact hv.closed h ((hmem heq).mp hh)

/-- A handle that is open has not been closed. -/
theorem not_closed (hv : v.Sound gone) {h : Handle} (hopen : v.Has isOpen h) :
    .uvClose h ∉ v.trace := fun hmem => not_open_of_closing (hv.closed h hmem) hopen

/-- `uv_close` of an open handle that has been given up, if no frame is about to close it. -/
theorem close (hv : v.Sound gone) {h : Handle} (hopen : v.Has isOpen h) (hgone : h ∈ gone)
    (hfree : h ∉ v.closing) : (v.close h).Sound gone := by
  have hchange : (v.change .close h).Sound gone := by
    refine hv.change (by simp) (fun h' hh => ?_) (fun h' hh => ?_) fun h' hh => ?_
    · by_cases heq : h' = h
      · exact heq ▸ hgone
      · exact hv.closing h' ((has_change_of_ne heq).mp hh)
    · refine has_change_mono (fun s hs => rfl) (hv.freedClosing h' ?_)
      exact (has_change_same fun _ => rfl).mp hh
    · have hne : h' ≠ h := fun heq => hfree (heq ▸ hh)
      exact (has_change_of_ne hne).mpr (hv.waiting h' hh).1
  refine hchange.note (hv.not_closed hopen) (fun h' heq => ?_) (by simp)
  cases heq
  exact has_change_self.mpr (hopen.imp fun s hs => ⟨hs.1, rfl⟩)

/-- The close callback of a closing handle. -/
theorem free (hv : v.Sound gone) {h : Handle} (hclosing : v.Has Stream.closing h)
    (hnot : v.Has (fun s => !s.freed) h) : (v.freed h).Sound gone := by
  have hchange : (v.change .free h).Sound gone := by
    refine hv.change (by simp) (fun h' hh => ?_) (fun h' hh => ?_) fun h' hh => ?_
    · exact hv.closing h' ((has_change_same fun _ => rfl).mp hh)
    · refine (has_change_same fun _ => rfl).mpr ?_
      by_cases heq : h' = h
      · exact heq ▸ hclosing
      · exact hv.freedClosing h' ((has_change_of_ne heq).mp hh)
    · have hne : h' ≠ h := fun heq => not_open_of_closing hclosing (heq ▸ (hv.waiting h' hh).1)
      exact (has_change_of_ne hne).mpr (hv.waiting h' hh).1
  -- a handle is freed once: it was not freed before
  have hnever : .freed h ∉ v.trace := by
    intro hmem
    obtain ⟨s, -, hs⟩ := (hv.freed h hmem).unique hnot
    simp at hs
  have hmem : ∀ {o : Obs} {h'}, o ≠ .closed h' → o ≠ .freed h' →
      (o ∈ v.trace ++ [.closed h'] ++ [.freed h'] ↔ o ∈ v.trace) := by
    intro o h' hc hf
    simp [hc, hf]
  refine { hchange with
    trace := ?_
    connected := fun h' hh => (hmem (by simp) (by simp)).mpr (hchange.connected h' hh)
    closed := fun h' hh => hchange.closed h' ((hmem (by simp) (by simp)).mp hh)
    freed := ?_
    released := ?_ }
  · refine always_snoc.mpr ⟨always_snoc.mpr ⟨hv.trace, trivial⟩, ?_, ?_⟩
    · exact List.mem_append_right _ (List.mem_singleton_self _)
    · change .freed h ∉ v.trace ++ [.closed h]
      simpa using hnever
  · intro h' hh
    by_cases heq : h' = h
    · subst heq
      exact has_change_self.mpr (hclosing.imp fun s hs => ⟨hs.1, rfl⟩)
    · have hh : .freed h' ∈ v.trace ++ [.closed h] ++ [.freed h] := hh
      have hold : .freed h' ∈ v.trace := by simpa [heq] using hh
      exact hchange.freed h' hold
  · intro h' hh
    by_cases heq : h' = h
    · subst heq
      exact List.mem_append_right _ (List.mem_singleton_self _)
    · have hh : .closed h' ∈ v.trace ++ [.closed h] ++ [.freed h] := hh
      exact List.mem_append_left _ (List.mem_append_left _
        (hv.released h' (by simpa [heq] using hh)))

/-! ## Connections -/

/-- A write request is queued. -/
theorem request (hv : v.Sound gone) (h : Handle) : (v.request .write h).Sound gone := by
  refine { hv with connecting := fun h' hh => ?_, distinct := ?_ }
  · have hh : (ReqKind.connect, h') ∈ v.requests ++ [(ReqKind.write, h)] := hh
    exact hv.connecting h' (show (ReqKind.connect, h') ∈ v.requests by simpa using hh)
  · change ((v.requests ++ [(ReqKind.write, h)]).filter _).Nodup
    simpa using hv.distinct

/-- A request completes. -/
theorem finish (hv : v.Sound gone) (i : Nat) : (v.finish i).Sound gone := by
  have hsub : (v.requests.eraseIdx i).Sublist v.requests := List.eraseIdx_sublist _ _
  exact { hv with
    connecting := fun h hh => hv.connecting h (hsub.subset hh)
    distinct := hv.distinct.sublist (hsub.filter _) }

/-- The bits that are left when a stream is closed. -/
theorem down (hv : v.Sound gone) : { v with streamFlags := down v.streamFlags }.Sound gone := by
  refine { hv with bit := fun hbit => hv.bit ?_, bits := fun hbits => hv.bits ?_ }
  all_goals
    cases h₁ : v.streamFlags.stream <;> cases h₂ : v.streamFlags.subStream <;>
      simp_all [Handling.down]

/-- The bits count connected streams. -/
theorem opened (hv : v.Sound gone) {i : Nat} {h : Handle}
    (hi : v.requests[i]? = some (.connect, h)) : ((v.finish i).opened h).Sound gone := by
  obtain ⟨hcurrent, hfresh⟩ := hv.connecting h (List.mem_of_getElem? hi)
  have hself : (v.change .connect h).Has Stream.connected h :=
    has_change_self.mpr (hfresh.imp fun s hs => ⟨hs.1, rfl⟩)
  have hkeep : ∀ {h'}, v.Has Stream.connected h' → (v.change .connect h).Has Stream.connected h' :=
    fun hh => has_change_mono (fun _ _ => rfl) hh
  have hother : ∀ {f : Stream → Bool} {h'}, (∀ s, f (s.change .connect) = f s) →
      ((v.change .connect h).Has f h' ↔ v.Has f h') := fun hf => has_change_same hf
  -- a second bit is set for the second stream
  have hboth : ((Handling.up v.streamFlags).stream && (Handling.up v.streamFlags).subStream) = true →
      v.Both ((v.change .connect h).Has Stream.connected) := by
    intro hup
    cases hbits : v.streamFlags.stream && v.streamFlags.subStream with
    | true => exact (hv.bits hbits).imp fun _ hh => hkeep hh
    | false =>
      have hbit : (v.streamFlags.stream || v.streamFlags.subStream) = true := by
        cases h₁ : v.streamFlags.stream <;> cases h₂ : v.streamFlags.subStream <;>
          simp_all [Handling.up]
      obtain ⟨h', hcurrent', hconn⟩ := hv.bit hbit
      have hne : h ≠ h' := by
        rintro rfl
        obtain ⟨s, -, hs⟩ := hconn.unique hfresh
        simp at hs
      obtain hnone | ⟨s, ss, hs, hss, hne', -, -⟩ := hv.current
      · rcases hcurrent with hh | hh
        · rw [hnone.1] at hh; cases hh
        · rw [hnone.2] at hh; cases hh
      refine ⟨s, ss, hs, hss, hne', ?_⟩
      have hcase : ∀ {k}, v.Current k → k = s ∨ k = ss := fun hk =>
        hk.imp (fun hk => Option.some.inj (hk.symm.trans hs))
          fun hk => Option.some.inj (hk.symm.trans hss)
      rcases hcase hcurrent with rfl | rfl <;> rcases hcase hcurrent' with rfl | rfl
      · exact absurd rfl hne
      · exact ⟨hself, hkeep hconn⟩
      · exact ⟨hkeep hconn, hself⟩
      · exact absurd rfl hne
  have hfinish := hv.finish i
  have hmem : ∀ {o : Obs}, o ≠ .connected h → (o ∈ v.trace ++ [.connected h] ↔ o ∈ v.trace) := by
    intro o ho
    simp [ho]
  exact {
    trace := always_snoc.mpr ⟨hv.trace, trivial⟩
    connected := fun h' hh => by
      by_cases heq : h' = h
      · exact heq ▸ List.mem_append_right _ (List.mem_singleton_self _)
      · exact List.mem_append_left _ (hv.connected h' ((has_change_of_ne heq).mp hh))
    closed := fun h' hh => (hother fun _ => rfl).mpr (hv.closed h' ((hmem (by simp)).mp hh))
    closing := fun h' hh => hv.closing h' ((hother fun _ => rfl).mp hh)
    freed := fun h' hh => (hother fun _ => rfl).mpr (hv.freed h' ((hmem (by simp)).mp hh))
    released := fun h' hh => List.mem_append_left _ (hv.released h' ((hmem (by simp)).mp hh))
    freedClosing := fun h' hh => (hother fun _ => rfl).mpr
      (hv.freedClosing h' ((hother fun _ => rfl).mp hh))
    known := fun h' s hs => by
      have hs : (v.change .connect h).streams h' = some s := hs
      rw [change_streams] at hs
      split at hs
      next heq =>
        obtain ⟨s', hs', -⟩ := Option.map_eq_some_iff.mp hs
        exact heq ▸ hv.known h s' hs'
      · exact hv.known h' s hs
    current := hv.current.imp_right fun hb => hb.imp fun _ hh => (hother fun _ => rfl).mpr hh
    bit := fun _ => ⟨h, hcurrent, hself⟩
    bits := hboth
    up := fun hup => by
      rcases (Bool.or_eq_true _ _).mp hup with hup | hup
      · exact (hv.up hup).imp fun _ hh => hkeep hh
      · exact hboth hup
    connecting := fun h' hh => by
      obtain ⟨hc, hn⟩ := hfinish.connecting h' hh
      exact ⟨hc, (has_change_of_ne (finish_connecting hv.distinct hi hh)).mpr hn⟩
    distinct := hfinish.distinct
    waiting := fun h' hh => ⟨(hother fun _ => rfl).mpr (hv.waiting h' hh).1, (hv.waiting h' hh).2⟩
    once := hv.once }

/-- A connection replaces one whose bits are clear and whose connect requests have completed. -/
theorem connect (hv : v.Sound gone) (hdown : v.streamFlags = .none)
    (hidle : ∀ h, ¬v.Connecting h) : v.connect.Sound gone := by
  -- the handles of older connections stay as they are
  have hkeep : ∀ {f : Stream → Bool} {h}, v.Has f h → v.connect.Has f h := by
    rintro f h ⟨s, hs, hf⟩
    have hlt := hv.known h s hs
    exact has_connect.mpr (.inr ⟨⟨Nat.ne_of_lt hlt, Nat.ne_of_lt (Nat.lt_succ_of_lt hlt)⟩, s, hs, hf⟩)
  -- the new handles are open, and nothing else holds of them yet
  have hold : ∀ {f : Stream → Bool} {h}, f .init = false → v.connect.Has f h → v.Has f h :=
    fun hinit hh => (has_connect.mp hh).elim (fun h => absurd h.2 (by simp [hinit])) fun h => h.2
  have hnew : ∀ {f : Stream → Bool}, f .init = true →
      v.connect.Has f v.next ∧ v.connect.Has f (v.next + 1) :=
    fun hinit => ⟨has_connect.mpr (.inl ⟨.inl rfl, hinit⟩), has_connect.mpr (.inl ⟨.inr rfl, hinit⟩)⟩
  have hmem : ∀ {o : Obs}, o ≠ .connect v.next (v.next + 1) →
      (o ∈ v.trace ++ [.connect v.next (v.next + 1)] ↔ o ∈ v.trace) := by
    intro o ho
    simp [ho]
  have hbits : v.connect.streamFlags = .none := hdown
  exact {
    trace := always_snoc.mpr ⟨hv.trace, trivial⟩
    connected := fun h hh => List.mem_append_left _ (hv.connected h (hold rfl hh))
    closed := fun h hh => hkeep (hv.closed h ((hmem (by simp)).mp hh))
    closing := fun h hh => hv.closing h (hold rfl hh)
    freed := fun h hh => hkeep (hv.freed h ((hmem (by simp)).mp hh))
    released := fun h hh => List.mem_append_left _ (hv.released h ((hmem (by simp)).mp hh))
    freedClosing := fun h hh => hkeep (hv.freedClosing h (hold rfl hh))
    known := fun h s hs => connect_known hv.known hs
    current := .inr ⟨v.next, v.next + 1, rfl, rfl, Nat.ne_of_lt (Nat.lt_succ_self _), hnew rfl⟩
    bit := fun hbit => by rw [hbits] at hbit; cases hbit
    bits := fun hbit => by rw [hbits] at hbit; cases hbit
    up := fun hup => by cases hup
    connecting := fun h hh => by
      rcases connect_connecting hidle hh with rfl | rfl
      · exact ⟨.inl rfl, (hnew rfl).1⟩
      · exact ⟨.inr rfl, (hnew rfl).2⟩
    distinct := by
      rw [connect_requests hidle]
      simp
    waiting := fun h hh => ⟨hkeep (hv.waiting h hh).1, (hv.waiting h hh).2⟩
    once := hv.once }

end Sound

end Handling

/-! ## What the client relies on -/

/-- The streams that have been given up: `disconnect` was called, libuv reported the end of the
    stream, or connecting failed and there is no error handler. -/
def givenUp (gone : List Handle) (w : World) : Event → List Handle
  | .api .disconnect =>
    if w.cc.flags.disconnecting then gone else w.cc.stream.toList ++ w.cc.subStream.toList ++ gone
  | .readError h _ => h :: gone
  | .connected _ status =>
    if status < 0 ∧ w.cc.rErrorCb.slot? = none then w.cc.stream.toList ++ gone else gone
  | _ => gone

/-- What the client relies on.  Lua code does not exit. -/
def Careful (s : World × List Handle) (e : Event) (_ : World × List Handle) : Prop :=
  match e with
  | .api .connect =>
    -- nothing of an earlier connection is left
    s.1.cc.streamFlags = .none ∧ ∀ r ∈ s.1.uv.requests, r.kind ≠ .connect
  | .api (.command args _) =>
    s.1.cc.flags.connected = true → ∀ argv timers, collect args = .ok argv timers →
      ∀ h, s.1.sending.target (classify (argv.headD [])).subMode = some h → h ∉ s.2
  | .api .disconnect =>
    s.1.cc.flags.disconnecting = true ∨ ∀ h, s.1.handling.Current h → h ∉ s.2
  | .api .exit => False
  | .connected _ status =>
    status < 0 → s.1.cc.rErrorCb.slot? = none → ∀ h, s.1.cc.stream = some h → h ∉ s.2
  | _ => True

theorem subset_givenUp (gone : List Handle) (w : World) (e : Event) : gone ⊆ givenUp gone w e := by
  unfold givenUp
  split
  · split
    · exact List.Subset.refl _
    · exact List.subset_append_right _ _
  · exact List.subset_cons_self _ _
  · split
    · exact List.subset_append_right _ _
    · exact List.Subset.refl _
  · exact List.Subset.refl _

namespace Handling
namespace Sound
variable {v : Handling} {gone : List Handle}

/-- A handle of the connection that has not been given up is open, and no frame is about to
    close it. -/
theorem isOpen (hv : v.Sound gone) {h : Handle} (hcurrent : v.Current h) (hgone : h ∉ gone) :
    v.Has isOpen h ∧ h ∉ v.closing := by
  refine ⟨?_, fun hh => hgone (hv.waiting h hh).2⟩
  obtain ⟨hs, hss⟩ | hboth := hv.current
  · rcases hcurrent with hh | hh
    · rw [hs] at hh; cases hh
    · rw [hss] at hh; cases hh
  · obtain ⟨s, hs, -⟩ := hboth.current hcurrent
    have hclosing : s.closing = false := by
      by_contra hc
      exact hgone (hv.closing h ⟨s, hs, by simpa using hc⟩)
    have hfreed : s.freed = false := by
      by_contra hf
      exact hgone (hv.closing h (hv.freedClosing h ⟨s, hs, by simpa using hf⟩))
    exact ⟨s, hs, by simp [Handling.isOpen, hclosing, hfreed]⟩

/-- `uv_write` to a stream of an established connection. -/
theorem write (hv : v.Sound gone) (hup : v.connected = true) {h : Handle} (hcurrent : v.Current h)
    (hgone : h ∉ gone) (frame : Bytes) : (v.note (.uvWrite h frame)).Sound gone := by
  refine hv.note ⟨hv.connected h ((hv.up hup).current hcurrent), fun hclose => ?_⟩ (by simp)
    (by simp)
  exact hgone (hv.closing h (hv.closed h hclose))

/-- `disconnect()` closes both streams. -/
theorem disconnect (hv : v.Sound gone) {s ss : Handle} (hs : v.Current s) (hss : v.Current ss)
    (hne : s ≠ ss) (hgone : s ∉ gone) (hgone' : ss ∉ gone) {gone' : List Handle}
    (hsub : gone ⊆ gone') (hs' : s ∈ gone') (hss' : ss ∈ gone') :
    (v.disconnect s ss).Sound gone' := by
  obtain ⟨hopen, hfree⟩ := hv.isOpen hs hgone
  obtain ⟨hopen', hfree'⟩ := hv.isOpen hss hgone'
  have hdata : ∀ {h}, ((v.change .data s).change .data ss).Has Handling.isOpen h ↔
      v.Has Handling.isOpen h := (has_change_same fun _ => rfl).trans (has_change_same fun _ => rfl)
  have hv' := ((hv.give hsub).mild (t := .data) (by simp) s).mild (t := .data) (by simp) ss
  have hfirst := hv'.close (hdata.mpr hopen) hs' hfree
  refine hfirst.close ?_ hss' hfree'
  exact (has_change_of_ne hne.symm).mpr (hdata.mpr hopen')

end Sound
end Handling

/-! ## Steps -/

namespace World

/-- Without a connection `disconnect` stops at once. -/
theorem luaClientDisconnect_none {w : World} (hs : w.cc.stream = none)
    (hss : w.cc.subStream = none) : w.luaClientDisconnect.handling = w.handling := by
  have hcrash : (w.setData w.cc.stream).setData w.cc.subStream =
      (w.crash .deadStream).crash .deadStream := by rw [hs, hss]; rfl
  unfold luaClientDisconnect
  split
  · rfl
  · dsimp only
    rw [hcrash, if_pos (crash_isSome _ _)]
    rfl

/-- The target of a command is a stream of the connection. -/
theorem target_current {w : World} {subMode : Bool} {h : Handle}
    (htarget : w.sending.target subMode = some h) : w.handling.Current h := by
  cases subMode with
  | false => exact .inl htarget
  | true => exact .inr htarget

/-- `disconnect()` of a careful caller. -/
theorem disconnect_sound {w w' : World} {gone : List Handle} (hv : w.handling.Sound gone)
    (hstep : w.step (.api .disconnect) = some w')
    (hcareful : w.cc.flags.disconnecting = true ∨ ∀ h, w.handling.Current h → h ∉ gone) :
    w'.handling.Sound (givenUp gone w (.api .disconnect)) ∧
      (w.cc.stream ≠ none → w'.fault = none) := by
  obtain ⟨hfault, hs⟩ := step_cases hstep
  cases hs with
  | api c _ =>
  change (w.luaClientDisconnect).handling.Sound _ ∧ (_ → w.luaClientDisconnect.fault = none)
  cases hdisc : w.cc.flags.disconnecting with
  | true =>
    have hsame : w.luaClientDisconnect = w := by
      unfold luaClientDisconnect
      rw [if_pos hdisc]
    rw [hsame]
    exact ⟨hv.give (subset_givenUp _ _ _), fun _ => hfault⟩
  | false =>
    have hfresh := hcareful.resolve_left (by simp [hdisc])
    obtain ⟨htrue, -⟩ | ⟨s, ss, hs, hss, hne, -, -, heq, hfault'⟩ | ⟨hnot, hstuck⟩ :=
      w.luaClientDisconnect_handling hfault
    · rw [hdisc] at htrue
      cases htrue
    · have hgiven : givenUp gone w (.api .disconnect) = [s, ss] ++ gone := by
        simp [givenUp, hdisc, hs, hss]
      refine ⟨?_, fun _ => hfault'⟩
      rw [heq, hgiven]
      exact hv.disconnect (.inl hs) (.inr hss) hne (hfresh s (.inl hs)) (hfresh ss (.inr hss))
        (List.subset_append_right _ _) (by simp) (by simp)
    · -- there is no connection yet
      have hnone : w.cc.stream = none ∧ w.cc.subStream = none := by
        obtain hnone | ⟨s, ss, hs, hss, hne, -⟩ := hv.current
        · exact hnone
        · refine absurd ⟨s, ss, hs, hss, hne, ?_, ?_⟩ hnot
          · exact Handling.open_iff.mpr (hv.isOpen (.inl hs) (hfresh s (.inl hs))).1
          · exact Handling.open_iff.mpr (hv.isOpen (.inr hss) (hfresh ss (.inr hss))).1
      refine ⟨?_, fun h => absurd hnone.1 h⟩
      rw [luaClientDisconnect_none hnone.1 hnone.2]
      exact hv.give (subset_givenUp _ _ _)

end World

theorem step_sound {w w' : World} {e : Event} {gone : List Handle} (hv : w.handling.Sound gone)
    (hstep : w.step e = some w') (hcareful : Careful (w, gone) e (w', givenUp gone w e)) :
    w'.handling.Sound (givenUp gone w e) := by
  have hsub := subset_givenUp gone w e
  have hgive := hv.give hsub
  cases step_handling hstep with
  | quiet _ heq => exact heq.symm ▸ hgive
  | exit => exact hcareful.elim
  | connect heq =>
    rw [heq]
    -- the handles that `connect` replaces have been given up before
    refine hgive.connect hcareful.1 fun h hh => ?_
    obtain ⟨r, hr, heq⟩ := List.mem_map.mp hh
    exact hcareful.2 r hr (Prod.mk.inj heq).1
  | @command args env argv timers _ hcollect hwrites =>
    have hwrite : ∀ {h frame}, w.cc.flags.connected = true →
        w.sending.target (classify (argv.headD [])).subMode = some h →
        (w.handling.note (.uvWrite h frame)).Sound gone := fun hconn htarget =>
      hv.write hconn (World.target_current htarget) (hcareful hconn argv timers hcollect _ htarget) _
    cases hwrites with
    | quiet heq => exact heq.symm ▸ hgive
    | refused frame hconn htarget _ heq => exact heq.symm ▸ hwrite hconn htarget
    | accepted frame hconn htarget _ _ _ heq => exact heq.symm ▸ (hwrite hconn htarget).request _
    | dead frame hconn htarget _ heq => exact heq.symm ▸ hwrite hconn htarget
  | disconnect => exact (World.disconnect_sound hv hstep hcareful).1
  | stuck => exact (World.disconnect_sound hv hstep hcareful).1
  | @resume h rest _ hstack hcloses =>
    -- `on_read` closes the stream for which it has waited
    have hclosing : w.handling.closing = h :: rest.filterMap Frame.closing? := by
      change w.stack.filterMap Frame.closing? = _
      rw [hstack]
      rfl
    have hwaiting := hv.waiting
    have honce := hv.once
    rw [hclosing] at hwaiting honce
    have hpopped : { w with stack := rest }.handling.Sound gone := { hv with
      waiting := fun h' hh => hwaiting h' (List.mem_cons_of_mem _ hh)
      once := (List.nodup_cons.mp honce).2 }
    obtain ⟨hopen, hgone⟩ := hwaiting h List.mem_cons_self
    cases hcloses with
    | done _ heq _ => exact heq.symm ▸ hpopped.close hopen hgone (List.nodup_cons.mp honce).1
    | stops hnot => exact absurd (Handling.open_iff.mpr hopen) hnot
  | readStop _ heq => exact heq.symm ▸ hgive.mild (by simp) _
  | @readError h nread s _ hstack hs _ hclosing hhangs =>
    -- libuv reads from open handles only
    have hopen : w.handling.Has Handling.isOpen h := by
      refine ⟨s, hs, ?_⟩
      have hfreed : s.freed = false := by
        by_contra hf
        obtain ⟨t, ht, hc⟩ := hv.freedClosing h ⟨s, hs, by simpa using hf⟩
        obtain rfl := Option.some.inj (hs.symm.trans ht)
        rw [hclosing] at hc
        cases hc
      simp [Handling.isOpen, hclosing, hfreed]
    have hnone : w.handling.closing = [] := by
      change w.stack.filterMap Frame.closing? = []
      rw [hstack]
      rfl
    cases hhangs with
    | quiet heq => exact heq.symm ▸ hgive
    | closes hcloses =>
      cases hcloses with
      | done _ heq _ =>
        exact heq.symm ▸ hgive.close hopen List.mem_cons_self (hnone ▸ List.not_mem_nil)
      | stops hnot => exact absurd (Handling.open_iff.mpr hopen) hnot
    | waits heq =>
      rw [heq, hnone]
      refine { hgive with waiting := fun h' hh => ?_, once := List.nodup_singleton h }
      obtain rfl := List.mem_singleton.mp hh
      exact ⟨hopen, List.mem_cons_self⟩
  | @written i req status readStart _ _ _ hwritten =>
    have hdata := (hgive.finish i).mild (t := .data) (by simp) req.handle
    rcases hwritten with heq | ⟨-, heq⟩
    · exact heq.symm ▸ hdata
    · exact heq.symm ▸ hdata.mild (by simp) _
  | @refused i req status _ hreq hkind hstatus hrefuses =>
    have hfinish : (w.finish i).handling = w.handling.finish i := finish_handling w i
    cases hrefuses with
    | reported _ heq => exact (heq.trans hfinish).symm ▸ hgive.finish i
    | dead _ heq => exact (heq.trans hfinish).symm ▸ hgive.finish i
    | @closes h hnot hs hcloses =>
      -- without an error handler `on_connect` closes the stream itself
      have hslot : w.cc.rErrorCb.slot? = none := by
        cases hcb : w.cc.rErrorCb with
        | ref n => exact absurd hcb (hnot n)
        | noref | refnil => rfl
      obtain ⟨hopen, hfree⟩ := hv.isOpen (.inl hs) (hcareful hstatus hslot h hs)
      have hgone : h ∈ givenUp gone w (.connected i status) := by
        have hs : w.cc.stream = some h := hs
        simp [givenUp, hstatus, hslot, hs]
      cases hcloses with
      | done _ heq _ =>
        rw [heq, hfinish]
        exact (hgive.finish i).close hopen hgone hfree
      | stops hnot =>
        rw [hfinish] at hnot
        exact absurd (Handling.open_iff.mpr hopen) hnot
  | @opened i req status s _ hreq hkind _ _ hopened =>
    have hi : w.handling.requests[i]? = some (.connect, req.handle) := by
      change (w.uv.requests.map fun r => (r.kind, r.handle))[i]? = _
      rw [List.getElem?_map, hreq, Option.map_some, hkind]
    have hsound := hgive.opened hi
    rcases hopened with heq | ⟨-, f, heq⟩
    · exact heq.symm ▸ hsound
    · exact heq.symm ▸ hsound.note trivial (by simp) (by simp)
  | @closed h s _ hs hclosing hfreed _ hdisconnects =>
    have hfree := hgive.free ⟨s, hs, hclosing⟩ ⟨s, hs, by simp [hfreed]⟩
    cases hdisconnects with
    | dead _ _ heq => exact heq.symm ▸ hfree
    | half _ _ _ heq => exact heq.symm ▸ hfree.down
    | last _ _ _ heq =>
      rcases heq with heq | ⟨f, heq⟩
      · exact heq.symm ▸ hfree.down
      · exact heq.symm ▸ hfree.down.note trivial (by simp) (by simp)

/-! ## The result -/

theorem sound_new (ignore : Bool) : (World.new ignore).handling.Sound [] := by
  have hnone : ∀ {f : Stream → Bool} {h}, ¬(World.new ignore).handling.Has f h :=
    fun ⟨_, hs, _⟩ => by cases hs
  exact {
    trace := always_nil
    connected := fun h hh => absurd hh hnone
    closed := fun h hh => absurd hh List.not_mem_nil
    closing := fun h hh => absurd hh hnone
    freed := fun h hh => absurd hh List.not_mem_nil
    released := fun h hh => absurd hh List.not_mem_nil
    freedClosing := fun h hh => absurd hh hnone
    known := fun h s hs => by cases hs
    current := .inl ⟨rfl, rfl⟩
    bit := fun hbit => by cases hbit
    bits := fun hbits => by cases hbits
    up := fun hup => by cases hup
    connecting := fun h hh => absurd hh List.not_mem_nil
    distinct := List.nodup_nil
    waiting := fun h hh => absurd hh List.not_mem_nil
    once := List.nodup_nil }

/-- The trace of the handles says all there is to say. -/
theorem handleOk_filter (past : List Obs) (o : Obs) (h : handleOk (past.filter handled) o) :
    handleOk past o := by
  have hmem : ∀ {p : Obs}, handled p = true → (p ∈ past.filter handled ↔ p ∈ past) := by
    intro p hp
    simp [hp]
  cases o with
  | uvWrite h₁ _ => exact ⟨(hmem rfl).mp h.1, fun hc => h.2 ((hmem rfl).mpr hc)⟩
  | uvClose h₁ => exact fun hc => h ((hmem rfl).mpr hc)
  | freed h₁ => exact ⟨(hmem rfl).mp h.1, fun hc => h.2 ((hmem rfl).mpr hc)⟩
  | _ => trivial

theorem Handling.Sound.discipline {w : World} {gone : List Handle} (h : w.handling.Sound gone) :
    HandleDiscipline w where
  trace := h.trace.of_filter handleOk_filter fun past o ho => by
    cases o <;> trivial
  freed h₁ hclosed := by
    have hin : .closed h₁ ∈ w.trace.filter handled := List.mem_filter.mpr ⟨hclosed, rfl⟩
    exact (List.mem_filter.mp (h.released h₁ hin)).1

/-- **Handle discipline.**  In a run with a careful caller, handles are used in order, and
    `disconnect` touches no handle that is closed or freed. -/
theorem handleDiscipline {ignore : Bool} {es : List Event} {w : World} {gone : List Handle}
    (hrun : Transition.RunsUnder (Transition.watched World.step givenUp) Careful
      (World.new ignore, []) es (w, gone)) :
    HandleDiscipline w ∧
      ∀ w', w.step (.api .disconnect) = some w' → w.cc.stream ≠ none →
        Careful (w, gone) (.api .disconnect) (w', givenUp gone w (.api .disconnect)) →
        w'.fault = none := by
  have hsound : w.handling.Sound gone := by
    refine hrun.invariant (I := fun s => s.1.handling.Sound s.2) (fun s e t hs hst hC => ?_)
      (sound_new ignore)
    obtain ⟨hstep, hgone⟩ := Transition.watched_eq_some.mp hst
    obtain ⟨w, gone⟩ := s
    obtain ⟨w', gone'⟩ := t
    obtain rfl : givenUp gone w e = gone' := hgone
    exact step_sound hs hstep hC
  exact ⟨hsound.discipline, fun w' hstep hs hcareful =>
    (World.disconnect_sound hsound hstep hcareful).2 hs⟩

/-- The server closes both streams; the client connects again and disconnects. -/
def carefulRun : List Event :=
  [.api .connect, .connected 0 0, .connected 0 0,
   .api (.command [.string (ascii "ping")] ⟨0, false⟩),
   .api (.command [.string (ascii "subscribe"), .string (ascii "a")] ⟨0, false⟩),
   .written 0 0 0, .written 0 0 0, .readError 0 (-4095), .closed 0, .readError 1 (-4095), .closed 1,
   .api .connect, .connected 0 0, .connected 0 0,
   .api (.command [.string (ascii "ping")] ⟨0, false⟩), .written 0 0 0, .api .disconnect,
   .closed 2, .closed 3]

def carefulCheck (s : World × List Handle) : Event → Bool
  | .api .connect => decide (s.1.cc.streamFlags = .none) &&
      s.1.uv.requests.all fun r => decide (r.kind ≠ .connect)
  | .api (.command args _) =>
    match collect args with
    | .ok argv _ => (s.1.sending.target (classify (argv.headD [])).subMode).all fun h =>
        decide (h ∉ s.2)
    | _ => true
  | .api .disconnect => s.1.cc.stream.all (fun h => decide (h ∉ s.2)) &&
      s.1.cc.subStream.all fun h => decide (h ∉ s.2)
  | .api .exit => false
  | .connected _ status => decide (0 ≤ status)
  | _ => true

theorem careful_of_check {s t : World × List Handle} {e : Event} (h : carefulCheck s e = true) :
    Careful s e t := by
  cases e with
  | api c =>
    cases c with
    | connect => simpa [carefulCheck, Careful] using h
    | command args env =>
      intro _ argv timers hcollect h₁ htarget
      simp only [carefulCheck, hcollect, htarget, Option.all_some] at h
      exact of_decide_eq_true h
    | disconnect =>
      refine .inr fun h₁ hcurrent => ?_
      simp only [carefulCheck, Bool.and_eq_true] at h
      rcases hcurrent with hs | hs
      · have hs : s.1.cc.stream = some h₁ := hs
        simpa [hs] using h.1
      · have hs : s.1.cc.subStream = some h₁ := hs
        simpa [hs] using h.2
    | exit => cases h
    | on => trivial
  | connected i status =>
    intro hstatus
    have hpos : 0 ≤ status := by simpa [carefulCheck] using h
    omega
  | _ => trivial

theorem handleDiscipline_careful :
    ∃ w, runs (World.new true) carefulRun = some w ∧ HandleDiscipline w ∧
      w.trace.countP (fun o => o.tag == .freed) = 4 := by
  have hrun : (Transition.runChecked (Transition.watched World.step givenUp) carefulCheck
      (World.new true, []) carefulRun).map
      (fun s => s.1.trace.countP fun o => o.tag == .freed) = some 4 := by decide +kernel
  obtain ⟨⟨w, gone⟩, hw, hcount⟩ := Option.map_eq_some_iff.mp hrun
  have hunder := Transition.runsUnder_of_checked (C := Careful)
    (fun _ _ _ h _ => careful_of_check h) hw
  exact ⟨w, Transition.run_of_watched hunder.run_eq, (handleDiscipline hunder).1, hcount⟩

/-- A stream has been closed before it is written to. -/
theorem not_discipline {w : World} {h : Handle} {frame : Bytes} {past future : List Obs}
    (htrace : w.trace = past ++ .uvWrite h frame :: future) (hclosed : .uvClose h ∈ past) :
    ¬HandleDiscipline w := fun hd => (hd.trace past _ future htrace).2 hclosed

/-- A ping, the end of the command stream, and another ping. -/
def writeAfterEnd : List Event :=
  [.api .connect, .connected 0 0, .connected 0 0,
   .api (.command [.string (ascii "ping")] ⟨0, false⟩), .written 0 0 0, .readError 0 (-4095),
   .api (.command [.string (ascii "ping")] ⟨0, false⟩)]

/-- `CONNECTED` is still set when the server has closed the command stream. -/
theorem handleDiscipline_hungUp : ∃ w, Reachable w ∧ ¬HandleDiscipline w := by
  have hrun : (runs (World.new true) writeAfterEnd).map World.trace = some
      ([.connect 0 1, .connected 0, .connected 1, .command .ordinary [ascii "ping"] [] none 0,
        .mallocCmd 0, .uvWrite 0 (redisFormatCommandArgv [ascii "ping"]), .freeCmd 0, .uvClose 0,
        .command .ordinary [ascii "ping"] [] none 1, .mallocCmd 1] ++
        .uvWrite 0 (redisFormatCommandArgv [ascii "ping"]) ::
        [.raised (.error (.strerror (-9)))]) := rfl
  obtain ⟨w, hw, htrace⟩ := Option.map_eq_some_iff.mp hrun
  exact ⟨w, ⟨true, _, hw⟩, not_discipline htrace (by simp)⟩

end CrazySnail
