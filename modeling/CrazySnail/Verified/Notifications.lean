import CrazySnail.Verified.HandleDiscipline
import CrazySnail.Verified.Queue

/-! # Notifications of a connection

The `connect` handler is called once, when both streams are connected, and the `disconnect`
handler once, when both have been closed.  Two bits that do not say which stream they stand for
keep count; they do so as long as a connection starts without bits and `disconnect` is called
with both (`connectionNotified`).
-/

namespace CrazySnail

open Transition (Always always_snoc always_nil)

/-- `seg` is what has happened since the last `connect()`, which made the handles `s`, `ss`. -/
structure Since (past : List Obs) (s ss : Handle) (seg : List Obs) : Prop where
  split : ∃ before, past = before ++ .connect s ss :: seg
  last : ∀ h h', .connect h h' ∉ seg

/-- A handler has been called. -/
def Called (site : Site) (seg : List Obs) : Prop := ∃ f args, .call site f args ∈ seg

/-- What must have happened to the connection before a handler is called. -/
def notifyOk (past : List Obs) : Obs → Prop
  | .call .connect _ _ => ∃ s ss seg, Since past s ss seg ∧ ¬Called .connect seg ∧
      .connected s ∈ seg ∧ .connected ss ∈ seg
  | .call .disconnect _ _ => ∃ s ss seg, Since past s ss seg ∧ ¬Called .disconnect seg ∧
      .closed s ∈ seg ∧ .closed ss ∈ seg
  | _ => True

/-- Entries that are no calls and start no connection. -/
def Obs.plain (o : Obs) : Prop :=
  (∀ h h', o ≠ .connect h h') ∧ ∀ site f args, o ≠ .call site f args

theorem notifyOk_plain {o : Obs} (ho : o.plain) (past : List Obs) : notifyOk past o := by
  cases o with
  | call site f args => exact absurd rfl (ho.2 site f args)
  | _ => trivial

namespace Since
variable {past seg : List Obs} {s ss : Handle}

theorem snoc (h : Since past s ss seg) {o : Obs} (ho : ∀ h h', o ≠ .connect h h') :
    Since (past ++ [o]) s ss (seg ++ [o]) := by
  obtain ⟨before, rfl⟩ := h.split
  refine ⟨⟨before, by simp⟩, fun h₁ h₂ hmem => ?_⟩
  rcases List.mem_append.mp hmem with hmem | hmem
  · exact h.last h₁ h₂ hmem
  · exact ho h₁ h₂ (List.mem_singleton.mp hmem).symm

end Since

theorem Called.of_snoc {site : Site} {seg : List Obs} {o : Obs} (h : Called site (seg ++ [o]))
    (ho : ∀ f args, o ≠ .call site f args) : Called site seg := by
  obtain ⟨f, args, hmem⟩ := h
  rcases List.mem_append.mp hmem with hmem | hmem
  · exact ⟨f, args, hmem⟩
  · exact absurd (List.mem_singleton.mp hmem).symm (ho f args)

namespace Handling
variable {v : Handling}

/-- How far the connection with the handles `s` and `ss` has come. -/
inductive Stage (v : Handling) (s ss : Handle) (seg : List Obs) : Prop
  | opening : v.connected = false → ¬Called .connect seg → ¬Called .disconnect seg →
      v.streamFlags.subStream = false →
      (v.streamFlags.stream = true →
        ∃ h, v.Current h ∧ v.Has Stream.connected h ∧ .connected h ∈ seg) →
      v.Has (fun st => !st.freed) s → v.Has (fun st => !st.freed) ss → Stage v s ss seg
  | established : v.connected = true → ¬Called .disconnect seg → v.streamFlags = ⟨true, true⟩ →
      v.Has (fun st => !st.freed) s → v.Has (fun st => !st.freed) ss → Stage v s ss seg
  /-- one stream has been closed -/
  | half {h : Handle} : v.connected = true → ¬Called .disconnect seg →
      v.streamFlags.stream ≠ v.streamFlags.subStream → v.Current h → v.Has Stream.freed h →
      .closed h ∈ seg → Stage v s ss seg
  | ended : v.connected = true → v.streamFlags = .none → v.Has Stream.freed s →
      v.Has Stream.freed ss → Stage v s ss seg

/-- The invariant. -/
structure Announced (v : Handling) : Prop where
  trace : Always notifyOk v.trace
  known : ∀ h st, v.streams h = some st → h < v.next
  /-- only streams of an established connection are known to have a client -/
  data : ∀ h, v.Has (fun st => st.data && !st.freed) h → v.connected = true ∧ v.Current h
  writes : ∀ h, (.write, h) ∈ v.requests →
    v.connected = true ∧ v.Current h ∧ v.Has (fun st => !st.freed) h
  connecting : ∀ h, v.Connecting h →
    v.connected = false ∧ v.Current h ∧ v.Has (fun st => !st.connected) h
  distinct : (v.requests.filter fun r => r.1 = .connect).Nodup
  stage : v.stream = none ∧ v.subStream = none ∧ v.streamFlags = .none ∨
    ∃ s ss seg, v.stream = some s ∧ v.subStream = some ss ∧ s ≠ ss ∧ Since v.trace s ss seg ∧
      v.Stage s ss seg

/-- A stage is left by what concerns bits, streams that are connected or freed, and handlers. -/
theorem Stage.keep {v' : Handling} {s ss : Handle} {seg seg' : List Obs} (h : v.Stage s ss seg)
    (hconn : v'.connected = v.connected) (hflags : v'.streamFlags = v.streamFlags)
    (hcurrent : ∀ h, v.Current h → v'.Current h)
    (hhas : ∀ f : Stream → Bool, f ∈ [Stream.connected, Stream.freed, fun st => !st.freed] →
      ∀ h, v.Has f h → v'.Has f h)
    (hseg : seg ⊆ seg') (hcalled : ∀ site, Called site seg' → Called site seg) :
    v'.Stage s ss seg' := by
  cases h with
  | opening hc hn hn' hsub hbit ha ha' =>
    refine .opening (hconn.trans hc) (mt (hcalled _) hn) (mt (hcalled _) hn') (hflags ▸ hsub)
      (fun hb => ?_) (hhas _ (by simp) _ ha) (hhas _ (by simp) _ ha')
    obtain ⟨h, hcur, hcon, hmem⟩ := hbit (hflags ▸ hb)
    exact ⟨h, hcurrent h hcur, hhas _ (by simp) h hcon, hseg hmem⟩
  | established hc hn hb ha ha' =>
    exact .established (hconn.trans hc) (mt (hcalled _) hn) (hflags.trans hb)
      (hhas _ (by simp) _ ha) (hhas _ (by simp) _ ha')
  | half hc hn hb hcur hf hmem =>
    exact .half (hconn.trans hc) (mt (hcalled _) hn) (hflags ▸ hb) (hcurrent _ hcur)
      (hhas _ (by simp) _ hf) (hseg hmem)
  | ended hc hb hf hf' =>
    exact .ended (hconn.trans hc) (hflags.trans hb) (hhas _ (by simp) _ hf) (hhas _ (by simp) _ hf')

namespace Announced

/-- An entry that is no call and starts no connection. -/
theorem note (hv : v.Announced) {o : Obs} (ho : o.plain) : (v.note o).Announced := by
  refine { hv with
    trace := always_snoc.mpr ⟨hv.trace, notifyOk_plain ho _⟩
    stage := hv.stage.imp_right ?_ }
  rintro ⟨s, ss, seg, hs, hss, hne, hsince, hstage⟩
  refine ⟨s, ss, seg ++ [o], hs, hss, hne, hsince.snoc ho.1, ?_⟩
  exact hstage.keep rfl rfl (fun _ h => h) (fun _ _ _ h => h) (List.subset_append_left _ _)
    fun site h => h.of_snoc (ho.2 site)

/-- A change of a handle that is neither connected nor freed by it. -/
theorem change (hv : v.Announced) {t : StreamTag} (ht : t ≠ .connect ∧ t ≠ .free) {h : Handle}
    (hdata : t = .data → v.connected = true ∧ v.Current h) : (v.change t h).Announced := by
  have hconn : ∀ s : Stream, (s.change t).connected = s.connected := by
    intro s
    cases t <;> first | rfl | exact absurd rfl ht.1
  have hfree : ∀ s : Stream, (s.change t).freed = s.freed := by
    intro s
    cases t <;> first | rfl | exact absurd rfl ht.2
  have hsame : ∀ {f : Stream → Bool} {h'}, (∀ s, f (s.change t) = f s) →
      ((v.change t h).Has f h' ↔ v.Has f h') := fun hf => has_change_same hf
  refine { hv with
    known := ?_
    data := fun h' hh => ?_
    writes := fun h' hh => ?_
    connecting := fun h' hh => ?_
    stage := hv.stage.imp_right ?_ }
  · intro h' s hs
    rw [change_streams] at hs
    split at hs
    next heq =>
      obtain ⟨s', hs', -⟩ := Option.map_eq_some_iff.mp hs
      exact hv.known h' s' (heq ▸ hs')
    · exact hv.known h' s hs
  · by_cases heq : h' = h
    · by_cases htag : t = .data
      · exact heq ▸ hdata htag
      · refine hv.data h' ((hsame fun s => ?_).mp hh)
        rw [hfree]
        cases t <;> first | rfl | exact absurd rfl htag
    · exact hv.data h' ((has_change_of_ne heq).mp hh)
  · obtain ⟨hc, hcur, halive⟩ := hv.writes h' hh
    exact ⟨hc, hcur, (hsame fun s => by rw [hfree]).mpr halive⟩
  · obtain ⟨hc, hcur, hnot⟩ := hv.connecting h' hh
    exact ⟨hc, hcur, (hsame fun s => by rw [hconn]).mpr hnot⟩
  · rintro ⟨s, ss, seg, hs, hss, hne, hsince, hstage⟩
    refine ⟨s, ss, seg, hs, hss, hne, hsince, ?_⟩
    refine hstage.keep rfl rfl (fun _ h => h) (fun f hf h' hh => ?_) (List.Subset.refl _)
      fun _ h => h
    simp only [List.mem_cons, List.not_mem_nil, or_false] at hf
    rcases hf with rfl | rfl | rfl
    · exact (hsame hconn).mpr hh
    · exact (hsame hfree).mpr hh
    · exact (hsame fun s => by rw [hfree]).mpr hh

theorem close (hv : v.Announced) (h : Handle) : (v.close h).Announced :=
  (hv.note (o := .uvClose h) ⟨by simp, by simp⟩).change (by simp) (by simp)

/-- A request completes. -/
theorem finish (hv : v.Announced) (i : Nat) : (v.finish i).Announced := by
  have hsub : (v.requests.eraseIdx i).Sublist v.requests := List.eraseIdx_sublist _ _
  refine { hv with
    writes := fun h hh => hv.writes h (hsub.subset hh)
    connecting := fun h hh => hv.connecting h (hsub.subset hh)
    distinct := hv.distinct.sublist (hsub.filter _)
    stage := hv.stage.imp_right ?_ }
  rintro ⟨s, ss, seg, hs, hss, hne, hsince, hstage⟩
  exact ⟨s, ss, seg, hs, hss, hne, hsince, hstage.keep rfl rfl (fun _ h => h) (fun _ _ _ h => h)
    (List.Subset.refl _) fun _ h => h⟩

/-- A write request to a stream of an established connection. -/
theorem request (hv : v.Announced) {h : Handle} (hconn : v.connected = true)
    (hcurrent : v.Current h) (halive : v.Has (fun st => !st.freed) h) :
    (v.request .write h).Announced := by
  have hmem : ∀ {k h'}, (k, h') ∈ v.requests ++ [(ReqKind.write, h)] →
      (k, h') ∈ v.requests ∨ k = .write ∧ h' = h := by
    intro k h' hh
    simpa using hh
  refine { hv with
    writes := fun h' hh => ?_
    connecting := fun h' hh => ?_
    distinct := ?_
    stage := hv.stage.imp_right ?_ }
  · rcases hmem hh with hh | ⟨-, rfl⟩
    · exact hv.writes h' hh
    · exact ⟨hconn, hcurrent, halive⟩
  · rcases hmem hh with hh | ⟨hk, -⟩
    · exact hv.connecting h' hh
    · cases hk
  · change ((v.requests ++ [(ReqKind.write, h)]).filter _).Nodup
    simpa using hv.distinct
  · rintro ⟨s, ss, seg, hs, hss, hne, hsince, hstage⟩
    exact ⟨s, ss, seg, hs, hss, hne, hsince, hstage.keep rfl rfl (fun _ h => h)
      (fun _ _ _ h => h) (List.Subset.refl _) fun _ h => h⟩

/-- A connection replaces one that has no bits and no connect request left. -/
theorem connect (hv : v.Announced) (hdown : v.streamFlags = .none)
    (hidle : ∀ h, ¬v.Connecting h) : v.connect.Announced := by
  -- no stream of the old connection can be closed with its client
  have hquiet : ∀ h, v.connected = true → v.Current h → ¬v.Has (fun st => !st.freed) h := by
    intro h hconn hcur halive
    obtain ⟨hs, hss, -⟩ | ⟨s, ss, seg, hs, hss, -, -, hstage⟩ := hv.stage
    · rcases hcur with hh | hh
      · rw [hs] at hh; cases hh
      · rw [hss] at hh; cases hh
    · cases hstage with
      | opening hc => rw [hconn] at hc; cases hc
      | established _ _ hb => rw [hdown] at hb; cases hb
      | half _ _ hb => rw [hdown] at hb; exact hb rfl
      | ended _ _ hf hf' =>
        have hfreed : v.Has Stream.freed h := by
          rcases hcur with hh | hh
          · exact Option.some.inj (hs.symm.trans hh) ▸ hf
          · exact Option.some.inj (hss.symm.trans hh) ▸ hf'
        obtain ⟨st, -, hst⟩ := hfreed.unique halive
        simp at hst
  have hnew : ∀ {f : Stream → Bool}, f .init = true →
      v.connect.Has f v.next ∧ v.connect.Has f (v.next + 1) :=
    fun hinit => ⟨has_connect.mpr (.inl ⟨.inl rfl, hinit⟩), has_connect.mpr (.inl ⟨.inr rfl, hinit⟩)⟩
  have hfirst : ∀ site, ¬Called site [] := fun _ ⟨_, _, hmem⟩ => List.not_mem_nil hmem
  exact {
    trace := always_snoc.mpr ⟨hv.trace, trivial⟩
    known := fun h st hs => connect_known hv.known hs
    data := fun h hh => by
      rcases has_connect.mp hh with ⟨-, hinit⟩ | ⟨-, hold⟩
      · cases hinit
      · obtain ⟨hconn, hcur⟩ := hv.data h hold
        obtain ⟨st, hs, hst⟩ := hold
        rw [Bool.and_eq_true] at hst
        exact absurd ⟨st, hs, hst.2⟩ (hquiet h hconn hcur)
    writes := fun h hh => by
      have hh : (ReqKind.write, h) ∈ v.requests := by
        have hh : (ReqKind.write, h) ∈
            v.requests ++ [(ReqKind.connect, v.next)] ++ [(ReqKind.connect, v.next + 1)] := hh
        simpa using hh
      obtain ⟨hconn, hcur, halive⟩ := hv.writes h hh
      exact absurd halive (hquiet h hconn hcur)
    connecting := fun h hh => by
      rcases connect_connecting hidle hh with rfl | rfl
      · exact ⟨rfl, .inl rfl, (hnew rfl).1⟩
      · exact ⟨rfl, .inr rfl, (hnew rfl).2⟩
    distinct := by
      rw [connect_requests hidle]
      simp
    stage := .inr ⟨v.next, v.next + 1, [], rfl, rfl, Nat.ne_of_lt (Nat.lt_succ_self _),
      ⟨⟨v.trace, rfl⟩, fun _ _ => List.not_mem_nil⟩,
      .opening rfl (hfirst _) (hfirst _) (congrArg StreamFlags.subStream hdown)
        (fun hb => by
          have hb : v.streamFlags.stream = true := hb
          rw [hdown] at hb
          cases hb) (hnew rfl).1 (hnew rfl).2⟩ }

/-- Of two different streams of the connection, each is one of its handles. -/
theorem current_pair {s ss h h' : Handle} (hs : v.stream = some s) (hss : v.subStream = some ss)
    (hh : v.Current h) (hh' : v.Current h') (hne : h ≠ h') {p : Handle → Prop} (hp : p h)
    (hp' : p h') : p s ∧ p ss := by
  have hcase : ∀ {k}, v.Current k → k = s ∨ k = ss := fun hk =>
    hk.imp (fun hk => Option.some.inj (hk.symm.trans hs))
      fun hk => Option.some.inj (hk.symm.trans hss)
  rcases hcase hh with rfl | rfl <;> rcases hcase hh' with rfl | rfl
  · exact absurd rfl hne
  · exact ⟨hp, hp'⟩
  · exact ⟨hp', hp⟩
  · exact absurd rfl hne

/-- A handler of an established connection is called; `disconnect`, when its bits are gone. -/
theorem call (hv : v.Announced) {site : Site} {f : Fn} (hconn : v.connected = true)
    (hsite : site = .disconnect → v.streamFlags = .none)
    (hok : notifyOk v.trace (.call site f [])) : (v.note (.call site f [])).Announced := by
  refine { hv with
    trace := always_snoc.mpr ⟨hv.trace, hok⟩
    stage := hv.stage.imp_right ?_ }
  rintro ⟨s, ss, seg, hs, hss, hne, hsince, hstage⟩
  have hsince' : Since (v.trace ++ [.call site f []]) s ss (seg ++ [.call site f []]) :=
    hsince.snoc (by simp)
  refine ⟨s, ss, seg ++ [Obs.call site f []], hs, hss, hne, hsince', ?_⟩
  have hcalled : v.streamFlags ≠ .none → ¬Called .disconnect seg →
      ¬Called .disconnect (seg ++ [.call site f []]) := fun hb hn hc =>
    hn (hc.of_snoc fun g args heq => hb (hsite (Obs.call.inj heq).1))
  cases hstage with
  | opening hc => rw [hconn] at hc; cases hc
  | established _ hn hb ha ha' =>
    exact .established hconn (hcalled (by rw [hb]; simp [StreamFlags.none]) hn) hb ha ha'
  | half _ hn hb hcur hf hmem =>
    refine .half hconn (hcalled (fun heq => ?_) hn) hb hcur hf (List.mem_append_left _ hmem)
    rw [heq] at hb
    exact hb rfl
  | ended _ hb hf hf' => exact .ended hconn hb hf hf'

/-- A stream is connected; with the second one, the connection is established. -/
theorem opened (hv : v.Announced) {i : Nat} {h : Handle}
    (hi : v.requests[i]? = some (.connect, h)) :
    ((v.finish i).opened h).Announced ∧
      (((Handling.up v.streamFlags).stream && (Handling.up v.streamFlags).subStream) = true →
        ∀ f, (((v.finish i).opened h).note (.call .connect f [])).Announced) := by
  obtain ⟨hconn, hcurrent, hfresh⟩ := hv.connecting h (List.mem_of_getElem? hi)
  obtain ⟨hs, hss, -⟩ | ⟨s, ss, seg, hs, hss, hne, hsince, hstage⟩ := hv.stage
  · rcases hcurrent with hh | hh
    · rw [hs] at hh; cases hh
    · rw [hss] at hh; cases hh
  cases hstage with
  | established hc => rw [hconn] at hc; cases hc
  | half hc => rw [hconn] at hc; cases hc
  | ended hc => rw [hconn] at hc; cases hc
  | opening _ hn hn' hsub hbit ha ha' =>
  have hnotrue : v.connected ≠ true := by simp [hconn]
  have hself : (v.change .connect h).Has Stream.connected h :=
    has_change_self.mpr (hfresh.imp fun s hs => ⟨hs.1, rfl⟩)
  have hkeep : ∀ {f : Stream → Bool} {h'}, (∀ s, f s = true → f (s.change .connect) = true) →
      v.Has f h' → (v.change .connect h).Has f h' := fun hf hh => has_change_mono hf hh
  have hsince' : Since (v.trace ++ [.connected h]) s ss (seg ++ [.connected h]) :=
    hsince.snoc (by simp)
  have hcalled : ∀ {site}, ¬Called site seg → ¬Called site (seg ++ [.connected h]) :=
    fun hn hc => hn (hc.of_snoc (by simp))
  have hin : Obs.connected h ∈ seg ++ [.connected h] :=
    List.mem_append_right _ (List.mem_singleton_self _)
  -- what does not depend on the bits
  have hbase : ∀ sf, Handling.up v.streamFlags = sf →
      (v.connected = false → (sf.stream && sf.subStream) = true → ∀ h', ¬(v.finish i).Connecting h') →
      Stage ((v.finish i).opened h) s ss (seg ++ [.connected h]) →
      ((v.finish i).opened h).Announced := by
    rintro sf rfl hidle hstage'
    exact {
      trace := always_snoc.mpr ⟨hv.trace, trivial⟩
      known := fun h' st hst => by
        have hst : (v.change .connect h).streams h' = some st := hst
        rw [change_streams] at hst
        split at hst
        next heq =>
          obtain ⟨st', hst', -⟩ := Option.map_eq_some_iff.mp hst
          exact heq ▸ hv.known h st' hst'
        · exact hv.known h' st hst
      data := fun h' hh => absurd (hv.data h' ((has_change_same fun _ => rfl).mp hh)).1 hnotrue
      writes := fun h' hh => absurd ((hv.finish i).writes h' hh).1 hnotrue
      connecting := fun h' hh => by
        obtain ⟨-, hcur, hnot⟩ := (hv.finish i).connecting h' hh
        refine ⟨?_, hcur, (has_change_of_ne (finish_connecting hv.distinct hi hh)).mpr hnot⟩
        have hbits : ((v.finish i).opened h).connected =
            ((Handling.up v.streamFlags).stream && (Handling.up v.streamFlags).subStream) := by
          simp [Handling.opened, Handling.finish, hconn]
        rw [hbits]
        by_contra hboth
        exact hidle hconn (by simpa using hboth) h' hh
      distinct := (hv.finish i).distinct
      stage := .inr ⟨s, ss, _, hs, hss, hne, hsince', hstage'⟩ }
  cases hone : v.streamFlags.stream with
  | false =>
    have hup : Handling.up v.streamFlags = ⟨true, false⟩ := by
      simp [Handling.up, hone, hsub]
    refine ⟨hbase _ hup (fun _ hboth => by cases hboth) ?_, fun hboth => by rw [hup] at hboth; cases hboth⟩
    have hsf : ((v.finish i).opened h).streamFlags = ⟨true, false⟩ := hup
    refine .opening ?_ (hcalled hn) (hcalled hn') (by rw [hsf]) (fun _ => ⟨h, hcurrent, hself, hin⟩)
      (hkeep (fun _ h => h) ha) (hkeep (fun _ h => h) ha')
    simp [Handling.opened, Handling.finish, hconn, hup]
  | true =>
    obtain ⟨h', hcurrent', hconn', hin'⟩ := hbit hone
    have hne' : h ≠ h' := by
      rintro rfl
      obtain ⟨st, -, hst⟩ := hconn'.unique hfresh
      simp at hst
    have hup : Handling.up v.streamFlags = ⟨true, true⟩ := by
      simp [Handling.up, hone, hsub]
    have hup' : ((v.finish i).opened h).connected = true := by
      simp [Handling.opened, Handling.finish, hup]
    have hsound : ((v.finish i).opened h).Announced := by
      refine hbase _ hup (fun _ _ k hk => ?_) (.established hup' (hcalled hn') hup
        (hkeep (fun _ h => h) ha) (hkeep (fun _ h => h) ha'))
      -- the other stream is connected already
      obtain ⟨-, hcur, hnot⟩ := (hv.finish i).connecting k hk
      have hk' := finish_connecting hv.distinct hi hk
      have hkh' : k = h' := by
        have hpair := current_pair (p := fun j => j = h ∨ j = h') hs hss hcurrent hcurrent' hne'
          (.inl rfl) (.inr rfl)
        rcases hcur with hh | hh
        · exact (Option.some.inj (hs.symm.trans hh) ▸ hpair.1).resolve_left hk'
        · exact (Option.some.inj (hss.symm.trans hh) ▸ hpair.2).resolve_left hk'
      subst hkh'
      obtain ⟨st, -, hst⟩ := hconn'.unique hnot
      simp at hst
    refine ⟨hsound, fun _ f => hsound.call hup' (by simp) ⟨s, ss, _, hsince', hcalled hn, ?_⟩⟩
    exact current_pair (p := fun k => Obs.connected k ∈ seg ++ [.connected h]) hs hss hcurrent
      hcurrent' hne' hin (List.mem_append_left _ hin')

/-- The close callback of a stream whose client is known; the second one ends the
    connection. -/
theorem closed (hv : v.Announced) {h : Handle} (hdata : v.Has (fun st => st.data && !st.freed) h)
    (hreq : ∀ r ∈ v.requests, r.2 ≠ h) :
    Announced { v.freed h with streamFlags := Handling.down v.streamFlags } ∧
      (((Handling.down v.streamFlags).stream || (Handling.down v.streamFlags).subStream) = false →
        ∀ f, (Handling.note { v.freed h with streamFlags := Handling.down v.streamFlags }
          (.call .disconnect f [])).Announced) := by
  obtain ⟨hconn, hcurrent⟩ := hv.data h hdata
  have halive : v.Has (fun st => !st.freed) h := by
    obtain ⟨st, hs, hst⟩ := hdata
    rw [Bool.and_eq_true] at hst
    exact ⟨st, hs, hst.2⟩
  obtain ⟨hs, hss, -⟩ | ⟨s, ss, seg, hs, hss, hne, hsince, hstage⟩ := hv.stage
  · rcases hcurrent with hh | hh
    · rw [hs] at hh; cases hh
    · rw [hss] at hh; cases hh
  have hself : (v.change .free h).Has Stream.freed h :=
    has_change_self.mpr (halive.imp fun st hs => ⟨hs.1, rfl⟩)
  have hne_of : ∀ {h'}, v.Has Stream.freed h' → h ≠ h' := by
    rintro h' hf rfl
    obtain ⟨st, -, hst⟩ := hf.unique halive
    simp at hst
  have hsince' : Since (v.trace ++ [.closed h] ++ [.freed h]) s ss
      (seg ++ [.closed h] ++ [.freed h]) := (hsince.snoc (by simp)).snoc (by simp)
  have hcalled : ∀ {site}, ¬Called site seg →
      ¬Called site (seg ++ [.closed h] ++ [.freed h]) :=
    fun hn hc => hn ((hc.of_snoc (by simp)).of_snoc (by simp))
  have hin : Obs.closed h ∈ seg ++ [.closed h] ++ [.freed h] := by simp
  -- what does not depend on the bits
  have hbase : Stage { v.freed h with streamFlags := Handling.down v.streamFlags } s ss
      (seg ++ [.closed h] ++ [.freed h]) →
      Announced { v.freed h with streamFlags := Handling.down v.streamFlags } := by
    intro hstage'
    exact {
      trace := always_snoc.mpr ⟨always_snoc.mpr ⟨hv.trace, trivial⟩, trivial⟩
      known := fun h' st hst => by
        have hst : (v.change .free h).streams h' = some st := hst
        rw [change_streams] at hst
        split at hst
        next heq =>
          obtain ⟨st', hst', -⟩ := Option.map_eq_some_iff.mp hst
          exact heq ▸ hv.known h st' hst'
        · exact hv.known h' st hst
      data := fun h' hh => by
        have hh : (v.change .free h).Has (fun st => st.data && !st.freed) h' := hh
        have hnot : h' ≠ h := by
          rintro rfl
          obtain ⟨st, -, hst⟩ := hh.unique hself
          obtain ⟨⟨-, hnot⟩, hfreed⟩ : (st.data = true ∧ st.freed = false) ∧ st.freed = true := by
            simpa using hst
          rw [hfreed] at hnot
          cases hnot
        exact hv.data h' ((has_change_of_ne hnot).mp hh)
      writes := fun h' hh => by
        obtain ⟨hc, hcur, hfree⟩ := hv.writes h' hh
        exact ⟨hc, hcur, (has_change_of_ne (hreq _ hh)).mpr hfree⟩
      connecting := fun h' hh => by
        obtain ⟨hc, -⟩ := hv.connecting h' hh
        rw [hconn] at hc
        cases hc
      distinct := hv.distinct
      stage := .inr ⟨s, ss, _, hs, hss, hne, hsince', hstage'⟩ }
  cases hstage with
  | opening hc => rw [hconn] at hc; cases hc
  | ended _ _ hf hf' =>
    rcases hcurrent with hh | hh
    · exact absurd (Option.some.inj (hh.symm.trans hs)) (hne_of hf)
    · exact absurd (Option.some.inj (hh.symm.trans hss)) (hne_of hf')
  | established _ hn hb _ _ =>
    have hdown : Handling.down v.streamFlags = ⟨false, true⟩ := by rw [hb]; rfl
    rw [hdown] at hbase ⊢
    exact ⟨hbase (.half hconn (hcalled hn) (by simp) hcurrent hself hin), fun hlast => by cases hlast⟩
  | @half h' _ hn hb hcurrent' hf hmem =>
    have hdown : Handling.down v.streamFlags = .none := by
      cases h₁ : v.streamFlags.stream <;> cases h₂ : v.streamFlags.subStream <;>
        simp_all [Handling.down, StreamFlags.none]
    rw [hdown] at hbase ⊢
    have hfreed : (v.change .free h).Has Stream.freed h' :=
      has_change_mono (fun _ _ => rfl) hf
    have hpair := current_pair (p := (v.change .free h).Has Stream.freed) hs hss hcurrent hcurrent'
      (hne_of hf) hself hfreed
    have hover := hbase (.ended hconn rfl hpair.1 hpair.2)
    have hboth := current_pair (p := fun k => Obs.closed k ∈ seg ++ [.closed h] ++ [.freed h]) hs hss
      hcurrent hcurrent' (hne_of hf) hin (by simp [hmem])
    have hok : ∀ f, notifyOk (v.freed h).trace (.call .disconnect f []) :=
      fun _ => ⟨s, ss, _, hsince', hcalled hn, hboth⟩
    exact ⟨hover, fun _ f => hover.call hconn (fun _ => rfl) (hok f)⟩

/-- Both bits stand for an established connection. -/
theorem connected_of_bits (hv : v.Announced) (hbits : v.streamFlags = ⟨true, true⟩) :
    v.connected = true := by
  obtain ⟨-, -, hb⟩ | ⟨s, ss, seg, -, -, -, -, hstage⟩ := hv.stage
  · rw [hbits] at hb; cases hb
  · cases hstage with
    | opening _ _ _ hb => rw [hbits] at hb; cases hb
    | established hc => exact hc
    | half hc => exact hc
    | ended hc => exact hc

/-- The frames of `on_read` do not matter. -/
theorem frames (hv : v.Announced) (closing : List Handle) : Announced { v with closing } := by
  refine { hv with stage := hv.stage.imp_right ?_ }
  rintro ⟨s, ss, seg, hs, hss, hne, hsince, hstage⟩
  exact ⟨s, ss, seg, hs, hss, hne, hsince, hstage.keep rfl rfl (fun _ h => h) (fun _ _ _ h => h)
    (List.Subset.refl _) fun _ h => h⟩

/-- `disconnect()` of an established connection. -/
theorem disconnect (hv : v.Announced) (hconn : v.connected = true) {s ss : Handle}
    (hs : v.Current s) (hss : v.Current ss) : (v.disconnect s ss).Announced :=
  (((hv.change (t := .data) (by simp) fun _ => ⟨hconn, hs⟩).change (t := .data) (by simp)
    fun _ => ⟨hconn, hss⟩).close s).close ss

end Announced

end Handling

/-! ## Steps -/

/-- What the client relies on: a connection starts without the bits of another one, and
    `disconnect` is called with both.  Lua code does not exit. -/
def Paired (w : World) (e : Event) (_ : World) : Prop :=
  match e with
  | .api .connect => w.cc.streamFlags = .none ∧ ∀ r ∈ w.uv.requests, r.kind ≠ .connect
  | .api .disconnect => w.cc.flags.disconnecting = true ∨ w.cc.streamFlags = ⟨true, true⟩
  | .api .exit => False
  | _ => True

theorem Update.apply_notified (w : World) (u : Update)
    (hu : u.part ∉ [.obs (.call .connect), .obs (.call .disconnect)])
    (h : Always notifyOk w.handling.trace) : Always notifyOk (u.apply w).handling.trace := by
  cases u with
  | log o =>
    have hok : notifyOk w.handling.trace o := by
      cases o with
      | call site f args => cases site <;> first | trivial | simp at hu
      | _ => trivial
    change Always notifyOk ((w.trace ++ [o]).filter handled)
    rw [List.filter_append, List.filter_singleton]
    cases handled o with
    | true => exact always_snoc.mpr ⟨h, hok⟩
    | false =>
      change Always notifyOk (w.trace.filter handled ++ [])
      rw [List.append_nil]
      exact h
  | names p t => cases p <;> exact h
  | _ => exact h

/-- Announcements after a step, unless the program has stopped. -/
def StillAnnounced (w : World) : Prop :=
  Always notifyOk w.handling.trace ∧ (w.fault = none → w.handling.Announced)

theorem Handling.Announced.still {w : World} {v : Handling} (hv : v.Announced)
    (heq : w.handling = v) : StillAnnounced w := by
  subst heq
  exact ⟨hv.trace, fun _ => hv⟩

/-- `uv_close` of any handle. -/
theorem World.Closes.announced {w w' : World} {h : Handle} (hv : w.handling.Announced)
    (hcloses : World.Closes w h w') : StillAnnounced w' := by
  cases hcloses with
  | done _ heq _ => exact (hv.close h).still heq
  | stops _ hfault heq =>
    refine ⟨heq ▸ always_snoc.mpr ⟨hv.trace, trivial⟩, fun hnone => ?_⟩
    rw [hnone] at hfault
    cases hfault

theorem step_announced {w w' : World} {e : Event} (hv : w.handling.Announced)
    (hstep : w.step e = some w') (hpaired : Paired w e w') : StillAnnounced w' := by
  have htouches := step_touches hstep
  cases step_handling hstep with
  | quiet _ heq => exact hv.still heq
  | exit => exact hpaired.elim
  | connect heq =>
    refine (hv.connect hpaired.1 fun h hh => ?_).still heq
    obtain ⟨r, hr, heq⟩ := List.mem_map.mp hh
    exact hpaired.2 r hr (Prod.mk.inj heq).1
  | command _ hwrites =>
    have hnote : ∀ {h frame}, (w.handling.note (.uvWrite h frame)).Announced := fun {h frame} =>
      hv.note (o := .uvWrite h frame) ⟨by simp, by simp⟩
    cases hwrites with
    | quiet heq => exact hv.still heq
    | refused frame _ _ _ heq => exact hnote.still heq
    | accepted frame hconn htarget hs hfreed _ heq =>
      exact (hnote.request hconn (World.target_current htarget) ⟨_, hs, by simp [hfreed]⟩).still heq
    | dead frame _ _ _ heq => exact hnote.still heq
  | @disconnect s ss _ hs hss _ _ _ heq =>
    -- a second `disconnect` does nothing; a first one finds both bits set
    rcases hpaired with hdisc | hbits
    · obtain ⟨-, hcases⟩ := step_cases hstep
      cases hcases with
      | api c _ =>
        refine hv.still (congrArg World.handling ?_)
        change w.luaClientDisconnect = w
        unfold World.luaClientDisconnect
        rw [if_pos hdisc]
    · exact (hv.disconnect (hv.connected_of_bits hbits) (.inl hs) (.inr hss)).still heq
  | stuck _ _ hfault =>
    refine ⟨htouches.keeps (I := fun w => Always notifyOk w.handling.trace)
      (fun w u hu hw => u.apply_notified w hu hw) rfl hv.trace, fun hnone => ?_⟩
    rw [hnone] at hfault
    cases hfault
  | @resume h rest _ hstack hcloses =>
    exact World.Closes.announced (w := { w with stack := rest }) (hv.frames _) hcloses
  | readStop _ heq => exact (hv.change (by simp) (by simp)).still heq
  | readError _ _ _ _ hhangs =>
    cases hhangs with
    | quiet heq => exact hv.still heq
    | closes hcloses => exact World.Closes.announced hv hcloses
    | waits heq => exact (hv.frames _).still heq
  | @written i req _ _ _ hreq hkind hwritten =>
    have hmem : (ReqKind.write, req.handle) ∈ w.handling.requests :=
      List.mem_map.mpr ⟨req, List.mem_of_getElem? hreq, by rw [hkind]⟩
    obtain ⟨hconn, hcur, -⟩ := hv.writes _ hmem
    have hdata := (hv.finish i).change (t := .data) (h := req.handle) (by simp) fun _ => ⟨hconn, hcur⟩
    rcases hwritten with heq | ⟨-, heq⟩
    · exact hdata.still heq
    · exact (hdata.change (by simp) (by simp)).still heq
  | @refused i req _ _ _ _ _ hrefuses =>
    have hfinish : (w.finish i).handling.Announced := finish_handling w i ▸ hv.finish i
    cases hrefuses with
    | reported _ heq => exact hfinish.still heq
    | closes _ _ hcloses => exact World.Closes.announced hfinish hcloses
    | dead _ heq _ => exact hfinish.still heq
  | @opened i req _ s _ hreq hkind _ _ hopened =>
    have hi : w.handling.requests[i]? = some (.connect, req.handle) := by
      change (w.uv.requests.map fun r => (r.kind, r.handle))[i]? = _
      rw [List.getElem?_map, hreq, Option.map_some, hkind]
    -- the second connection that is up calls the handler
    obtain ⟨hquiet, hcall⟩ := hv.opened hi
    rcases hopened with heq | ⟨hboth, f, heq⟩
    · exact hquiet.still heq
    · exact (hcall hboth f).still heq
  | @closed h s _ hs hclosing hfreed hreqs hdisconnects =>
    cases hdisconnects with
    | dead _ hfault heq =>
      refine ⟨?_, fun hnone => ?_⟩
      · rw [heq]
        exact always_snoc.mpr ⟨always_snoc.mpr ⟨hv.trace, trivial⟩, trivial⟩
      · rw [hnone] at hfault
        cases hfault
    | half hs' hdata _ heq =>
      obtain rfl := Option.some.inj (hs.symm.trans hs')
      exact (hv.closed ⟨s, hs, by simp [hdata, hfreed]⟩ hreqs).1.still heq
    | last hs' hdata hlast heq =>
      obtain rfl := Option.some.inj (hs.symm.trans hs')
      -- the second stream that is down calls the handler
      obtain ⟨hquiet, hcall⟩ := hv.closed ⟨s, hs, by simp [hdata, hfreed]⟩ hreqs
      rcases heq with heq | ⟨f, heq⟩
      · exact hquiet.still heq
      · exact (hcall hlast f).still heq

/-! ## The result -/

/-- The handlers are called at most once in a connection: `connect` when both streams are
    connected, `disconnect` when the close callbacks of both have run. -/
def ConnectionNotified (w : World) : Prop := Always notifyOk w.trace

theorem announced_new (ignore : Bool) : (World.new ignore).handling.Announced where
  trace := always_nil
  known h st hs := by cases hs
  data h hh := by
    obtain ⟨st, hs, -⟩ := hh
    cases hs
  writes h hh := absurd hh List.not_mem_nil
  connecting h hh := absurd hh List.not_mem_nil
  distinct := List.nodup_nil
  stage := .inl ⟨rfl, rfl, rfl⟩

theorem Since.of_filter {past seg : List Obs} {s ss : Handle}
    (h : Since (past.filter handled) s ss seg) :
    ∃ seg', Since past s ss seg' ∧ seg'.filter handled = seg := by
  obtain ⟨before, heq⟩ := h.split
  obtain ⟨l, rest, rfl, -, hrest⟩ := List.filter_eq_append_iff.mp heq
  obtain ⟨l', seg', rfl, -, -, hseg⟩ := List.filter_eq_cons_iff.mp hrest
  refine ⟨seg', ⟨⟨l ++ l', by simp⟩, fun h₁ h₂ hmem => ?_⟩, hseg⟩
  exact h.last h₁ h₂ (hseg ▸ List.mem_filter.mpr ⟨hmem, rfl⟩)

/-- The trace of the handles says all there is to say. -/
theorem notifyOk_filter (past : List Obs) (o : Obs) (h : notifyOk (past.filter handled) o) :
    notifyOk past o := by
  have hcalled : ∀ {site seg}, (site = .connect ∨ site = .disconnect) →
      ¬Called site (seg.filter handled) → ¬Called site seg := by
    rintro site seg hsite hn ⟨f, args, hmem⟩
    refine hn ⟨f, args, List.mem_filter.mpr ⟨hmem, ?_⟩⟩
    rcases hsite with rfl | rfl <;> rfl
  have hmem : ∀ {o : Obs} {seg : List Obs}, o ∈ seg.filter handled → o ∈ seg :=
    fun h => (List.mem_filter.mp h).1
  cases o with
  | call site f args =>
    cases site with
    | connect =>
      obtain ⟨s, ss, seg, hsince, hn, hs, hss⟩ := h
      obtain ⟨seg', hsince', rfl⟩ := hsince.of_filter
      exact ⟨s, ss, seg', hsince', hcalled (.inl rfl) hn, hmem hs, hmem hss⟩
    | disconnect =>
      obtain ⟨s, ss, seg, hsince, hn, hs, hss⟩ := h
      obtain ⟨seg', hsince', rfl⟩ := hsince.of_filter
      exact ⟨s, ss, seg', hsince', hcalled (.inr rfl) hn, hmem hs, hmem hss⟩
    | _ => trivial
  | _ => trivial

/-- **Notifications.**  In a run in which every connection starts without bits and `disconnect`
    is called with both, the handlers of each connection are called in their time, and once. -/
theorem connectionNotified {ignore : Bool} {es : List Event} {w : World}
    (hrun : Transition.RunsUnder World.step Paired (World.new ignore) es w) :
    ConnectionNotified w := by
  have hstill : StillAnnounced w := hrun.invariant (I := StillAnnounced)
    (fun w e w' h hstep hpaired => step_announced (h.2 (step_cases hstep).1) hstep hpaired)
    ⟨always_nil, fun _ => announced_new ignore⟩
  refine hstill.1.of_filter notifyOk_filter fun past o ho => ?_
  cases o with
  | call site f args => cases site <;> trivial
  | _ => trivial

/-- The server closes both streams; the client connects again and disconnects. -/
def pairedRun : List Event :=
  [.api (.on (ascii "connect") 5), .api (.on (ascii "disconnect") 6),
   .api .connect, .connected 0 0, .connected 0 0, .ret true,
   .api (.command [.string (ascii "ping")] ⟨0, false⟩),
   .api (.command [.string (ascii "subscribe"), .string (ascii "a")] ⟨0, false⟩),
   .written 0 0 0, .written 0 0 0, .readError 0 (-4095), .closed 0, .readError 1 (-4095), .closed 1,
   .ret true, .api .connect, .connected 0 0, .connected 0 0, .ret true, .api .disconnect,
   .closed 3, .closed 2, .ret true]

def pairedCheck (w : World) : Event → Bool
  | .api .connect => decide (w.cc.streamFlags = .none) &&
      w.uv.requests.all fun r => decide (r.kind ≠ .connect)
  | .api .disconnect => decide (w.cc.streamFlags = ⟨true, true⟩)
  | .api .exit => false
  | _ => true

theorem paired_of_check {w w' : World} {e : Event} (h : pairedCheck w e = true) : Paired w e w' := by
  cases e with
  | api c =>
    cases c with
    | connect => simpa [pairedCheck, Paired] using h
    | disconnect => exact .inr (by simpa [pairedCheck] using h)
    | exit => cases h
    | _ => trivial
  | _ => trivial

theorem connectionNotified_paired :
    ∃ w, runs (World.new true) pairedRun = some w ∧ ConnectionNotified w ∧
      (calls w.trace).map (fun c => c.1) = [.connect, .disconnect, .connect, .disconnect] := by
  have hrun : (Transition.runChecked World.step pairedCheck (World.new true) pairedRun).map
      (fun w => (calls w.trace).map fun c => c.1) =
      some [.connect, .disconnect, .connect, .disconnect] := by decide +kernel
  obtain ⟨w, hw, hcalls⟩ := Option.map_eq_some_iff.mp hrun
  have hunder := Transition.runsUnder_of_checked (C := Paired)
    (fun _ _ _ h _ => paired_of_check h) hw
  exact ⟨w, hunder.run_eq, connectionNotified hunder, hcalls⟩

/-- The client disconnects before the connection is established. -/
def earlyDisconnect : List Event :=
  [.api (.on (ascii "error") 5), .api (.on (ascii "disconnect") 6), .api .connect,
   .api .disconnect, .connected 0 (-125), .ret true, .connected 0 (-125), .ret true, .closed 0]

/-- The handler is called when the first of the two streams is closed. -/
theorem connectionNotified_early : ∃ w, Reachable w ∧ ¬ConnectionNotified w := by
  let past : List Obs := [.connect 0 1, .uvClose 0, .uvClose 1, .call .error 5 [.strerror (-125)],
    .call .error 5 [.strerror (-125)], .closed 0, .freed 0, .teardown]
  have hrun : (runs (World.new true) earlyDisconnect).map World.trace =
      some (past ++ .call .disconnect 6 [] :: []) := rfl
  obtain ⟨w, hw, htrace⟩ := Option.map_eq_some_iff.mp hrun
  refine ⟨w, ⟨true, _, hw⟩, fun hnotified => ?_⟩
  obtain ⟨s, ss, seg, hsince, -, -, hclosed⟩ := hnotified past _ [] htrace
  obtain ⟨before, hsplit⟩ := hsince.split
  have hmem : Obs.closed ss ∈ past := hsplit ▸ by simp [hclosed]
  have hmem' : Obs.connect s ss ∈ past := hsplit ▸ by simp
  have hzero : ss = 0 := by simpa [past] using hmem
  have hone : s = 0 ∧ ss = 1 := by simpa [past] using hmem'
  exact absurd (hzero.symm.trans hone.2) Nat.zero_ne_one

end CrazySnail
