import CrazySnail.Verified.Reading
import CrazySnail.Verified.Resp

/-! # Separation of the two streams

Both streams of a client feed one reader.  The replies dispatched for a stream are
those the server sent on it as long as no chunk arrives while the other stream is in
the middle of a reply (`streamSeparation`); otherwise the two are mixed up
(`streamSeparation_fails`).
-/

namespace CrazySnail

open Decoder (Ending Decodes Alternates symbols messages)
open Resp (encodeAll toReplies AllWellFormed)

/-- The bytes `on_read` has handed to the reader for a stream. -/
def received (subMode : Bool) (trace : List Obs) : Bytes := symbols subMode (chunks trace)

/-- The replies `on_read` has dispatched for a stream. -/
def dispatched (subMode : Bool) (trace : List Obs) : List Reply :=
  messages subMode (reports trace)

/-- The streams do not disturb each other, when `sent` are the replies the server sends
    on the command stream (`false`) and on the subscription stream (`true`). -/
structure Separated (sent : Bool → List Resp) (w : World) : Prop where
  /-- what is dispatched is what was sent, in order -/
  inOrder : ∀ m, dispatched m w.trace <+: toReplies (sent m)
  /-- between two calls of `on_read` it is what a decoder makes of this stream alone -/
  alone : ∀ m, w.fault = none → readFrames w.stack = [] →
    ∃ e, Decodes item idle (received m w.trace) (dispatched m w.trace) e
  /-- no error is reported -/
  noReport : ∀ m e, .feedError m e ∉ w.trace
  /-- the reader has not found one -/
  noError : w.fault = none → w.cc.reader.err = 0

/-- A whole number of replies. -/
def WholeReplies (xs : Bytes) : Prop := ∃ ms, AllWellFormed 0 ms ∧ xs = encodeAll ms

/-- When data from one stream is handed to the reader, the other is not in the middle of a reply.
    What comes while the client is disconnecting is dropped. -/
def Uncut (w : World) (e : Event) (_ : World) : Prop :=
  match e with
  | .read h data _ => data ≠ [] → w.cc.flags.disconnecting = false →
      WholeReplies (received (!decide (w.cc.subStream = some h)) w.trace)
  | _ => True

/-! ## The chunks of a run -/

theorem Update.apply_chunks (w : World) (u : Update) (hu : u.part ∉ [.obs .fed]) :
    chunks (u.apply w).trace = chunks w.trace := by
  cases u with
  | log o =>
    cases o <;> first
      | simp at hu; done
      | simp [apply, World.log, chunks]
  | names p t => cases p <;> rfl
  | _ => rfl

theorem Touches.chunks {ks : List Part} {w w' : World} (h : Touches ks w w')
    (hks : ks.all (fun k => decide (k ∉ [.obs .fed])) = true) :
    CrazySnail.chunks w'.trace = CrazySnail.chunks w.trace :=
  h.same (f := fun w => CrazySnail.chunks w.trace) (fun w u hu => u.apply_chunks w hu) hks

theorem World.onRead_chunks (w : World) (h : Handle) (data : Bytes) (cb : LuaRef) :
    CrazySnail.chunks (w.onRead h data cb).trace = CrazySnail.chunks w.trace ∨
      (data ≠ [] ∧ w.cc.flags.disconnecting = false) ∧
        CrazySnail.chunks (w.onRead h data cb).trace =
          CrazySnail.chunks w.trace ++ [(decide (w.cc.subStream = some h), data)] := by
  unfold onRead
  dsimp only
  generalize decide (w.cc.subStream = some h) = m
  split
  · exact .inl rfl
  next hdisc =>
    split
    · left; split <;> rfl
    next hdata =>
      right
      refine ⟨⟨hdata, Bool.eq_false_iff.mpr hdisc⟩, ?_⟩
      have hfed : CrazySnail.chunks ({ w with bufs := w.bufs.alloc.2 }.log (.fed m data)).trace =
          CrazySnail.chunks w.trace ++ [(m, data)] := by simp [log, CrazySnail.chunks]
      rw [← hfed]
      generalize { w with bufs := w.bufs.alloc.2 }.log (.fed m data) = w₁
      split
      · have hreport : CrazySnail.chunks (w₁.log (.feedError m w₁.cc.reader.errstr)).trace =
            CrazySnail.chunks w₁.trace := Update.apply_chunks w₁ (.log _) (by simp)
        split
        · exact ((pcall_touches _ .error _ _).chunks rfl).trans hreport
        · exact hreport
      · rfl

/-- Only `on_read` hands chunks to the reader. -/
theorem step_chunks {w w' : World} {e : Event} (h : w.step e = some w') :
    chunks w'.trace = chunks w.trace ∨
      ∃ h data cb, e = .read h data cb ∧ (data ≠ [] ∧ w.cc.flags.disconnecting = false) ∧
        chunks w'.trace = chunks w.trace ++ [(decide (w.cc.subStream = some h), data)] := by
  obtain ⟨-, hs⟩ := step_cases h
  cases hs with
  | api c _ => exact .inl ((w.api_touches c).chunks (by cases c <;> rfl))
  | ret _ _ => exact .inl rfl
  | @resume f rest _ _ =>
    exact .inl ((World.resume_touches { w with stack := rest } f).chunks (by cases f <;> rfl))
  | read h₁ data cb _ _ =>
    exact (w.onRead_chunks h₁ data cb).imp_right fun heq => ⟨h₁, data, cb, rfl, heq⟩
  | readError h₁ nread _ _ _ => exact .inl ((w.onReadError_touches h₁ nread).chunks rfl)
  | written _ _ _ _ _ _ _ => exact .inl ((World.onWrite_touches _ _ _ _).chunks rfl)
  | connected _ _ _ _ _ _ => exact .inl ((World.connectCompleted_touches _ _ _).chunks rfl)
  | closed _ _ _ _ _ =>
    exact .inl (((World.onDisconnect_touches _ _).chunks rfl).trans
      (Update.apply_chunks w (.log _) (by simp)))
  | tick _ _ _ _ => exact .inl ((World.onTimer_touches _ _ _).chunks rfl)

/-- In a run without cuts the two streams alternate between whole replies. -/
theorem alternates_of_uncut {ignore : Bool} {es : List Event} {w : World}
    (h : Transition.RunsUnder World.step Uncut (World.new ignore) es w) :
    Alternates item idle (chunks w.trace) := by
  refine h.invariant (I := fun w => Alternates item idle (chunks w.trace))
    (fun w e w' hinv hstep huncut => ?_) Decoder.alternates_nil
  rcases step_chunks hstep with heq | ⟨h₁, data, cb, rfl, ⟨hdata, hdisc⟩, heq⟩
  · rw [heq]; exact hinv
  · rw [heq]
    refine hinv.snoc data fun m hm => ?_
    obtain ⟨ms, hms, hwhole⟩ := huncut hdata hdisc
    have hother : m = !decide (w.cc.subStream = some h₁) := by
      cases m <;> simp_all
    refine ⟨toReplies ms, ?_⟩
    rw [hother, show symbols _ (chunks w.trace) = encodeAll ms from hwhole]
    exact Resp.decodes_encodeAll hms

/-! ## The result -/

/-- **Stream separation.**  If no chunk arrives on a stream while the other is in the
    middle of a reply, each stream's replies are dispatched as the server sent them. -/
theorem streamSeparation {ignore : Bool} {es : List Event} {w : World}
    {sent : Bool → List Resp} (hwf : ∀ m, AllWellFormed 0 (sent m))
    (hrun : Transition.RunsUnder World.step Uncut (World.new ignore) es w)
    (hsent : ∀ m, received m w.trace <+: encodeAll (sent m)) : Separated sent w := by
  obtain ⟨pending, e, hreceives, hdrains⟩ := run_reading hrun.run_eq (reading_new ignore)
  -- alone, each stream is decoded without an error
  have halone : ∀ m, ∃ os stack rest,
      Decodes item idle (symbols m (chunks w.trace)) os (.blocked stack rest) := by
    intro m
    obtain ⟨ys, hys⟩ := hsent m
    have hall := Resp.decodes_encodeAll (hwf m)
    rw [← hys] at hall
    exact hall.blocked_of_append item_lawful
  obtain ⟨hnone, owner, hown, hother, hstart⟩ := hreceives.separate item_lawful item_idle
    (alternates_of_uncut hrun) halone
  have hdec : ∀ m, ∃ e, Decodes item idle (received m w.trace)
      (messages m (reports w.trace ++ pending)) e := by
    intro m
    by_cases hm : owner = some m
    · exact ⟨_, hown m hm⟩
    · exact ⟨_, hother m hm⟩
  refine ⟨?_, ?_, ?_, ?_⟩
  · intro m
    obtain ⟨e', he'⟩ := hdec m
    obtain ⟨ys, hys⟩ := hsent m
    have hall := Resp.decodes_encodeAll (hwf m)
    rw [← hys] at hall
    have hle := he'.mono item_lawful hall
    rw [Decoder.messages_append] at hle
    exact (List.prefix_append _ _).trans hle
  · intro m hfault hframes
    have hd := hdrains (by simp [hfault])
    rw [World.reading, hframes] at hd
    obtain ⟨rfl, -⟩ := hd
    simpa [dispatched] using hdec m
  · intro m err hmem
    refine hnone m err (List.mem_append_left _ ?_)
    exact List.mem_filterMap.mpr ⟨_, hmem, rfl⟩
  · intro hfault
    have hd := hdrains (by simp [hfault])
    -- the decoder all chunks went through has not failed either
    have hblocked : ∃ stack rest, e = .blocked stack rest := by
      cases owner with
      | none => exact ⟨_, _, hstart rfl⟩
      | some m =>
        obtain ⟨os, stack, rest, hm⟩ := halone m
        exact ⟨stack, rest, ((hown m rfl).det hm).2⟩
    obtain ⟨stack, rest, rfl⟩ := hblocked
    revert hd
    simp only [World.reading]
    cases readFrames w.stack with
    | nil => exact fun hd => hd.2.1
    | cons m rest =>
      cases rest with
      | nil =>
        intro hd
        obtain ⟨_, _, herr, _⟩ := hd
        exact herr
      | cons _ _ => exact fun hd => hd.elim

/-- A run on which both streams carry a whole reply: a status, then a confirmation. -/
def wholeRun : List Event :=
  [.api .connect, .connected 0 0, .connected 0 0,
   .api (.command [.string (ascii "ping")] ⟨0, false⟩),
   .api (.command [.string (ascii "subscribe"), .string (ascii "a")] ⟨0, false⟩),
   .written 0 0 0, .written 0 0 0,
   .read 0 (ascii "+PO") .noref, .resume, .read 0 (ascii "NG\r\n") .noref, .resume, .resume,
   .read 1 (ascii "*3\r\n$9\r\nsubscribe\r\n$1\r\na\r\n:1\r\n") .noref, .resume, .resume]

def pong : Bool → List Resp
  | false => [.status (ascii "PONG")]
  | true => [.array [.bulk (ascii "subscribe"), .bulk (ascii "a"), .integer 1]]

/-- Nothing or the status has arrived on the other stream. -/
def pongCheck (w : World) : Event → Bool
  | .read h _ _ =>
    let other := received (!decide (w.cc.subStream = some h)) w.trace
    decide (other = []) || decide (other = ascii "+PONG\r\n")
  | _ => true

theorem pongCheck_uncut (w : World) (e : Event) (w' : World) (h : pongCheck w e = true) :
    Uncut w e w' := by
  cases e with
  | read h₁ data cb =>
    simp only [pongCheck, Bool.or_eq_true, decide_eq_true_eq] at h
    rcases h with h | h
    · exact fun _ _ => ⟨[], trivial, h⟩
    · exact fun _ _ => ⟨pong false, by simp [pong, AllWellFormed, Resp.WellFormed, ascii], h⟩
  | _ => trivial

theorem streamSeparation_wholeRun :
    ∃ w, runs (World.new true) wholeRun = some w ∧ Separated pong w ∧
      dispatched false w.trace = toReplies (pong false) := by
  have hrun : (Transition.runChecked World.step pongCheck (World.new true) wholeRun).map
      (fun w => (received false w.trace, received true w.trace, dispatched false w.trace)) =
      some (encodeAll (pong false), encodeAll (pong true), toReplies (pong false)) := by rfl
  obtain ⟨w, hw, htrace⟩ := Option.map_eq_some_iff.mp hrun
  simp only [Prod.mk.injEq] at htrace
  have hunder := Transition.runsUnder_of_checked
    (fun w e w' h _ => pongCheck_uncut w e w' h) hw
  refine ⟨w, hunder.run_eq, streamSeparation ?_ hunder ?_, htrace.2.2⟩
  · intro m
    cases m <;> simp [pong, AllWellFormed, Resp.WellFormed, ascii]
  · intro m
    cases m
    · exact htrace.1 ▸ List.prefix_rfl
    · exact htrace.2.1 ▸ List.prefix_rfl

/-- A run on which a status is cut in two by the confirmation on the other stream. -/
def cutRun : List Event :=
  [.api .connect, .connected 0 0, .connected 0 0,
   .api (.command [.string (ascii "ping")] ⟨0, false⟩),
   .api (.command [.string (ascii "subscribe"), .string (ascii "a")] ⟨0, false⟩),
   .written 0 0 0, .written 0 0 0,
   .read 0 (ascii "+PO") .noref, .resume,
   .read 1 (ascii "*3\r\n$9\r\nsubscribe\r\n$1\r\na\r\n:1\r\n") .noref, .resume]

/-- Without the condition the streams are mixed up. -/
theorem streamSeparation_fails :
    ∃ w, runs (World.new true) cutRun = some w ∧ (∀ m, AllWellFormed 0 (pong m)) ∧
      (∀ m, received m w.trace <+: encodeAll (pong m)) ∧
      dispatched true w.trace = [.status (ascii "PO*3")] ∧ ¬Separated pong w := by
  have hrun : (runs (World.new true) cutRun).map
      (fun w => (received false w.trace, received true w.trace, dispatched true w.trace)) =
      some (ascii "+PO", encodeAll (pong true), [.status (ascii "PO*3")]) := by rfl
  obtain ⟨w, hw, htrace⟩ := Option.map_eq_some_iff.mp hrun
  simp only [Prod.mk.injEq] at htrace
  refine ⟨w, hw, ?_, ?_, htrace.2.2, ?_⟩
  · intro m
    cases m <;> simp [pong, AllWellFormed, Resp.WellFormed, ascii]
  · intro m
    cases m
    · rw [htrace.1]; decide
    · exact htrace.2.1 ▸ List.prefix_rfl
  · intro h
    have := h.inOrder true
    rw [htrace.2.2] at this
    simp [pong, toReplies, Resp.toReply] at this

end CrazySnail
