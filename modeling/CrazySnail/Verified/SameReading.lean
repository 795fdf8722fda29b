import CrazySnail.Verified.OtherReader
import CrazySnail.Verified.ReaderRefinement

/-! # Readers that read the same

Two readers with the same task stack and the same unread bytes report the same from then on,
wherever their buffers and cursors are.  A client cannot tell one from the other (`run_same`).
-/

namespace CrazySnail

open Decoder (Fetches Outcome)

/-- The readers report the same from now on. -/
structure SameReading (r r' : RedisReader) : Prop where
  err : r'.err = 0 ↔ r.err = 0
  stored : r'.err = NULL_STORE ↔ r.err = NULL_STORE
  errstr : r.err ≠ 0 → r'.errstr = r.errstr
  unread : r.err = 0 → r.Valid ∧ r'.Valid ∧ r'.tasks = r.tasks ∧ r'.unread = r.unread

section
variable {r r' : RedisReader}

/-- Two readers that have got on without an error. -/
theorem SameReading.of_ok (he : r.err = 0) (he' : r'.err = 0) (hv : r.Valid) (hv' : r'.Valid)
    (htasks : r'.tasks = r.tasks) (hunread : r'.unread = r.unread) : SameReading r r' where
  err := iff_of_true he' he
  stored := by rw [he, he']
  errstr h := absurd he h
  unread _ := ⟨hv, hv', htasks, hunread⟩

/-- Two readers that have failed with the same text. -/
theorem SameReading.of_err (he : r.err ≠ 0) (he' : r'.err ≠ 0)
    (hnull : r.err = NULL_STORE ↔ r.errstr = []) (hnull' : r'.err = NULL_STORE ↔ r'.errstr = [])
    (herrstr : r'.errstr = r.errstr) : SameReading r r' where
  err := iff_of_false he' he
  stored := by rw [hnull, hnull', herrstr]
  errstr _ := herrstr
  unread h := absurd h he

theorem SameReading.feed (h : SameReading r r') (data : Bytes) :
    SameReading (redisReaderFeed r data).1 (redisReaderFeed r' data).1 ∧
      (redisReaderFeed r' data).2 = (redisReaderFeed r data).2 := by
  by_cases he : r.err = 0
  · obtain ⟨hv, hv', htasks, hunread⟩ := h.unread he
    obtain ⟨r₁, hr₁, he₁, hv₁, ht₁, hu₁⟩ := redisReaderFeed_ok hv he data
    obtain ⟨r₂, hr₂, he₂, hv₂, ht₂, hu₂⟩ := redisReaderFeed_ok hv' (h.err.mpr he) data
    rw [hr₁, hr₂]
    refine ⟨.of_ok he₁ he₂ hv₁ hv₂ ?_ ?_, rfl⟩
    · rw [ht₁, ht₂, htasks]
    · rw [hu₁, hu₂, hunread]
  · rw [redisReaderFeed_of_err he, redisReaderFeed_of_err (mt h.err.mp he)]
    exact ⟨h, rfl⟩

/-- Both fetch the same next. -/
theorem SameReading.getReply (h : SameReading r r') :
    SameReading (redisReaderGetReply r).1 (redisReaderGetReply r').1 ∧
      (redisReaderGetReply r').2.1 = (redisReaderGetReply r).2.1 ∧
      ((redisReaderGetReply r).2.1 = .ok →
        (redisReaderGetReply r').2.2 = (redisReaderGetReply r).2.2) := by
  by_cases he : r.err = 0
  · obtain ⟨hv, hv', htasks, hunread⟩ := h.unread he
    obtain ⟨hf, hstatus⟩ := redisReaderGetReply_fetched hv he
    obtain ⟨hf', hstatus'⟩ := redisReaderGetReply_fetched hv' (h.err.mpr he)
    rw [htasks, hunread] at hf'
    generalize redisReaderGetReply r = out at hf hstatus ⊢
    generalize redisReaderGetReply r' = out' at hf' hstatus' ⊢
    obtain ⟨r₁, status, reply⟩ := out
    obtain ⟨r₂, status', reply'⟩ := out'
    dsimp only at hf hf' hstatus hstatus' ⊢
    -- both readers do what the decoder does on the bytes that are left
    rcases hf with ⟨he₁, hnull, hfail⟩ | ⟨he₁, hv₁, hok⟩ <;>
      rcases hf' with ⟨he₂, hnull', hfail'⟩ | ⟨he₂, hv₂, hok'⟩
    · -- the decoder fails, and both say why
      obtain rfl := hstatus.mpr he₁
      obtain rfl := hstatus'.mpr he₂
      obtain herrstr := Outcome.fail.inj (hfail.det hfail')
      exact ⟨.of_err he₁ he₂ hnull hnull' herrstr.symm, rfl, nofun⟩
    · cases reply' with
      | some reply' => cases hfail.det hok'
      | none => cases hfail.det hok'
    · cases reply with
      | some reply => cases hok.det hfail'
      | none => cases hok.det hfail'
    · -- the same reply, or none, and the same left
      have hsame : reply' = reply ∧ r₂.tasks = r₁.tasks ∧ r₂.unread = r₁.unread := by
        cases reply with
        | some reply =>
          cases reply' with
          | some reply' =>
            obtain ⟨ht, hu, hr⟩ := Outcome.next.inj (hok.det hok')
            exact ⟨hr.symm, ht.symm, hu.symm⟩
          | none => cases hok.det hok'
        | none =>
          cases reply' with
          | some reply' => cases hok.det hok'
          | none =>
            obtain ⟨ht, hu⟩ := Outcome.more.inj (hok.det hok')
            exact ⟨rfl, ht.symm, hu.symm⟩
      have hok₁ : status = .ok := by
        cases status with
        | ok => rfl
        | err => exact absurd he₁ (hstatus.mp rfl)
      have hok₂ : status' = .ok := by
        cases status' with
        | ok => rfl
        | err => exact absurd he₂ (hstatus'.mp rfl)
      exact ⟨.of_ok he₁ he₂ hv₁ hv₂ hsame.2.1 hsame.2.2, hok₂.trans hok₁.symm, fun _ => hsame.1⟩
  · have hgot : ∀ {s : RedisReader}, s.err ≠ 0 → redisReaderGetReply s = (s, .err, none) :=
      fun hs => if_pos hs
    rw [hgot he, hgot (mt h.err.mp he)]
    exact ⟨h, rfl, fun _ => rfl⟩

end

/-! ## Clients that differ in their readers only -/

/-- The second world is the first with a reader that reads the same. -/
def SameBut (w v : World) : Prop := ∃ r, SameReading w.cc.reader r ∧ v = w.reads r

section
variable {w v : World}

theorem SameBut.trace (h : SameBut w v) : v.trace = w.trace := by
  obtain ⟨r, -, rfl⟩ := h
  rfl

theorem SameBut.fault (h : SameBut w v) : v.fault = w.fault := by
  obtain ⟨r, -, rfl⟩ := h
  rfl

namespace World

/-- The functions behind the reader keep it. -/
theorem reads_same (h : SameBut w v) (f : World → World)
    (hf : ∀ s, f (w.reads s) = (f w).reads s) : SameBut (f w) (f v) := by
  obtain ⟨r, hsame, rfl⟩ := h
  exact ⟨r, (w.reader_of_reads hf).symm ▸ hsame, hf r⟩

theorem ite_same {c : Prop} [Decidable c] {a a' b b' : World} (ha : SameBut a a')
    (hb : SameBut b b') : SameBut (if c then a else b) (if c then a' else b') := by
  split
  · exact ha
  · exact hb

theorem byRef_same (ref : LuaRef) {f f' : Nat → World} {g g' : World}
    (hf : ∀ n, SameBut (f n) (f' n)) (hg : SameBut g g') :
    SameBut (match ref with | .ref n => f n | _ => g) (match ref with | .ref n => f' n | _ => g') := by
  cases ref with
  | ref n => exact hf n
  | noref | refnil => exact hg

theorem onRead_same {r : RedisReader} (hsame : SameReading w.cc.reader r) (h : Handle)
    (data : Bytes) (cb : LuaRef) :
    SameBut (w.onRead h data cb) ((w.reads r).onRead h data cb) := by
  have hafter := hsame.feed data
  unfold onRead
  dsimp only [reads, log]
  refine ite_same ⟨r, hsame, rfl⟩ (ite_same (ite_same ⟨r, hsame, rfl⟩ ⟨r, hsame, rfl⟩) ?_)
  by_cases he : w.cc.reader.err = 0
  · -- both take the chunk
    have hok : ∀ {s : RedisReader}, s.err = 0 → (redisReaderFeed s data).2 = .ok := fun hs => by
      rw [redisReaderFeed, if_neg (by simp [hs])]
    have hsplit : ∀ {s : RedisReader}, s.err = 0 →
        redisReaderFeed s data = ((redisReaderFeed s data).1, .ok) := fun hs => by
      rw [← hok hs]
    rw [hsplit he, hsplit (hsame.err.mpr he)]
    exact ⟨(redisReaderFeed r data).1, hafter.1, rfl⟩
  · -- both have failed and report the same text
    rw [redisReaderFeed_of_err he, redisReaderFeed_of_err (mt hsame.err.mp he), hsame.errstr he]
    refine byRef_same w.cc.rErrorCb (fun n => ?_) ⟨r, hsame, rfl⟩
    refine reads_same ?_ (·.pcall .error (w.lua.slots n) _) fun s => pcall_reads _ s _ _ _
    exact ⟨r, hsame, rfl⟩

theorem readLoop_same {r : RedisReader} (hsame : SameReading w.cc.reader r) (h : Handle)
    (subMode : Bool) (cb : LuaRef) :
    SameBut (w.readLoop h subMode cb) ((w.reads r).readLoop h subMode cb) := by
  obtain ⟨hafter, hstatus, hreply⟩ := hsame.getReply
  unfold readLoop
  dsimp only [reads, log]
  refine ite_same ⟨r, hsame, rfl⟩ ?_
  generalize redisReaderGetReply w.cc.reader = out at hafter hstatus hreply ⊢
  generalize redisReaderGetReply r = out' at hafter hstatus hreply ⊢
  obtain ⟨r₁, status, reply⟩ := out
  obtain ⟨r₂, status', reply'⟩ := out'
  dsimp only at hafter hstatus hreply
  subst hstatus
  cases status' with
  | err =>
    dsimp only [readerFailed]
    rw [if_congr hafter.stored rfl rfl]
    exact ite_same ⟨r₂, hafter, rfl⟩ ⟨r₂, hafter, rfl⟩
  | ok =>
    obtain rfl := hreply rfl
    cases reply' with
    | none =>
      dsimp only
      refine ite_same ⟨r₂, hafter, rfl⟩ ?_
      split <;> exact ite_same ⟨r₂, hafter, rfl⟩ ⟨r₂, hafter, rfl⟩
    | some reply =>
      dsimp only
      refine ite_same ?_ ?_
      · cases reply with
        | error e => exact ⟨r₂, hafter, rfl⟩
        | string | array | badArray | integer | nil | status =>
          refine reads_same ?_ (·.getAndCallSubCb _) fun s => getAndCallSubCb_reads _ s _
          exact ⟨r₂, hafter, rfl⟩
      · refine reads_same ?_ (·.dispatchReply h cb reply) fun s => dispatchReply_reads _ s h cb reply
        exact ⟨r₂, hafter, rfl⟩

/-! ## Steps and runs -/

theorem step_same {w v : World} (h : SameBut w v) (e : Event) :
    Option.Rel SameBut (w.step e) (v.step e) := by
  obtain ⟨r, hsame, rfl⟩ := h
  by_cases hleaves : w.leavesReader e
  · rw [step_reads w r hleaves]
    cases hstep : w.step e with
    | none => exact .none
    | some w' =>
      refine .some ⟨r, ?_, rfl⟩
      obtain hreader | ⟨_, _, _, rfl, -⟩ | ⟨_, _, _, _, rfl, hstack, -⟩ := step_reader hstep
      · exact hreader.symm ▸ hsame
      · exact hleaves.elim
      · exact absurd hstack (hleaves _ _ _ _)
  · cases e with
    | read h data cb =>
      unfold step
      rw [show (w.reads r).fault = w.fault from rfl]
      split
      · exact .none
      · dsimp only
        rw [show (w.reads r).stack = w.stack from rfl,
          show (w.reads r).readable? h = w.readable? h from rfl]
        split
        · exact .some (onRead_same hsame h data cb)
        · exact .none
    | resume =>
      simp only [leavesReader, not_forall, not_not] at hleaves
      obtain ⟨h, subMode, cb, rest, hstack⟩ := hleaves
      unfold step
      rw [show (w.reads r).fault = w.fault from rfl]
      split
      · exact .none
      · dsimp only
        rw [show (w.reads r).stack = w.stack from rfl, hstack]
        exact .some (readLoop_same (w := { w with stack := rest }) hsame h subMode cb)
    | api | ret | readError | written | connected | closed | tick => exact absurd trivial hleaves

end World

theorem run_same (h : SameBut w v) (es : List Event) : Option.Rel SameBut (runs w es) (runs v es) :=
  Transition.run_rel (fun _ _ e h => World.step_same h e) h es

end
end CrazySnail
