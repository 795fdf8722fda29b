import CrazySnail.Verified.Records

/-! # Initialized callbacks

A callback is initialized exactly when all its slots are subscribed (`fullyConfirmed`),
provided that `malloc` does not leave the bit set in its record: `create_callback` does not
assign `flags`.
-/

namespace CrazySnail

open World

/-- Every callback with slots is initialized exactly when all of them are subscribed, and is
    not passed an event or a tick before. -/
structure FullyConfirmed (w : World) : Prop where
  initialized : ∀ id c, w.heap.cb id = some c → c.channels ≠ [] →
    (c.initialized = true ↔ ∀ ch ∈ c.channels, ch.subscribed = true)
  silent : ∀ id c, w.heap.cb id = some c → (∃ ch ∈ c.channels, ch.subscribed = false) →
    ∀ site args, w.callEntry site (.heap id) args =
      w.pcall site (w.lua.rawgeti c.ref) [notInitialized]

/-- The memory of a subscription's record does not look initialized. -/
def CleanFlags (_w : World) (e : Event) (_w' : World) : Prop :=
  ∀ args env argv timers p, e = .api (.command args env) → collect args = .ok argv timers →
    classify (argv.headD []) = .subscribe p → argv.tail ≠ [] ∨ timers ≠ [] → env.flags = false

/-! ## The invariant -/

/-- The bit says whether all slots are subscribed. -/
def Callback.Marked (c : Callback) : Prop :=
  c.channels ≠ [] → (c.initialized = true ↔ ∀ ch ∈ c.channels, ch.subscribed = true)

def World.AllMarked (w : World) : Prop := ∀ id c, w.heap.cb id = some c → c.Marked

/-- A confirmation marks the bit when it marks the last slot. -/
theorem ofFilled_marked : OfFilled Callback.Marked where
  empty _ _ hne := absurd rfl hne
  attach _ _ h := h
  marked _ _ _ _ _ := List.all_eq_true

/-- **One step.**  The slots of a new record are not subscribed, so the bit has to be clear. -/
theorem step_marked {w w' : World} {e : Event} (hstep : w.step e = some w')
    (hclean : CleanFlags w e w') (h : w.AllMarked) : w'.AllMarked := by
  refine step_records ofFilled_marked hstep
    (fun args env argv timers p he hcollect hkind ref attach hne => ?_) h
  obtain ⟨ch, hch⟩ := List.exists_mem_of_ne_nil _ hne
  have hslots : argv.tail ≠ [] ∨ timers ≠ [] := by
    by_contra hnone
    simp only [not_or, not_not] at hnone
    simp [hnone.1, hnone.2] at hne
  have hflags := hclean args env argv timers p he hcollect hkind hslots
  refine iff_of_false (by simp [hflags]) fun hall => ?_
  have hsub := hall ch hch
  rw [slots_unsubscribed ch hch] at hsub
  cases hsub

/-- What is not initialized is told so. -/
theorem callEntry_silent {w : World} {id : Nat} {c : Callback} (hid : w.heap.cb id = some c)
    (hinit : c.initialized = false) (site : Site) (args : Option (List LuaValue)) :
    w.callEntry site (.heap id) args = w.pcall site (w.lua.rawgeti c.ref) [notInitialized] := by
  simp [callEntry, Heap.deref, hid, hinit]

/-- **Initialized means fully confirmed**, where `malloc` leaves the bit clear. -/
theorem fullyConfirmed {ignore : Bool} {es : List Event} {w : World}
    (hrun : Transition.RunsUnder World.step CleanFlags (World.new ignore) es w) :
    FullyConfirmed w := by
  have hmarked : w.AllMarked := hrun.invariant (I := World.AllMarked)
    (fun _ _ _ h hstep hclean => step_marked hstep hclean h) fun _ _ h => by cases h
  refine ⟨hmarked, ?_⟩
  rintro id c hid ⟨ch, hch, hsub⟩ site args
  refine callEntry_silent hid ?_ site args
  by_contra hinit
  rw [Bool.not_eq_false] at hinit
  have hall := (hmarked id c hid (List.ne_nil_of_mem hch)).mp hinit ch hch
  rw [hsub] at hall
  cases hall

/-- Connect, subscribe to a channel and a timer, and read the confirmation.  `flags` is what
    `malloc` leaves in the record. -/
def confirmedRun (flags : Bool) : List Event :=
  [.api .connect, .connected 0 0, .connected 0 0,
   .api (.command [.string (ascii "subscribe"), .string (ascii "a"),
     .string (ascii "__timer@0__:50"), .function 1] ⟨0, flags⟩),
   .written 0 0 0, .read 1 (ascii "*3\r\n$9\r\nsubscribe\r\n$1\r\na\r\n:1\r\n") .noref,
   .resume, .resume]

def cleanCheck (_ : World) : Event → Bool
  | .api (.command _ env) => !env.flags
  | _ => true

theorem cleanFlags_of_check {w w' : World} {e : Event} (h : cleanCheck w e = true) :
    CleanFlags w e w' := by
  rintro args env argv timers p rfl - - -
  simpa [cleanCheck] using h

theorem fullyConfirmed_confirmedRun :
    ∃ w, runs (World.new true) (confirmedRun false) = some w ∧ FullyConfirmed w ∧
      w.heap.cb 0 = some ⟨.ref 1, true, 2, [⟨some (ascii "a"), 0, true, false⟩, ⟨none, 50, true, true⟩]⟩ := by
  have hrun : (Transition.runChecked World.step cleanCheck (World.new true)
      (confirmedRun false)).map (fun w => w.heap.cb 0) = some (some ⟨.ref 1, true, 2,
        [⟨some (ascii "a"), 0, true, false⟩, ⟨none, 50, true, true⟩]⟩) := by decide +kernel
  obtain ⟨w, hw, hrecord⟩ := Option.map_eq_some_iff.mp hrun
  have hunder := Transition.runsUnder_of_checked (C := CleanFlags)
    (fun _ _ _ h _ => cleanFlags_of_check h) hw
  exact ⟨w, hunder.run_eq, fullyConfirmed hunder, hrecord⟩

/-- Where `malloc` leaves the bit set, a callback is initialized before any confirmation. -/
theorem fullyConfirmed_fails :
    ∃ w, runs (World.new true) ((confirmedRun true).take 4) = some w ∧ ¬FullyConfirmed w := by
  have hrun : (runs (World.new true) ((confirmedRun true).take 4)).map (fun w => w.heap.cb 0) =
      some (some ⟨.ref 1, true, 2,
        [⟨some (ascii "a"), 0, false, false⟩, ⟨none, 50, false, true⟩]⟩) := by decide +kernel
  obtain ⟨w, hw, hrecord⟩ := Option.map_eq_some_iff.mp hrun
  refine ⟨w, hw, fun h => ?_⟩
  have hall := (h.initialized 0 _ hrecord (by simp)).mp rfl
  simp at hall

end CrazySnail
