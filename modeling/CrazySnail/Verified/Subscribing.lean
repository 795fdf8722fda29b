import CrazySnail.Verified.Sending
import CrazySnail.Verified.NameTree

/-! # The loops of a subscription

What one round of the channel loop and of the timer loop does, in terms of the search
trees of the library.
-/

namespace CrazySnail

open SearchTree (Tree Path)

namespace World
variable {w : World}

/-- The name tree after a name has been entered for a callback. -/
def namesWith (t : NodeT Bytes) (cb : Nat) (name : Bytes) : NodeT Bytes :=
  (t.insert nameCmp (strdup name) .fresh).1.modify (.push (.heap cb))
    (t.insert nameCmp (strdup name) .fresh).2

/-- The timer tree after an interval without a node has been entered. -/
def timersWith (t : NodeT UInt64) (cb : Nat) (ikey : UInt64) : NodeT UInt64 :=
  (t.insert timerCmp ikey .fresh).1.modify (.push (.heap cb)) (t.insert timerCmp ikey .fresh).2

theorem subscribeName_eq (p : Bool) (cb : Nat) (name : Bytes) :
    subscribeName p cb w name = ((w.addChannel cb (createChannel name)).setNames p
      (namesWith (w.names p) cb name)).attach cb := by
  unfold subscribeName
  simp only [insert_eq]
  cases p <;> rfl

/-- An interval without a node gets one, and the callback is on its list. -/
theorem subscribeTimer_new {key : Bytes}
    (hnew : w.cc.timers.lookup timerCmp (timerKey key) = none) (cb : Nat) :
    subscribeTimer cb w key = World.attach
      { w.addChannel cb (createTimerChannel (timerKey key)) with
        cc.timers := timersWith w.cc.timers cb (timerKey key) } cb := by
  simp only [subscribeTimer, insertTimer_eq, hnew, if_true]
  rfl

/-- An interval with a node: the callback is not on its list. -/
theorem subscribeTimer_known {key : Bytes} {leaf : Path}
    (hknown : w.cc.timers.lookup timerCmp (timerKey key) = some leaf) (cb : Nat) :
    subscribeTimer cb w key = w.addChannel cb (createTimerChannel (timerKey key)) := by
  simp only [subscribeTimer, insertTimer_eq, hknown, Tree.insert_of_lookup hknown, reduceCtorEq,
    if_false]
  rfl

/-- **Invariant rule** for the two loops: what adding a slot and entering the callback keep
    is kept. -/
theorem subscribe_keeps {I : World → Prop} {p : Bool} {cb : Nat}
    (hname : ∀ w name, I w → I (subscribeName p cb w name))
    (htimer : ∀ w key, I w → I (subscribeTimer cb w key)) (names timers : List Bytes) (hw : I w) :
    I (timers.foldl (subscribeTimer cb) (names.foldl (subscribeName p cb) w)) := by
  have hnames : I (names.foldl (subscribeName p cb) w) := by
    induction names generalizing w with
    | nil => exact hw
    | cons name names ih => exact ih (hname w name hw)
  generalize names.foldl (subscribeName p cb) w = w' at hnames
  induction timers generalizing w' with
  | nil => exact hnames
  | cons key timers ih => exact ih _ (htimer w' key hnames)

theorem refCallback_heap (w : World) (fn : Option Fn) : (w.refCallback fn).2.heap = w.heap := by
  cases fn <;> rfl

theorem refCallback_cc (w : World) (fn : Option Fn) : (w.refCallback fn).2.cc = w.cc := by
  cases fn <;> rfl

theorem newCallback_cb (w : World) (fn : Option Fn) (ref : LuaRef) (flags : Bool) :
    ((w.refCallback fn).2.newCallback ref flags).heap.cb w.heap.next =
      some ⟨ref, flags, 0, []⟩ := by
  simp [newCallback, createCallback, refCallback_heap]

/-- Another command makes a record for its entry, if it has one. -/
theorem registerCommand_other {kind : Kind} (hkind : ∀ p, kind ≠ .subscribe p)
    (names timers : List Bytes) (fn : Option Fn) (flags : Bool) :
    Touches [.ref, .raise .monitoring, .create, .append, .attach] w
      (w.registerCommand kind names timers fn flags) := by
  have href : Touches [.ref, .raise .monitoring, .create, .append, .attach] w
      (w.refCallback fn).2 := (w.refCallback_touches fn).mono (by simp)
  cases kind with
  | subscribe p => exact absurd rfl (hkind p)
  | unsubscribe => exact href
  | monitor =>
    exact href.trans (.of [.raise .monitoring, .create (w.refCallback fn).1 flags,
      .append w.heap.next, .attach w.heap.next] rfl rfl)
  | ordinary =>
    exact href.trans (.of [.create (w.refCallback fn).1 flags, .append w.heap.next,
      .attach w.heap.next] rfl rfl)

end World

end CrazySnail
