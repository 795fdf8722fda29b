import CrazySnail.Cb
import CrazySnail.Library.LinkedQueue

/-! # Callback lists in memory (`cb.c`)

`Cb` takes a `callback_ends_t` for the list of the pointers that its wrappers hold.  Here
the wrappers have addresses: a `callback_ll_t` is a cell of a memory that all lists
share, `head`, `tail` and `next` are addresses or null, and `malloc` may hand out an
address again after `free`.

A result `none` stands for undefined behaviour: a wrapper or a record was used that is
not allocated.
-/

namespace CrazySnail

open LinkedQueue (Addr Ends Memory linkTail)

/-- The status of an operation that did not happen. -/
def SNAIL_ERR : Int := -1

/-- The `callback_ends_t` structures, numbered, the wrappers and the records. -/
structure ListStore where
  ends : Nat → Ends
  wrappers : Memory CbPtr
  heap : Heap

namespace ListStore

/-- No record, and every list empty. -/
def start : ListStore := ⟨fun _ => .empty, ∅, .empty⟩

/-- Write both pointers of a list. -/
def setEnds (s : ListStore) (list : Nat) (e : Ends) : ListStore :=
  { s with ends := Function.update s.ends list e }

section
variable (s : ListStore) (list : Nat) (e e' : Ends)

@[simp] theorem setEnds_ends : (s.setEnds list e).ends list = e := Function.update_self ..

@[simp] theorem setEnds_wrappers : (s.setEnds list e).wrappers = s.wrappers := rfl

@[simp] theorem setEnds_heap : (s.setEnds list e).heap = s.heap := rfl

@[simp] theorem setEnds_setEnds : (s.setEnds list e).setEnds list e' = s.setEnds list e' :=
  congrArg (ListStore.mk · _ _) (Function.update_idem ..)

theorem setEnds_eq_self : s.setEnds list (s.ends list) = s :=
  congrArg (ListStore.mk · _ _) (Function.update_eq_self ..)

end

/-- `wrap_cb`: its status, the wrapper and the store afterwards, when `malloc` returns
    `malloc`. -/
def wrapCb (s : ListStore) (malloc : Option Addr) (cb : CbPtr) : Int × Option Addr × ListStore :=
  match malloc with
  | none => (SNAIL_ERR, none, s)
  | some a => (SNAIL_OK, some a, { s with wrappers := s.wrappers.insert a ⟨cb, none⟩ })

/-- `destroy_wrapper` -/
def destroyWrapper (s : ListStore) (wrapper : Addr) : Option ListStore := do
  let w ← s.wrappers.lookup wrapper
  let heap ← CrazySnail.destroyWrapper s.heap w.item
  return { s with wrappers := s.wrappers.erase wrapper, heap }

/-- `cb->attach++` -/
def attach (h : Heap) : CbPtr → Option Heap
  | .stack => none
  | .heap id => (h.cb id).map fun _ => h.update id fun c => { c with attach := c.attach + 1 }

/-- `push_cb` -/
def pushCb (s : ListStore) (list : Nat) (source : Addr) : Option ListStore := do
  let e := s.ends list
  let head := if e.head = none then some source else e.head
  let wrappers ← linkTail s.wrappers e.tail source
  let w ← wrappers.lookup source
  let heap ← attach s.heap w.item
  return { s with wrappers, heap }.setEnds list ⟨head, some source⟩

/-- `shift_cb`: its status, what `target` points to afterwards, and the store.
    `target = none` is the null pointer. -/
def shiftCb (s : ListStore) (list : Nat) (target : Option Callback) :
    Option (Int × Option Callback × ListStore) := do
  let e := s.ends list
  match e.head with
  | some cb =>
    let w ← s.wrappers.lookup cb
    let e' : Ends := ⟨w.next, if some cb = e.tail then none else e.tail⟩
    let c ← s.heap.deref w.item
    let s' ← (s.setEnds list e').destroyWrapper cb
    return (SNAIL_OK, target.map fun _ => c, s')
  | none => return (SNAIL_ERR, target, s)

/-- The loop of `destroy_list` from `temp` on.  Every round frees a wrapper, so the first
    argument bounds the rounds by the number of wrappers there are. -/
def destroyLoop : Nat → ListStore → Option Addr → Option ListStore
  | _, s, none => some s
  | 0, _, some _ => none
  | n + 1, s, some temp => do
    let w ← s.wrappers.lookup temp
    let s' ← s.destroyWrapper temp
    destroyLoop n s' w.next

/-- `destroy_list` -/
def destroyList (s : ListStore) (list : Nat) : Option ListStore := do
  let s' ← destroyLoop s.wrappers.entries.length s (s.ends list).head
  return s'.setEnds list .empty

end ListStore

/-! ## Programs over the lists -/

/-- A call, with what `malloc` returns in it, or a write to a record. -/
inductive ListOp where
  | create (ref : LuaRef) (flags : Bool)
  /-- The owner of a record writes its fields, all but `attach`. -/
  | write (id : Nat) (ref : LuaRef) (initialized : Bool) (channels : List Channel)
  /-- `wrap_cb`, and `push_cb` of the wrapper if there is one -/
  | push (list : Nat) (malloc : Option Addr) (cb : CbPtr)
  | shift (list : Nat) (target : Option Callback)
  | destroy (list : Nat)

namespace ListStore

/-- One call.  `malloc` does not hand out memory that is in use. -/
def step (s : ListStore) : ListOp → Option ListStore
  | .create ref flags => some { s with heap := (createCallback s.heap ref flags).2 }
  | .write id ref initialized channels =>
    (s.heap.cb id).map fun _ => { s with
      heap := s.heap.update id fun c => { ref, initialized, attach := c.attach, channels } }
  | .push list malloc cb =>
    if malloc.any (fun a => decide (a ∈ s.wrappers)) then none
    else
      match s.wrapCb malloc cb with
      | (_, some wrapper, s') => s'.pushCb list wrapper
      | (_, none, s') => some s'
  | .shift list target => (s.shiftCb list target).map fun r => r.2.2
  | .destroy list => s.destroyList list

end ListStore

end CrazySnail
