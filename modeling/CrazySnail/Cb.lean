import CrazySnail.CString
import CrazySnail.Library.SearchTree

/-! # Callbacks, callback lists and callback trees (`cb.h`, `cb.c`)

A `callback_t` lives on the heap and is shared: every list that holds it has a
wrapper of its own, and `attach` counts the wrappers.  The model keeps the records
in a `Heap` under identifiers that are never given out twice; a list of wrappers
(`callback_ends_t`) is the list of the pointers they hold, head first.

The trees of `node_t` are the search trees of the library.  A pointer to a node is
its path from the root, since a node never moves once it is inserted.
Allocation is taken to succeed.
-/

namespace CrazySnail

open SearchTree (Tree Path Side)

/-! ## Records -/

/-- `channel_t`.  `CHANNEL_SUBSCRIBED` and `CHANNEL_TIMER_EVENT` are the flags in use. -/
structure Channel where
  name : Option Bytes
  ikey : UInt64
  subscribed : Bool
  timerEvent : Bool
deriving DecidableEq, Repr

/-- What `luaL_ref` returns, `LUA_NOREF` or `LUA_REFNIL`. -/
inductive LuaRef where
  | noref
  | refnil
  | ref (n : Nat)
deriving DecidableEq, Repr

/-- `callback_t`; the one flag is `CALLBACK_INITIALIZED`. -/
structure Callback where
  ref : LuaRef
  initialized : Bool
  attach : Nat
  channels : List Channel
deriving DecidableEq, Repr

/-- A `callback_t*`: a heap record, or the address of a local variable of a
    function that has returned. -/
inductive CbPtr where
  | heap (id : Nat)
  | stack
deriving DecidableEq, Repr

/-- `callback_ends_t`: the chain of wrappers from `head` to `tail`. -/
abbrev CallbackEnds := List CbPtr

/-- The callback records that are allocated. -/
structure Heap where
  cb : Nat → Option Callback
  next : Nat

namespace Heap

def empty : Heap := ⟨fun _ => none, 0⟩

def set (h : Heap) (id : Nat) (c : Option Callback) : Heap :=
  { h with cb := Function.update h.cb id c }

def update (h : Heap) (id : Nat) (f : Callback → Callback) : Heap :=
  h.set id ((h.cb id).map f)

/-- The record a pointer leads to, if it is alive. -/
def deref (h : Heap) : CbPtr → Option Callback
  | .heap id => h.cb id
  | .stack => none

end Heap

/-- `create_callback`.  `flags` is not assigned: its initial value is whatever
    `malloc` left there. -/
def createCallback (h : Heap) (ref : LuaRef) (flags : Bool) : Nat × Heap :=
  (h.next,
    { cb := Function.update h.cb h.next
        (some { ref, initialized := flags, attach := 0, channels := [] })
      next := h.next + 1 })

/-- `create_channel` -/
def createChannel (name : Bytes) : Channel :=
  { name := some (strdup name), ikey := 0, subscribed := false, timerEvent := false }

/-- `create_timer_channel` -/
def createTimerChannel (ikey : UInt64) : Channel :=
  { name := none, ikey, subscribed := false, timerEvent := true }

/-! ## Lists -/

/-- `destroy_wrapper`: the last wrapper destroys the record.  `none` when the record
    is not alive. -/
def destroyWrapper (h : Heap) : CbPtr → Option Heap
  | .stack => none
  | .heap id =>
    match h.cb id with
    | none => none
    | some c => some (h.set id (if c.attach = 1 then none else some { c with attach := c.attach - 1 }))

/-- `push_cb` of a wrapper made by `wrap_cb`. -/
def pushCb (list : CallbackEnds) (h : Heap) (p : CbPtr) : CallbackEnds × Heap :=
  (list ++ [p],
    match p with
    | .heap id => h.update id fun c => { c with attach := c.attach + 1 }
    | .stack => h)

/-- The outcomes of `shift_cb`. -/
inductive Shift where
  /-- `SNAIL_ERR`: the list is empty -/
  | empty
  /-- `SNAIL_OK`: the first entry is off the list, its record copied to `target` -/
  | ok (list : CallbackEnds) (target : Callback) (h : Heap)
  /-- the record of the first entry is not alive -/
  | dead (list : CallbackEnds)

/-- `shift_cb` -/
def shiftCb (list : CallbackEnds) (h : Heap) : Shift :=
  match list with
  | [] => .empty
  | p :: rest =>
    match h.deref p, destroyWrapper h p with
    | some target, some h' => .ok rest target h'
    | _, _ => .dead rest

/-! ## Trees -/

/-- An index into the request blocks: the address of a `req_list_t`. -/
abbrev Block := Nat

/-- What a `node_t` holds beside its key and children: `cb_list` and `data`, the
    running timer of a timer node. -/
structure NodeVal where
  cbList : CallbackEnds
  data : Option Block
deriving DecidableEq, Repr

namespace NodeVal

def fresh : NodeVal := ⟨[], none⟩

def push (p : CbPtr) (v : NodeVal) : NodeVal := { v with cbList := v.cbList ++ [p] }

end NodeVal

/-- `node_t`, with `κ` the type of the key in use (`key` or `ikey`). -/
abbrev NodeT (κ : Type) := Tree κ NodeVal

/-- The nodes of a tree in the order in which `destroy_tree` reaches them. -/
def postorder {κ : Type} : NodeT κ → List NodeVal
  | .null => []
  | .node _ val l r => postorder l ++ postorder r ++ [val]

/-- `insert`: the tree afterwards and the node stored in `leaf`. -/
def insert : NodeT Bytes → Bytes → NodeT Bytes × Path
  | .null, key => (.node (strdup key) .fresh .null .null, [])
  | .node nkey val l r, key =>
    let len := strlen key
    if strncmp key nkey len = .lt then
      let (l', leaf) := insert l key
      (.node nkey val l' r, .left :: leaf)
    else if strncmp key nkey len = .gt then
      let (r', leaf) := insert r key
      (.node nkey val l r', .right :: leaf)
    else (.node nkey val l r, [])

/-- `search`: the node whose list is returned; `none` when `assert(leaf != NULL)` fails. -/
def search (key : Bytes) : NodeT Bytes → Option Path
  | .null => none
  | .node nkey _ l r =>
    let len := strlen key
    if strncmp key nkey len = .eq then some []
    else if strncmp key nkey len = .lt then (search key l).map (.left :: ·)
    else (search key r).map (.right :: ·)

/-- The status of a successful insertion. -/
def SNAIL_OK : Int := 0

/-- `insert_timer`: its status, the tree afterwards and the node stored in `leaf`. -/
def insertTimer : NodeT UInt64 → UInt64 → Int × NodeT UInt64 × Path
  | .null, key => (2, .node key .fresh .null .null, [])
  | .node ikey val l r, key =>
    if key < ikey then
      let (status, l', leaf) := insertTimer l key
      (status, .node ikey val l' r, .left :: leaf)
    else if key > ikey then
      let (status, r', leaf) := insertTimer r key
      (status, .node ikey val l r', .right :: leaf)
    else (SNAIL_OK, .node ikey val l r, [])

/-- `search_timer`: `none` when `assert(root != NULL)` fails. -/
def searchTimer (key : UInt64) : NodeT UInt64 → Option Path
  | .null => none
  | .node ikey _ l r =>
    if key = ikey then some []
    else if key < ikey then (searchTimer key l).map (.left :: ·)
    else (searchTimer key r).map (.right :: ·)

end CrazySnail
