import CrazySnail.Verified.Records
import CrazySnail.Verified.Registry
import CrazySnail.Verified.ReplyMatching

/-! # The slots of the registry, accounted for

Every slot that `luaL_ref` ever gave out is free again, or held by a handler or by a live callback
record, or lost.  Slots are lost in three ways: `on` overwrites a handler, the callback of an
unsubscribe command is entered nowhere, and `on_disconnect` and `exit` destroy the records of the
callbacks that are left without a `luaL_unref` (`referencesAccounted`).  No slot is given back
twice as long as no reply comes when the list is empty while `on_read` still has an old reference
in its local variable.
-/

namespace CrazySnail

open World

/-! ## The registry -/

namespace Lua
variable {l : Lua} {ns : List Nat}

/-- The slots in use are `ns`, all others are free. -/
structure Accounts (l : Lua) (ns : List Nat) : Prop where
  slots : (l.free ++ ns).Perm (List.range' 1 l.size)
  functions : ∀ n, (l.slots n).isSome = true ↔ n ∈ ns

theorem accounts_empty : Accounts .empty [] := ⟨.refl _, fun n => by simp [empty]⟩

theorem Accounts.perm {ns' : List Nat} (h : l.Accounts ns) (hp : ns.Perm ns') : l.Accounts ns' :=
  ⟨(hp.symm.append_left l.free).trans h.slots, fun n => (h.functions n).trans hp.mem_iff⟩

theorem Accounts.ref (h : l.Accounts ns) (f : Fn) : (l.ref f).2.Accounts ((l.ref f).1 :: ns) := by
  have hfunctions : ∀ m n, (Function.update l.slots m (some f) n).isSome = true ↔ n ∈ m :: ns := by
    intro m n
    rw [List.mem_cons, ← h.functions, Function.update_apply]
    split <;> simp [*]
  have hslots := h.slots
  unfold Lua.ref
  split
  -- the first free slot is taken
  next m free hfree =>
    rw [hfree] at hslots
    exact ⟨List.perm_middle.trans hslots, hfunctions m⟩
  -- none is free, so the registry grows
  next hfree =>
    rw [hfree, List.nil_append] at hslots
    refine ⟨?_, hfunctions _⟩
    change (l.free ++ (l.size + 1) :: ns).Perm (List.range' 1 (l.size + 1))
    rw [hfree, List.nil_append, List.range'_concat, Nat.one_mul, Nat.add_comm 1]
    exact (List.perm_append_singleton _ _).symm.trans (hslots.append_right _)

/-- A slot in use has one owner. -/
theorem Accounts.not_mem {n : Nat} (h : l.Accounts (n :: ns)) : n ∉ ns := by
  have hnodup : (l.free ++ n :: ns).Nodup := h.slots.nodup_iff.mpr List.nodup_range'
  exact (List.nodup_cons.mp (List.nodup_append.mp hnodup).2.1).1

theorem Accounts.unref {n : Nat} (h : l.Accounts (n :: ns)) : (l.unref (.ref n)).Accounts ns := by
  have hnot := h.not_mem
  refine ⟨List.perm_middle.symm.trans h.slots, fun m => ?_⟩
  have hm := h.functions m
  simp only [Lua.unref, Function.update_apply]
  split
  next heq => simp [heq, hnot]
  next hne => rw [hm, List.mem_cons, or_iff_right hne]

/-- The slot of a reference, or none, is given back. -/
theorem Accounts.release {r : LuaRef} (h : l.Accounts (r.slot?.toList ++ ns)) :
    (l.unref r).Accounts ns := by
  cases r with
  | ref n => exact h.unref
  | noref | refnil => exact h

/-- A function gets a slot, or there is none; the slots `ns` stay as they are. -/
structure Takes (l : Lua) (ns : List Nat) (fn : Option Fn) (r : LuaRef) (l' : Lua) : Prop where
  accounts : l'.Accounts (r.slot?.toList ++ ns)
  function : l'.rawgeti r = fn
  kept : ∀ n ∈ ns, l'.slots n = l.slots n

theorem Accounts.takes (h : l.Accounts ns) (f : Fn) :
    l.Takes ns (some f) (.ref (l.ref f).1) (l.ref f).2 := by
  have haccounts := h.ref f
  have hnew : ∀ n ∈ ns, n ≠ (l.ref f).1 := fun n hn heq => haccounts.not_mem (heq ▸ hn)
  have hslots : (l.ref f).2.slots = Function.update l.slots (l.ref f).1 (some f) := by
    unfold Lua.ref
    split <;> rfl
  refine ⟨haccounts, by simp only [rawgeti, hslots, Function.update_self], fun n hn => ?_⟩
  rw [hslots, Function.update_of_ne (hnew n hn)]

/-- The slots that are still in use after one is given back stay as they are. -/
theorem Accounts.release_kept {r : LuaRef} (h : l.Accounts (r.slot?.toList ++ ns)) :
    ∀ n ∈ ns, (l.unref r).slots n = l.slots n := by
  intro n hn
  cases r with
  | ref m =>
    have hne : n ≠ m := fun heq => Accounts.not_mem (n := m) h (heq ▸ hn)
    exact Function.update_of_ne hne ..
  | noref | refnil => rfl

theorem rawgeti_congr {l' : Lua} {r : LuaRef} (h : ∀ n, r = .ref n → l'.slots n = l.slots n) :
    l'.rawgeti r = l.rawgeti r := by
  cases r with
  | ref n => exact h n rfl
  | noref | refnil => rfl

/-- `luaL_unref` does not look at the height of the stack. -/
theorem unref_top (l : Lua) (n : Int) (r : LuaRef) :
    { l with top := n }.unref r = { l.unref r with top := n } := by
  cases r <;> rfl

end Lua

/-! ## Lists -/

/-- What the elements that fulfil a condition contribute, and the others. -/
theorem filterMap_split {α β : Type} (p : α → Bool) (f : α → Option β) (l : List α) :
    (l.filterMap f).Perm
      (l.filterMap (fun a => if p a then none else f a) ++
        l.filterMap (fun a => if p a then f a else none)) := by
  induction l with
  | nil => exact .refl _
  | cons a l ih =>
    cases hp : p a with
    | false =>
      cases hf : f a with
      | none => simpa [hp, hf] using ih
      | some b => simpa [hp, hf] using ih.cons b
    | true =>
      cases hf : f a with
      | none => simpa [hp, hf] using ih
      | some b =>
        simp only [List.filterMap_cons, hp, hf, if_true]
        exact (ih.cons b).trans List.perm_middle.symm

/-- What one element contributes. -/
theorem filterMap_remove {β : Type} {n id : Nat} (hid : id < n) (f : Nat → Option β) :
    ((List.range n).filterMap f).Perm
      ((f id).toList ++ (List.range n).filterMap (Function.update f id none)) := by
  have hsplit := filterMap_split (fun i => decide (i = id)) f (List.range n)
  have hothers : (fun i => if decide (i = id) = true then none else f i) =
      Function.update f id none := by
    funext i
    simp [Function.update_apply]
  have hone : (List.range n).filterMap (fun i => if decide (i = id) = true then f i else none) =
      (f id).toList := by
    clear hsplit
    induction n with
    | zero => exact absurd hid (Nat.not_lt_zero id)
    | succ n ih =>
      rw [List.range_succ, List.filterMap_append]
      rcases Nat.lt_succ_iff_lt_or_eq.mp hid with hlt | rfl
      · rw [ih hlt]
        simp [Nat.ne_of_gt hlt]
      · have hnone : (List.range id).filterMap
            (fun i => if decide (i = id) = true then f i else none) = [] := by
          refine List.filterMap_eq_nil_iff.mpr fun i hi => ?_
          have := List.mem_range.mp hi
          simp [Nat.ne_of_lt this]
        rw [hnone]
        cases hf : f id <;> simp [hf]
  rw [hothers, hone] at hsplit
  exact hsplit.trans List.perm_append_comm

/-! ## The ledger -/

/-- The functions that were given to the commands, by the records of these. -/
def givenAfter (given : Nat → Option Fn) : Obs → Nat → Option Fn
  | .command _ _ _ fn cb => Function.update given cb fn
  | _ => given

def givenTo (trace : List Obs) : Nat → Option Fn := trace.foldl givenAfter fun _ => none

theorem givenTo_snoc (trace : List Obs) (o : Obs) :
    givenTo (trace ++ [o]) = givenAfter (givenTo trace) o := by
  simp [givenTo]

/-- The registry, and what holds references: the handlers as long as the client has not exited,
    and the records, with the number of their wrappers. -/
@[ext]
structure Ledger where
  given : Nat → Option Fn
  lua : Lua
  handlers : List LuaRef
  list : CallbackEnds
  next : Nat
  card : Nat → Option (LuaRef × Nat)

def World.ledger (w : World) : Ledger where
  given := givenTo w.trace
  lua := { w.lua with top := 0 }
  handlers := if w.cc.exited then [] else [w.cc.rConnectCb, w.cc.rErrorCb, w.cc.rDisconnectCb]
  list := w.cc.commandCbList
  next := w.heap.next
  card id := (w.heap.cb id).map fun c => (c.ref, c.attach)

/-- Only a command is noted in the books. -/
theorem log_ledger {w : World} {o : Obs} (ho : ∀ given, givenAfter given o = given) :
    (w.log o).ledger = w.ledger :=
  Ledger.ext ((givenTo_snoc w.trace o).trans (ho _)) rfl rfl rfl rfl rfl

def ledgerParts : List Part :=
  [.obs .command, .ref, .unref, .create, .attach, .detach, .shift, .append, .appendStack, .clearList,
    .handlers, .exited]

theorem ledger_update (w : World) (id : Nat) {f : Callback → Callback}
    (hf : ∀ c, (f c).ref = c.ref ∧ (f c).attach = c.attach) :
    { w with heap := w.heap.update id f }.ledger = w.ledger := by
  have hcard : (fun i => ((w.heap.update id f).cb i).map fun c => (c.ref, c.attach)) =
      fun i => (w.heap.cb i).map fun c => (c.ref, c.attach) := by
    funext i
    simp only [Heap.update, Heap.set, Function.update_apply]
    split
    next h =>
      rw [h, Option.map_map]
      exact congrArg (Option.map · _) (funext fun c => Prod.ext (hf c).1 (hf c).2)
    next => rfl
  exact congrArg (fun card => { w.ledger with card }) hcard

theorem Update.apply_ledger (w : World) (u : Update) (hu : u.part ∉ ledgerParts) :
    (u.apply w).ledger = w.ledger := by
  cases u with
  | addChannel id ch => exact ledger_update w id fun _ => ⟨rfl, rfl⟩
  | slots id chs all => exact ledger_update w id fun _ => ⟨rfl, rfl⟩
  | log o =>
    refine Ledger.ext ((givenTo_snoc w.trace o).trans ?_) rfl rfl rfl rfl rfl
    cases o <;> first | rfl | simp [ledgerParts] at hu
  | names p t => cases p <;> rfl
  | ref | unref | create | attach | detach | shift | append | appendStack | clearList | handlers
  | exited => simp [ledgerParts] at hu
  | _ => rfl

theorem Touches.ledger {ks : List Part} {w w' : World} (h : Touches ks w w')
    (hks : ks.all (fun k => decide (k ∉ ledgerParts)) = true) : w'.ledger = w.ledger :=
  h.same (fun w u hu => u.apply_ledger w hu) hks

namespace Ledger

/-- The slots of the records. -/
def records (d : Ledger) : List Nat :=
  (List.range d.next).filterMap fun id => (d.card id).bind fun c => c.1.slot?

/-- The slots that are held. -/
def held (d : Ledger) : List Nat := (d.handlers.flatMap fun r => r.slot?.toList) ++ d.records

/-- The slots are held or lost, the command list has its records for itself, and each record refers
    to the function that was given to its command. -/
structure Balanced (d : Ledger) (lost : List Nat) : Prop where
  accounts : d.lua.Accounts (d.held ++ lost)
  fresh : ∀ id, d.next ≤ id → d.card id = none
  nodup : (d.list.filter fun p => decide (p ≠ .stack)).Nodup
  single : ∀ id, .heap id ∈ d.list → ∃ r, d.card id = some (r, 1)
  named : ∀ id r n, d.card id = some (r, n) → d.lua.rawgeti r = d.given id

variable {d : Ledger} {lost : List Nat}

theorem Balanced.lt_next (h : d.Balanced lost) {id : Nat} {c : LuaRef × Nat}
    (hid : d.card id = some c) : id < d.next := by
  by_contra hge
  rw [h.fresh id (Nat.le_of_not_lt hge)] at hid
  cases hid

theorem mem_records {id m n : Nat} (hlt : id < d.next) (hid : d.card id = some (.ref m, n)) :
    m ∈ d.records :=
  List.mem_filterMap.mpr ⟨id, List.mem_range.mpr hlt, by rw [hid]; rfl⟩

/-- The functions of the records are still there when one more slot is taken. -/
theorem Balanced.named_takes (h : d.Balanced lost) {lua : Lua} {fn : Option Fn} {r' : LuaRef}
    (htakes : d.lua.Takes (d.held ++ lost) fn r' lua) (id : Nat) (r : LuaRef) (n : Nat)
    (hid : d.card id = some (r, n)) : lua.rawgeti r = d.given id := by
  rw [← h.named id r n hid]
  refine Lua.rawgeti_congr fun m hm => htakes.kept m ?_
  have hmem := mem_records (h.lt_next hid) (hm ▸ hid)
  exact List.mem_append_left _ (List.mem_append_right _ hmem)

/-- A record that is no longer there gives its slot back. -/
theorem Balanced.records_remove (h : d.Balanced lost) {id : Nat} {r : LuaRef} {n : Nat}
    (hid : d.card id = some (r, n)) :
    d.records.Perm (r.slot?.toList ++ { d with card := Function.update d.card id none }.records) := by
  have hremove := filterMap_remove (h.lt_next hid) fun i => (d.card i).bind fun c => c.1.slot?
  have hcard : Function.update (fun i => (d.card i).bind fun c => c.1.slot?) id none =
      fun i => (Function.update d.card id none i).bind fun c => c.1.slot? := by
    funext i
    simp only [Function.update_apply]
    split <;> rfl
  rw [hcard, hid] at hremove
  exact hremove

theorem Balanced.held_remove (h : d.Balanced lost) {id : Nat} {r : LuaRef} {n : Nat}
    (hid : d.card id = some (r, n)) :
    (d.held ++ lost).Perm (r.slot?.toList ++
      ({ d with card := Function.update d.card id none }.held ++ lost)) := by
  have hrecords := List.perm_iff_count.mp (h.records_remove hid)
  rw [List.perm_iff_count]
  intro a
  have ha := hrecords a
  simp only [held, List.count_append] at ha ⊢
  omega

/-- A new record is the last one. -/
theorem records_new (r : LuaRef) (n : Nat) :
    { d with next := d.next + 1, card := Function.update d.card d.next (some (r, n)) }.records =
      d.records ++ r.slot?.toList := by
  have hothers : ∀ i ∈ List.range d.next,
      (Function.update d.card d.next (some (r, n)) i).bind (fun c => c.1.slot?) =
        (d.card i).bind fun c => c.1.slot? := by
    intro i hi
    rw [Function.update_of_ne (Nat.ne_of_lt (List.mem_range.mp hi))]
  simp only [records, List.range_succ, List.filterMap_append, List.filterMap_congr hothers]
  cases r <;> simp [LuaRef.slot?]

/-- A new record takes over a slot. -/
theorem Balanced.create (h : d.Balanced lost) {lua : Lua} {r : LuaRef} (n : Nat)
    (htakes : d.lua.Takes (d.held ++ lost) (d.given d.next) r lua) :
    Balanced { d with
      lua, next := d.next + 1, card := Function.update d.card d.next (some (r, n)) } lost where
  accounts := by
    refine htakes.accounts.perm ?_
    have hrecords : Ledger.records { d with
        lua, next := d.next + 1, card := Function.update d.card d.next (some (r, n)) } =
      d.records ++ r.slot?.toList := records_new r n
    rw [List.perm_iff_count]
    intro a
    simp only [held, hrecords, List.count_append]
    omega
  fresh id hid := by
    have hlt : d.next < id := hid
    exact (Function.update_of_ne (Nat.ne_of_gt hlt) ..).trans (h.fresh id (Nat.le_of_lt hlt))
  nodup := h.nodup
  single id hid := by
    obtain ⟨r', hr'⟩ := h.single id hid
    exact ⟨r', (Function.update_of_ne (Nat.ne_of_lt (h.lt_next hr')) ..).trans hr'⟩
  named id r' n' hid := by
    -- the new record has just got its slot, the others keep theirs
    by_cases heq : id = d.next
    · subst heq
      have hnew := (Function.update_self d.next (some (r, n)) d.card).symm.trans hid
      obtain ⟨rfl, -⟩ := Prod.mk.inj (Option.some.inj hnew)
      exact htakes.function
    · have hold := (Function.update_of_ne heq (some (r, n)) d.card).symm.trans hid
      exact h.named_takes htakes id r' n' hold

/-- The new record goes on the list. -/
theorem Balanced.enter (h : d.Balanced lost) {id : Nat} {r : LuaRef} (hid : d.card id = some (r, 1))
    (hnew : .heap id ∉ d.list) : Balanced { d with list := d.list ++ [.heap id] } lost where
  accounts := h.accounts
  fresh := h.fresh
  nodup := by
    have hnot : CbPtr.heap id ∉ d.list.filter fun p => decide (p ≠ .stack) := fun hmem =>
      hnew (List.mem_of_mem_filter hmem)
    rw [List.filter_append, List.nodup_append]
    refine ⟨h.nodup, by simp, fun p hp q hq => ?_⟩
    rintro rfl
    simp only [ne_eq, reduceCtorEq, not_false_eq_true, decide_true, List.filter_cons_of_pos,
      List.filter_nil, List.mem_singleton] at hq
    exact hnot (hq ▸ hp)
  single i hi := by
    rcases List.mem_append.mp hi with hi | hi
    · exact h.single i hi
    · cases List.mem_singleton.mp hi
      exact ⟨r, hid⟩
  named := h.named

/-- A slot that nobody takes over is lost. -/
theorem Balanced.lose (h : d.Balanced lost) {lua : Lua} {n : Nat} {fn : Option Fn}
    (htakes : d.lua.Takes (d.held ++ lost) fn (.ref n) lua) :
    Balanced { d with lua } (lost ++ [n]) where
  accounts := by
    refine htakes.accounts.perm ?_
    change (n :: (d.held ++ lost)).Perm (d.held ++ (lost ++ [n]))
    rw [← List.append_assoc]
    exact (List.perm_append_singleton _ _).symm
  fresh := h.fresh
  nodup := h.nodup
  single := h.single
  named := h.named_takes htakes

/-- A handler takes the place of another one, whose slot is lost. -/
theorem Balanced.replace (h : d.Balanced lost) {lua : Lua} {n : Nat} {fn : Option Fn}
    (htakes : d.lua.Takes (d.held ++ lost) fn (.ref n) lua) {old : LuaRef}
    {others handlers : List LuaRef}
    (hold : d.handlers.Perm (old :: others)) (hnew : handlers.Perm (.ref n :: others)) :
    Balanced { d with lua, handlers } (lost ++ old.slot?.toList) where
  accounts := by
    refine htakes.accounts.perm ?_
    -- the other handlers stay, so only the old slot and the new one count
    have hslots := List.perm_iff_count.mp (hold.flatMap_right fun r => r.slot?.toList)
    have hslots' := List.perm_iff_count.mp (hnew.flatMap_right fun r => r.slot?.toList)
    rw [List.perm_iff_count]
    intro a
    have ha := hslots a
    have ha' := hslots' a
    simp only [held, records, List.count_append, List.count_cons, List.flatMap_cons,
      LuaRef.slot?, Option.toList_some, List.count_nil] at ha ha' ⊢
    omega
  fresh := h.fresh
  nodup := h.nodup
  single := h.single
  named := h.named_takes htakes

/-- The first record is taken off, and its slot given back. -/
theorem Balanced.shift (h : d.Balanced lost) {id : Nat} {rest : CallbackEnds} {r : LuaRef} {n : Nat}
    (hlist : d.list = .heap id :: rest) (hid : d.card id = some (r, n)) :
    Balanced { d with
      lua := d.lua.unref r, list := rest, card := Function.update d.card id none } lost where
  accounts := (h.accounts.perm (h.held_remove hid)).release
  fresh i hi := by
    have hne : i ≠ id := by
      rintro rfl
      rw [h.fresh i hi] at hid
      cases hid
    exact (Function.update_of_ne hne ..).trans (h.fresh i hi)
  nodup := by
    have hnodup := h.nodup
    rw [hlist, List.filter_cons_of_pos (by simp)] at hnodup
    exact (List.nodup_cons.mp hnodup).2
  single i hi := by
    have hnodup := h.nodup
    rw [hlist, List.filter_cons_of_pos (by simp)] at hnodup
    have hne : i ≠ id := by
      rintro rfl
      exact (List.nodup_cons.mp hnodup).1 (List.mem_filter.mpr ⟨hi, by simp⟩)
    obtain ⟨r', hr'⟩ := h.single i (hlist ▸ List.mem_cons_of_mem _ hi)
    exact ⟨r', (Function.update_of_ne hne ..).trans hr'⟩
  named i r' n' hi := by
    have hne : i ≠ id := by
      rintro rfl
      exact absurd ((Function.update_self i none d.card).symm.trans hi) (by simp)
    have hcard := (Function.update_of_ne hne none d.card).symm.trans hi
    rw [← h.named i r' n' hcard]
    refine Lua.rawgeti_congr fun m hm => (h.accounts.perm (h.held_remove hid)).release_kept m ?_
    have hmem := mem_records (d := { d with card := Function.update d.card id none })
      (h.lt_next hcard) (hm ▸ hi)
    exact List.mem_append_left _ (List.mem_append_right _ hmem)

/-- A part of the list. -/
theorem Balanced.sublist (h : d.Balanced lost) {list : CallbackEnds} (hlist : list.Sublist d.list) :
    Balanced { d with list } lost :=
  ⟨h.accounts, h.fresh, h.nodup.sublist (hlist.filter _),
    fun id hid => h.single id (hlist.subset hid), h.named⟩

/-- An address of a local record on the list. -/
theorem Balanced.appendStack (h : d.Balanced lost) :
    Balanced { d with list := d.list ++ [.stack] } lost where
  accounts := h.accounts
  fresh := h.fresh
  nodup := by simpa using h.nodup
  single id hid := h.single id (by simpa using hid)
  named := h.named

end Ledger

/-! ## Replies and failed sends -/

section
variable {w : World} {lost : List Nat}

/-- A record that is taken off the list has one wrapper, so it is destroyed. -/
theorem shift_balanced (h : w.ledger.Balanced lost) {list : CallbackEnds} {target : Callback}
    {heap : Heap} (hshift : shiftCb w.cc.commandCbList w.heap = .ok list target heap) :
    (({ w with cc.commandCbList := list, heap } : World).unref target.ref).ledger.Balanced lost := by
  unfold shiftCb at hshift
  split at hshift
  · cases hshift
  next p rest hlist =>
    split at hshift
    next target' heap' htarget hdestroy =>
      cases hshift
      cases p with
      | stack => cases htarget
      | heap id =>
        have hid : w.heap.cb id = some target := htarget
        obtain ⟨r, hr⟩ := h.single id (by
          change .heap id ∈ w.cc.commandCbList
          rw [hlist]
          exact List.mem_cons_self)
        have hcard : w.ledger.card id = some (target.ref, target.attach) := by
          simp only [World.ledger, hid, Option.map_some]
        -- with one wrapper the record is destroyed
        have hone : target.attach = 1 := by
          rw [hcard] at hr
          exact congrArg Prod.snd (Option.some.inj hr)
        have hheap : heap = w.heap.set id none := by
          simp only [CrazySnail.destroyWrapper, hid, hone, if_true, Option.some.injEq] at hdestroy
          exact hdestroy.symm
        have hshifted := h.shift hlist hcard
        have hcards : (fun i => ((w.heap.set id none).cb i).map fun c => (c.ref, c.attach)) =
            Function.update w.ledger.card id none := by
          funext i
          simp only [Heap.set, Function.update_apply, World.ledger]
          split <;> rfl
        subst hheap
        have hledger : (({ w with cc.commandCbList := list, heap := w.heap.set id none } :
            World).unref target.ref).ledger = { w.ledger with
              lua := w.ledger.lua.unref target.ref, list := list
              card := Function.update w.ledger.card id none } := by
          rw [← hcards]
          cases target.ref <;> rfl
        rw [hledger]
        exact hshifted
    · cases hshift

/-- Without a live record only the entry goes. -/
theorem dead_balanced (h : w.ledger.Balanced lost) {list : CallbackEnds}
    (hshift : shiftCb w.cc.commandCbList w.heap = .dead list) :
    ({ w with cc.commandCbList := list } : World).ledger.Balanced lost := by
  refine h.sublist ?_
  change list.Sublist w.cc.commandCbList
  unfold shiftCb at hshift
  split at hshift
  · cases hshift
  next p rest hlist =>
    rw [hlist]
    split at hshift
    · cases hshift
    · cases hshift
      exact List.sublist_cons_self _ _

theorem shiftAndReport_balanced (h : w.ledger.Balanced lost) (site : Site) (error : LuaValue)
    {otherwise : World → World} (hother : ∀ w, (otherwise w).ledger = w.ledger) :
    (w.shiftAndReport site error otherwise).ledger.Balanced lost := by
  unfold World.shiftAndReport
  split
  · rw [hother]
    exact h
  next list hshift =>
    exact dead_balanced h hshift
  next list target heap hshift =>
    have hshifted := shift_balanced h hshift
    cases href : target.ref with
    | ref n =>
      rw [href] at hshifted
      dsimp only
      rw [(World.pcall_touches _ site _ _).ledger (by cases site <;> rfl)]
      exact hshifted
    | noref | refnil =>
      rw [href] at hshifted
      dsimp only
      rw [hother]
      exact hshifted

/-- The reference a reply ends up with is given back. -/
theorem deliverReply_balanced {cb : LuaRef} (h : (w.unref cb).ledger.Balanced lost) (h₁ : Handle)
    (r : Reply) (hfault : (w.deliverReply h₁ cb r).fault = none) :
    (w.deliverReply h₁ cb r).ledger.Balanced lost := by
  unfold World.deliverReply at hfault ⊢
  cases cb with
  | ref n =>
    dsimp only at hfault ⊢
    split at hfault
    -- the slot is given back before the function is called
    next hreadable =>
      rw [if_pos hreadable, (World.pcall_touches _ .reply _ _).ledger rfl]
      exact h
    next =>
      have hcrash := World.crash_isSome (w.push (.readLoop h₁ false (.ref n))) .nullElement
      rw [hfault] at hcrash
      cases hcrash
  | noref | refnil => exact h

/-- A reply takes the first entry off the list.  With the list empty the local variable must not
    hold a reference. -/
theorem dispatchReply_balanced (h : w.ledger.Balanced lost) (h₁ : Handle) {cb : LuaRef} (r : Reply)
    (hexpected : w.cc.commandCbList = [] → cb.slot? = none)
    (hfault : (w.dispatchReply h₁ cb r).fault = none) :
    (w.dispatchReply h₁ cb r).ledger.Balanced lost := by
  obtain ⟨hshift, heq⟩ | ⟨list, hshift, heq⟩ | ⟨list, target, heap, hshift, heq⟩ :=
    w.dispatchReply_cases h₁ cb r
  · have hempty := w.shift_spec
    rw [hshift] at hempty
    -- nothing was taken off the list, so `cb` is what an earlier reply has left
    have hnone := hexpected hempty
    rw [heq] at hfault ⊢
    refine deliverReply_balanced ?_ h₁ r hfault
    cases cb with
    | ref n => cases hnone
    | noref | refnil => exact h
  · rw [heq]
    exact dead_balanced h hshift
  · rw [heq] at hfault ⊢
    exact deliverReply_balanced (shift_balanced h hshift) h₁ r hfault

/-! ## Commands -/

/-- The reference on a callback is one more slot. -/
theorem refCallback_takes (h : w.ledger.Balanced lost) (fn : Option Fn) :
    w.ledger.lua.Takes (w.ledger.held ++ lost) fn (w.refCallback fn).1
      { (w.refCallback fn).2.lua with top := 0 } := by
  cases fn with
  | none => exact ⟨h.accounts, rfl, fun _ _ => rfl⟩
  | some f =>
    have htakes := h.accounts.takes f
    rw [show w.ledger.lua = { w.lua with top := 0 } from rfl, Lua.ref_top] at htakes
    exact htakes

/-- A command that takes no reply. -/
theorem refCallback_lost (h : w.ledger.Balanced lost) (fn : Option Fn) :
    (w.refCallback fn).2.ledger.Balanced (lost ++ (w.refCallback fn).1.slot?.toList) := by
  have htakes := refCallback_takes h fn
  cases fn with
  | none => simpa [World.refCallback, LuaRef.slot?] using h
  | some f => exact h.lose htakes

/-- The slot of a command that is entered nowhere. -/
def unentered (w : World) (argv : List Bytes) (fn : Option Fn) : List Nat :=
  if classify (argv.headD []) = .unsubscribe then (fn.map fun f => (w.lua.ref f).1).toList else []

/-- The channels and timers of a subscription hold no reference. -/
theorem subscribeParts_ledger {w w' : World} (h : Touches World.subscribeParts w w') :
    w'.ledger.given = w.ledger.given ∧ w'.lua = w.lua ∧ w'.ledger.handlers = w.ledger.handlers ∧
      w'.cc.commandCbList = w.cc.commandCbList := by
  induction h with
  | refl => exact ⟨rfl, rfl, rfl, rfl⟩
  | step _ u hu ih =>
    cases u with
    | attach | addChannel | timerTree => exact ih
    | names p t => cases p <;> exact ih
    | _ => simp at hu

theorem subscribe_ledger (w : World) (p : Bool) (chs timers : List Bytes) (fn : Option Fn)
    (flags : Bool) :
    ∃ n, (w.registerCommand (.subscribe p) chs timers fn flags).ledger = { w.ledger with
      lua := { (w.refCallback fn).2.lua with top := 0 }
      next := w.ledger.next + 1
      card := Function.update w.ledger.card w.ledger.next (some ((w.refCallback fn).1, n)) } := by
  obtain ⟨⟨n, hn⟩, hnext, hother⟩ := registerCommand_record (w := w) p chs timers fn flags
  have hrest := subscribeParts_ledger (subscribe_touches
    ((w.refCallback fn).2.newCallback (w.refCallback fn).1 flags) p w.heap.next chs timers)
  have hhandlers : ((w.refCallback fn).2.newCallback (w.refCallback fn).1 flags).ledger.handlers =
      w.ledger.handlers := by
    cases fn <;> rfl
  have hlist : (w.refCallback fn).2.cc.commandCbList = w.cc.commandCbList := by
    cases fn <;> rfl
  have hgiven : ((w.refCallback fn).2.newCallback (w.refCallback fn).1 flags).ledger.given =
      w.ledger.given := by
    cases fn <;> rfl
  refine ⟨n, Ledger.ext (hrest.1.trans hgiven) ?_ (hrest.2.2.1.trans hhandlers)
    (hrest.2.2.2.trans hlist) hnext ?_⟩
  · exact congrArg (fun l : Lua => { l with top := 0 }) hrest.2.1
  · funext id
    change _ = Function.update w.ledger.card w.ledger.next _ id
    rw [Function.update_apply]
    split
    next heq =>
      rw [heq]
      exact congrArg (Option.map fun c => (c.ref, c.attach)) hn
    next hne => exact congrArg (Option.map fun c => (c.ref, c.attach)) (hother id hne)

/-- A command with an entry of its own. -/
theorem pending_ledger (w : World) {kind : Kind} (hkind : kind.pending = true)
    (chs timers : List Bytes) (fn : Option Fn) (flags : Bool) :
    (w.registerCommand kind chs timers fn flags).ledger = { w.ledger with
      lua := { (w.refCallback fn).2.lua with top := 0 }
      list := w.ledger.list ++ [.heap w.ledger.next]
      next := w.ledger.next + 1
      card := Function.update w.ledger.card w.ledger.next (some ((w.refCallback fn).1, 1)) } := by
  have hcard : ∀ (h : Heap) (c : Callback), (fun id => (({ h with
      cb := Function.update h.cb h.next (some c), next := h.next + 1 } : Heap).update h.next fun c =>
        { c with attach := c.attach + 1 }).cb id |>.map fun c => (c.ref, c.attach)) =
      Function.update (fun id => (h.cb id).map fun c => (c.ref, c.attach)) h.next
        (some (c.ref, c.attach + 1)) := by
    intro h c
    funext id
    simp only [Heap.update, Heap.set, Function.update_apply, if_true, Option.map_some]
    split <;> rfl
  cases kind with
  | subscribe | unsubscribe => cases hkind
  | monitor | ordinary => cases fn <;> exact Ledger.ext rfl rfl rfl rfl rfl (hcard w.heap _)

/-- The slot of a command that is entered nowhere is lost. -/
theorem registerCommand_balanced (h : w.ledger.Balanced lost) (kind : Kind)
    (chs timers : List Bytes) {fn : Option Fn} (hgiven : w.ledger.given w.ledger.next = fn)
    (flags : Bool) :
    (w.registerCommand kind chs timers fn flags).ledger.Balanced
      (lost ++ if kind = .unsubscribe then (w.refCallback fn).1.slot?.toList else []) := by
  have htakes : w.ledger.lua.Takes (w.ledger.held ++ lost) (w.ledger.given w.ledger.next)
      (w.refCallback fn).1 { (w.refCallback fn).2.lua with top := 0 } :=
    hgiven ▸ refCallback_takes h fn
  have hpending : kind.pending = true →
      (w.registerCommand kind chs timers fn flags).ledger.Balanced lost := by
    intro hkind
    have hnew : .heap w.ledger.next ∉ w.ledger.list := fun hmem => by
      obtain ⟨r, hr⟩ := h.single _ hmem
      rw [h.fresh _ (Nat.le_refl _)] at hr
      cases hr
    rw [pending_ledger w hkind]
    exact (h.create 1 htakes).enter (Function.update_self ..) hnew
  cases kind with
  | unsubscribe => exact refCallback_lost h fn
  | subscribe p =>
    obtain ⟨n, hn⟩ := subscribe_ledger w p chs timers fn flags
    rw [if_neg (by simp), List.append_nil, hn]
    exact h.create n htakes
  | monitor | ordinary =>
    rw [if_neg (by simp), List.append_nil]
    exact hpending rfl

/-- A command is noted: the next record is that of its function. -/
theorem noted_balanced (h : w.ledger.Balanced lost) (kind : Kind) (argv timers : List Bytes)
    (fn : Option Fn) :
    (w.noted kind argv timers fn).ledger.Balanced lost ∧
      (w.noted kind argv timers fn).ledger.given w.heap.next = fn := by
  have hgiven : (w.noted kind argv timers fn).ledger.given =
      Function.update w.ledger.given w.heap.next fn := by
    simp only [World.ledger, World.noted, World.log, givenTo_snoc, givenAfter]
  refine ⟨⟨h.accounts, h.fresh, h.nodup, h.single, fun id r n hid => ?_⟩, ?_⟩
  · rw [hgiven]
    exact (h.named id r n hid).trans (Function.update_of_ne (Nat.ne_of_lt (h.lt_next hid)) ..).symm
  · rw [hgiven, Function.update_self]

theorem entered_balanced (h : w.ledger.Balanced lost) (argv timers : List Bytes) (fn : Option Fn)
    (flags : Bool) :
    (w.entered argv timers fn flags).ledger.Balanced (lost ++ unentered w argv fn) := by
  have hslot : ((w.noted (classify (argv.headD [])) argv timers fn).refCallback fn).1.slot?.toList =
      (fn.map fun f => (w.lua.ref f).1).toList := by
    cases fn <;> rfl
  obtain ⟨hnoted, hgiven⟩ := noted_balanced h (classify (argv.headD [])) argv timers fn
  have hentered := registerCommand_balanced hnoted (classify (argv.headD [])) argv.tail timers hgiven
    flags
  rw [hslot] at hentered
  exact hentered

/-- A send that fails takes the first entry off the list; another send leaves the records alone. -/
theorem sendCommand_ledger (w : World) (subMode : Bool) (frame : Bytes) (owner : Option Nat)
    (buf error : Nat) :
    (w.sendCommand subMode frame owner buf error).ledger = w.ledger ∨
      ∃ (w₁ : World) (value : LuaValue), w₁.ledger = w.ledger ∧
        w.sendCommand subMode frame owner buf error = w₁.failSend value := by
  unfold sendCommand
  split
  · have halloc : Touches [.reqAlloc] w { w with uv := w.uv.reqAlloc.2 } := .of [.reqAlloc] rfl rfl
    have hwrite := uvWrite_written { w with uv := w.uv.reqAlloc.2 } subMode w.uv.reqAlloc.1 frame
      owner buf error
    dsimp only at hwrite ⊢
    generalize { w with uv := w.uv.reqAlloc.2 }.uvWrite _ w.uv.reqAlloc.1 frame owner buf error = r
      at hwrite ⊢
    obtain ⟨r, w₂⟩ := r
    have hledger : w₂.ledger = w.ledger := by
      cases hwrite with
      | stops _ ht => exact (ht.ledger rfl).trans (halloc.ledger rfl)
      | refused _ _ ht => exact (ht.ledger rfl).trans (halloc.ledger rfl)
      | accepted => exact (log_ledger fun _ => rfl).trans (halloc.ledger rfl)
    dsimp only
    split
    · exact .inl hledger
    · have hfree : (if r = 0 then w₂.freeCmd buf else w₂).ledger = w.ledger := by
        split
        · exact (log_ledger fun _ => rfl).trans hledger
        · exact hledger
      generalize (if r = 0 then w₂.freeCmd buf else w₂) = w₃ at hfree ⊢
      split
      · exact .inr ⟨w₃.reqFree _, _, hfree, rfl⟩
      · exact .inl hfree
  · exact .inr ⟨w.freeCmd buf, _, log_ledger fun _ => rfl, rfl⟩

theorem luaClientCommand_balanced (h : w.ledger.Balanced lost) {args : List LuaArg}
    {argv timers : List Bytes} (hcollect : collect args = .ok argv timers) (env : SendEnv) :
    (w.luaClientCommand args env).ledger.Balanced (lost ++ unentered w argv (callbackOf args)) := by
  have hentered := entered_balanced h argv timers (callbackOf args) env.flags
  rw [luaClientCommand_eq hcollect]
  obtain heq | ⟨w₁, value, hw₁, heq⟩ := sendCommand_ledger
    (w.entered argv timers (callbackOf args) env.flags) (classify (argv.headD [])).subMode
    (redisFormatCommandArgv argv)
    (if (classify (argv.headD [])).pending then some w.heap.next else none) w.nextCmd env.error
  · rw [heq]
    exact hentered
  · rw [heq]
    rw [← hw₁] at hentered
    exact shiftAndReport_balanced hentered .sendError value fun _ => log_ledger fun _ => rfl

/-! ## Handlers -/

/-- The handler `on` overwrites. -/
def overwritten (w : World) (event : Bytes) : Option LuaRef :=
  if strcmp event (ascii "error") = .eq then some w.cc.rErrorCb
  else if strcmp event (ascii "connect") = .eq then some w.cc.rConnectCb
  else if strcmp event (ascii "disconnect") = .eq then some w.cc.rDisconnectCb
  else none

/-- The slot that `on` loses: that of the old handler, or its own when nothing will give it back. -/
def lostByOn (w : World) (event : Bytes) (fn : Fn) : List Nat :=
  match overwritten w event with
  | none => []
  | some old => if w.cc.exited then [(w.lua.ref fn).1] else old.slot?.toList

theorem luaClientOn_balanced (h : w.ledger.Balanced lost) (event : Bytes) (fn : Fn) :
    (w.luaClientOn event fn).ledger.Balanced (lost ++ lostByOn w event fn) := by
  have href := h.accounts.takes fn
  rw [show w.ledger.lua = { w.lua with top := 0 } from rfl, Lua.ref_top] at href
  unfold lostByOn overwritten luaClientOn
  generalize w.lua.ref fn = r at href ⊢
  obtain ⟨n, lua⟩ := r
  have hunknown : ({ w with lua := lua.unref (.ref n) } : World).ledger.Balanced (lost ++ []) := by
    rw [List.append_nil]
    refine ⟨href.accounts.unref, h.fresh, h.nodup, h.single, fun id r i hid => ?_⟩
    refine Eq.trans ?_ (h.named_takes href id r i hid)
    refine Lua.rawgeti_congr fun m hm => href.accounts.release_kept m ?_
    have hmem := Ledger.mem_records (h.lt_next hid) (hm ▸ hid)
    exact List.mem_append_left _ (List.mem_append_right _ hmem)
  dsimp only
  cases hexit : w.cc.exited with
  | true =>
    -- after `exit` nothing will give the handlers back
    have hlost : ∀ {w' : World}, w'.ledger = { w.ledger with lua := { lua with top := 0 } } →
        w'.ledger.Balanced (lost ++ [n]) := fun heq => heq ▸ h.lose href
    have hheld : w.ledger.handlers = [] := if_pos hexit
    split
    · exact hlost (Ledger.ext rfl rfl hheld.symm rfl rfl rfl)
    split
    · exact hlost (Ledger.ext rfl rfl hheld.symm rfl rfl rfl)
    split
    · exact hlost (Ledger.ext rfl rfl hheld.symm rfl rfl rfl)
    · exact hunknown
  | false =>
    have hrunning : ¬w.cc.exited = true := by simp [hexit]
    have hheld : w.ledger.handlers = [w.cc.rConnectCb, w.cc.rErrorCb, w.cc.rDisconnectCb] :=
      if_neg hrunning
    have hreplace : ∀ {w' : World} {old : LuaRef} {others handlers : List LuaRef},
        w'.ledger = { w.ledger with lua := { lua with top := 0 }, handlers } →
        w.ledger.handlers.Perm (old :: others) → handlers.Perm (.ref n :: others) →
        w'.ledger.Balanced (lost ++ old.slot?.toList) := fun heq hold hnew =>
      heq ▸ h.replace href hold hnew
    split
    · exact hreplace (Ledger.ext rfl rfl rfl rfl rfl rfl) (hheld ▸ .swap _ _ _) (.swap _ _ _)
    split
    · exact hreplace (Ledger.ext rfl rfl rfl rfl rfl rfl) (hheld ▸ .refl _) (.refl _)
    split
    · exact hreplace (Ledger.ext rfl rfl rfl rfl rfl rfl)
        (hheld ▸ List.perm_append_singleton _ [_, _]) (List.perm_append_singleton _ [_, _])
    · exact hunknown

end

/-! ## The end of a connection -/

namespace Ledger

/-- The slots of the records that are no longer there. -/
def destroyed (d d' : Ledger) : List Nat :=
  (List.range d.next).filterMap fun id =>
    if (d'.card id).isNone then (d.card id).bind fun c => c.1.slot? else none

theorem destroyed_of_card {d d' : Ledger} (h : d'.card = d.card) : d.destroyed d' = [] := by
  refine List.filterMap_eq_nil_iff.mpr fun id _ => ?_
  rw [h]
  cases d.card id <;> rfl

/-- Some records are gone; the others keep their references. -/
structure Remains (d d' : Ledger) : Prop where
  given : d'.given = d.given
  lua : d'.lua = d.lua
  handlers : d'.handlers = d.handlers
  next : d'.next = d.next
  card : ∀ id c', d'.card id = some c' → ∃ n, d.card id = some (c'.1, n)

theorem Remains.refl (d : Ledger) : Remains d d :=
  ⟨rfl, rfl, rfl, rfl, fun _ c' h => ⟨c'.2, h⟩⟩

/-- What remains of balanced books is balanced, with the slots of the destroyed records lost. -/
theorem Remains.balanced {d d' : Ledger} {lost : List Nat} (hremains : Remains d d')
    (hlist : d'.list = []) (h : d.Balanced lost) : d'.Balanced (lost ++ d.destroyed d') where
  accounts := by
    rw [hremains.lua]
    refine h.accounts.perm ?_
    -- the slots of the records that stay, and of those that are gone
    have hsplit := filterMap_split (fun id => (d'.card id).isNone)
      (fun id => (d.card id).bind fun c => c.1.slot?) (List.range d.next)
    have hkept : ∀ id ∈ List.range d.next, (if (d'.card id).isNone = true then none
        else (d.card id).bind fun c => c.1.slot?) = (d'.card id).bind fun c => c.1.slot? := by
      intro id _
      cases hid : d'.card id with
      | none => rfl
      | some c' =>
        obtain ⟨n, hn⟩ := hremains.card id c' hid
        simp [hn]
    rw [List.filterMap_congr hkept] at hsplit
    have hcount := List.perm_iff_count.mp hsplit
    rw [List.perm_iff_count]
    intro a
    have ha := hcount a
    simp only [held, records, destroyed, hremains.handlers, hremains.next, List.count_append] at ha ⊢
    omega
  fresh id hid := by
    cases hid' : d'.card id with
    | none => rfl
    | some c' =>
      obtain ⟨n, hn⟩ := hremains.card id c' hid'
      rw [h.fresh id (hremains.next ▸ hid)] at hn
      cases hn
  nodup := by simp [hlist]
  single id hid := by simp [hlist] at hid
  named id r n hid := by
    obtain ⟨m, hm⟩ := hremains.card id (r, n) hid
    rw [hremains.lua, hremains.given]
    exact h.named id r m hm

end Ledger

section
variable {w : World} {lost : List Nat}

/-- A wrapper is destroyed: a record is gone, or has one wrapper less. -/
theorem detach_ledger (w : World) (p : CbPtr) :
    Ledger.Remains w.ledger (Update.apply w (.detach p)).ledger := by
  cases hp : CrazySnail.destroyWrapper w.heap p with
  | none =>
    simp only [Update.apply, hp, Option.getD_none]
    exact .refl _
  | some h =>
    simp only [Update.apply, hp, Option.getD_some]
    cases p with
    | stack => cases hp
    | heap i =>
      cases hi : w.heap.cb i with
      | none => simp [CrazySnail.destroyWrapper, hi] at hp
      | some c =>
        simp only [CrazySnail.destroyWrapper, hi, Option.some.injEq] at hp
        subst hp
        refine ⟨rfl, rfl, rfl, rfl, fun id c' hid => ?_⟩
        by_cases heq : id = i
        · subst heq
          simp only [World.ledger, Heap.set, Function.update_self] at hid
          split at hid
          · cases hid
          · cases hid
            exact ⟨c.attach, congrArg (Option.map fun c : Callback => (c.ref, c.attach)) hi⟩
        · simp only [World.ledger, Heap.set, Function.update_of_ne heq] at hid
          exact ⟨c'.2, hid⟩

theorem Ledger.Remains.trans {d d' d'' : Ledger} (h : Remains d d') (h' : Remains d' d'') :
    Remains d d'' where
  given := h'.given.trans h.given
  lua := h'.lua.trans h.lua
  handlers := h'.handlers.trans h.handlers
  next := h'.next.trans h.next
  card id c' hid := by
    obtain ⟨n, hn⟩ := h'.card id c' hid
    exact h.card id (c'.1, n) hn

theorem destroyAll_remains (w : World) : Ledger.Remains w.ledger w.destroyAll.ledger := by
  refine w.destroyAll_touches.preserves (I := fun v => Ledger.Remains w.ledger v.ledger)
    (fun v u hu hv => ?_) (.refl _)
  cases u with
  | detach p => exact hv.trans (detach_ledger v p)
  | clearList => exact ⟨hv.given, hv.lua, hv.handlers, hv.next, hv.card⟩
  | crash | timerStop | reqFree | names | timerTree =>
    rw [Update.apply_ledger v _ (by simp [ledgerParts])]
    exact hv
  | _ => simp at hu

theorem destroyAll_balanced (h : w.ledger.Balanced lost) :
    w.destroyAll.ledger.Balanced (lost ++ w.ledger.destroyed w.destroyAll.ledger) :=
  (destroyAll_remains w).balanced rfl h

theorem onDisconnect_balanced (h : w.ledger.Balanced lost) (h₁ : Handle) :
    ((w.log (.closed h₁)).onDisconnect h₁).ledger.Balanced
      (lost ++ w.ledger.destroyed ((w.log (.closed h₁)).onDisconnect h₁).ledger) := by
  obtain ht | ⟨w₁, ht, heq⟩ := onDisconnect_cases w h₁
  · have hsame := ht.ledger rfl
    rw [hsame, Ledger.destroyed_of_card rfl, List.append_nil]
    exact h
  · have hsame := ht.ledger rfl
    rw [heq, (callHandler_touches _ _ _ _).ledger rfl,
      log_ledger (w := w₁.destroyAll) (o := .teardown) fun _ => rfl, ← hsame]
    exact destroyAll_balanced (hsame ▸ h)

/-- The references of the handlers are given back. -/
def unrefHandlers (w : World) : World :=
  { ((w.unref w.cc.rConnectCb).unref w.cc.rErrorCb).unref w.cc.rDisconnectCb with
    cc.streamFlags := .none, cc.exited := true }

theorem unrefHandlers_balanced (h : w.ledger.Balanced lost) (hrunning : w.cc.exited = false) :
    (unrefHandlers w).ledger.Balanced lost := by
  have hheld : w.ledger.handlers = [w.cc.rConnectCb, w.cc.rErrorCb, w.cc.rDisconnectCb] :=
    if_neg (by simp [hrunning])
  have haccounts := h.accounts
  rw [Ledger.held, hheld] at haccounts
  simp only [List.flatMap_cons, List.flatMap_nil, List.append_nil, List.append_assoc] at haccounts
  -- a record keeps its function when the handlers give their slots back
  have hkept : ∀ m ∈ w.ledger.records, _ = w.ledger.lua.slots m := fun m hm =>
    (haccounts.release.release.release_kept m (List.mem_append_left _ hm)).trans
      ((haccounts.release.release_kept m (List.mem_append_right _ (List.mem_append_left _ hm))).trans
        (haccounts.release_kept m
          (List.mem_append_right _ (List.mem_append_right _ (List.mem_append_left _ hm)))))
  have hledger : (unrefHandlers w).ledger = { w.ledger with
      lua := ((w.ledger.lua.unref w.cc.rConnectCb).unref w.cc.rErrorCb).unref w.cc.rDisconnectCb
      handlers := [] } := by
    refine Ledger.ext rfl ?_ rfl rfl rfl rfl
    simp only [World.ledger, Lua.unref_top]
    rfl
  rw [hledger]
  refine ⟨haccounts.release.release.release, h.fresh, h.nodup, h.single, fun id r n hid => ?_⟩
  rw [← h.named id r n hid]
  exact Lua.rawgeti_congr fun m hm => hkept m (Ledger.mem_records (h.lt_next hid) (hm ▸ hid))

/-- What `exit` does if it can close both handles. -/
theorem luaClientExit_eq (hfault : w.luaClientExit.fault = none) :
    ∃ w₁, w₁.ledger = w.ledger ∧ w₁.cc.exited = w.cc.exited ∧ w.luaClientExit =
      ((unrefHandlers w₁).destroyAll.exitStream w₁.cc.stream).exitStream w₁.cc.subStream := by
  have hclosed := (w.uvClose_touches w.cc.stream).trans (uvClose_touches _
    (w.uvClose w.cc.stream).cc.subStream)
  unfold luaClientExit at hfault ⊢
  dsimp only at hfault ⊢
  split at hfault
  next hfirst => simp [hfault] at hfirst
  next hfirst =>
    rw [if_neg hfirst]
    split at hfault
    next hsecond => simp [hfault] at hsecond
    next hsecond =>
      rw [if_neg hsecond]
      exact ⟨_, hclosed.ledger rfl, hclosed.exited_eq rfl, rfl⟩

theorem exitStream_frees (w : World) (h : Option Handle) :
    Touches (.fault :: freeStreamParts) w (w.exitStream h) :=
  w.onStream_touches h _ (by simp) fun h _ => (w.freeStream_touches h).mono (by simp)

/-- `exit` gives the slots of the handlers back, once. -/
theorem luaClientExit_balanced (h : w.ledger.Balanced lost) (hrunning : w.cc.exited = false)
    (hfault : w.luaClientExit.fault = none) :
    w.luaClientExit.ledger.Balanced (lost ++ w.ledger.destroyed w.luaClientExit.ledger) := by
  obtain ⟨w₁, hledger, hexited, heq⟩ := luaClientExit_eq hfault
  have hdestroyed : ∀ d', (unrefHandlers w₁).ledger.destroyed d' = w.ledger.destroyed d' := by
    intro d'
    rw [← hledger]
    rfl
  have hbalanced := destroyAll_balanced (unrefHandlers_balanced (hledger ▸ h)
    (hexited.trans hrunning))
  rw [heq, (exitStream_frees _ _).ledger rfl, (exitStream_frees _ _).ledger rfl, ← hdestroyed]
  exact hbalanced

/-! ## After `exit` -/

/-- The handle of the command stream has been freed. -/
def World.Ended (w : World) : Prop :=
  ∃ h s, w.cc.stream = some h ∧ w.uv.streams h = some s ∧ s.freed = true

theorem Touches.ended {ks : List Part} {w w' : World} (h : Touches ks w w')
    (hks : ks.all (fun k => decide (k ∉ [.handles, .newStream])) = true) (hended : w.Ended) :
    w'.Ended := by
  refine h.keeps (I := World.Ended) (fun v u hu hv => ?_) hks hended
  obtain ⟨h₁, s, hstream, hs, hfreed⟩ := hv
  cases u with
  | stream t h₂ =>
    by_cases heq : h₁ = h₂
    · subst heq
      refine ⟨h₁, s.change t, hstream, by simp [Update.apply, Uv.setStream, hs], ?_⟩
      cases t <;> first | exact hfreed | rfl
    · refine ⟨h₁, s, hstream, ?_, hfreed⟩
      simpa [Update.apply, Uv.setStream, Function.update_of_ne heq] using hs
  | reqAlloc =>
    refine ⟨h₁, s, hstream, ?_, hfreed⟩
    rw [← hs]
    simp only [Update.apply, Uv.reqAlloc]
    split <;> rfl
  | names p t => cases p <;> exact ⟨h₁, s, hstream, hs, hfreed⟩
  | handles | newStream => simp at hu
  | _ => exact ⟨h₁, s, hstream, hs, hfreed⟩

/-- A fault stays. -/
theorem Touches.faultless {ks : List Part} {w w' : World} (h : Touches ks w w')
    (hfault : w'.fault = none) : w.fault = none := by
  induction h with
  | refl => exact hfault
  | step _ u _ ih =>
    refine ih ?_
    cases u with
    | crash f => exact absurd hfault (Option.isSome_iff_ne_none.mp (crash_isSome _ f))
    | names p t => cases p <;> exact hfault
    | _ => exact hfault

/-- `exit` is not called a second time. -/
theorem World.Ended.exit (h : w.Ended) : w.luaClientExit.fault ≠ none := by
  obtain ⟨h₁, s, hstream, hs, hfreed⟩ := h
  have hclose : (w.uvClose w.cc.stream).fault.isSome = true := by
    rw [hstream]
    simp [uvClose, onStream, World.log, hs, hfreed, crash_isSome]
  have hexit : w.luaClientExit = w.uvClose w.cc.stream := by
    unfold luaClientExit
    exact if_pos hclose
  rw [hexit]
  exact Option.isSome_iff_ne_none.mp hclose

theorem exitStream_ended (hfault : (w.exitStream w.cc.stream).fault = none) :
    (w.exitStream w.cc.stream).Ended := by
  have hcrash : ∀ f, (w.crash f).fault ≠ none := fun f =>
    Option.isSome_iff_ne_none.mp (crash_isSome w f)
  unfold exitStream onStream at hfault ⊢
  split at hfault
  · exact absurd hfault (hcrash _)
  next h₁ hstream =>
    split at hfault
    · exact absurd hfault (hcrash _)
    next s hs =>
      split at hfault
      · exact absurd hfault (hcrash _)
      next hfreed =>
        simp only [if_neg hfreed]
        exact ⟨h₁, { s with freed := true }, hstream, by simp [freeStream, World.log, Uv.setStream, hs],
          rfl⟩

theorem luaClientExit_ended (hfault : w.luaClientExit.fault = none) : w.luaClientExit.Ended := by
  obtain ⟨w₁, -, -, heq⟩ := luaClientExit_eq hfault
  rw [heq] at hfault ⊢
  have hstream : (unrefHandlers w₁).destroyAll.cc.stream = w₁.cc.stream :=
    (destroyAll_touches _).eq (f := fun w => w.cc.stream) fun v u hu => by
      cases u with
      | names p t => cases p <;> rfl
      | handles => simp at hu
      | _ => rfl
  have hfirst := (exitStream_frees _ _).faultless hfault
  rw [← hstream] at hfirst ⊢
  exact (exitStream_frees _ _).ended rfl (exitStream_ended hfirst)

end

/-! ## The invariant -/

/-- The slots that are lost in a step. -/
def lostBy (w : World) (e : Event) : List Nat :=
  match e with
  | .api (.on event fn) => lostByOn w event fn
  | .api (.command args _) =>
    match collect args with
    | .ok argv _ => unentered w argv (callbackOf args)
    | _ => []
  | .api .exit | .closed _ => ((w.step e).map fun w' => w.ledger.destroyed w'.ledger).getD []
  | _ => []

/-- A reply that comes when no command waits finds no old reference in `on_read`'s variable. -/
def Expected (w : World) (e : Event) (_ : World) : Prop :=
  ∀ h cb rest reader reply, e = .resume → w.stack = .readLoop h false cb :: rest →
    redisReaderGetReply w.cc.reader = (reader, .ok, some reply) → w.cc.commandCbList = [] →
    cb.slot? = none

structure Accounted (w : World) (lost : List Nat) : Prop where
  balanced : w.ledger.Balanced lost
  ended : w.cc.exited = true → w.Ended

theorem step_ended {w w' : World} {e : Event} (hstep : w.step e = some w')
    (hfault : w'.fault = none) (h : w.cc.exited = true → w.Ended) :
    w'.cc.exited = true → w'.Ended := by
  intro hexit
  have htouches := step_touches hstep
  obtain ⟨-, hs⟩ := step_cases hstep
  -- `exit` sets the flag, every other step finds it set
  by_cases he : e = .api .exit
  · subst he
    cases hs with
    | api c _ => exact luaClientExit_ended hfault
  rw [step_exited hstep he] at hexit
  have hended := h hexit
  cases hs with
  | api c _ =>
    cases c with
    | connect =>
      have hcrash : w.api .connect = w.crash .deadClient := if_pos hexit
      rw [hcrash] at hfault
      exact absurd hfault (Option.isSome_iff_ne_none.mp (crash_isSome w _))
    | _ => exact htouches.ended rfl hended
  | @resume f rest hstack _ =>
    rw [hstack] at htouches
    exact htouches.ended (by cases f <;> rfl) hended
  | _ => exact htouches.ended rfl hended

section
variable {w : World} {lost : List Nat}

theorem onWrite_balanced (h : w.ledger.Balanced lost) (req : Request) (status readStart : Int) :
    (w.onWrite req status readStart).ledger.Balanced lost := by
  unfold onWrite
  dsimp only
  have hfree : ({ w with uv := w.uv.setStream req.handle fun s => { s with data := true } }.reqFree
      req.block).ledger.Balanced lost := h
  split
  · exact shiftAndReport_balanced hfree .writeError _ fun _ => rfl
  split
  · exact shiftAndReport_balanced hfree .writeError _ fun _ => rfl
  · exact h

theorem endRead_balanced (h : w.ledger.Balanced lost) (h₁ : Handle) (subMode : Bool) :
    (w.endRead h₁ subMode).ledger.Balanced lost := by
  unfold endRead
  dsimp only
  have hlist : (if w.cc.flags.monitoring then
      { w with cc.commandCbList := w.cc.commandCbList ++ [.stack] } else w).ledger.Balanced lost := by
    split
    · exact h.appendStack
    · exact h
  generalize (if w.cc.flags.monitoring then _ else w) = v at hlist ⊢
  split
  · exact hlist
  · exact hlist

theorem readLoop_balanced (h : w.ledger.Balanced lost) (h₁ : Handle) (subMode : Bool) (cb : LuaRef)
    (hexpected : ∀ reader reply, subMode = false →
      redisReaderGetReply w.cc.reader = (reader, .ok, some reply) → w.cc.commandCbList = [] →
      cb.slot? = none)
    (hfault : (w.readLoop h₁ subMode cb).fault = none) :
    (w.readLoop h₁ subMode cb).ledger.Balanced lost := by
  have hround := readLoop_round w h₁ subMode cb
  generalize w.readLoop h₁ subMode cb = w' at hround hfault ⊢
  have hreplied : ∀ reader subMode reply, (w.replied reader subMode reply).ledger = w.ledger :=
    fun reader _ _ => log_ledger (w := { w with cc.reader := reader }) fun _ => rfl
  cases hround with
  | exited | failed | stored | disconnecting => exact h
  | @ended reader _ _ =>
    exact endRead_balanced (w := { w with cc.reader := reader }) h h₁ subMode
  | @reply reader reply hget hsub =>
    exact dispatchReply_balanced (w := w.replied reader false reply) (hreplied _ _ _ ▸ h) h₁ reply
      (hexpected reader reply hsub hget) hfault
  | @subError reader message _ _ =>
    exact show (w.replied reader true (.error message)).ledger.Balanced lost from hreplied _ _ _ ▸ h
  | @subReply reader reply _ _ =>
    rw [(getAndCallSubCb_touches _ reply).ledger rfl]
    exact show (w.replied reader true reply).ledger.Balanced lost from hreplied _ _ _ ▸ h

end

/-- **No step loses a slot of another kind**, nor gives one back that is not held. -/
theorem step_accounted {w w' : World} {e : Event} {lost : List Nat} (h : Accounted w lost)
    (hstep : w.step e = some w') (hexpected : Expected w e w') (hfault : w'.fault = none) :
    Accounted w' (lost ++ lostBy w e) := by
  refine ⟨?_, step_ended hstep hfault h.ended⟩
  have hb := h.balanced
  have htouches := step_touches hstep
  -- most steps leave the registry and the records as they are
  have hquiet : w'.ledger = w.ledger → w'.ledger.Balanced (lost ++ []) := fun heq => by
    rw [heq, List.append_nil]
    exact hb
  obtain ⟨-, hs⟩ := step_cases hstep
  cases hs with
  | api c _ =>
    cases c with
    | on event fn => exact luaClientOn_balanced hb event fn
    | connect => exact hquiet (htouches.ledger rfl)
    | command args env =>
      cases hcollect : collect args with
      | raise | fault =>
        have hlost : lostBy w (.api (.command args env)) = [] := by simp only [lostBy, hcollect]
        exact hlost ▸ hquiet ((w.luaClientCommand_refused env (by simp [hcollect])).ledger rfl)
      | ok argv timers =>
        have hlost : lostBy w (.api (.command args env)) = unentered w argv (callbackOf args) := by
          simp only [lostBy, hcollect]
        exact hlost ▸ luaClientCommand_balanced hb hcollect env
    | disconnect => exact hquiet (htouches.ledger rfl)
    -- exit() destroys the records with the references they hold
    | exit =>
      have hrunning : w.cc.exited = false := by
        cases hexit : w.cc.exited with
        | false => rfl
        | true => exact absurd hfault (h.ended hexit).exit
      have hlost : lostBy w (.api .exit) = w.ledger.destroyed w.luaClientExit.ledger := by
        simp only [lostBy, hstep, Option.map_some, Option.getD_some]
        rfl
      rw [hlost]
      exact luaClientExit_balanced hb hrunning hfault
  | @resume f rest hstack _ =>
    cases f with
    | readLoop h₁ subMode cb =>
      refine (List.append_nil lost).symm ▸ readLoop_balanced (w := { w with stack := rest }) hb h₁
        subMode cb (fun reader reply hsub hget hlist => ?_) hfault
      subst hsub
      exact hexpected h₁ cb rest reader reply rfl hstack hget hlist
    | _ =>
      rw [hstack] at htouches
      exact hquiet (htouches.ledger rfl)
  | @written i req status readStart _ _ _ _ _ =>
    exact (List.append_nil lost).symm ▸ onWrite_balanced (w := w.finish i) hb req status readStart
  | @closed h₁ s _ _ _ _ _ =>
    have hlost : lostBy w (.closed h₁) =
        w.ledger.destroyed ((w.log (.closed h₁)).onDisconnect h₁).ledger := by
      simp only [lostBy, hstep, Option.map_some, Option.getD_some]
    rw [hlost]
    exact onDisconnect_balanced hb h₁
  | _ => exact hquiet (htouches.ledger rfl)

theorem accounted_new (ignore : Bool) : Accounted (World.new ignore) [] where
  balanced := ⟨Lua.accounts_empty, fun _ _ => rfl, List.nodup_nil,
    (fun _ hid => by cases hid), (fun _ _ _ hid => by cases hid)⟩
  ended hexit := by cases hexit

/-- The run rule. -/
theorem run_accounted {ignore : Bool} {es : List Event} {w : World}
    (hrun : Transition.RunsUnder World.step Expected (World.new ignore) es w)
    (hfault : w.fault = none) :
    Accounted w (Transition.outputs World.step lostBy (World.new ignore) es) := by
  have hnew : (World.new ignore).fault = none → Accounted (World.new ignore) [] := fun _ =>
    accounted_new ignore
  have haccounted := hrun.invariant_outputs (I := fun w lost => w.fault = none → Accounted w lost)
    (fun w e w' lost h hstep hexpected hfault =>
      step_accounted (h (step_cases hstep).1) hstep hexpected hfault) hnew
  exact haccounted hfault

/-- A live record refers to the function that was given to its command. -/
theorem Accounted.fnOf {w : World} {lost : List Nat} (h : Accounted w lost) {id : Nat}
    {c : Callback} (hid : w.heap.cb id = some c) : w.fnOf (.heap id) = givenTo w.trace id := by
  have hnamed := h.balanced.named id c.ref c.attach (congrArg (Option.map _) hid)
  rw [World.fnOf, Heap.deref, hid, Option.bind_some]
  exact hnamed

def expectedCheck (w : World) (e : Event) : Bool :=
  match e, w.stack with
  | .resume, .readLoop _ false cb :: _ =>
    !decide (w.cc.commandCbList = []) || decide (cb.slot? = none) ||
      (redisReaderGetReply w.cc.reader).2.2.isNone
  | _, _ => true

theorem expected_of_check {w w' : World} {e : Event} (h : expectedCheck w e = true) :
    Expected w e w' := by
  intro h₁ cb rest reader reply he hstack hreply hlist
  subst he
  simpa [expectedCheck, hstack, hlist, hreply] using h

/-- After a reply that nobody waits for, the slot of the last command is free twice. -/
example : (runs (World.new true)
    [.api .connect, .connected 0 0, .connected 0 0,
     .api (.command [.string (ascii "ping"), .function 1] ⟨0, false⟩), .written 0 0 0,
     .read 0 (ascii "+PONG\r\n+PONG\r\n") .noref, .resume, .ret true, .resume, .resume]).map
      (fun w => w.lua.free) = some [1, 1] := by
  decide +kernel

end CrazySnail
