import CrazySnail.Verified.Queue
import CrazySnail.Verified.Registry

/-! # Replies and their callbacks

As long as every send succeeds and the server sends a reply for each command, the
command list holds the commands that wait for a reply, in the order in which they were
issued, and each reply goes to the callback of its command (`replies_matched`).

`Matching` is what the invariant looks at: the commands issued and the replies received,
as the trace has them, next to the list, the references and the registry.
-/

namespace CrazySnail

/-! ## The history -/

/-- The commands that expect a reply on the command stream: the record and the callback. -/
def issued (trace : List Obs) : List (Nat × Option Fn) :=
  trace.filterMap fun
    | .command kind _ _ fn cb => if kind.pending then some (cb, fn) else none
    | _ => none

/-- The replies on the command stream. -/
def answered (trace : List Obs) : List Reply :=
  trace.filterMap fun
    | .reply false r => some r
    | _ => none

/-- Whether a place calls the callback of a command. -/
def Site.ofCommand : Site → Bool
  | .reply => true
  | .sendError => true
  | .writeError => true
  | _ => false

/-- The calls of command callbacks. -/
def commandCalls (trace : List Obs) : List (Site × Fn × List LuaValue) :=
  (calls trace).filter fun c => c.1.ofCommand

/-- The call that a reply to a command leads to. -/
def replyCall (c : Nat × Option Fn) (r : Reply) : Option (Site × Fn × List LuaValue) :=
  c.2.map fun f => (.reply, f, [.nil, pushReply r])

/-- The calls when the replies go to the commands one by one. -/
def matchedCalls (cs : List (Nat × Option Fn)) (rs : List Reply) :
    List (Site × Fn × List LuaValue) :=
  (cs.zip rs).filterMap fun p => replyCall p.1 p.2

/-- A command that has not been answered yet does not change the calls made. -/
theorem matchedCalls_command {cs : List (Nat × Option Fn)} {rs : List Reply}
    (h : rs.length ≤ cs.length) (c : Nat × Option Fn) :
    matchedCalls (cs ++ [c]) rs = matchedCalls cs rs := by
  induction cs generalizing rs with
  | nil => cases rs <;> simp_all [matchedCalls]
  | cons d cs ih =>
    cases rs with
    | nil => rfl
    | cons r rs =>
      have ih := ih (Nat.le_of_succ_le_succ h)
      simp only [matchedCalls, List.cons_append, List.zip_cons_cons, List.filterMap_cons] at ih ⊢
      rw [ih]

/-- A reply belongs to the first command without one. -/
theorem matchedCalls_reply {cs rest : List (Nat × Option Fn)} {rs : List Reply}
    {c : Nat × Option Fn} (h : cs.drop rs.length = c :: rest) (r : Reply) :
    matchedCalls cs (rs ++ [r]) = matchedCalls cs rs ++ (replyCall c r).toList := by
  induction cs generalizing rs with
  | nil => simp at h
  | cons d cs ih =>
    cases rs with
    | nil =>
      obtain ⟨rfl, rfl⟩ := List.cons.inj h
      cases hc : replyCall d r <;> simp [matchedCalls, hc]
    | cons r' rs =>
      have ih := ih h
      simp only [matchedCalls, List.cons_append, List.zip_cons_cons, List.filterMap_cons] at ih ⊢
      rw [ih]
      cases replyCall d r' <;> rfl

@[simp] theorem issued_append (t u : List Obs) : issued (t ++ u) = issued t ++ issued u :=
  List.filterMap_append

@[simp] theorem answered_append (t u : List Obs) : answered (t ++ u) = answered t ++ answered u :=
  List.filterMap_append

@[simp] theorem commandCalls_append (t u : List Obs) :
    commandCalls (t ++ u) = commandCalls t ++ commandCalls u := by
  simp [commandCalls]

/-! ## The invariant -/

/-- What matters to the matching of replies. -/
structure Matching where
  issued : List (Nat × Option Fn)
  answered : List Reply
  calls : List (Site × Fn × List LuaValue)
  list : CallbackEnds
  monitoring : Bool
  next : Nat
  ref : Nat → Option LuaRef
  lua : Lua

def World.matching (w : World) : Matching where
  issued := CrazySnail.issued w.trace
  answered := CrazySnail.answered w.trace
  calls := commandCalls w.trace
  list := w.cc.commandCbList
  monitoring := w.cc.flags.monitoring
  next := w.heap.next
  ref id := (w.heap.cb id).map Callback.ref
  lua := { w.lua with top := 0 }

/-- A record's reference leads to the callback of its command. -/
inductive Lua.Leads (l : Lua) : Option LuaRef → Option Fn → Prop
  | slot {n : Nat} {f : Fn} : l.slots n = some f → l.Leads (some (.ref n)) (some f)
  | nil : l.Leads (some .refnil) none

/-- A reference is not affected by what happens to slots that are not its own. -/
theorem Lua.Leads.congr {l l' : Lua} {r : Option LuaRef} {fn : Option Fn} (h : l.Leads r fn)
    (hslots : ∀ n, r.bind LuaRef.slot? = some n → l'.slots n = l.slots n) : l'.Leads r fn := by
  cases h with
  | slot hn => exact .slot ((hslots _ rfl).trans hn)
  | nil => exact .nil

namespace Matching
variable {m : Matching}

/-- The commands without a reply. -/
def pending (m : Matching) : List (Nat × Option Fn) := m.issued.drop m.answered.length

/-- The slots of the commands without a reply. -/
def slots (m : Matching) : List Nat := m.pending.filterMap fun c => (m.ref c.1).bind LuaRef.slot?

structure Ok (m : Matching) : Prop where
  answered_le : m.answered.length ≤ m.issued.length
  list : m.list = m.pending.map fun c => .heap c.1
  calls : m.calls = matchedCalls m.issued m.answered
  quiet : m.monitoring = false
  fresh : ∀ c ∈ m.pending, c.1 < m.next
  nodup : (m.pending.map Prod.fst).Nodup
  leads : ∀ c ∈ m.pending, m.lua.Leads (m.ref c.1) c.2
  owned : m.lua.Owned m.slots

/-! ### New references and records -/

/-- `luaL_ref` gives out a slot that no waiting command has. -/
theorem Ok.ref (h : m.Ok) (f : Fn) :
    { m with lua := (m.lua.ref f).2 }.Ok ∧
      (m.lua.ref f).2.Owned ((m.lua.ref f).1 :: m.slots) := by
  have howned := h.owned.ref f
  refine ⟨⟨h.answered_le, h.list, h.calls, h.quiet, h.fresh, h.nodup, fun c hc => ?_, howned.drop⟩,
    howned⟩
  refine (h.leads c hc).congr fun n hn => Lua.ref_slots_of_ne f fun heq => ?_
  exact h.owned.ref_not_mem f (heq ▸ List.mem_filterMap.mpr ⟨c, hc, hn⟩)

/-- A slot that no waiting command has is given back. -/
theorem Ok.unref (h : m.Ok) {n : Nat} (howned : m.lua.Owned (n :: m.slots)) :
    { m with lua := m.lua.unref (.ref n) }.Ok := by
  refine ⟨h.answered_le, h.list, h.calls, h.quiet, h.fresh, h.nodup, fun c hc => ?_, howned.unref⟩
  refine (h.leads c hc).congr fun k hk => Lua.unref_slots_of_ne fun heq => ?_
  exact howned.head_not_mem (heq ▸ List.mem_filterMap.mpr ⟨c, hc, hk⟩)

/-- A record of a waiting command is not touched by what happens to other records. -/
theorem Ok.records (h : m.Ok) {next : Nat} (ref : Nat → Option LuaRef) (hnext : m.next ≤ next)
    (href : ∀ id < m.next, ref id = m.ref id) : { m with next, ref }.Ok := by
  have hsame : ∀ c ∈ m.pending, ref c.1 = m.ref c.1 := fun c hc => href _ (h.fresh c hc)
  have hslots : { m with next, ref }.slots = m.slots :=
    List.filterMap_congr fun c hc => congrArg (Option.bind · LuaRef.slot?) (hsame c hc)
  refine ⟨h.answered_le, h.list, h.calls, h.quiet,
    fun c hc => Nat.lt_of_lt_of_le (h.fresh c hc) hnext, h.nodup, fun c hc => ?_,
    hslots.symm ▸ h.owned⟩
  change m.lua.Leads (ref c.1) c.2
  exact (hsame c hc).symm ▸ h.leads c hc

/-! ### A command -/

/-- A command is entered at the end of the list. -/
theorem Ok.enter (h : m.Ok) {r : LuaRef} {fn : Option Fn} (hleads : m.lua.Leads (some r) fn)
    (howned : m.lua.Owned (r.slot?.toList ++ m.slots)) :
    { m with
      issued := m.issued ++ [(m.next, fn)]
      list := m.list ++ [CbPtr.heap m.next]
      next := m.next + 1
      ref := Function.update m.ref m.next (some r) }.Ok := by
  have hrec := h.records (Function.update m.ref m.next (some r)) (Nat.le_succ m.next)
    fun id hid => Function.update_of_ne (Nat.ne_of_lt hid) ..
  -- the new command comes last among those that are pending
  have hpending : (m.issued ++ [(m.next, fn)]).drop m.answered.length =
      m.pending ++ [(m.next, fn)] := List.drop_append_of_le_length h.answered_le
  have hself : Function.update m.ref m.next (some r) m.next = some r := Function.update_self ..
  refine ⟨?_, ?_, ?_, h.quiet, ?_, ?_, ?_, ?_⟩
  · have := h.answered_le
    simp only [List.length_append]
    omega
  · change _ = ((m.issued ++ [(m.next, fn)]).drop m.answered.length).map _
    rw [hpending, List.map_append, h.list]
    rfl
  · exact h.calls.trans (matchedCalls_command h.answered_le _).symm
  · intro c hc
    change c ∈ (m.issued ++ [(m.next, fn)]).drop m.answered.length at hc
    rw [hpending, List.mem_append, List.mem_singleton] at hc
    rcases hc with hc | rfl
    · exact hrec.fresh c hc
    · exact Nat.lt_succ_self _
  · change (((m.issued ++ [(m.next, fn)]).drop m.answered.length).map Prod.fst).Nodup
    rw [hpending, List.map_append]
    refine List.nodup_append.mpr ⟨h.nodup, by simp, fun a ha b hb hab => ?_⟩
    obtain ⟨c, hc, rfl⟩ := List.mem_map.mp ha
    have hnext : c.1 = m.next := hab.trans (by simpa using hb)
    exact Nat.ne_of_lt (h.fresh c hc) hnext
  · intro c hc
    change c ∈ (m.issued ++ [(m.next, fn)]).drop m.answered.length at hc
    rw [hpending, List.mem_append, List.mem_singleton] at hc
    rcases hc with hc | rfl
    · exact hrec.leads c hc
    · change m.lua.Leads (Function.update m.ref m.next (some r) m.next) fn
      exact hself.symm ▸ hleads
  · have hslots : m.slots = m.pending.filterMap fun c =>
        (Function.update m.ref m.next (some r) c.1).bind LuaRef.slot? :=
      List.filterMap_congr fun c hc => by
        rw [Function.update_of_ne (Nat.ne_of_lt (h.fresh c hc))]
    change m.lua.Owned (((m.issued ++ [(m.next, fn)]).drop m.answered.length).filterMap _)
    rw [hpending, List.filterMap_append, ← hslots]
    refine howned.perm (List.perm_append_comm.trans ?_)
    cases hr : r.slot? <;> simp [hr]

/-! ### A reply -/

/-- A reply takes the first entry off the list and gives its reference back. -/
theorem Ok.reply (h : m.Ok) {c : Nat × Option Fn} {rest : List (Nat × Option Fn)}
    (hpending : m.pending = c :: rest) (r : Reply) (ref : Nat → Option LuaRef)
    (href : ∀ id, id ≠ c.1 → ref id = m.ref id) :
    { m with
      answered := m.answered ++ [r]
      calls := m.calls ++ (replyCall c r).toList
      list := m.list.tail
      ref
      lua := m.lua.unref ((m.ref c.1).getD .noref) }.Ok := by
  have hrest : m.issued.drop (m.answered ++ [r]).length = rest := by
    rw [List.length_append, List.length_singleton, ← List.drop_drop]
    exact congrArg (List.drop 1) hpending
  have hnodup := h.nodup
  rw [hpending, List.map_cons, List.nodup_cons] at hnodup
  have hsame : ∀ d ∈ rest, ref d.1 = m.ref d.1 := fun d hd =>
    href _ fun heq => hnodup.1 (heq ▸ List.mem_map_of_mem hd)
  have hmem : ∀ d ∈ rest, d ∈ m.pending := fun d hd => hpending ▸ List.mem_cons_of_mem c hd
  -- the slot of the command goes back, the others stay where they are
  have hslots : m.slots = ((m.ref c.1).bind LuaRef.slot?).toList ++
      rest.filterMap fun d => (ref d.1).bind LuaRef.slot? := by
    rw [slots, hpending, List.filterMap_congr (g := fun d => (m.ref d.1).bind LuaRef.slot?)
      (l := rest) fun d hd => by rw [hsame d hd]]
    cases hc : (m.ref c.1).bind LuaRef.slot? <;> simp [hc]
  have howned : (m.lua.unref ((m.ref c.1).getD .noref)).Owned
      (rest.filterMap fun d => (ref d.1).bind LuaRef.slot?) ∧
      ∀ d ∈ rest, (m.lua.unref ((m.ref c.1).getD .noref)).Leads (ref d.1) d.2 := by
    have ho := h.owned
    rw [hslots] at ho
    have hleads := h.leads c (hpending ▸ List.mem_cons_self)
    generalize m.ref c.1 = rc at hleads ho ⊢
    generalize c.2 = fn at hleads
    cases hleads with
    | @slot n f hn =>
      change m.lua.Owned (n :: rest.filterMap fun d => (ref d.1).bind LuaRef.slot?) at ho
      refine ⟨ho.unref, fun d hd => ?_⟩
      rw [hsame d hd]
      refine (h.leads d (hmem d hd)).congr fun k hk => Lua.unref_slots_of_ne fun hkn => ?_
      exact ho.head_not_mem (List.mem_filterMap.mpr ⟨d, hd, by rw [hsame d hd, hk, hkn]⟩)
    | nil => exact ⟨ho, fun d hd => hsame d hd ▸ h.leads d (hmem d hd)⟩
  refine ⟨?_, ?_, ?_, h.quiet, ?_, ?_, ?_, ?_⟩
  · have hlt : m.answered.length < m.issued.length := by
      by_contra hge
      have hnil : m.pending = [] := List.drop_eq_nil_of_le (by omega)
      rw [hnil] at hpending
      cases hpending
    simp only [List.length_append, List.length_singleton]
    omega
  · change m.list.tail = (m.issued.drop (m.answered ++ [r]).length).map _
    rw [hrest, h.list, hpending, List.map_cons, List.tail_cons]
  · change _ = matchedCalls m.issued (m.answered ++ [r])
    rw [matchedCalls_reply hpending r, ← h.calls]
  · intro d hd
    change d ∈ m.issued.drop (m.answered ++ [r]).length at hd
    exact h.fresh d (hmem d (hrest ▸ hd))
  · change ((m.issued.drop (m.answered ++ [r]).length).map Prod.fst).Nodup
    exact hrest.symm ▸ hnodup.2
  · intro d hd
    change d ∈ m.issued.drop (m.answered ++ [r]).length at hd
    exact howned.2 d (hrest ▸ hd)
  · change Lua.Owned _ ((m.issued.drop (m.answered ++ [r]).length).filterMap _)
    exact hrest.symm ▸ howned.1

end Matching

end CrazySnail
