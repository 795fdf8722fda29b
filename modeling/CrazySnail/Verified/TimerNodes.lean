import CrazySnail.Verified.Confirming
import CrazySnail.Verified.RequestPool
import CrazySnail.Verified.Subscriptions
import CrazySnail.Verified.TreeOrder

/-! # The nodes of the timer tree

`dataBlocks` are the timers that the nodes of a tree point to.  In `TimersHeld` these are the
timers that libuv runs, each at the interval of its node, and each in a request block of its
own.
-/

namespace CrazySnail

open SearchTree (Tree Path)
open World

/-! ## The timers of a tree -/

/-- The blocks the nodes point to. -/
def dataBlocks {κ : Type} (t : NodeT κ) : List Block := (postorder t).filterMap NodeVal.data

section
variable {κ : Type}

@[simp] theorem dataBlocks_node (key : κ) (val : NodeVal) (l r : NodeT κ) :
    dataBlocks (.node key val l r) = dataBlocks l ++ dataBlocks r ++ val.data.toList := by
  cases hdata : val.data <;> simp [dataBlocks, postorder, hdata]

/-- A new node has no timer. -/
@[simp] theorem dataBlocks_insert (cmp : κ → κ → Ordering) (t : NodeT κ) (k : κ) :
    dataBlocks (t.insert cmp k .fresh).1 = dataBlocks t := by
  induction t with
  | null => rfl
  | node key val l r ihl ihr =>
    rw [Tree.insert_node]
    split <;> simp [ihl, ihr]

@[simp] theorem dataBlocks_push (t : NodeT κ) (ptr : CbPtr) (p : Path) :
    dataBlocks (t.modify (.push ptr) p) = dataBlocks t := by
  induction t generalizing p with
  | null => cases p <;> rfl
  | node key val l r ihl ihr =>
    rcases p with _ | ⟨_ | _, p⟩ <;> simp [Tree.modify, NodeVal.push, ihl, ihr]

/-- The timer of one node and those of the others. -/
theorem dataBlocks_split {t : NodeT κ} {p : Path} {key : κ} {val : NodeVal}
    (h : t.get? p = some (key, val)) :
    ∃ rest, ∀ f : NodeVal → NodeVal,
      (dataBlocks (t.modify f p)).Perm ((f val).data.toList ++ rest) := by
  obtain ⟨rest, hrest⟩ := postorder_split h
  refine ⟨rest.filterMap NodeVal.data, fun f => ((hrest f).filterMap NodeVal.data).trans ?_⟩
  cases hdata : (f val).data <;> simp [hdata]

/-- A node gets a timer in the place of the one it may have. -/
theorem dataBlocks_start {t : NodeT κ} {p : Path} {key : κ} {val : NodeVal}
    (h : t.get? p = some (key, val)) (b : Block) :
    ∃ rest, (dataBlocks t).Perm (val.data.toList ++ rest) ∧
      (dataBlocks (t.modify (fun v => { v with data := some b }) p)).Perm (b :: rest) := by
  obtain ⟨rest, hrest⟩ := dataBlocks_split h
  have hold := hrest id
  rw [modify_id] at hold
  exact ⟨rest, hold, hrest _⟩

theorem mem_dataBlocks {t : NodeT κ} {b : Block} :
    b ∈ dataBlocks t ↔ ∃ p key val, t.get? p = some (key, val) ∧ val.data = some b := by
  constructor
  · intro h
    induction t with
    | null => cases h
    | node key val l r ihl ihr =>
      rw [dataBlocks_node, List.mem_append, List.mem_append, Option.mem_toList] at h
      rcases h with (h | h) | h
      · obtain ⟨p, hp⟩ := ihl h
        exact ⟨.left :: p, hp⟩
      · obtain ⟨p, hp⟩ := ihr h
        exact ⟨.right :: p, hp⟩
      · exact ⟨[], key, val, rfl, h⟩
  · rintro ⟨p, key, val, hget, hdata⟩
    obtain ⟨rest, hrest⟩ := dataBlocks_split hget
    have hold := hrest id
    rw [modify_id, id, hdata] at hold
    exact hold.mem_iff.mpr List.mem_cons_self

/-- Where no timer is pointed to twice, a timer has one node. -/
theorem dataBlocks_unique {t : NodeT κ} (hnodup : (dataBlocks t).Nodup) {p q : Path} {key key' : κ}
    {val val' : NodeVal} {b : Block} (hp : t.get? p = some (key, val)) (hval : val.data = some b)
    (hq : t.get? q = some (key', val')) (hval' : val'.data = some b) : q = p := by
  by_contra hne
  obtain ⟨rest, hrest⟩ := dataBlocks_split hp
  have hold := hrest id
  rw [modify_id, id, hval] at hold
  -- without its pointer at `p` the tree still has the one at `q`
  have hnone : (dataBlocks (t.modify (fun v => { v with data := none }) p)).Perm rest := hrest _
  have hmem : b ∈ dataBlocks (t.modify (fun v => { v with data := none }) p) :=
    mem_dataBlocks.mpr ⟨q, key', val', by rw [Tree.get?_modify, hq]; simp [hne], hval'⟩
  exact (List.nodup_cons.mp (hold.nodup_iff.mp hnodup)).1 (hnone.mem_iff.mp hmem)

end

/-! ## The nodes of intervals -/

/-- Every node is found by its interval. -/
def Keyed (t : NodeT UInt64) : Prop :=
  ∀ p k val, t.get? p = some (k, val) → t.lookup timerCmp k = some p

theorem Keyed.modify {t : NodeT UInt64} (h : Keyed t) (f : NodeVal → NodeVal) (p : Path) :
    Keyed (t.modify f p) := by
  intro q k val hget
  rw [Tree.get?_modify] at hget
  obtain ⟨kv, hkv, heq⟩ := Option.map_eq_some_iff.mp hget
  rw [Tree.lookup_modify, ← (Prod.mk.inj heq).1]
  exact h q kv.1 kv.2 hkv

theorem Keyed.insert {t : NodeT UInt64} (h : Keyed t) (k : UInt64) :
    Keyed (t.insert timerCmp k .fresh).1 := by
  intro p k' val hget
  obtain hold | ⟨-, rfl, hkv⟩ := Tree.get?_insert_cases hget
  · rw [Tree.lookup_insert timerCmp_lawful, h p k' val hold]
  · obtain ⟨rfl, -⟩ := Prod.mk.inj hkv
    exact Tree.lookup_insert_self timerCmp_lawful t k' .fresh

/-- The node that a search for an interval finds. -/
theorem exists_node {t : NodeT UInt64} {k : UInt64} {p : Path} (h : t.lookup timerCmp k = some p) :
    ∃ val, t.get? p = some (k, val) := by
  obtain ⟨key, val, hget, hcmp⟩ := Tree.exists_get?_of_lookup h
  obtain rfl := timerCmp_eq_iff.mp hcmp
  exact ⟨val, hget⟩

/-! ## New intervals -/

/-- The timer tree after a round of the timer loop. -/
def timersAdd (cb : Nat) (t : NodeT UInt64) (ikey : UInt64) : NodeT UInt64 :=
  if t.lookup timerCmp ikey = none then timersWith t cb ikey else t

theorem subscribeTimer_timers (cb : Nat) (w : World) (key : Bytes) :
    (subscribeTimer cb w key).cc.timers = timersAdd cb w.cc.timers (timerKey key) := by
  unfold timersAdd
  cases hleaf : w.cc.timers.lookup timerCmp (timerKey key) with
  | none =>
    rw [subscribeTimer_new hleaf]
    rfl
  | some leaf =>
    rw [subscribeTimer_known hleaf]
    rfl

/-- The timer tree after a subscription. -/
theorem registerCommand_timers (w : World) (p : Bool) (names timers : List Bytes) (fn : Option Fn)
    (flags : Bool) :
    (w.registerCommand (.subscribe p) names timers fn flags).cc.timers =
      (timers.map timerKey).foldl (timersAdd w.heap.next) w.cc.timers := by
  have hnames : ∀ v : World, (names.foldl (subscribeName p w.heap.next) v).cc.timers =
      v.cc.timers := by
    induction names with
    | nil => exact fun _ => rfl
    | cons name names ih =>
      refine fun v => (ih _).trans ?_
      rw [subscribeName_eq]
      cases p <;> rfl
  have htimers : ∀ v : World, (timers.foldl (subscribeTimer w.heap.next) v).cc.timers =
      (timers.map timerKey).foldl (timersAdd w.heap.next) v.cc.timers := by
    induction timers with
    | nil => exact fun _ => rfl
    | cons key timers ih =>
      intro v
      rw [List.foldl_cons, ih, subscribeTimer_timers, List.map_cons, List.foldl_cons]
  refine (htimers _).trans ?_
  rw [hnames]
  exact congrArg (fun cc : ClientContext =>
    (timers.map timerKey).foldl (timersAdd w.heap.next) cc.timers) (w.refCallback_cc fn)

/-- What a subscription adds to the timer tree: a node for every interval that has none, with
    the callback alone on its list. -/
structure Added (cb : Nat) (t t' : NodeT UInt64) (keys : List UInt64) : Prop where
  keyed : Keyed t'
  blocks : dataBlocks t' = dataBlocks t
  kept : ∀ p kv, t.get? p = some kv → t'.get? p = some kv
  new : ∀ p kv, t'.get? p = some kv → t.get? p = some kv ∨
    kv.1 ∈ keys ∧ t.lookup timerCmp kv.1 = none ∧ kv.2 = ⟨[.heap cb], none⟩
  found : ∀ k ∈ keys, (t'.lookup timerCmp k).isSome

theorem timersWith_get? (cb : Nat) {t : NodeT UInt64} {k : UInt64}
    (hnone : t.lookup timerCmp k = none) (p : Path) :
    (timersWith t cb k).get? p =
      if p = (t.insert timerCmp k .fresh).2 then some (k, ⟨[.heap cb], none⟩) else t.get? p := by
  unfold timersWith
  rw [Tree.get?_modify]
  split
  next heq =>
    subst heq
    rw [(Tree.get?_insert_new _ hnone).2]
    rfl
  next hne =>
    rw [Tree.get?_insert_of_ne hne]
    cases t.get? p <;> rfl

theorem Added.refl (cb : Nat) {t : NodeT UInt64} (h : Keyed t) : Added cb t t [] where
  keyed := h
  blocks := rfl
  kept _ _ hget := hget
  new _ _ hget := .inl hget
  found _ hk := absurd hk List.not_mem_nil

/-- One more interval. -/
theorem Added.snoc {cb : Nat} {t t' : NodeT UInt64} {keys : List UInt64} (h : Added cb t t' keys)
    (k : UInt64) : Added cb t (timersAdd cb t' k) (keys ++ [k]) := by
  have hold : ∀ p kv, t'.get? p = some kv → t.get? p = some kv ∨
      kv.1 ∈ keys ++ [k] ∧ t.lookup timerCmp kv.1 = none ∧ kv.2 = ⟨[.heap cb], none⟩ :=
    fun p kv hp => (h.new p kv hp).imp_right fun hnew => ⟨List.mem_append_left _ hnew.1, hnew.2⟩
  unfold timersAdd
  split
  next hnone =>
    have hget := timersWith_get? cb hnone
    have hplace := (Tree.get?_insert_new .fresh hnone).1
    have hlookup := lookup_timersWith t' cb k
    refine ⟨(h.keyed.insert k).modify _ _, ?_, fun p kv hp => ?_, fun p kv hp => ?_, fun x hx => ?_⟩
    · rw [timersWith, dataBlocks_push, dataBlocks_insert, h.blocks]
    · have hp' := h.kept p kv hp
      rw [hget, if_neg, hp']
      rintro rfl
      rw [hplace] at hp'
      cases hp'
    · rw [hget] at hp
      split at hp
      · cases hp
        refine .inr ⟨List.mem_append_right _ (List.mem_singleton_self _), ?_, rfl⟩
        by_contra hsome
        obtain ⟨q, hq⟩ := Option.ne_none_iff_exists'.mp hsome
        obtain ⟨val, hval⟩ := exists_node hq
        rw [h.keyed q k val (h.kept q _ hval)] at hnone
        cases hnone
      · exact hold p kv hp
    · rcases List.mem_append.mp hx with hx | hx
      · exact hlookup.2 x (h.found x hx)
      · exact List.mem_singleton.mp hx ▸ hlookup.1
  next hsome =>
    refine ⟨h.keyed, h.blocks, h.kept, hold, fun x hx => ?_⟩
    rcases List.mem_append.mp hx with hx | hx
    · exact h.found x hx
    · exact List.mem_singleton.mp hx ▸ Option.isSome_iff_ne_none.mpr hsome

theorem added_foldl (cb : Nat) {t : NodeT UInt64} (h : Keyed t) (keys : List UInt64) :
    Added cb t (keys.foldl (timersAdd cb) t) keys := by
  induction keys using List.reverseRecOn with
  | nil => exact .refl cb h
  | append_singleton keys k ih =>
    rw [List.foldl_append]
    exact ih.snoc k

/-- An interval that had no node has one now, for the callback alone. -/
theorem Added.node {cb : Nat} {t t' : NodeT UInt64} {keys : List UInt64} (h : Added cb t t' keys)
    {k : UInt64} (hk : k ∈ keys) (hnone : t.lookup timerCmp k = none) (hkeyed : Keyed t) :
    ∃ p, t'.get? p = some (k, ⟨[.heap cb], none⟩) := by
  obtain ⟨p, hp⟩ := Option.isSome_iff_exists.mp (h.found k hk)
  obtain ⟨val, hval⟩ := exists_node hp
  refine ⟨p, ?_⟩
  obtain hold | ⟨-, -, hnew⟩ := h.new p _ hval
  · rw [hkeyed p k val hold] at hnone
    cases hnone
  · rw [hval, show val = _ from hnew]

/-! ## Timers that are started -/

/-- The nodes of these intervals have got timers, and nothing else has changed. -/
def Started (t t' : NodeT UInt64) (keys : List UInt64) : Prop :=
  ∀ p, (t.get? p = none → t'.get? p = none) ∧ ∀ k val, t.get? p = some (k, val) →
    ∃ data, t'.get? p = some (k, ⟨val.cbList, data⟩) ∧
      data.isSome = (val.data.isSome || decide (k ∈ keys))

theorem Started.refl (t : NodeT UInt64) : Started t t [] :=
  fun _ => ⟨fun h => h, fun _ val h => ⟨val.data, h, by simp⟩⟩

theorem Started.trans {t t' t'' : NodeT UInt64} {keys keys' : List UInt64} (h : Started t t' keys)
    (h' : Started t' t'' keys') : Started t t'' (keys ++ keys') := by
  intro p
  refine ⟨fun hnone => (h' p).1 ((h p).1 hnone), fun k val hget => ?_⟩
  obtain ⟨data, hget', hdata⟩ := (h p).2 k val hget
  obtain ⟨data', hget'', hdata'⟩ := (h' p).2 k _ hget'
  refine ⟨data', hget'', hdata'.trans ?_⟩
  simp [hdata, Bool.or_assoc]

/-- Nothing is started where the timer runs already. -/
theorem Started.running {t : NodeT UInt64} (hkeyed : Keyed t) {p : Path} {k : UInt64} {val : NodeVal}
    (hget : t.get? p = some (k, val)) (hdata : val.data.isSome = true) : Started t t [k] := by
  refine fun q => ⟨fun h => h, fun k' val' hget' => ⟨val'.data, hget', ?_⟩⟩
  by_cases hk : k' = k
  · subst hk
    obtain rfl := Option.some.inj ((hkeyed q k' val' hget').symm.trans (hkeyed p k' val hget))
    obtain rfl : val' = val := by
      rw [hget'] at hget
      exact (Prod.mk.inj (Option.some.inj hget)).2
    simp [hdata]
  · simp [hk]

/-- The node of an interval gets a timer. -/
theorem started_modify {t : NodeT UInt64} (hkeyed : Keyed t) {p : Path} {k : UInt64} {val : NodeVal}
    (hget : t.get? p = some (k, val)) (b : Block) :
    Started t (t.modify (fun v => { v with data := some b }) p) [k] := by
  intro q
  rw [Tree.get?_modify]
  refine ⟨fun h => by rw [h]; rfl, fun k' val' hget' => ?_⟩
  rw [hget', Option.map_some]
  by_cases hq : q = p
  · subst hq
    rw [hget] at hget'
    cases hget'
    exact ⟨some b, by simp, by simp⟩
  · have hk : k' ≠ k := by
      rintro rfl
      exact hq (Option.some.inj ((hkeyed q k' val' hget').symm.trans (hkeyed p k' val hget)))
    exact ⟨val'.data, by simp [hq], by simp [hk]⟩

/-! ## Timers that run -/

/-- libuv's timers are those of the nodes: a timer that is active is the one a node of its
    interval points to, and the timer of a node runs at the interval of the node (without an
    interval it stops when it fires). -/
structure World.TimersHeld (w : World) : Prop where
  holding : w.Holding [] (dataBlocks w.cc.timers)
  active : ∀ b t, w.uv.timers b = some t → t.active = true →
    ∃ p val, w.cc.timers.get? p = some (t.rep, val) ∧ val.data = some b
  started : ∀ p k val b, w.cc.timers.get? p = some (k, val) → val.data = some b →
    ∃ t, w.uv.timers b = some t ∧ t.rep = k ∧ (k ≠ 0 → t.active = true)
  keyed : Keyed w.cc.timers
  bare : ∀ p, dataBlocks (w.names p) = []

namespace World
variable {w : World}

/-- The parts of timers and trees. -/
def timersHeldParts : List Part :=
  [.timerStart, .timerStop, .fired, .timerTree, .timerData, .names]

/-- What changes the pool alone. -/
theorem TimersHeld.of_pool (h : w.TimersHeld) {ks : List Part} {w' : World} (ht : Touches ks w w')
    (hks : ks.all (fun k => decide (k ∉ timersHeldParts)) = true)
    (hpool : w'.Holding [] (dataBlocks w.cc.timers)) : w'.TimersHeld := by
  have hsame : (w'.uv.timers, w'.cc.timers, w'.names) = (w.uv.timers, w.cc.timers, w.names) := by
    refine ht.same (f := fun w => (w.uv.timers, w.cc.timers, w.names)) (fun w u hu => ?_) hks
    cases u with
    | reqAlloc => simp only [Update.apply, w.uv.reqAlloc_pool.2.2.2]; rfl
    | timerStart | timerStop | fired | timerTree | timerData | names =>
      simp [timersHeldParts] at hu
    | _ => rfl
  obtain ⟨htimers, htree, hnames⟩ : _ ∧ _ ∧ _ := by simpa only [Prod.mk.injEq] using hsame
  exact ⟨htree ▸ hpool, by rw [htimers, htree]; exact h.active,
    by rw [htimers, htree]; exact h.started, htree ▸ h.keyed, by rw [hnames]; exact h.bare⟩

theorem TimersHeld.keep (h : w.TimersHeld) {ks : List Part} {w' : World} (ht : Touches ks w w')
    (hks : ks.all (fun k => decide (k ∉ timersHeldParts ++ poolParts)) = true) : w'.TimersHeld :=
  h.of_pool ht (all_not_mem_mono (List.subset_append_left _ _) hks)
    (h.holding.keep ht (all_not_mem_mono (List.subset_append_right _ _) hks))

/-- A timer is started for a node that has none, or one that is not active. -/
theorem TimersHeld.startTimer (h : w.TimersHeld) {ikey : UInt64} {p : Path} {val : NodeVal}
    (hget : w.cc.timers.get? p = some (ikey, val))
    (hidle : ∀ x t, val.data = some x → w.uv.timers x = some t → t.active = false) :
    (w.startTimer ikey).TimersHeld ∧
      Started w.cc.timers (w.startTimer ikey).cc.timers [ikey] := by
  have hleaf : searchTimer ikey w.cc.timers = some p := by rw [searchTimer_eq, h.keyed p _ _ hget]
  have hblock := w.uv.reqAlloc_pool
  -- the pool gives no block that a node still holds
  have hfresh : w.uv.reqAlloc.1 ∉ dataBlocks w.cc.timers := fun hmem =>
    hblock.1 ▸ FreeListPool.FreeList.Exclusive.alloc_fresh h.holding |>.1
      (List.mem_append_right _ (hblock.1 ▸ hmem))
  have hholding := h.holding.reqAlloc
  have hstart : w.startTimer ikey = { { w with
        lua.top := w.lua.top + 1, uv := w.uv.reqAlloc.2 }.uvTimerStart w.uv.reqAlloc.1 ikey with
      cc.timers := w.cc.timers.modify (fun v => { v with data := some w.uv.reqAlloc.1 }) p } := by
    simp only [World.startTimer, hleaf]
    rfl
  rw [hstart]
  generalize w.uv.reqAlloc = alloc at hblock hfresh hholding ⊢
  obtain ⟨b, uv⟩ := alloc
  have htimers : uv.timers = w.uv.timers := hblock.2.2.2
  refine ⟨⟨?_, fun x t hx hactive => ?_, fun q k v x hq hx => ?_, h.keyed.modify _ _, h.bare⟩,
    started_modify h.keyed hget b⟩
  · -- the timer that the node had, if any, belongs to no node any more
    obtain ⟨rest, hold, hnew⟩ := dataBlocks_start hget b
    have hheld : ({ w with uv } : World).Holding [b] (val.data.toList ++ rest) :=
      FreeListPool.FreeList.Exclusive.perm hholding (hold.append_left _)
    have hleft : ({ w with uv } : World).Holding [b] rest := by
      cases hdata : val.data with
      | none => rwa [hdata] at hheld
      | some x =>
        rw [hdata] at hheld
        exact FreeListPool.FreeList.Exclusive.lose (FreeListPool.FreeList.Exclusive.perm hheld
          List.perm_middle)
    refine FreeListPool.FreeList.Exclusive.perm hleft ?_
    exact List.perm_middle.symm.trans (hnew.symm.append_left (uv.requests.map Request.block))
  · simp only [uvTimerStart, Function.update_apply, htimers] at hx
    split at hx
    next heq =>
      cases hx
      exact ⟨p, { val with data := some b }, by rw [Tree.get?_modify, hget]; simp, heq ▸ rfl⟩
    next hne =>
      obtain ⟨q, val', hq, hval'⟩ := h.active x t hx hactive
      have hqp : q ≠ p := by
        rintro rfl
        rw [hq] at hget
        cases hget
        rw [hidle x t hval' hx] at hactive
        cases hactive
      exact ⟨q, val', by rw [Tree.get?_modify, hq]; simp [hqp], hval'⟩
  · rw [Tree.get?_modify] at hq
    obtain ⟨kv, hkv, heq⟩ := Option.map_eq_some_iff.mp hq
    obtain ⟨rfl, rfl⟩ := Prod.mk.inj heq
    simp only [uvTimerStart, Function.update_apply, htimers]
    by_cases hqp : q = p
    · subst hqp
      rw [hget] at hkv
      cases hkv
      rw [if_pos rfl] at hx
      cases hx
      exact ⟨_, if_pos rfl, rfl, fun _ => rfl⟩
    · rw [if_neg hqp] at hx
      have hne : x ≠ b := fun hxb => hfresh (hxb ▸ mem_dataBlocks.mpr ⟨q, _, _, hkv, hx⟩)
      rw [if_neg hne]
      exact h.started q kv.1 kv.2 x hkv hx

/-- The loop over the slots of a record starts the timers of its intervals that have none. -/
theorem TimersHeld.confirmChannels (sname : Bytes) {chs : List Channel} (isDone : Bool)
    (hslots : ∀ ch ∈ chs, ch.timerEvent = true → ∃ p val,
      w.cc.timers.get? p = some (ch.ikey, val) ∧ ch.subscribed = val.data.isSome)
    (hnodup : ((chs.filter Channel.timerEvent).map Channel.ikey).Nodup) (h : w.TimersHeld) :
    (confirmChannels sname chs isDone w).2.2.TimersHeld ∧
      Started w.cc.timers (confirmChannels sname chs isDone w).2.2.cc.timers
        ((chs.filter Channel.timerEvent).map Channel.ikey) := by
  induction chs generalizing isDone w with
  | nil => exact ⟨h, .refl _⟩
  | cons ch chs ih =>
    have hone : (confirmChannel sname ch isDone w).2.2.TimersHeld ∧
        Started w.cc.timers (confirmChannel sname ch isDone w).2.2.cc.timers
          (([ch].filter Channel.timerEvent).map Channel.ikey) := by
      unfold confirmChannel
      cases htimer : ch.timerEvent with
      | false =>
        have hquiet : w.TimersHeld ∧ Started w.cc.timers w.cc.timers
            (([ch].filter Channel.timerEvent).map Channel.ikey) := by
          simp only [List.filter_cons, htimer, Bool.false_eq_true, if_false, List.filter_nil,
            List.map_nil]
          exact ⟨h, .refl _⟩
        split
        · exact hquiet
        · split
          · exact hquiet
          · exact hquiet
      | true =>
        obtain ⟨p, val, hget, hsub⟩ := hslots ch List.mem_cons_self htimer
        simp only [List.filter_cons, htimer, if_true, List.filter_nil, List.map_cons, List.map_nil]
        cases hdata : val.data with
        | some b =>
          rw [hdata, Option.isSome_some] at hsub
          rw [if_pos hsub]
          exact ⟨h, .running h.keyed hget (by rw [hdata]; rfl)⟩
        | none =>
          rw [hdata, Option.isSome_none] at hsub
          rw [if_neg (by simp [hsub])]
          simp only [Bool.not_true, Bool.and_false, Bool.false_and, Bool.false_eq_true, if_false]
          exact h.startTimer hget fun x t hx => by
            rw [hdata] at hx
            cases hx
    have hsplit : ((ch :: chs).filter Channel.timerEvent).map Channel.ikey =
        ([ch].filter Channel.timerEvent).map Channel.ikey ++
          (chs.filter Channel.timerEvent).map Channel.ikey := by
      rw [← List.map_append, ← List.filter_append, List.singleton_append]
    rw [hsplit] at hnodup ⊢
    obtain ⟨-, hnodup', hdisjoint⟩ := List.nodup_append.mp hnodup
    have hrest := ih (w := (confirmChannel sname ch isDone w).2.2)
      (confirmChannel sname ch isDone w).2.1 (fun ch' hch' htimer' => ?_) hnodup' hone.1
    · exact ⟨hrest.1, hone.2.trans hrest.2⟩
    · obtain ⟨p, val, hget, hsub⟩ := hslots ch' (List.mem_cons_of_mem ch hch') htimer'
      obtain ⟨data, hget', hdata⟩ := (hone.2 p).2 _ val hget
      refine ⟨p, _, hget', hsub.trans ?_⟩
      -- the interval of another slot is another one
      have hother : ch'.ikey ∉ ([ch].filter Channel.timerEvent).map Channel.ikey := fun hmem =>
        hdisjoint _ hmem _ (List.mem_map_of_mem (List.mem_filter.mpr ⟨hch', htimer'⟩)) rfl
      rw [hdata, decide_eq_false hother, Bool.or_false]

/-- A timer fires. -/
theorem TimersHeld.fired (h : w.TimersHeld) {b : Block} {t : UvTimer}
    (ht : w.uv.timers b = some t) (hactive : t.active = true) : (w.fired b t).TimersHeld := by
  refine ⟨h.holding, fun x t' hx hactive' => ?_, fun p k val x hget hdata => ?_, h.keyed, h.bare⟩
  · simp only [World.fired, Function.update_apply] at hx
    split at hx
    next heq =>
      cases hx
      exact heq ▸ h.active b t ht hactive
    · exact h.active x t' hx hactive'
  · obtain ⟨t', ht', hrep, hrun⟩ := h.started p k val x hget hdata
    simp only [World.fired, Function.update_apply]
    split
    next heq =>
      obtain rfl : t = t' := Option.some.inj (ht.symm.trans (heq ▸ ht'))
      exact ⟨_, rfl, hrep, fun hk => decide_eq_true (hrep ▸ hk)⟩
    · exact ⟨t', ht', hrep, hrun⟩

/-! ## Teardown -/

/-- The blocks of the timers that may still be active. -/
def Stopping (w : World) (ts : List Block) : Prop :=
  w.Holding [] ts ∧ ∀ b t, w.uv.timers b = some t → t.active = true → b ∈ ts

theorem TimersHeld.stopping (h : w.TimersHeld) : w.Stopping (dataBlocks w.cc.timers) := by
  refine ⟨h.holding, fun b t ht hactive => ?_⟩
  obtain ⟨p, val, hget, hdata⟩ := h.active b t ht hactive
  exact mem_dataBlocks.mpr ⟨p, t.rep, val, hget, hdata⟩

theorem Stopping.destroyList {ts : List Block} (h : w.Stopping ts) (list : CallbackEnds) :
    (w.destroyList list).Stopping ts := by
  have htouches := w.destroyList_touches list
  have htimers : (w.destroyList list).uv.timers = w.uv.timers :=
    htouches.eq (f := fun w => w.uv.timers) fun w u hu => by cases u <;> simp at hu <;> rfl
  exact ⟨h.1.keep htouches rfl, by rw [htimers]; exact h.2⟩

/-- The timer of a node is stopped, and its block is given back. -/
theorem Stopping.destroyNode {v : NodeVal} {ts : List Block} (h : w.Stopping (v.data.toList ++ ts)) :
    (w.destroyNode v).Stopping ts := by
  unfold World.destroyNode
  cases hdata : v.data with
  | none =>
    rw [hdata] at h
    exact Stopping.destroyList h v.cbList
  | some b =>
    rw [hdata] at h
    obtain ⟨hholding, hactive⟩ := h
    have hfree : w.Holding [b] ts := by
      refine FreeListPool.FreeList.Exclusive.perm hholding ?_
      exact List.perm_middle
    refine Stopping.destroyList (w := { w with uv := w.uv.stopTimer b })
      ⟨hfree.reqFree, fun x t hx hon => ?_⟩ v.cbList
    simp only [Uv.stopTimer, Uv.reqFree, Function.update_apply] at hx
    split at hx
    · obtain ⟨t', -, rfl⟩ := Option.map_eq_some_iff.mp hx
      cases hon
    next hne => exact (List.mem_cons.mp (hactive x t hx hon)).resolve_left hne

/-- Nothing is left, neither nodes nor timers. -/
theorem TimersHeld.destroyAll (h : w.TimersHeld) (hcounts : w.Counts) : w.destroyAll.TimersHeld := by
  have hcc := (destroyAll_spec hcounts).2
  have hnodes : w.nodes.filterMap NodeVal.data = dataBlocks w.cc.timers := by
    have hchannels : dataBlocks w.cc.channels = [] := h.bare false
    have hpatterns : dataBlocks w.cc.patterns = [] := h.bare true
    simp only [nodes, List.filterMap_append]
    exact congrArg₂ (· ++ · ++ dataBlocks w.cc.timers) hchannels hpatterns
  have hstopped : w.destroyAll.Stopping [] := by
    refine destroyAll_rule (I := fun vs v => v.Stopping (vs.filterMap NodeVal.data))
      (fun _ _ _ h => h) (fun x vs v hv => Stopping.destroyNode (v := x) ?_)
      (fun v list hv => Stopping.destroyList hv list) (hnodes ▸ h.stopping)
    cases hdata : x.data <;> simpa [hdata] using hv
  refine ⟨?_, fun b t ht hactive => absurd (hstopped.2 b t ht hactive) List.not_mem_nil,
    fun p k val b hget => ?_, fun p k val hget => ?_, fun p => ?_⟩
  · rw [hcc]
    exact hstopped.1
  · rw [hcc] at hget
    simp at hget
  · rw [hcc] at hget
    simp at hget
  · cases p <;> simp [names, hcc] <;> rfl

/-! ## Commands -/

theorem entered_uv (w : World) (argv timers : List Bytes) (fn : Option Fn) (flags : Bool) :
    (w.entered argv timers fn flags).uv = w.uv :=
  (w.entered_touches argv timers fn flags).eq (f := World.uv) fun w u hu => by
    cases u with
    | names p t => cases p <;> rfl
    | _ => simp at hu <;> rfl

theorem entered_timers (w : World) {argv : List Bytes} {p : Bool}
    (hkind : classify (argv.headD []) = .subscribe p) (timers : List Bytes) (fn : Option Fn)
    (flags : Bool) : (w.entered argv timers fn flags).cc.timers =
      (timers.map timerKey).foldl (timersAdd w.heap.next) w.cc.timers := by
  unfold World.entered
  rw [hkind]
  exact registerCommand_timers _ p _ timers fn flags

/-- Another command leaves the timer tree alone. -/
theorem entered_timers_other (w : World) {argv : List Bytes}
    (hother : ∀ p, classify (argv.headD []) ≠ .subscribe p) (timers : List Bytes) (fn : Option Fn)
    (flags : Bool) : (w.entered argv timers fn flags).cc.timers = w.cc.timers :=
  (registerCommand_other (w := w.noted (classify (argv.headD [])) argv timers fn) hother argv.tail
    timers fn flags).eq (f := fun w => w.cc.timers) fun w u hu => by cases u <;> simp at hu <;> rfl

/-- A subscription starts no timer. -/
theorem TimersHeld.entered (h : w.TimersHeld) (argv timers : List Bytes) (fn : Option Fn)
    (flags : Bool) : (w.entered argv timers fn flags).TimersHeld := by
  have hnoted : Touches [.obs .command, .nextCmd, .obs .cmdBuf] w
      (w.noted (classify (argv.headD [])) argv timers fn) :=
    .of [.log (.command (classify (argv.headD [])) argv timers fn w.heap.next),
      .nextCmd (w.nextCmd + 1), .log (.mallocCmd w.nextCmd)] rfl rfl
  cases hkind : classify (argv.headD []) with
  | subscribe p =>
    have huv := w.entered_uv argv timers fn flags
    have htree := w.entered_timers hkind timers fn flags
    have hadded := added_foldl w.heap.next h.keyed (timers.map timerKey)
    refine ⟨?_, fun b t ht hactive => ?_, fun q k val b hget hdata => ?_, ?_, fun q => ?_⟩
    · rw [Holding, huv, htree, hadded.blocks]
      exact h.holding
    · rw [huv] at ht
      rw [htree]
      obtain ⟨q, val, hget, hdata⟩ := h.active b t ht hactive
      exact ⟨q, val, hadded.kept q _ hget, hdata⟩
    · rw [htree] at hget
      rw [huv]
      obtain hold | ⟨-, -, hnew⟩ := hadded.new q _ hget
      · exact h.started q k val b hold hdata
      · rw [show val = _ from hnew] at hdata
        cases hdata
    · rw [htree]
      exact hadded.keyed
    · have hnames : ∀ (names : List Bytes) t, dataBlocks t = [] →
          dataBlocks (names.foldl (fun t name => namesWith t w.heap.next name) t) = [] := by
        intro names
        induction names with
        | nil => exact fun _ h => h
        | cons name names ih => exact fun t h => ih _ (by simpa [namesWith] using h)
      refine (congrArg dataBlocks (registerCommand_names _ _ _ _ _ q)).trans ?_
      split
      · exact hnames _ _ (h.bare q)
      · exact h.bare q
  | unsubscribe | monitor | ordinary =>
    have hother : ∀ p, classify (argv.headD []) ≠ .subscribe p := by
      rw [hkind]
      exact fun _ heq => by cases heq
    have hregister := registerCommand_other (w := w.noted (classify (argv.headD [])) argv timers fn)
      hother argv.tail timers fn flags
    exact (h.keep hnoted rfl).keep hregister rfl

end World

end CrazySnail
