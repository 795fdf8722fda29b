import CrazySnail.Verified.NameTree
import CrazySnail.Verified.ReplyLoop

/-! # What Lua sees of a reply

`Image` is the purpose of `push_reply`: the Lua value a reply stands for.  `push_reply`
itself works on the Lua stack; there it adds that one value (`pushReplyOnto_eq`).  A command
callback gets it as `res`, and `nil` as `err` even if it is an error
(`repliesTranslated`).  `push_sub_reply` takes the prefixes off the names of an event, but
off its payload too (`eventsVerbatim`).
-/

namespace CrazySnail

/-! ## `push_reply` on the Lua stack -/

/-- A table after `t[n] = v`. -/
def setSlot (slots : List LuaValue) (n : Nat) (v : LuaValue) : List LuaValue :=
  (slots ++ List.replicate (n - slots.length) LuaValue.nil).set (n - 1) v

/-- `lua_rawseti(L, -2, n)` on a stack whose top is on the left. -/
def luaRawseti (n : Nat) : List LuaValue → List LuaValue
  | v :: .table slots :: L => .table (setSlot slots n v) :: L
  | L => L

mutual
/-- `push_reply` as it works on the stack; `none` when it reads through `NULL`. -/
def pushReplyOnto : Reply → List LuaValue → Option (List LuaValue)
  | .error s, L => some (errorReply s :: L)
  | .status s, L => some (.string s :: L)
  | .integer n, L => some (luaInteger n :: L)
  | .nil, L => some (.nil :: L)
  | .string s, L => some (.string s :: L)
  | .array elements, L => pushElementsOnto elements 0 (.table [] :: L)
  | .badArray _, _ => none

/-- The loop over the elements, from the `i`-th one on. -/
def pushElementsOnto : List Reply → Nat → List LuaValue → Option (List LuaValue)
  | [], _, L => some L
  | r :: rs, i, L =>
    match pushReplyOnto r L with
    | none => none
    | some L => pushElementsOnto rs (i + 1) (luaRawseti (i + 1) L)
end

/-- The next slot of a sequence. -/
theorem setSlot_next (slots : List LuaValue) (v : LuaValue) :
    setSlot slots (slots.length + 1) v = slots ++ [v] := by
  simp [setSlot]

mutual
/-- `push_reply` adds exactly one value. -/
theorem pushReplyOnto_eq : ∀ (r : Reply) (L : List LuaValue),
    pushReplyOnto r L = if readable r then some (pushReply r :: L) else none
  | .error _, _ => rfl
  | .status _, _ => rfl
  | .integer _, _ => rfl
  | .nil, _ => rfl
  | .string _, _ => rfl
  | .array elements, L => by
    rw [pushReplyOnto]
    exact pushElementsOnto_eq elements [] L
  | .badArray _, _ => rfl

/-- Every round fills the next slot. -/
theorem pushElementsOnto_eq : ∀ (rs : List Reply) (slots L : List LuaValue),
    pushElementsOnto rs slots.length (.table slots :: L) =
      if allReadable rs then some (.table (slots ++ pushReplies rs) :: L) else none
  | [], slots, L => by simp [pushElementsOnto, allReadable, pushReplies]
  | r :: rs, slots, L => by
    rw [pushElementsOnto, pushReplyOnto_eq r, allReadable]
    cases readable r with
    | false => rfl
    | true =>
      have hrest := pushElementsOnto_eq rs (slots ++ [pushReply r]) L
      rw [List.length_append, List.length_singleton] at hrest
      simp only [if_true, luaRawseti, setSlot_next, hrest, Bool.true_and, pushReplies,
        List.append_assoc, List.singleton_append]
end

/-! ## Integers -/

/-- A `long long` that a double holds. -/
def IsDouble (n : Int) : Prop :=
  -2 ^ 63 ≤ n ∧ n < 2 ^ 63 ∧ ∃ m e : Nat, m < 2 ^ 53 ∧ n.natAbs = m * 2 ^ e

/-- 53 bits are left over. -/
theorem div_surplus_lt (n : Nat) : n / 2 ^ surplusBits n < 2 ^ 53 := by
  have hlt : n < 2 ^ (Nat.log2 n + 1) := Nat.lt_log2_self
  have hle : 2 ^ (Nat.log2 n + 1) ≤ 2 ^ 53 * 2 ^ surplusBits n := by
    rw [← Nat.pow_add]
    exact Nat.pow_le_pow_right (by decide) (by unfold surplusBits; omega)
  exact (Nat.div_lt_iff_lt_mul (Nat.two_pow_pos _)).mpr (Nat.lt_of_lt_of_le hlt hle)

/-- A number of 53 bits and zeros behind them has no others to lose. -/
theorem surplus_dvd {n m e : Nat} (hm : m < 2 ^ 53) (hn : n = m * 2 ^ e) : 2 ^ surplusBits n ∣ n := by
  by_cases he : surplusBits n ≤ e
  · exact hn ▸ Dvd.dvd.mul_left (Nat.pow_dvd_pow 2 he) m
  · -- the leading bit would be lower than it is
    have hlog : Nat.log2 n = 52 + surplusBits n := by
      unfold surplusBits at he ⊢
      omega
    have hne : n ≠ 0 := by
      rintro rfl
      simp [surplusBits] at he
    have hge : 2 ^ (52 + surplusBits n) ≤ n := hlog ▸ Nat.log2_self_le hne
    have hlt : n < 2 ^ 53 * 2 ^ e := hn ▸ Nat.mul_lt_mul_of_pos_right hm (Nat.two_pow_pos e)
    have hle : 2 ^ 53 * 2 ^ e ≤ 2 ^ (52 + surplusBits n) := by
      rw [← Nat.pow_add]
      exact Nat.pow_le_pow_right (by decide) (by omega)
    exact absurd (Nat.lt_of_lt_of_le hlt (hle.trans hge)) (Nat.lt_irrefl n)

/-- What a double holds is not rounded, and nothing else. -/
theorem nearestDouble_eq_iff {n : Nat} :
    nearestDouble n = n ↔ ∃ m e : Nat, m < 2 ^ 53 ∧ n = m * 2 ^ e := by
  constructor
  · intro h
    have hdvd : 2 ^ surplusBits n ∣ n := ⟨_, (h.symm.trans (Nat.mul_comm _ _))⟩
    exact ⟨_, _, div_surplus_lt n, (Nat.div_mul_cancel hdvd).symm⟩
  · rintro ⟨m, e, hm, hn⟩
    have hdvd := surplus_dvd hm hn
    have hunit := Nat.two_pow_pos (surplusBits n)
    simp only [nearestDouble, Nat.mod_eq_zero_of_dvd hdvd, Nat.mul_zero, Nat.not_lt_zero, false_or,
      hunit.ne', false_and, if_false, Nat.add_zero, Nat.div_mul_cancel hdvd]

/-- Rounding does not leave the range of `long long`, its end apart. -/
theorem nearestDouble_le {n : Nat} (h : n ≤ 2 ^ 63) : nearestDouble n ≤ 2 ^ 63 := by
  by_cases hend : n = 2 ^ 63
  · exact (nearestDouble_eq_iff.mpr ⟨1, 63, by decide, by omega⟩).le.trans h
  · have hquot := div_surplus_lt n
    have hround : nearestDouble n ≤ 2 ^ 53 * 2 ^ surplusBits n := by
      refine Nat.mul_le_mul_right _ ?_
      split <;> omega
    have hbits : surplusBits n ≤ 10 := by
      have hlog : Nat.log2 n < 63 := by
        by_cases hzero : n = 0
        · subst hzero
          decide
        · exact (Nat.log2_lt hzero).mpr (by omega)
      unfold surplusBits
      omega
    exact hround.trans (Nat.mul_le_mul_left (2 ^ 53) (Nat.pow_le_pow_right (by decide) hbits))

/-- `lua_pushinteger` keeps what a double holds, and nothing else. -/
theorem luaInteger_eq_iff {n : Int} : luaInteger n = .integer n ↔ IsDouble n := by
  have hlo : -2 ^ 63 ≤ n.bmod (2 ^ 64) := Int.le_bmod (by decide)
  have hhi : n.bmod (2 ^ 64) < 2 ^ 63 := Int.bmod_lt (by decide)
  have hpush : luaInteger n = .integer n ↔
      (n.bmod (2 ^ 64)).sign * nearestDouble (n.bmod (2 ^ 64)).natAbs = n := by
    simp only [luaInteger, LuaValue.integer.injEq]
  rw [hpush]
  constructor
  · intro h
    -- rounding keeps the sign, so it cannot make up for what the conversion cut off
    have hround : nearestDouble (n.bmod (2 ^ 64)).natAbs ≤ 2 ^ 63 := nearestDouble_le (by omega)
    obtain ⟨q, hq⟩ : (2 ^ 64 : Int) ∣ n - n.bmod (2 ^ 64) := Int.dvd_self_sub_bmod
    have hkept : n.bmod (2 ^ 64) = n := by
      rcases Int.lt_trichotomy (n.bmod (2 ^ 64)) 0 with hneg | hzero | hpos
      · rw [Int.sign_eq_neg_one_of_neg hneg] at h
        omega
      · rw [hzero] at h ⊢
        simpa using h
      · rw [Int.sign_eq_one_of_pos hpos] at h
        omega
    rw [hkept] at h hlo hhi
    refine ⟨hlo, hhi, nearestDouble_eq_iff.mp ?_⟩
    have habs := congrArg Int.natAbs h
    rw [Int.natAbs_mul, Int.natAbs_natCast] at habs
    by_cases hzero : n = 0
    · subst hzero
      rfl
    · rwa [Int.natAbs_sign_of_ne_zero hzero, Nat.one_mul] at habs
  · rintro ⟨hlo, hhi, hdouble⟩
    have hmod : n.bmod (2 ^ 64) = n := by
      apply Int.bmod_eq_of_le <;> omega
    rw [hmod, nearestDouble_eq_iff.mpr hdouble, Int.sign_mul_natAbs]

-- the first number that is rounded, and a `uint64_t` that gets negative
example : (nearestDouble (2 ^ 53 + 1), (2 ^ 64 - 1 : Int).bmod (2 ^ 64)) = (2 ^ 53, -1) := by
  decide

/-! ## Images -/

mutual
/-- The integers of a reply arrive as they are. -/
def Reply.exact : Reply → Prop
  | .integer n => IsDouble n
  | .array elements => Reply.allExact elements
  | _ => True

def Reply.allExact : List Reply → Prop
  | [] => True
  | r :: rs => r.exact ∧ Reply.allExact rs
end

/-- The value of `t[n]`. -/
def slot (slots : List LuaValue) (n : Nat) : LuaValue := slots[n - 1]?.getD .nil

/-- The Lua value a reply stands for. -/
inductive Image : Reply → LuaValue → Prop
  | error (s : Bytes) : Image (.error s) (errorReply s)
  | status (s : Bytes) : Image (.status s) (.string s)
  | integer (n : Int) : Image (.integer n) (.integer n)
  | nil : Image .nil .nil
  | string (s : Bytes) : Image (.string s) (.string s)
  | array {elements : List Reply} {slots : List LuaValue} :
      slots.length = elements.length →
      (∀ i r, elements[i]? = some r → Image r (slot slots (i + 1))) →
      Image (.array elements) (.table slots)

theorem pushReplies_eq_map (rs : List Reply) : pushReplies rs = rs.map pushReply := by
  induction rs with
  | nil => rfl
  | cons r rs ih => rw [pushReplies, ih, List.map_cons]

theorem slot_pushReplies {rs : List Reply} {i : Nat} {r : Reply} (h : rs[i]? = some r) :
    slot (pushReplies rs) (i + 1) = pushReply r := by
  rw [slot, pushReplies_eq_map, Nat.add_sub_cancel, List.getElem?_map, h]
  rfl

mutual
/-- Nothing else is lost: the value that is pushed is the image if the integers are. -/
theorem pushReply_image : ∀ r : Reply, readable r = true → (Image r (pushReply r) ↔ r.exact)
  | .error s, _ => iff_of_true (.error s) trivial
  | .status s, _ => iff_of_true (.status s) trivial
  -- the only value that can differ
  | .integer n, _ => by
    rw [pushReply, Reply.exact, ← luaInteger_eq_iff]
    constructor
    · intro himage
      generalize luaInteger n = v at himage
      cases himage
      rfl
    · exact fun heq => heq ▸ .integer n
  | .nil, _ => iff_of_true .nil trivial
  | .string s, _ => iff_of_true (.string s) trivial
  | .array elements, h => by
    rw [pushReply, Reply.exact]
    constructor
    · intro himage
      obtain ⟨-, hslots⟩ : _ ∧ _ := by
        cases himage with
        | array hlength hslots => exact ⟨hlength, hslots⟩
      refine (pushReplies_images elements h).mp fun r hr => ?_
      obtain ⟨i, hi⟩ := List.mem_iff_getElem?.mp hr
      exact slot_pushReplies hi ▸ hslots i r hi
    · intro hexact
      refine .array (by rw [pushReplies_eq_map, List.length_map]) fun i r hr => ?_
      rw [slot_pushReplies hr]
      exact (pushReplies_images elements h).mpr hexact r (List.mem_of_getElem? hr)

theorem pushReplies_images : ∀ rs : List Reply, allReadable rs = true →
    ((∀ r ∈ rs, Image r (pushReply r)) ↔ Reply.allExact rs)
  | [], _ => iff_of_true (fun _ hr => absurd hr List.not_mem_nil) trivial
  | r :: rs, h => by
    rw [allReadable, Bool.and_eq_true] at h
    rw [List.forall_mem_cons, pushReply_image r h.1, pushReplies_images rs h.2, Reply.allExact]
end

/-! ## Command callbacks -/

/-- Redis reports a failure. -/
def Reply.isError : Reply → Bool
  | .error _ => true
  | _ => false

/-- The arguments `(err, res)` say what the reply says. -/
structure Translated (reply : Reply) (args : List LuaValue) : Prop where
  err : args.headD .nil ≠ .nil ↔ reply.isError = true
  res : reply.isError = false → ∃ res, args = [.nil, res] ∧ Image reply res ∧
    ∀ L, pushReplyOnto reply L = some (res :: L)

/-- The arguments `on_read` passes say so unless the reply is an error or an integer is
    rounded. -/
theorem translated_iff {reply : Reply} (h : readable reply = true) :
    Translated reply [.nil, pushReply reply] ↔ reply.isError = false ∧ reply.exact := by
  constructor
  · intro htrans
    have hok : reply.isError = false := by
      by_contra herror
      exact htrans.err.mpr (Bool.not_eq_false _ ▸ herror) rfl
    obtain ⟨res, heq, himage, -⟩ := htrans.res hok
    obtain rfl : pushReply reply = res := by simpa using heq
    exact ⟨hok, (pushReply_image reply h).mp himage⟩
  · rintro ⟨hok, hexact⟩
    refine ⟨by simp [hok], fun _ => ⟨_, rfl, (pushReply_image reply h).mpr hexact, fun L => ?_⟩⟩
    rw [pushReplyOnto_eq, if_pos h]

namespace World

/-- The function `on_read` finds for the next reply of the command stream. -/
def replyFn (w : World) (cb : LuaRef) : Option Fn :=
  match shiftCb w.cc.commandCbList w.heap with
  | .empty => w.lua.rawgeti cb
  | .ok _ target _ => w.lua.rawgeti target.ref
  | .dead _ => none

/-- What `on_read` does when a function waits for the reply. -/
theorem dispatchReply_calls {w : World} {cb : LuaRef} {f : Fn} (hfn : w.replyFn cb = some f)
    (h : Handle) (reply : Reply) :
    (w.dispatchReply h cb reply).trace = w.trace ++
      if readable reply then [.call .reply f [.nil, pushReply reply]] else [] := by
  have hdeliver : ∀ (v : World) (r : LuaRef), v.lua.rawgeti r = some f →
      (v.deliverReply h r reply).trace = v.trace ++
        if readable reply then [.call .reply f [.nil, pushReply reply]] else [] := by
    intro v r hr
    cases r with
    | noref => cases hr
    | refnil => cases hr
    | ref n =>
      have hslot : v.lua.slots n = some f := hr
      simp only [deliverReply, hslot, push]
      split
      · rfl
      · exact (List.append_nil _).symm
  unfold replyFn at hfn
  -- the list is empty, leads to a record that is gone, or to a live one
  obtain ⟨hlist, heq⟩ | ⟨list, hlist, heq⟩ | ⟨list, target, heap, hlist, heq⟩ :=
    w.dispatchReply_cases h cb reply
  · rw [hlist] at hfn
    rw [heq]
    exact hdeliver w cb hfn
  · rw [hlist] at hfn
    cases hfn
  · rw [hlist] at hfn
    rw [heq]
    exact hdeliver _ target.ref hfn

end World

/-- The next round of the reply loop, when a function waits for the reply. -/
theorem resume_replyLoop {w : World} {h : Handle} {cb : LuaRef} {rest : List Frame}
    {reader : RedisReader} {reply : Reply} {f : Fn} (hfault : w.fault = none)
    (hstack : w.stack = .readLoop h false cb :: rest) (hexit : w.cc.exited = false)
    (hreply : redisReaderGetReply w.cc.reader = (reader, .ok, some reply))
    (hfn : w.replyFn cb = some f) :
    ∃ w', w.step .resume = some w' ∧ w'.trace = w.trace ++ .reply false reply ::
      if readable reply then [.call .reply f [.nil, pushReply reply]] else [] := by
  have htrace := World.dispatchReply_calls (w := World.replied { w with stack := rest } reader false
    reply) hfn h reply
  have hbefore : (World.replied { w with stack := rest } reader false reply).trace =
      w.trace ++ [.reply false reply] := rfl
  rw [hbefore, List.append_assoc] at htrace
  refine ⟨_, ?_, htrace⟩
  simp only [World.step, hfault, hstack, World.resume, World.readLoop, hexit, hreply,
    World.replied]
  rfl

/-- **Replies reach the callback as `(err, res)`.**  The callback of the next reply of the
    command stream is called with an error for an error reply, and with the image of any other
    reply, if and only if the reply is no error, its arrays have their elements and its integers
    are what a double holds. -/
theorem repliesTranslated {w : World} {h : Handle} {cb : LuaRef} {rest : List Frame}
    {reader : RedisReader} {reply : Reply} {f : Fn} (hfault : w.fault = none)
    (hstack : w.stack = .readLoop h false cb :: rest) (hexit : w.cc.exited = false)
    (hreply : redisReaderGetReply w.cc.reader = (reader, .ok, some reply))
    (hfn : w.replyFn cb = some f) :
    (∃ w' args, w.step .resume = some w' ∧
      w'.trace = w.trace ++ [.reply false reply, .call .reply f args] ∧ Translated reply args) ↔
      reply.isError = false ∧ readable reply = true ∧ reply.exact := by
  obtain ⟨v, hstep, htrace⟩ := resume_replyLoop hfault hstack hexit hreply hfn
  constructor
  · rintro ⟨w', args, hw', hcalls, htrans⟩
    obtain rfl : v = w' := Option.some.inj (hstep.symm.trans hw')
    rw [htrace, List.append_cancel_left_eq, List.cons.injEq] at hcalls
    by_cases hread : readable reply = true
    · rw [if_pos hread] at hcalls
      obtain rfl : [.nil, pushReply reply] = args := by simpa using hcalls.2
      obtain ⟨hok, hexact⟩ := (translated_iff hread).mp htrans
      exact ⟨hok, hread, hexact⟩
    · rw [if_neg hread] at hcalls
      cases hcalls.2
  · rintro ⟨hok, hread, hexact⟩
    rw [if_pos hread] at htrace
    exact ⟨v, _, hstep, htrace, (translated_iff hread).mpr ⟨hok, hexact⟩⟩

/-- A command whose callback is the function 1 waits for its reply, and a chunk comes. -/
def answeredWith (chunk : Bytes) : List Event :=
  [.api .connect, .connected 0 0, .connected 0 0,
   .api (.command [.string (ascii "ping"), .function 1] ⟨0, false⟩), .written 0 0 0,
   .read 0 chunk .noref]

/-- What the reply loop finds after that chunk. -/
def found (w : World) : Option Fault × List Frame × Bool × Option Fn × Status × Option Reply :=
  (w.fault, w.stack, w.cc.exited, w.replyFn .noref, (redisReaderGetReply w.cc.reader).2)

theorem repliesTranslated_status :
    ∃ w w' args, runs (World.new true) (answeredWith (ascii "+PONG\r\n")) = some w ∧
      w.step .resume = some w' ∧ w'.trace = w.trace ++
        [.reply false (.status (ascii "PONG")), .call .reply 1 args] ∧
      Translated (.status (ascii "PONG")) args := by
  have hrun : (runs (World.new true) (answeredWith (ascii "+PONG\r\n"))).map found =
      some (none, [.readLoop 0 false .noref], false, some 1, .ok,
        some (.status (ascii "PONG"))) := by rfl
  obtain ⟨w, hw, hstate⟩ := Option.map_eq_some_iff.mp hrun
  simp only [found, Prod.mk.injEq] at hstate
  obtain ⟨hfault, hstack, hexit, hfn, hreply⟩ := hstate
  obtain ⟨w', args, hstep, hcalls⟩ := (repliesTranslated hfault hstack hexit
    (Prod.ext rfl hreply) hfn).mpr ⟨rfl, rfl, trivial⟩
  exact ⟨w, w', args, hw, hstep, hcalls⟩

/-- An error reply is passed as a result. -/
theorem repliesTranslated_fails :
    ∃ w w', runs (World.new true) (answeredWith (ascii "-ERR\r\n")) = some w ∧
      w.step .resume = some w' ∧ w'.trace = w.trace ++
        [.reply false (.error (ascii "ERR")),
         .call .reply 1 [.nil, errorReply (ascii "ERR")]] ∧
      ¬Translated (.error (ascii "ERR")) [.nil, errorReply (ascii "ERR")] := by
  have hrun : (runs (World.new true) (answeredWith (ascii "-ERR\r\n"))).map found =
      some (none, [.readLoop 0 false .noref], false, some 1, .ok,
        some (.error (ascii "ERR"))) := by rfl
  obtain ⟨w, hw, hstate⟩ := Option.map_eq_some_iff.mp hrun
  simp only [found, Prod.mk.injEq] at hstate
  obtain ⟨hfault, hstack, hexit, hfn, hreply⟩ := hstate
  obtain ⟨w', hstep, htrace⟩ := resume_replyLoop hfault hstack hexit
    (Prod.ext rfl hreply) hfn
  exact ⟨w, w', hw, hstep, htrace, fun htrans => htrans.err.mpr rfl rfl⟩

/-! ## Events -/

/-- A published event: its type, the names it concerns, its payload. -/
def eventReply (type : Bytes) (names : List Bytes) (payload : Bytes) : Reply :=
  .array (.string type :: names.map Reply.string ++ [.string payload])

/-- A name without the prefix of key-space or key-event channels. -/
def stripped (name : Bytes) : Bytes :=
  if KEY_SPACE <+: name then name.drop KEY_SPACE.length
  else if KEY_EVENT <+: name then name.drop KEY_EVENT.length
  else name

theorem tweak_eq (s : Bytes) : tweak s = stripped s := by
  have hspace : (0 : Byte) ∉ KEY_SPACE := by decide
  have hevent : (0 : Byte) ∉ KEY_EVENT := by decide
  simp only [tweak, stripped, strncmp_prefix hspace, strncmp_prefix hevent]
  rfl

/-- The payload looks like no name of a key-space or key-event channel. -/
def Unprefixed (payload : Bytes) : Prop := ¬KEY_SPACE <+: payload ∧ ¬KEY_EVENT <+: payload

theorem stripped_eq_self {s : Bytes} : stripped s = s ↔ Unprefixed s := by
  have hdrop : ∀ p : Bytes, p ≠ [] → p <+: s → s.drop p.length ≠ s := by
    intro p hp hprefix heq
    have hlength := congrArg List.length heq
    have := hprefix.length_le
    have := List.length_pos_of_ne_nil hp
    rw [List.length_drop] at hlength
    omega
  unfold stripped Unprefixed
  split
  next hspace => exact iff_of_false (hdrop _ (by decide) hspace) fun h => h.1 hspace
  next hspace =>
    split
    next hevent => exact iff_of_false (hdrop _ (by decide) hevent) fun h => h.2 hevent
    next hevent => exact iff_of_true rfl ⟨hspace, hevent⟩

/-- The table says what the event says. -/
def Verbatim (type : Bytes) (names : List Bytes) (payload : Bytes) : Prop :=
  pushSubReply (eventReply type names payload) =
    .table (names.map (fun name => .string (stripped name)) ++ [.string payload])

theorem pushSubReplies_eq_map (rs : List Reply) : pushSubReplies rs = rs.map pushSubReply := by
  induction rs with
  | nil => rfl
  | cons r rs ih => rw [pushSubReplies, ih, List.map_cons]

/-- The table of an event: the payload is treated as a name. -/
theorem pushSubReply_event (type : Bytes) (names : List Bytes) (payload : Bytes) :
    pushSubReply (eventReply type names payload) =
      .table (names.map (fun name => .string (stripped name)) ++ [.string (stripped payload)]) := by
  have hname : ∀ name, pushSubReply (.string name) = .string (stripped name) := fun name => by
    rw [pushSubReply, tweak_eq]
  rw [eventReply, List.cons_append, pushSubReply, pushSubReplies_eq_map, List.map_append,
    List.map_map, List.map_singleton, hname]
  congr 3
  funext name
  exact hname name

theorem verbatim_iff {type : Bytes} {names : List Bytes} {payload : Bytes} :
    Verbatim type names payload ↔ Unprefixed payload := by
  rw [Verbatim, pushSubReply_event, ← stripped_eq_self]
  simp

/-- **Events are delivered verbatim.**  The tables of two events with the same names hold
    their payloads, and differ if the payloads do, if and only if neither payload starts with
    one of the two prefixes. -/
theorem eventsVerbatim (type : Bytes) (names : List Bytes) (payload payload' : Bytes) :
    (Verbatim type names payload ∧ Verbatim type names payload' ∧
      (payload ≠ payload' → pushSubReply (eventReply type names payload) ≠
        pushSubReply (eventReply type names payload'))) ↔
      Unprefixed payload ∧ Unprefixed payload' := by
  constructor
  · rintro ⟨h, h', -⟩
    exact ⟨verbatim_iff.mp h, verbatim_iff.mp h'⟩
  · rintro ⟨h, h'⟩
    have hverbatim : Verbatim type names payload := verbatim_iff.mpr h
    have hverbatim' : Verbatim type names payload' := verbatim_iff.mpr h'
    refine ⟨hverbatim, hverbatim', fun hne heq => hne ?_⟩
    rw [show pushSubReply _ = _ from hverbatim, show pushSubReply _ = _ from hverbatim'] at heq
    simpa using heq

/-- A key whose name starts with a prefix, on a key-event channel. -/
theorem eventsVerbatim_fails :
    ¬Verbatim (ascii "message") [ascii "__keyevent@0__:set"] (ascii "__keyspace@0__:k") ∧
      pushSubReply (eventReply (ascii "message") [ascii "__keyevent@0__:set"]
        (ascii "__keyspace@0__:k")) =
      pushSubReply (eventReply (ascii "message") [ascii "__keyevent@0__:set"] (ascii "k")) := by
  refine ⟨fun h => (verbatim_iff.mp h).1 (by decide), ?_⟩
  rw [pushSubReply_event, pushSubReply_event]
  rfl

end CrazySnail
