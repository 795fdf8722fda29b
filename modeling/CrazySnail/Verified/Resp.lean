import CrazySnail.Command
import CrazySnail.Verified.ReaderRefinement

/-! # Replies on the wire

`Resp` is a reply as a server writes it, `encode` its bytes.  The decoder turns the
bytes of any sequence of well-formed replies into these replies (`decodes_encodeAll`).
-/

namespace CrazySnail

open Decoder (Outcome Ending Decodes)

/-! ## Numbers -/

theorem digitsValue_snoc (ds : Bytes) (d : Byte) :
    digitsValue (ds ++ [d]) = 10 * digitsValue ds + (d.toNat - 48) := by
  simp [digitsValue]

theorem digit_toNat {d : Nat} (h : d < 10) : ((48 + d).toUInt8).toNat = 48 + d := by
  simp only [Nat.toUInt8, UInt8.toNat_ofNat']
  omega

theorem isdigit_digit {d : Nat} (h : d < 10) : isdigit (48 + d).toUInt8 = true := by
  have := digit_toNat h
  simp only [isdigit, Bool.and_eq_true, decide_eq_true_eq, UInt8.le_iff_toNat_le, this]
  simp
  omega

theorem decimalAux_spec {fuel n : Nat} (h : n < fuel) :
    (∀ d ∈ decimalAux fuel n, isdigit d = true) ∧ digitsValue (decimalAux fuel n) = n ∧
      decimalAux fuel n ≠ [] := by
  induction fuel generalizing n with
  | zero => omega
  | succ fuel ih =>
    rw [decimalAux]
    split
    next hlt =>
      refine ⟨?_, ?_, by simp⟩
      · simpa using isdigit_digit hlt
      · simp only [digitsValue, List.foldl_cons, List.foldl_nil, digit_toNat hlt]
        omega
    next hge =>
      have hmod : n % 10 < 10 := Nat.mod_lt _ (by omega)
      obtain ⟨hdigits, hvalue, -⟩ := ih (n := n / 10) (by omega)
      refine ⟨?_, ?_, by simp⟩
      · intro d hd
        rcases List.mem_append.mp hd with hd | hd
        · exact hdigits d hd
        · rw [List.mem_singleton.mp hd]
          exact isdigit_digit hmod
      · rw [digitsValue_snoc, hvalue, digit_toNat hmod]
        omega

theorem isdigit_of_mem_decimal {n : Nat} {d : Byte} (h : d ∈ decimal n) : isdigit d = true :=
  (decimalAux_spec (Nat.lt_succ_self n)).1 d h

@[simp] theorem digitsValue_decimal (n : Nat) : digitsValue (decimal n) = n :=
  (decimalAux_spec (Nat.lt_succ_self n)).2.1

theorem decimal_ne_nil (n : Nat) : decimal n ≠ [] := (decimalAux_spec (Nat.lt_succ_self n)).2.2

theorem decimalAux_length {fuel n : Nat} (h : n < fuel) :
    (decimalAux fuel n).length = Nat.log 10 n + 1 := by
  induction fuel generalizing n with
  | zero => omega
  | succ fuel ih =>
    rw [decimalAux]
    split
    next hlt => rw [Nat.log_of_lt hlt, List.length_singleton]
    next hge =>
      have hlog := Nat.log_of_one_lt_of_le (b := 10) (n := n) (by omega) (by omega)
      rw [List.length_append, ih (by omega), hlog, List.length_singleton]

/-- A smaller number has no more digits. -/
theorem decimal_length_le {m n : Nat} (h : m ≤ n) : (decimal m).length ≤ (decimal n).length := by
  rw [decimal, decimal, decimalAux_length (Nat.lt_succ_self m), decimalAux_length (Nat.lt_succ_self n)]
  exact Nat.succ_le_succ (Nat.log_mono_right h)

/-- No digit is a sign or a carriage return. -/
theorem ne_of_isdigit {d c : Byte} (h : isdigit d = true) (hc : c.toNat < 48) : d ≠ c := by
  rintro rfl
  simp only [isdigit, Bool.and_eq_true, decide_eq_true_eq, UInt8.le_iff_toNat_le] at h
  have : (48 : Byte).toNat = 48 := rfl
  omega

theorem takeWhile_digits {ds : Bytes} (h : ∀ d ∈ ds, isdigit d = true) (rest : Bytes) :
    (ds ++ 13 :: rest).takeWhile (· ≠ 13) = ds := by
  induction ds with
  | nil => rfl
  | cons d ds ih =>
    have hd : d ≠ 13 := ne_of_isdigit (h d (by simp)) (by decide)
    have := ih fun x hx => h x (by simp [hx])
    simpa [hd] using this

theorem readLongLong_decimal (n : Nat) (rest : Bytes) :
    readLongLong (decimal n ++ 13 :: rest) = (n : Int).bmod (2 ^ 64) := by
  have hdigits : ∀ d ∈ decimal n, isdigit d = true := fun d => isdigit_of_mem_decimal
  have hall : (decimal n).all isdigit = true := List.all_eq_true.mpr hdigits
  cases hdec : decimal n with
  | nil => exact absurd hdec (decimal_ne_nil n)
  | cons d ds =>
    have h45 : d ≠ 45 := ne_of_isdigit (hdigits d (by simp [hdec])) (by decide)
    have h43 : d ≠ 43 := ne_of_isdigit (hdigits d (by simp [hdec])) (by decide)
    have htake := takeWhile_digits hdigits rest
    have hvalue := digitsValue_decimal n
    rw [hdec] at htake hall hvalue
    unfold readLongLong
    split
    rename_i mult s heq
    split at heq
    · rename_i h; simp only [List.cons_append, List.cons.injEq] at h; exact absurd h.1 h45
    · rename_i h; simp only [List.cons_append, List.cons.injEq] at h; exact absurd h.1 h43
    · cases heq
      simp only [htake, hall, if_true, hvalue, Int.one_mul]

theorem readLongLong_neg (n : Nat) (rest : Bytes) :
    readLongLong (45 :: decimal n ++ 13 :: rest) = (-(n : Int)).bmod (2 ^ 64) := by
  have hdigits : ∀ d ∈ decimal n, isdigit d = true := fun d => isdigit_of_mem_decimal
  have hall : (decimal n).all isdigit = true := List.all_eq_true.mpr hdigits
  simp only [readLongLong, List.cons_append, takeWhile_digits hdigits, hall, if_true,
    digitsValue_decimal, Int.neg_mul, Int.one_mul]

/-- A 64-bit number is read as it is written. -/
theorem readLongLong_decimalInt {n : Int} (hlo : -2 ^ 63 ≤ n) (hhi : n < 2 ^ 63) (rest : Bytes) :
    readLongLong (decimalInt n ++ 13 :: rest) = n := by
  have hmod : n.bmod (2 ^ 64) = n := by
    apply Int.bmod_eq_of_le <;> omega
  unfold decimalInt
  split
  · rw [readLongLong_neg, show -(n.natAbs : Int) = n by omega, hmod]
  · rw [readLongLong_decimal, show (n.natAbs : Int) = n by omega, hmod]

theorem readLongLong_length {n : Nat} (h : n < 2 ^ 63) (rest : Bytes) :
    readLongLong (decimal n ++ 13 :: rest) = n := by
  rw [readLongLong_decimal]
  apply Int.bmod_eq_of_le <;> omega

/-! ## Lines -/

/-- A line ends at the first carriage return it does not contain. -/
theorem seekNewline_line {line : Bytes} (h : (13 : Byte) ∉ line) (rest : Bytes) :
    seekNewline (line ++ 13 :: 10 :: rest) = some line.length := by
  induction line with
  | nil => rfl
  | cons a line ih =>
    have ha : a ≠ 13 := fun ha => h (by simp [ha])
    have hline := ih fun hmem => h (by simp [hmem])
    cases line with
    | nil => simp [seekNewline, ha]
    | cons b line =>
      simp only [List.cons_append, List.length_cons] at hline ⊢
      rw [seekNewline, if_neg (by simp [ha]), hline]
      rfl

theorem not_mem_decimal (n : Nat) : (13 : Byte) ∉ decimal n := fun h =>
  absurd (isdigit_of_mem_decimal h) (by decide)

theorem not_mem_decimalInt (n : Int) : (13 : Byte) ∉ decimalInt n := by
  unfold decimalInt
  split
  · intro h
    rcases List.mem_cons.mp h with h | h
    · exact absurd h (by decide)
    · exact not_mem_decimal _ h
  · exact not_mem_decimal _

/-! ## Replies -/

/-- A reply as a server writes it. -/
inductive Resp where
  | status (line : Bytes)
  | error (line : Bytes)
  | integer (n : Int)
  | bulk (s : Bytes)
  | nullBulk
  | nullArray
  | array (elements : List Resp)

namespace Resp

mutual
def encode : Resp → Bytes
  | status line => 43 :: line ++ crlf
  | error line => 45 :: line ++ crlf
  | integer n => 58 :: decimalInt n ++ crlf
  | bulk s => 36 :: decimal s.length ++ crlf ++ s ++ crlf
  | nullBulk => 36 :: decimalInt (-1) ++ crlf
  | nullArray => 42 :: decimalInt (-1) ++ crlf
  | array elements => 42 :: decimal elements.length ++ crlf ++ encodeAll elements

def encodeAll : List Resp → Bytes
  | [] => []
  | m :: ms => m.encode ++ encodeAll ms
end

mutual
/-- The reply object the reader builds. -/
def toReply : Resp → Reply
  | status line => .status line
  | error line => .error line
  | integer n => .integer n
  | bulk s => .string s
  | nullBulk => .nil
  | nullArray => .nil
  | array elements => .array (toReplies elements)

def toReplies : List Resp → List Reply
  | [] => []
  | m :: ms => m.toReply :: toReplies ms
end

mutual
/-- A reply inside `depth` arrays that the protocol and the reader admit: lines
    without a carriage return, 64-bit numbers, counts that are an `int`, at most eight nested
    arrays. -/
def WellFormed (depth : Nat) : Resp → Prop
  | status line => (13 : Byte) ∉ line
  | error line => (13 : Byte) ∉ line
  | integer n => -2 ^ 63 ≤ n ∧ n < 2 ^ 63
  | bulk s => s.length < 2 ^ 63
  | nullBulk => True
  | nullArray => depth < 8
  | array elements => depth < 8 ∧ elements.length < 2 ^ 31 ∧ AllWellFormed (depth + 1) elements

def AllWellFormed (depth : Nat) : List Resp → Prop
  | [] => True
  | m :: ms => m.WellFormed depth ∧ AllWellFormed depth ms
end

theorem toReplies_eq_map (ms : List Resp) : toReplies ms = ms.map toReply := by
  induction ms with
  | nil => rfl
  | cons m ms ih => rw [toReplies, List.map_cons, ih]

theorem encodeAll_append (ms ms' : List Resp) :
    encodeAll (ms ++ ms') = encodeAll ms ++ encodeAll ms' := by
  induction ms with
  | nil => rfl
  | cons m ms ih => simp only [List.cons_append, encodeAll, ih, List.append_assoc]

/-! ## Decoding what was encoded -/

/-- From `stack` the decoder gets over `xs` to `stack'`, with the messages `outs`. -/
def Passes (stack : List ReadTask) (xs : Bytes) (outs : List Reply) (stack' : List ReadTask) :
    Prop :=
  ∀ rest os e, Decodes item stack' rest os e → Decodes item stack (xs ++ rest) (outs ++ os) e

theorem Passes.of_next {stack stack' : List ReadTask} {xs : Bytes} {o : Option Reply}
    (h : ∀ rest, item stack (xs ++ rest) = .next stack' rest o) :
    Passes stack xs o.toList stack' := fun rest _ _ hrest => .next (h rest) hrest

theorem Passes.trans {s₁ s₂ s₃ : List ReadTask} {xs ys : Bytes} {os os' : List Reply}
    (h : Passes s₁ xs os s₂) (h' : Passes s₂ ys os' s₃) : Passes s₁ (xs ++ ys) (os ++ os') s₃ := by
  intro rest out e hrest
  rw [List.append_assoc, List.append_assoc]
  exact h _ _ _ (h' _ _ _ hrest)

/-- An item whose first line is there. -/
theorem item_line {cur : ReadTask} {tasks : List ReadTask} {c : Byte} {type : ReplyType}
    {line : Bytes} (hcur : cur.type = none) (hc : typeOfByte c = some type)
    (hdeep : ¬(type = .array ∧ tasks.length = 8)) (hline : (13 : Byte) ∉ line) (rest : Bytes) :
    item (cur :: tasks) (c :: line ++ crlf ++ rest) =
      lineItem { cur with type := some type } tasks type line
        (readLongLong (line ++ 13 :: 10 :: rest)) rest
        (.more ({ cur with type := some type } :: tasks) (line ++ 13 :: 10 :: rest)) := by
  have hxs : line ++ crlf ++ rest = line ++ 13 :: 10 :: rest := by simp [crlf]
  have hdrop : (line ++ 13 :: 10 :: rest).drop (line.length + 2) = rest := by
    rw [show line ++ 13 :: 10 :: rest = (line ++ crlf) ++ rest by simp [crlf]]
    exact List.drop_left' (by simp [crlf])
  have htake : (line ++ 13 :: 10 :: rest).take line.length = line := List.take_left' rfl
  simp only [item, hcur, List.cons_append, hc, hxs, typedItem, if_neg hdeep, seekNewline_line hline,
    hdrop, htake]

/-- Only the place of a task in its array matters once its item is complete. -/
theorem afterItem_congr {cur cur' : ReadTask} (hidx : cur'.idx = cur.idx) (hobj : cur'.obj = cur.obj)
    (tasks : List ReadTask) (obj : Reply) : afterItem cur' tasks obj = afterItem cur tasks obj := by
  cases tasks with
  | nil => rfl
  | cons prv rest => simp only [afterItem, moveToNextTask, hidx, hobj]

/-- An item that completes its task at once. -/
theorem passes_of_finish {cur : ReadTask} {tasks : List ReadTask} {xs : Bytes} {obj : Reply}
    (type : ReplyType) (hvector : noVector tasks = false)
    (h : ∀ rest, item (cur :: tasks) (xs ++ rest) =
      finishItem { cur with type := some type } tasks obj rest) :
    ∃ elements, Passes (cur :: tasks) xs (afterItem { cur with obj := elements } tasks obj).2.toList
      (afterItem { cur with obj := elements } tasks obj).1 := by
  have hcongr : afterItem { cur with type := some type } tasks obj = afterItem cur tasks obj :=
    by apply afterItem_congr <;> rfl
  refine ⟨cur.obj, .of_next fun rest => (h rest).trans ?_⟩
  rw [finishItem, if_neg (by simp [hvector]), hcongr]

/-- An open array with elements to come has a vector for them. -/
theorem noVector_of_pos {prv : ReadTask} {tasks : List ReadTask} (h : 0 < prv.elements) :
    noVector (prv :: tasks) = false := by
  simpa [noVector] using h

mutual
/-- **An encoded item passes.**  It completes its task, which may keep the elements of
    an array that is closed. -/
theorem passes_encode : (m : Resp) → {cur : ReadTask} → {tasks : List ReadTask} →
    cur.type = none → noVector tasks = false → m.WellFormed tasks.length →
    ∃ elements, Passes (cur :: tasks) m.encode
      (afterItem { cur with obj := elements } tasks m.toReply).2.toList
      (afterItem { cur with obj := elements } tasks m.toReply).1
  | status line, cur, tasks, hcur, hvector, hwf => by
    refine passes_of_finish .status hvector fun rest => ?_
    rw [encode, item_line hcur (rfl : typeOfByte 43 = some .status) (by simp) hwf]
    rfl
  | error line, cur, tasks, hcur, hvector, hwf => by
    refine passes_of_finish .error hvector fun rest => ?_
    rw [encode, item_line hcur (rfl : typeOfByte 45 = some .error) (by simp) hwf]
    rfl
  | integer n, cur, tasks, hcur, hvector, hwf => by
    refine passes_of_finish .integer hvector fun rest => ?_
    rw [encode, item_line hcur (rfl : typeOfByte 58 = some .integer) (by simp) (not_mem_decimalInt n),
      readLongLong_decimalInt hwf.1 hwf.2]
    rfl
  | bulk s, cur, tasks, hcur, hvector, hwf => by
    refine passes_of_finish .string hvector fun rest => ?_
    have hxs : (bulk s).encode ++ rest = 36 :: decimal s.length ++ crlf ++ (s ++ crlf ++ rest) := by
      simp [encode]
    have hlen : (s.length : Int).toNat + 2 ≤ (s ++ crlf ++ rest).length := by
      simp [crlf]
    rw [hxs, item_line hcur (rfl : typeOfByte 36 = some .string) (by simp) (not_mem_decimal _),
      readLongLong_length hwf]
    simp only [lineItem, if_neg (show ¬(s.length : Int) < 0 by omega)]
    rw [if_pos hlen, Int.toNat_natCast, List.append_assoc, List.take_left' rfl, ← List.append_assoc,
      List.drop_left' (by simp [crlf])]
    rfl
  | nullBulk, cur, tasks, hcur, hvector, _ => by
    refine passes_of_finish .string hvector fun rest => ?_
    rw [encode, item_line hcur (rfl : typeOfByte 36 = some .string) (by simp) (not_mem_decimalInt _),
      readLongLong_decimalInt (by omega) (by omega)]
    rfl
  | nullArray, cur, tasks, hcur, hvector, hwf => by
    have hdepth : tasks.length < 8 := hwf
    refine passes_of_finish .array hvector fun rest => ?_
    rw [encode, item_line hcur (rfl : typeOfByte 42 = some .array) (by omega) (not_mem_decimalInt _),
      readLongLong_decimalInt (by omega) (by omega)]
    rfl
  | array [], cur, tasks, hcur, hvector, hwf => by
    have hdepth : tasks.length < 8 := hwf.1
    refine passes_of_finish .array hvector fun rest => ?_
    rw [encode, encodeAll, List.append_nil, item_line hcur (rfl : typeOfByte 42 = some .array) (by omega)
      (not_mem_decimal _), readLongLong_length (by decide)]
    rfl
  | array (m :: ms), cur, tasks, hcur, hvector, hwf => by
    have hdepth : tasks.length < 8 := hwf.1
    have hcount : (m :: ms).length < 2 ^ 31 := hwf.2.1
    have hint : toInt32 (m :: ms).length = (m :: ms).length := toInt32_eq hcount
    let prv : ReadTask :=
      { cur with type := some .array, elements := (m :: ms).length, obj := [] }
    -- the header opens the array
    have hopen : Passes (cur :: tasks) (42 :: decimal (m :: ms).length ++ crlf) []
        (.first :: prv :: tasks) := by
      refine Passes.of_next (o := none) fun rest => ?_
      rw [item_line hcur (rfl : typeOfByte 42 = some .array) (by omega) (not_mem_decimal _),
        readLongLong_length (by omega)]
      simp only [lineItem, hint]
      rw [if_neg (by omega), if_pos (by simp), if_neg (by simp [hvector])]
    have helements : Passes (.first :: prv :: tasks) (encodeAll (m :: ms)) _ _ :=
      passes_encodeAll (m :: ms) (by simp) rfl (Int.le_refl 0) (by simp [prv, ReadTask.first])
        hwf.2.2
    have hclose : afterItem { prv with obj := toReplies (m :: ms) } tasks
        (.array (toReplies (m :: ms))) =
        afterItem { cur with obj := toReplies (m :: ms) } tasks (.array (toReplies (m :: ms))) :=
      by apply afterItem_congr <;> rfl
    refine ⟨toReplies (m :: ms), ?_⟩
    rw [encode, toReply, ← hclose]
    exact hopen.trans helements

/-- The elements of an array pass and complete the array. -/
theorem passes_encodeAll : (ms : List Resp) → {cur prv : ReadTask} → {tasks : List ReadTask} →
    ms ≠ [] → cur.type = none → 0 ≤ cur.idx → prv.elements = cur.idx + ms.length →
    AllWellFormed (tasks.length + 1) ms →
    Passes (cur :: prv :: tasks) (encodeAll ms)
      (afterItem { prv with obj := prv.obj ++ toReplies ms } tasks
        (.array (prv.obj ++ toReplies ms))).2.toList
      (afterItem { prv with obj := prv.obj ++ toReplies ms } tasks
        (.array (prv.obj ++ toReplies ms))).1
  | [], _, _, _, hms, _, _, _, _ => absurd rfl hms
  | [m], cur, prv, tasks, _, hcur, hidx, hlen, hwf => by
    have hvector : noVector (prv :: tasks) = false := noVector_of_pos (by simp at hlen; omega)
    obtain ⟨elements, hm⟩ : ∃ elements, Passes (cur :: prv :: tasks) m.encode
        (afterItem { cur with obj := elements } (prv :: tasks) m.toReply).2.toList
        (afterItem { cur with obj := elements } (prv :: tasks) m.toReply).1 :=
      passes_encode m hcur hvector hwf.1
    have hlast : cur.idx = prv.elements - 1 := by simp at hlen; omega
    simp only [afterItem, moveToNextTask, if_pos hlast] at hm
    simpa only [encodeAll, toReplies, List.append_nil, afterItem] using hm
  | m :: m' :: ms, cur, prv, tasks, _, hcur, hidx, hlen, hwf => by
    have hvector : noVector (prv :: tasks) = false := noVector_of_pos (by simp at hlen; omega)
    obtain ⟨elements, hm⟩ : ∃ elements, Passes (cur :: prv :: tasks) m.encode
        (afterItem { cur with obj := elements } (prv :: tasks) m.toReply).2.toList
        (afterItem { cur with obj := elements } (prv :: tasks) m.toReply).1 :=
      passes_encode m hcur hvector hwf.1
    have hnext : ¬cur.idx = prv.elements - 1 := by simp at hlen; omega
    simp only [afterItem, moveToNextTask, if_neg hnext] at hm
    -- the next element has a task of its own
    have hms : Passes
        ({ cur with type := none, elements := -1, idx := cur.idx + 1, obj := elements } ::
          { prv with obj := prv.obj ++ [m.toReply] } :: tasks) (encodeAll (m' :: ms)) _ _ :=
      passes_encodeAll (m' :: ms) (by simp) rfl (by simp; omega) (by simp at hlen ⊢; omega) hwf.2
    have hall := hm.trans hms
    simp only [List.append_assoc, List.singleton_append] at hall
    rw [encodeAll, toReplies]
    exact hall
end

/-- **Round trip.**  What a server writes is decoded into what it meant. -/
theorem decodes_encodeAll {ms : List Resp} (hwf : AllWellFormed 0 ms) :
    Decodes item idle (encodeAll ms) (toReplies ms) (.blocked idle []) := by
  induction ms with
  | nil => exact .more item_idle
  | cons m ms ih =>
    obtain ⟨elements, hm⟩ : ∃ elements, Passes [.root] m.encode
        (afterItem { ReadTask.root with obj := elements } [] m.toReply).2.toList
        (afterItem { ReadTask.root with obj := elements } [] m.toReply).1 :=
      passes_encode m rfl rfl hwf.1
    exact hm _ _ _ (ih hwf.2)

end Resp

end CrazySnail
