import CrazySnail.Reader
import CrazySnail.Library.Decoder

/-! # The reader is an interruptible decoder

`item` reads one item off a byte sequence.  It sees the tasks and the bytes that are
left, but neither the buffer nor the cursor, and it is lawful in the sense of the
decoder library.  `redisReaderGetReply_spec` says that the reader computes what this
decoder computes on its tasks and its unread bytes.
-/

namespace CrazySnail

open Decoder (Outcome Ending Decodes Fetches Passes Lawful)

/-! ## Lines -/

theorem seekNewline_le {xs : Bytes} {n : Nat} (h : seekNewline xs = some n) :
    n + 2 ≤ xs.length := by
  induction xs generalizing n with
  | nil => cases h
  | cons a xs ih =>
    cases xs with
    | nil => cases h
    | cons b rest =>
      rw [seekNewline] at h
      split at h
      · cases h; simp
      · obtain ⟨m, hm, rfl⟩ := Option.map_eq_some_iff.mp h
        have := ih hm
        simp only [List.length_cons] at this ⊢
        omega

theorem seekNewline_append {xs : Bytes} {n : Nat} (ys : Bytes) (h : seekNewline xs = some n) :
    seekNewline (xs ++ ys) = some n := by
  induction xs generalizing n with
  | nil => cases h
  | cons a xs ih =>
    cases xs with
    | nil => cases h
    | cons b rest =>
      rw [seekNewline] at h
      rw [List.cons_append, List.cons_append, seekNewline]
      split at h
      · rw [if_pos (by assumption)]; exact h
      · obtain ⟨m, hm, rfl⟩ := Option.map_eq_some_iff.mp h
        have hm' := ih hm
        rw [List.cons_append] at hm'
        rw [if_neg (by assumption), hm']
        rfl

/-- A line that is found ends in a carriage return. -/
theorem mem_of_seekNewline {xs : Bytes} {n : Nat} (h : seekNewline xs = some n) :
    (13 : Byte) ∈ xs := by
  induction xs generalizing n with
  | nil => cases h
  | cons a xs ih =>
    cases xs with
    | nil => cases h
    | cons b rest =>
      rw [seekNewline] at h
      split at h
      next hab => simp [hab.1]
      next =>
        obtain ⟨m, hm, -⟩ := Option.map_eq_some_iff.mp h
        exact List.mem_cons_of_mem _ (ih hm)

theorem takeWhile_append_of_mem {xs : Bytes} (ys : Bytes) (h : (13 : Byte) ∈ xs) :
    (xs ++ ys).takeWhile (· ≠ 13) = xs.takeWhile (· ≠ 13) := by
  induction xs with
  | nil => cases h
  | cons a xs ih =>
    by_cases ha : a = 13
    · simp [ha]
    · have hmem : (13 : Byte) ∈ xs := by
        rcases List.mem_cons.mp h with h | h
        · exact absurd h.symm ha
        · exact h
      simpa [ha] using ih hmem

/-- A number is read off its own line. -/
theorem readLongLong_append {xs : Bytes} (ys : Bytes) (h : (13 : Byte) ∈ xs) :
    readLongLong (xs ++ ys) = readLongLong xs := by
  cases xs with
  | nil => cases h
  | cons a xs =>
    have htail : a ≠ 13 → (13 : Byte) ∈ xs := fun ha =>
      (List.mem_cons.mp h).resolve_left fun h => ha h.symm
    by_cases h45 : a = 45
    · subst h45
      simp only [readLongLong, List.cons_append, takeWhile_append_of_mem ys (htail (by decide))]
    · by_cases h43 : a = 43
      · subst h43
        simp only [readLongLong, List.cons_append, takeWhile_append_of_mem ys (htail (by decide))]
      · have hmatch : ∀ zs : Bytes, readLongLong (a :: zs) =
            (let ds := (a :: zs).takeWhile (· ≠ 13)
             if ds.all isdigit then ((1 : Int) * digitsValue ds).bmod (2 ^ 64) else -1) := by
          intro zs
          unfold readLongLong
          split
          rename_i mult s heq
          split at heq
          · rename_i h; simp only [List.cons.injEq] at h; exact absurd h.1 h45
          · rename_i h; simp only [List.cons.injEq] at h; exact absurd h.1 h43
          · cases heq; rfl
        rw [List.cons_append, hmatch, hmatch, ← List.cons_append, takeWhile_append_of_mem ys h]

/-! ## The decoder -/

abbrev Item := Outcome (List ReadTask) Byte Reply Bytes

/-- The tasks after the item of the innermost task, with the reply if that was the root. -/
def afterItem (cur : ReadTask) (tasks : List ReadTask) (obj : Reply) :
    List ReadTask × Option Reply :=
  match moveToNextTask cur tasks obj with
  | ([], reply) => ([.root], reply)
  | (stack, reply) => (stack, reply)

/-- The item of the innermost task is complete. -/
def finishItem (cur : ReadTask) (tasks : List ReadTask) (obj : Reply) (rest : Bytes) : Item :=
  if noVector tasks then .fail []
  else .next (afterItem cur tasks obj).1 rest (afterItem cur tasks obj).2

def tooDeep : Bytes := ascii "No support for nested multi bulk replies with depth > 7"

/-- The message for a byte that announces no item. -/
def badTypeByte (c : Byte) : Bytes :=
  ascii "Protocol error, got " ++ (chrtos c).take 7 ++ ascii " as reply type byte"

/-- An item whose first line is complete: the line, the number on it and the bytes
    behind it.  A bulk that is not all there is tried `again` later. -/
def lineItem (cur : ReadTask) (tasks : List ReadTask) (type : ReplyType) (line : Bytes)
    (number : Int) (rest : Bytes) (again : Item) : Item :=
  match type with
  | .integer => finishItem cur tasks (.integer number) rest
  | .error => finishItem cur tasks (.error line) rest
  | .status => finishItem cur tasks (.status line) rest
  | .string =>
    if number < 0 then finishItem cur tasks .nil rest
    else if number.toNat + 2 ≤ rest.length then
      finishItem cur tasks (.string (rest.take number.toNat)) (rest.drop (number.toNat + 2))
    else again
  | .array =>
    if number = -1 then finishItem cur tasks .nil rest
    else if 0 < number then
      if noVector tasks then .fail []
      else .next (.first :: { cur with elements := toInt32 number, obj := [] } :: tasks) rest none
    else finishItem cur tasks (if toInt32 number = 0 then .array [] else .badArray (toInt32 number)) rest

/-- An item of a known type. -/
def typedItem (cur : ReadTask) (tasks : List ReadTask) (type : ReplyType) (xs : Bytes) : Item :=
  if type = .array ∧ tasks.length = 8 then .fail (tooDeep.take 127)
  else
    match seekNewline xs with
    | none => .more (cur :: tasks) xs
    | some n =>
      lineItem cur tasks type (xs.take n) (readLongLong xs) (xs.drop (n + 2))
        (.more (cur :: tasks) xs)

/-- One item. -/
def item (stack : List ReadTask) (xs : Bytes) : Item :=
  match stack with
  | [] => .more [] xs
  | cur :: tasks =>
    match cur.type with
    | some type => typedItem cur tasks type xs
    | none =>
      match xs with
      | [] => .more (cur :: tasks) []
      | c :: rest =>
        match typeOfByte c with
        | none => .fail ((badTypeByte c).take 127)
        | some type => typedItem { cur with type := some type } tasks type rest

/-- The stack that a reader without a task starts with. -/
abbrev idle : List ReadTask := [.root]

theorem item_idle : item idle [] = .more idle [] := rfl

/-! ## Its laws -/

/-- The attempt `j` on a longer sequence continues the attempt `i`, which left fewer
    than `n` bytes over if it completed its item. -/
def Continues (n : Nat) (ys : Bytes) (i j : Item) : Prop :=
  match i with
  | .more s rest => j = item s (rest ++ ys)
  | .next s rest out => j = .next s (rest ++ ys) out ∧ rest.length < n
  | .fail e => j = .fail e

theorem Continues.mono {m n : Nat} {ys : Bytes} {i j : Item} (h : Continues m ys i j)
    (hmn : m ≤ n) : Continues n ys i j := by
  cases i with
  | more s rest => exact h
  | next s rest out => exact ⟨h.1, Nat.lt_of_lt_of_le h.2 hmn⟩
  | fail e => exact h

theorem finishItem_continues {n : Nat} {rest : Bytes} (cur : ReadTask) (tasks : List ReadTask)
    (obj : Reply) (ys : Bytes) (h : rest.length < n) :
    Continues n ys (finishItem cur tasks obj rest) (finishItem cur tasks obj (rest ++ ys)) := by
  unfold finishItem
  split
  · rfl
  · exact ⟨rfl, h⟩

theorem typedItem_continues {cur : ReadTask} {tasks : List ReadTask} {type : ReplyType}
    (ht : cur.type = some type) (xs ys : Bytes) :
    Continues xs.length ys (typedItem cur tasks type xs) (typedItem cur tasks type (xs ++ ys)) := by
  have hmore : Continues xs.length ys (.more (cur :: tasks) xs)
      (typedItem cur tasks type (xs ++ ys)) := by simp only [Continues, item, ht]
  by_cases hdeep : type = .array ∧ tasks.length = 8
  · simp only [typedItem, if_pos hdeep, Continues]
  cases hn : seekNewline xs with
  | none =>
    rw [typedItem, if_neg hdeep, hn]
    exact hmore
  | some n =>
    have hle := seekNewline_le hn
    have hdrop : (xs ++ ys).drop (n + 2) = xs.drop (n + 2) ++ ys := by
      rw [List.drop_append_of_le_length hle]
    have htake : (xs ++ ys).take n = xs.take n := List.take_append_of_le_length (by omega)
    have hlen : (xs.drop (n + 2)).length < xs.length := by rw [List.length_drop]; omega
    -- the line and its number are the same in the longer sequence
    simp only [typedItem, if_neg hdeep, hn, seekNewline_append ys hn, hdrop, htake,
      readLongLong_append ys (mem_of_seekNewline hn)] at hmore ⊢
    generalize xs.drop (n + 2) = rest at hlen hmore ⊢
    generalize readLongLong xs = number at hmore ⊢
    unfold lineItem at hmore ⊢
    cases type with
    | integer => exact finishItem_continues _ _ _ _ hlen
    | error => exact finishItem_continues _ _ _ _ hlen
    | status => exact finishItem_continues _ _ _ _ hlen
    | string =>
      by_cases hneg : number < 0
      · simp only [if_pos hneg]
        exact finishItem_continues _ _ _ _ hlen
      · by_cases hbulk : number.toNat + 2 ≤ rest.length
        · have hbulk' : number.toNat + 2 ≤ (rest ++ ys).length := by
            rw [List.length_append]; omega
          simp only [if_neg hneg, if_pos hbulk, if_pos hbulk',
            List.take_append_of_le_length (show number.toNat ≤ rest.length by omega),
            List.drop_append_of_le_length hbulk]
          refine finishItem_continues _ _ _ _ ?_
          rw [List.length_drop]
          omega
        · simp only [if_neg hneg, if_neg hbulk] at hmore ⊢
          exact hmore
    | array =>
      by_cases hnil : number = -1
      · simp only [if_pos hnil]
        exact finishItem_continues _ _ _ _ hlen
      · by_cases hpos : 0 < number
        · simp only [if_neg hnil, if_pos hpos]
          split
          · rfl
          · exact ⟨rfl, hlen⟩
        · simp only [if_neg hnil, if_neg hpos]
          exact finishItem_continues _ _ _ _ hlen

theorem item_continues (stack : List ReadTask) (xs ys : Bytes) :
    Continues xs.length ys (item stack xs) (item stack (xs ++ ys)) := by
  cases stack with
  | nil => rfl
  | cons cur tasks =>
    cases ht : cur.type with
    | some type =>
      simp only [item, ht]
      exact typedItem_continues ht xs ys
    | none =>
      cases xs with
      | nil => simp only [item, ht, Continues, List.nil_append]
      | cons c rest =>
        simp only [item, ht, List.cons_append]
        cases typeOfByte c with
        | none => rfl
        | some type =>
          -- the type byte is used up even if the item is not complete
          exact (typedItem_continues rfl rest ys).mono (Nat.le_succ _)

/-- **The laws of the decoder.** -/
theorem item_lawful : Lawful item where
  more_append := by
    intro stack xs s rest ys h
    have hc := item_continues stack xs ys
    rwa [h] at hc
  next_append := by
    intro stack xs s rest out ys h
    have hc := item_continues stack xs ys
    rw [h] at hc
    exact hc.1
  fail_append := by
    intro stack xs e ys h
    have hc := item_continues stack xs ys
    rwa [h] at hc
  next_shrinks := by
    intro stack xs s rest out h
    have hc := item_continues stack xs []
    rw [h] at hc
    exact hc.2

/-! ## Items of the reader -/

namespace RedisReader

/-- The tasks a reader goes on with. -/
def tasks (r : RedisReader) : List ReadTask := if r.rstack = [] then idle else r.rstack

/-- The cursor is inside the buffer, and no array is open that would be too deep. -/
structure Valid (r : RedisReader) : Prop where
  pos_le : r.pos ≤ r.buf.length
  depth : ∀ cur tasks, r.rstack = cur :: tasks →
    ¬(cur.type = some .array ∧ tasks.length = 8)

theorem create_valid : create.Valid := ⟨Nat.le_refl _, by simp [create]⟩

@[simp] theorem unread_length (r : RedisReader) : r.unread.length = r.buf.length - r.pos := by
  simp [unread]

@[simp] theorem advance_unread (r : RedisReader) (n : Nat) :
    (r.advance n).unread = r.unread.drop n := by
  simp [advance, unread]

end RedisReader

/-- What a call that read one item did: the item `i`, as far as it got. -/
def Reads (r : RedisReader) (result : RedisReader × Status) (i : Item) : Prop :=
  let r' := result.1
  match i with
  | .more stack rest =>
      result.2 = .err ∧ r'.rstack = stack ∧ r'.unread = rest ∧ r'.err = r.err ∧ r'.Valid
  | .next stack rest out =>
      result.2 = .ok ∧ r'.tasks = stack ∧ r'.unread = rest ∧ r'.err = r.err ∧ r'.Valid ∧
        match out with
        | some reply => r'.rstack = [] ∧ r'.reply = some reply
        | none => r'.rstack ≠ []
  | .fail e => result.2 = .err ∧ r'.err ≠ 0 ∧ r'.errstr = e ∧ (r'.err = NULL_STORE ↔ e = [])

/-- The stack is empty exactly when the reply is there, and the task on top of it
    has no type yet. -/
theorem moveToNextTask_cases (cur : ReadTask) (tasks : List ReadTask) (obj : Reply) :
    (∃ reply, moveToNextTask cur tasks obj = ([], some reply)) ∨
      ∃ top rest, moveToNextTask cur tasks obj = (top :: rest, none) ∧ top.type = none := by
  induction tasks generalizing cur obj with
  | nil => exact .inl ⟨obj, rfl⟩
  | cons prv rest ih =>
    rw [moveToNextTask]
    split
    · exact ih _ _
    · exact .inr ⟨_, _, rfl, rfl⟩

/-- What ends the program counts as a failure of the reader. -/
theorem storeNull_reads (r r₀ : RedisReader) : Reads r₀ (storeNull r, .err) (.fail []) :=
  ⟨rfl, by simp [storeNull, setError, NULL_STORE], rfl, by simp [storeNull, setError]⟩

/-- An error of the protocol has a text. -/
theorem setError_reads (r r₀ : RedisReader) {str : Bytes} (hstr : str ≠ []) :
    Reads r₀ (setError r REDIS_ERR_PROTOCOL str, .err) (.fail (str.take 127)) := by
  refine ⟨rfl, by simp [setError, REDIS_ERR_PROTOCOL], rfl, ?_⟩
  have htext : str.take 127 ≠ [] := by simpa using hstr
  simp [setError, REDIS_ERR_PROTOCOL, NULL_STORE, htext]

theorem complete_reads {r r₀ : RedisReader} {cur : ReadTask} {tasks : List ReadTask}
    (hs : r.rstack = cur :: tasks) (hp : r.pos ≤ r.buf.length) (he : r.err = r₀.err)
    (obj : Reply) : Reads r₀ (complete r obj) (finishItem cur tasks obj r.unread) := by
  simp only [complete, hs, finishItem]
  split
  · exact storeNull_reads r r₀
  simp only [afterItem]
  rcases moveToNextTask_cases cur tasks obj with ⟨reply, h⟩ | ⟨top, rest, h, htop⟩
  · simp only [h]
    exact ⟨rfl, rfl, rfl, he, ⟨hp, by simp⟩, rfl, rfl⟩
  · simp only [h]
    refine ⟨rfl, rfl, rfl, he, ⟨hp, ?_⟩, by simp⟩
    intro cur' tasks' heq
    cases heq
    simp [htop]

theorem processTyped_reads {r r₀ : RedisReader} {cur : ReadTask} {tasks : List ReadTask}
    {type : ReplyType} (hs : r.rstack = cur :: tasks) (ht : cur.type = some type)
    (hp : r.pos ≤ r.buf.length) (he : r.err = r₀.err) :
    Reads r₀ (processTyped r type) (typedItem cur tasks type r.unread) := by
  -- an incomplete item leaves the reader where it is
  have hmore : ¬(type = .array ∧ tasks.length = 8) →
      Reads r₀ (r, .err) (.more (cur :: tasks) r.unread) := by
    intro hdeep
    refine ⟨rfl, hs, rfl, he, hp, ?_⟩
    intro cur' tasks' heq
    rw [hs] at heq
    cases heq
    rw [ht]
    simpa using hdeep
  -- a complete item of `n` bytes
  have hdone : ∀ n obj, n ≤ r.unread.length →
      Reads r₀ (complete (r.advance n) obj) (finishItem cur tasks obj (r.unread.drop n)) := by
    intro n obj hn
    rw [← RedisReader.advance_unread]
    refine complete_reads (r := r.advance n) hs ?_ he obj
    rw [RedisReader.unread_length] at hn
    simp only [RedisReader.advance]
    omega
  by_cases hdeep : type = .array ∧ tasks.length = 8
  · obtain ⟨rfl, hlen⟩ := hdeep
    simp only [processTyped, processMultiBulkItem, typedItem, hs, List.length_cons, hlen, if_true,
      and_self]
    exact setError_reads r r₀ (by simp [ascii])
  specialize hmore hdeep
  cases hn : seekNewline r.unread with
  | none =>
    have hlen : type = .array → r.rstack.length ≠ 9 := by
      intro harr hlen
      exact hdeep ⟨harr, by simpa [hs] using hlen⟩
    cases type <;>
      simp_all [processTyped, processLineItem, processBulkItem, processMultiBulkItem, readLine,
        typedItem]
  | some n =>
    have hle := seekNewline_le hn
    simp only [typedItem, if_neg hdeep, hn, lineItem]
    cases type with
    | integer =>
      simp only [processTyped, processLineItem, readLine, hn, Option.map_some]
      exact hdone _ _ hle
    | error =>
      simp only [processTyped, processLineItem, readLine, hn, Option.map_some]
      exact hdone _ _ hle
    | status =>
      simp only [processTyped, processLineItem, readLine, hn, Option.map_some]
      exact hdone _ _ hle
    | string =>
      simp only [processTyped, processBulkItem, hn]
      by_cases hneg : readLongLong r.unread < 0
      · simp only [if_pos hneg]
        exact hdone _ _ hle
      · simp only [if_neg hneg, List.length_drop, List.drop_drop]
        have hbytes : r.pos + (n + 2 + ((readLongLong r.unread).toNat + 2)) ≤ r.buf.length ↔
            (readLongLong r.unread).toNat + 2 ≤ r.unread.length - (n + 2) := by
          rw [RedisReader.unread_length] at hle ⊢
          omega
        by_cases hbulk : (readLongLong r.unread).toNat + 2 ≤ r.unread.length - (n + 2)
        · rw [if_pos (hbytes.mpr hbulk), if_pos hbulk]
          exact hdone _ _ (by omega)
        · rw [if_neg (fun h => hbulk (hbytes.mp h)), if_neg hbulk]
          exact hmore
    | array =>
      have hlen : r.rstack.length ≠ 9 := by
        intro hlen
        exact hdeep ⟨rfl, by simpa [hs] using hlen⟩
      simp only [processTyped, processMultiBulkItem, if_neg hlen, readLine, hn, Option.map_some]
      by_cases hnil : readLongLong r.unread = -1
      · simp only [if_pos hnil]
        exact hdone _ _ hle
      · by_cases hpos : 0 < readLongLong r.unread
        · simp only [if_neg hnil, if_pos hpos, RedisReader.advance, hs]
          split
          · exact storeNull_reads _ r₀
          refine ⟨rfl, rfl, ?_, he, ⟨?_, ?_⟩, by simp⟩
          · exact RedisReader.advance_unread r (n + 2)
          · rw [RedisReader.unread_length] at hle
            simp only
            omega
          · intro cur' tasks' heq
            cases heq
            simp [ReadTask.first]
        · simp only [if_neg hnil, if_neg hpos]
          exact hdone _ _ hle

/-- **One item.** -/
theorem processItem_reads {r : RedisReader} (hv : r.Valid) (hs : r.rstack ≠ []) :
    Reads r (processItem r) (item r.rstack r.unread) := by
  cases hstack : r.rstack with
  | nil => exact absurd hstack hs
  | cons cur tasks =>
    simp only [processItem, hstack, item]
    cases ht : cur.type with
    | some type => exact processTyped_reads hstack ht hv.pos_le rfl
    | none =>
      cases hu : r.unread with
      | nil => exact ⟨rfl, hstack, hu, rfl, hv⟩
      | cons c rest =>
        dsimp only
        cases typeOfByte c with
        | none =>
          exact setError_reads r r (by simp [ascii])
        | some type =>
          have hrest : rest = (r.advance 1).unread := by
            rw [RedisReader.advance_unread, hu]; rfl
          rw [hrest]
          refine processTyped_reads
            (r := { r.advance 1 with rstack := { cur with type := some type } :: tasks })
            rfl rfl ?_ rfl
          have hlen : 0 < r.unread.length := by rw [hu]; simp
          rw [RedisReader.unread_length] at hlen
          simp only [RedisReader.advance]
          omega

/-- An incomplete item keeps its task. -/
theorem ne_nil_of_more {stack stack' : List ReadTask} {xs rest : Bytes} (hs : stack ≠ [])
    (h : item stack xs = .more stack' rest) : stack' ≠ [] := by
  -- the task stays on the stack until its item is complete
  have htyped : ∀ {cur : ReadTask} {tasks : List ReadTask} {type : ReplyType} {ys : Bytes},
      typedItem cur tasks type ys = .more stack' rest → stack' ≠ [] := by
    intro cur tasks type ys h
    have hfinish : ∀ obj rest', finishItem cur tasks obj rest' ≠ .more stack' rest := by
      intro obj rest'
      unfold finishItem
      split <;> simp
    unfold typedItem at h
    split at h
    · cases h
    · split at h
      · cases h; simp
      · unfold lineItem at h
        cases type <;> simp only [hfinish] at h <;> grind
  cases stack with
  | nil => exact absurd rfl hs
  | cons cur tasks =>
    cases ht : cur.type with
    | some type =>
      simp only [item, ht] at h
      exact htyped h
    | none =>
      cases xs with
      | nil => simp only [item, ht] at h; cases h; simp
      | cons c rest =>
        simp only [item, ht] at h
        cases hc : typeOfByte c with
        | none => rw [hc] at h; cases h
        | some type => rw [hc] at h; exact htyped h

/-! ## Replies of the reader -/

/-- What `redisReaderGetReply` and its loop come to: an error, the next reply, or the
    end of the bytes. -/
def Fetched (stack : List ReadTask) (xs : Bytes) (r' : RedisReader) (reply : Option Reply) : Prop :=
  (r'.err ≠ 0 ∧ (r'.err = NULL_STORE ↔ r'.errstr = []) ∧ Fetches item stack xs (.fail r'.errstr)) ∨
    (r'.err = 0 ∧ r'.Valid ∧
      match reply with
      | some reply => Fetches item stack xs (.next r'.tasks r'.unread (some reply))
      | none => Fetches item stack xs (.more r'.tasks r'.unread))

theorem Fetched.of_next {stack stack' : List ReadTask} {xs rest : Bytes} {r' : RedisReader}
    {reply : Option Reply} (h : Fetched stack' rest r' reply)
    (hitem : item stack xs = .next stack' rest none) : Fetched stack xs r' reply := by
  rcases h with ⟨herr, hnull, hd⟩ | ⟨herr, hv, hd⟩
  · exact .inl ⟨herr, hnull, .next hitem hd⟩
  · refine .inr ⟨herr, hv, ?_⟩
    cases reply with
    | some reply => exact .next hitem hd
    | none => exact .next hitem hd

/-- The same, in terms of the whole sequence. -/
def Yields (stack : List ReadTask) (xs : Bytes) (r' : RedisReader) (reply : Option Reply) : Prop :=
  (r'.err ≠ 0 ∧ Decodes item stack xs [] (.failed r'.errstr)) ∨
    (r'.err = 0 ∧ r'.Valid ∧
      match reply with
      | some reply => ∀ os e, Decodes item r'.tasks r'.unread os e →
          Decodes item stack xs (reply :: os) e
      | none => Decodes item stack xs [] (.blocked r'.tasks r'.unread))

theorem Fetched.yields {stack : List ReadTask} {xs : Bytes} {r' : RedisReader}
    {reply : Option Reply} (h : Fetched stack xs r' reply) : Yields stack xs r' reply := by
  rcases h with ⟨herr, -, hd⟩ | ⟨herr, hv, hd⟩
  · exact .inl ⟨herr, hd.decodes_fail⟩
  · refine .inr ⟨herr, hv, ?_⟩
    cases reply with
    | some reply => exact fun os e hos => hd.decodes_message hos
    | none => exact hd.decodes_more

theorem RedisReader.tasks_of_ne_nil {r : RedisReader} (h : r.rstack ≠ []) :
    r.tasks = r.rstack := if_neg h

/-- The loop over items. -/
theorem processItems_fetched (fuel : Nat) {r : RedisReader} (hv : r.Valid) (he : r.err = 0)
    (hs : r.rstack ≠ []) (hfuel : r.unread.length < fuel) :
    Fetched r.rstack r.unread (processItems fuel r)
      (if (processItems fuel r).rstack = [] then (processItems fuel r).reply else none) := by
  induction fuel generalizing r with
  | zero => omega
  | succ fuel ih =>
    have hread := processItem_reads hv hs
    rw [processItems, if_neg hs]
    generalize processItem r = result at hread ⊢
    obtain ⟨r', status⟩ := result
    cases hitem : item r.rstack r.unread with
    | fail e =>
      rw [hitem] at hread
      obtain ⟨rfl, herr, rfl, hnull⟩ := hread
      exact .inl ⟨herr, hnull, .fail hitem⟩
    | more stack rest =>
      rw [hitem] at hread
      obtain ⟨rfl, rfl, rfl, herr, hv'⟩ := hread
      have hne := ne_nil_of_more hs hitem
      refine .inr ⟨herr.trans he, hv', ?_⟩
      simp only [if_neg hne, RedisReader.tasks_of_ne_nil hne]
      exact .more hitem
    | next stack rest out =>
      rw [hitem] at hread
      obtain ⟨rfl, htasks, hrest, herr, hv', hout⟩ := hread
      dsimp only at htasks hrest herr hv' hout ⊢
      subst htasks hrest
      cases out with
      | some reply =>
        obtain ⟨hnil, hreply⟩ := hout
        have hstop : processItems fuel r' = r' := by
          cases fuel with
          | zero => rfl
          | succ fuel => rw [processItems, if_pos hnil]
        refine .inr ⟨hstop.symm ▸ herr.trans he, hstop.symm ▸ hv', ?_⟩
        simp only [hstop, if_pos hnil, hreply]
        exact .message hitem
      | none =>
        -- an array was opened, or an element completed: the loop goes on
        have hlt := item_lawful.next_shrinks hitem
        rw [RedisReader.tasks_of_ne_nil hout] at hitem
        exact (ih hv' (herr.trans he) hout (by omega)).of_next hitem

/-- A reader without an error fetches what the decoder fetches from its unread bytes. -/
theorem redisReaderGetReply_fetched {r : RedisReader} (hv : r.Valid) (he : r.err = 0) :
    Fetched r.tasks r.unread (redisReaderGetReply r).1 (redisReaderGetReply r).2.2 ∧
      ((redisReaderGetReply r).2.1 = .err ↔ (redisReaderGetReply r).1.err ≠ 0) := by
  rw [redisReaderGetReply, if_neg (by simp [he])]
  by_cases hbuf : r.buf.length = 0
  · -- nothing was fed since the buffer was emptied
    have hunread : r.unread = [] := List.eq_nil_of_length_eq_zero (by simp [hbuf])
    have hitem : item r.tasks [] = .more r.tasks [] := by
      unfold RedisReader.tasks
      split
      · rfl
      · cases hstack : r.rstack with
        | nil => rfl
        | cons cur tasks =>
          have hdeep := hv.depth cur tasks hstack
          cases ht : cur.type with
          | none => simp only [item, ht]
          | some type =>
            rw [ht] at hdeep
            simp only [item, ht, typedItem, if_neg (show ¬(type = .array ∧ tasks.length = 8) by
              simpa using hdeep), seekNewline]
    rw [if_pos hbuf]
    exact ⟨.inr ⟨he, hv, by rw [hunread]; exact .more hitem⟩, by simp [he]⟩
  · rw [if_neg hbuf]
    -- the stack gets its first task
    generalize hr₁ : (if r.rstack = [] then { r with rstack := [.root] } else r) = r₁
    have h₁ : r₁.rstack = r.tasks ∧ r₁.unread = r.unread ∧ r₁.err = 0 ∧ r₁.Valid := by
      subst hr₁
      by_cases hs : r.rstack = []
      · simp only [if_pos hs, RedisReader.tasks]
        refine ⟨trivial, rfl, he, hv.pos_le, ?_⟩
        intro cur tasks heq
        cases heq
        simp [ReadTask.root]
      · simp only [if_neg hs, RedisReader.tasks]
        exact ⟨trivial, trivial, he, hv⟩
    obtain ⟨hstack, hunread, herr, hv₁⟩ := h₁
    have hne : r₁.rstack ≠ [] := by
      rw [hstack]; unfold RedisReader.tasks; split <;> simp_all
    have hloop := processItems_fetched (r₁.unread.length + 1) hv₁ herr hne (Nat.lt_succ_self _)
    simp only
    generalize processItems (r₁.unread.length + 1) r₁ = r₂ at hloop ⊢
    rw [hstack, hunread] at hloop
    rcases hloop with ⟨herr₂, hnull, hd⟩ | ⟨herr₂, hv₂, hd⟩
    · rw [if_pos herr₂]
      exact ⟨.inl ⟨herr₂, hnull, hd⟩, by simp [herr₂]⟩
    · rw [if_neg (by simp [herr₂])]
      -- a long buffer is cut, which the decoder does not see
      generalize hr₃ : (if 1024 ≤ r₂.pos then { r₂ with buf := r₂.unread, pos := 0 } else r₂) = r₃
      have h₃ : r₃.rstack = r₂.rstack ∧ r₃.unread = r₂.unread ∧ r₃.err = 0 ∧ r₃.Valid ∧
          r₃.reply = r₂.reply := by
        subst hr₃
        split
        · exact ⟨rfl, rfl, herr₂, ⟨Nat.zero_le _, hv₂.depth⟩, rfl⟩
        · exact ⟨rfl, rfl, herr₂, hv₂, rfl⟩
      obtain ⟨hstack₃, hunread₃, herr₃, hv₃, hreply₃⟩ := h₃
      have htasks₃ : r₃.tasks = r₂.tasks := by simp only [RedisReader.tasks, hstack₃]
      rw [← hstack₃, ← hreply₃, ← htasks₃, ← hunread₃] at hd
      by_cases hnil : r₃.rstack = []
      · rw [if_pos hnil] at hd ⊢
        exact ⟨.inr ⟨herr₃, ⟨hv₃.pos_le, hv₃.depth⟩, hd⟩, by simp [herr₃]⟩
      · rw [if_neg hnil] at hd ⊢
        exact ⟨.inr ⟨herr₃, hv₃, hd⟩, by simp [herr₃]⟩

/-- **The reader refines the decoder.**  A reader without an error reads its unread
    bytes as the decoder does, one reply at a time. -/
theorem redisReaderGetReply_yields {r : RedisReader} (hv : r.Valid) (he : r.err = 0) :
    Yields r.tasks r.unread (redisReaderGetReply r).1 (redisReaderGetReply r).2.2 ∧
      ((redisReaderGetReply r).2.1 = .err ↔ (redisReaderGetReply r).1.err ≠ 0) :=
  (redisReaderGetReply_fetched hv he).imp_left Fetched.yields

/-! ## Element vectors -/

/-- Every item the decoder tries is the root or an element of an array that has a vector: the
    arrays are announced with counts that are positive as an `int`. -/
def Vectored (stack : List ReadTask) (xs : Bytes) : Prop :=
  ∀ stack' rest, Passes item stack xs stack' rest → noVector stack'.tail = false

/-- Only the lack of a vector fails without a text. -/
theorem noVector_of_fail {stack : List ReadTask} {xs : Bytes} (h : item stack xs = .fail []) :
    noVector stack.tail = true := by
  -- an item fails without a text only when it is stored
  have hfinish : ∀ {cur : ReadTask} {tasks : List ReadTask} {obj : Reply} {rest : Bytes},
      finishItem cur tasks obj rest = .fail [] → noVector tasks = true := by
    intro cur tasks obj rest h
    unfold finishItem at h
    split at h
    · assumption
    · cases h
  have htyped : ∀ {cur : ReadTask} {tasks : List ReadTask} {type : ReplyType} {ys : Bytes},
      typedItem cur tasks type ys = .fail [] → noVector tasks = true := by
    intro cur tasks type ys h
    unfold typedItem at h
    split at h
    · simp [tooDeep, ascii] at h
    split at h
    · cases h
    unfold lineItem at h
    cases type with
    | integer | error | status => exact hfinish h
    | string =>
      dsimp only at h
      split at h
      · exact hfinish h
      split at h
      · exact hfinish h
      · cases h
    | array =>
      dsimp only at h
      split at h
      · exact hfinish h
      split at h
      · split at h
        · assumption
        · cases h
      · exact hfinish h
  unfold item at h
  split at h
  · cases h
  next cur tasks =>
    split at h
    · exact htyped h
    split at h
    · cases h
    split at h
    · simp [badTypeByte, ascii] at h
    · exact htyped h

/-- Where the arrays have their vectors, nothing is stored through `NULL`. -/
theorem Vectored.not_stored {r : RedisReader} (h : Vectored r.tasks r.unread) (hv : r.Valid)
    (he : r.err = 0) : (redisReaderGetReply r).1.err ≠ NULL_STORE := by
  intro hstored
  obtain ⟨-, hnull, hfetches⟩ | ⟨hok, -, -⟩ := (redisReaderGetReply_fetched hv he).1
  · rw [hnull.mp hstored] at hfetches
    obtain ⟨stack, rest, hpasses, hfail⟩ := hfetches.passes_fail
    have hvector := h stack rest hpasses
    rw [noVector_of_fail hfail] at hvector
    cases hvector
  · rw [hok] at hstored
    cases hstored

/-- The test, for as many items as `fuel` allows. -/
def vectored : Nat → List ReadTask → Bytes → Bool
  | 0, _, _ => false
  | fuel + 1, stack, xs =>
    !noVector stack.tail &&
      match item stack xs with
      | .next stack' rest _ => vectored fuel stack' rest
      | _ => true

theorem vectored_sound {fuel : Nat} {stack : List ReadTask} {xs : Bytes}
    (h : vectored fuel stack xs = true) : Vectored stack xs := by
  intro stack' rest hpasses
  induction hpasses generalizing fuel with
  | refl =>
    cases fuel with
    | zero => cases h
    | succ fuel =>
      rw [vectored, Bool.and_eq_true, Bool.not_eq_true'] at h
      exact h.1
  | next hs _ ih =>
    cases fuel with
    | zero => cases h
    | succ fuel =>
      rw [vectored, Bool.and_eq_true, hs] at h
      exact ih h.2

/-! ## Chunks -/

theorem redisReaderFeed_of_err {r : RedisReader} (he : r.err ≠ 0) (data : Bytes) :
    redisReaderFeed r data = (r, .err) := if_pos he

/-- A chunk is appended to the unread bytes. -/
theorem redisReaderFeed_ok {r : RedisReader} (hv : r.Valid) (he : r.err = 0) (data : Bytes) :
    ∃ r', redisReaderFeed r data = (r', .ok) ∧ r'.err = 0 ∧ r'.Valid ∧ r'.tasks = r.tasks ∧
      r'.unread = r.unread ++ data := by
  refine ⟨{ r with buf := r.buf ++ data }, if_neg (by simp [he]), he, ⟨?_, hv.depth⟩, rfl, ?_⟩
  · have := hv.pos_le
    simp only [List.length_append]
    omega
  · simp only [RedisReader.unread]
    exact List.drop_append_of_le_length hv.pos_le

/-- The reader is in order, and has stored nothing through `NULL`. -/
structure RedisReader.Intact (r : RedisReader) : Prop where
  valid : r.err = 0 → r.Valid
  stored : r.err ≠ NULL_STORE

theorem RedisReader.Intact.feed {r : RedisReader} (h : r.Intact) (data : Bytes) :
    (redisReaderFeed r data).1.Intact := by
  by_cases he : r.err = 0
  · obtain ⟨r', hfeed, he', hv', -⟩ := redisReaderFeed_ok (h.valid he) he data
    rw [hfeed]
    exact ⟨fun _ => hv', by rw [he']; decide⟩
  · rw [redisReaderFeed_of_err he]
    exact h

theorem RedisReader.Intact.getReply {r : RedisReader} (h : r.Intact)
    (hvectored : Vectored r.tasks r.unread) : (redisReaderGetReply r).1.Intact := by
  by_cases he : r.err = 0
  · refine ⟨fun he' => ?_, hvectored.not_stored (h.valid he) he⟩
    obtain ⟨herr, -, -⟩ | ⟨-, hv, -⟩ := (redisReaderGetReply_fetched (h.valid he) he).1
    · exact absurd he' herr
    · exact hv
  · rw [redisReaderGetReply, if_pos he]
    exact h

end CrazySnail
