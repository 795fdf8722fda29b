import CrazySnail.FrameBuffer

/-! # The frame fills its buffer

The size that `redisFormatCommandArgv` computes is the size of what it writes, so the block is
filled to the last byte and the assertion holds (`formatFillsBuffer`).  `pre` is what has been
written, `rest` what is left of the block.
-/

namespace CrazySnail

/-! ## Sizes -/

theorem digitLoop_eq (fuel n : Nat) : digitLoop fuel n = (decimalAux fuel n).length := by
  induction fuel generalizing n with
  | zero => rfl
  | succ fuel ih =>
    rw [digitLoop, decimalAux]
    by_cases hn : n < 10
    · rw [if_pos hn, if_pos (by omega)]
      rfl
    · rw [if_neg hn, if_neg (by omega), ih, List.length_append]
      rfl

theorem intlen_eq (n : Nat) : intlen n = (decimal n).length := by
  unfold intlen
  rw [if_neg (by omega), Nat.zero_add, digitLoop_eq]
  rfl

/-- The part of the frame that an argument makes. -/
def bulk (arg : Bytes) : Bytes := 36 :: decimal arg.length ++ crlf ++ arg ++ crlf

theorem bulklen_eq {arg : Bytes} (h : arg.length < 2 ^ 31) :
    bulklen arg.length = (bulk arg).length := by
  rw [bulklen, toInt32_eq h, intlen_eq]
  simp only [bulk, crlf, List.length_append, List.length_cons, List.length_nil]
  omega

/-- The sum of the sizes of the parts, as long as it is an `int`. -/
theorem frameSize_fold (argv : List Bytes) {n : Nat}
    (h : n + (argv.map bulk).flatten.length < 2 ^ 31) :
    argv.foldl (fun totlen arg => toInt32 (totlen + bulklen arg.length)) (n : Int) =
      (n + (argv.map bulk).flatten.length : Nat) := by
  induction argv generalizing n with
  | nil => rfl
  | cons arg argv ih =>
    rw [List.map_cons, List.flatten_cons, List.length_append] at h ⊢
    have hle : arg.length ≤ (bulk arg).length := by
      simp only [bulk, List.length_append]
      omega
    have hstep : toInt32 ((n : Int) + bulklen arg.length) = (n + (bulk arg).length : Nat) := by
      rw [bulklen_eq (by omega), ← Int.natCast_add]
      exact toInt32_eq (by omega)
    rw [List.foldl_cons, hstep, ih (by omega), Nat.add_assoc]

theorem frame_eq (argv : List Bytes) :
    redisFormatCommandArgv argv = 42 :: decimal argv.length ++ crlf ++ (argv.map bulk).flatten := rfl

theorem frameSize_eq {argv : List Bytes} (h : (redisFormatCommandArgv argv).length < 2 ^ 31) :
    frameSize argv = (redisFormatCommandArgv argv).length := by
  have hcount : argv.length ≤ (argv.map bulk).flatten.length := by
    clear h
    induction argv with
    | nil => exact Nat.zero_le _
    | cons arg argv ih =>
      have hpos : 0 < (bulk arg).length := Nat.succ_pos _
      rw [List.map_cons, List.flatten_cons, List.length_append, List.length_cons]
      omega
  have hheader : (42 :: decimal argv.length ++ crlf).length = 1 + (decimal argv.length).length + 2 := by
    simp only [crlf, List.length_append, List.length_cons, List.length_nil]
    omega
  rw [frame_eq, List.length_append, hheader] at h ⊢
  have hstart : toInt32 (1 + intlen (toInt32 argv.length) + 2) =
      (1 + (decimal argv.length).length + 2 : Nat) := by
    have hcast : (1 + ((decimal argv.length).length : Int) + 2) =
        (1 + (decimal argv.length).length + 2 : Nat) := by omega
    rw [toInt32_eq (by omega), intlen_eq, hcast, toInt32_eq (by omega)]
  rw [frameSize, hstart, frameSize_fold argv h]

/-! ## Writing -/

theorem put?_append {pre rest src : Bytes} {off : Nat} (hoff : off = pre.length)
    (h : src.length ≤ rest.length) :
    put? (pre ++ rest) off src = some (pre ++ src ++ rest.drop src.length) := by
  subst hoff
  have hfits : pre.length + src.length ≤ (pre ++ rest).length := by
    rw [List.length_append]
    omega
  rw [put?, dif_pos hfits, write, List.take_left, ← List.drop_drop, List.drop_left]

/-- A text, terminated for now. -/
theorem sprintf?_append {pre rest text : Bytes} {off : Nat} (hoff : off = pre.length)
    (h : text.length + 1 ≤ rest.length) :
    sprintf? (pre ++ rest) off text =
      some (pre ++ text ++ 0 :: rest.drop (text.length + 1)) := by
  rw [sprintf?, put?_append hoff (by rw [List.length_append]; exact h), ← List.append_assoc,
    List.append_assoc _ [0], List.length_append]
  rfl

theorem formatArg_append (pre : Bytes) {rest arg : Bytes}
    (h : (bulk arg).length + 1 ≤ rest.length) :
    ∃ rest', formatArg (pre ++ rest) pre.length arg =
        some (pre ++ bulk arg ++ rest', (pre ++ bulk arg).length) ∧
      rest'.length + (bulk arg).length = rest.length := by
  unfold formatArg
  have hbulk : bulk arg = 36 :: decimal arg.length ++ crlf ++ arg ++ [13] ++ [10] := by
    simp [bulk, crlf]
  generalize 36 :: decimal arg.length ++ crlf = header at hbulk ⊢
  have hlen : (bulk arg).length = header.length + arg.length + 2 := by
    rw [hbulk]
    simp only [List.length_append, List.length_singleton]
  dsimp only
  rw [sprintf?_append rfl (by omega), Option.bind_some]
  -- the terminator of the header gives way to the argument
  have hrest₁ : (0 :: rest.drop (header.length + 1)).length = rest.length - header.length := by
    rw [List.length_cons, List.length_drop]
    omega
  generalize (0 :: rest.drop (header.length + 1) : Bytes) = rest₁ at hrest₁ ⊢
  rw [put?_append List.length_append.symm (by omega), Option.bind_some]
  have hrest₂ : (rest₁.drop arg.length).length = rest.length - header.length - arg.length := by
    rw [List.length_drop, hrest₁]
  generalize rest₁.drop arg.length = rest₂ at hrest₂ ⊢
  rw [put?_append (by simp only [List.length_append]) (by rw [List.length_singleton]; omega),
    Option.bind_some, put?_append (by simp only [List.length_append, List.length_singleton])
      (by simp only [List.length_drop, List.length_singleton]; omega)]
  refine ⟨(rest₂.drop 1).drop 1, ?_, ?_⟩
  · simp only [hbulk, List.length_append, List.length_singleton, List.append_assoc, Option.map_some,
      Nat.add_assoc]
  · rw [List.length_drop, List.length_drop]
    omega

theorem formatArgs_append (argv : List Bytes) (pre : Bytes) {rest : Bytes}
    (h : (argv.map bulk).flatten.length + 1 ≤ rest.length) :
    ∃ rest', formatArgs argv (pre ++ rest, pre.length) =
        some (pre ++ (argv.map bulk).flatten ++ rest', (pre ++ (argv.map bulk).flatten).length) ∧
      rest'.length + (argv.map bulk).flatten.length = rest.length := by
  induction argv generalizing pre rest with
  | nil => exact ⟨rest, by simp [formatArgs], rfl⟩
  | cons arg argv ih =>
    rw [List.map_cons, List.flatten_cons] at h ⊢
    rw [List.length_append] at h
    obtain ⟨rest₁, harg, hlen₁⟩ := @formatArg_append pre rest arg (by omega)
    obtain ⟨rest₂, hargs, hlen₂⟩ := @ih (pre ++ bulk arg) rest₁ (by omega)
    refine ⟨rest₂, ?_, ?_⟩
    · rw [formatArgs, harg, Option.bind_some, hargs]
      simp only [List.append_assoc]
    · rw [List.length_append]
      omega

/-- A frame that leaves an `int` no room for its terminator gets no block. -/
theorem formatCommand_full (junk : Nat → Byte) {argv : List Bytes}
    (h : (redisFormatCommandArgv argv).length = 2 ^ 31 - 1) : formatCommand junk argv = some none := by
  have hsize : frameSize argv = (redisFormatCommandArgv argv).length := frameSize_eq (by omega)
  have hneg : toInt32 ((2 ^ 31 - 1 : Nat) + 1) < 0 := by decide
  unfold formatCommand
  rw [hsize, h]
  exact if_pos hneg

/-- A frame that an `int` can count with its terminator. -/
theorem formatCommand_fits (junk : Nat → Byte) {argv : List Bytes}
    (h : (redisFormatCommandArgv argv).length + 1 < 2 ^ 31) :
    formatCommand junk argv = some (some
      (redisFormatCommandArgv argv ++ [0], ((redisFormatCommandArgv argv).length : Int))) := by
  have hsize : frameSize argv = (redisFormatCommandArgv argv).length := frameSize_eq (by omega)
  have hterminated : toInt32 ((redisFormatCommandArgv argv).length + 1) =
      (redisFormatCommandArgv argv).length + 1 := toInt32_eq h
  unfold formatCommand
  dsimp only
  rw [hsize, hterminated, if_neg (by omega)]
  generalize hblock : (List.range _).map junk = block
  have hlen : block.length = (redisFormatCommandArgv argv).length + 1 := by
    rw [← hblock, List.length_map, List.length_range]
    omega
  rw [frame_eq] at hlen ⊢
  generalize 42 :: decimal argv.length ++ crlf = header at hlen ⊢
  rw [List.length_append] at hlen
  -- every sprintf writes its terminator over the first free byte
  have hheader : sprintf? block 0 header = some (header ++ 0 :: block.drop (header.length + 1)) :=
    @sprintf?_append [] block header 0 rfl (by omega)
  obtain ⟨rest, hargs, hrest⟩ := @formatArgs_append argv header
    (0 :: block.drop (header.length + 1))
    (by rw [List.length_cons, List.length_drop]; omega)
  rw [List.length_cons, List.length_drop] at hrest
  rw [hheader, Option.bind_some, hargs, Option.bind_some, if_pos rfl,
    put?_append rfl (by rw [List.length_singleton]; omega)]
  -- one byte is left, and the last assignment fills it
  have hend : rest.drop 1 = [] := List.drop_eq_nil_of_le (by omega)
  rw [List.length_singleton, hend, List.append_nil]
  rfl

/-- **The frame fills its buffer.**  A frame whose size is an `int` is written into a block of the
    computed size without a write outside it, the assertion on the position holds, and the block is
    the frame and its terminator.  Only the largest `int` leaves no room for a terminator. -/
theorem formatFillsBuffer (junk : Nat → Byte) {argv : List Bytes}
    (h : (redisFormatCommandArgv argv).length < 2 ^ 31) :
    formatCommand junk argv = some
      (if (redisFormatCommandArgv argv).length = 2 ^ 31 - 1 then none
      else some
        (redisFormatCommandArgv argv ++ [0], ((redisFormatCommandArgv argv).length : Int))) := by
  split
  next hfull => exact formatCommand_full junk hfull
  next hroom => exact formatCommand_fits junk (by omega)

/-- A command without arguments, with an empty one and with bytes of all kinds. -/
theorem formatFillsBuffer_bytes :
    formatCommand (fun _ => 7) [ascii "SET", [], [0, 13, 10, 255]] =
      some (some (redisFormatCommandArgv [ascii "SET", [], [0, 13, 10, 255]] ++ [0],
        ((redisFormatCommandArgv [ascii "SET", [], [0, 13, 10, 255]]).length : Int))) := by
  have hroom : (redisFormatCommandArgv [ascii "SET", [], [0, 13, 10, 255]]).length ≠ 2 ^ 31 - 1 := by
    decide
  rw [formatFillsBuffer _ (by decide), if_neg hroom]

end CrazySnail
