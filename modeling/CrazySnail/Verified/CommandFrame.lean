import CrazySnail.Verified.FrameBuffer
import CrazySnail.Verified.NameTree
import CrazySnail.Verified.Resp
import CrazySnail.Verified.Sending

/-! # The frame of a command

What `lua_client_command` writes decodes to the arguments it was given, in their order
(`carriesCommand`), provided that the timer keys stand where the command allows them:
spelled out, in a subscription that also names a channel.  What is collected has to fit its
array and its frame an `int`, and no number of a table may lose its text.
-/

namespace CrazySnail

open Resp World Transition Decoder

/-! ## Arguments -/

/-- A string, a number or a flat table of them. -/
def LuaArg.Flat : LuaArg → Prop
  | .table slots => ∀ v ∈ slots, (luaTolstring v).isSome
  | v => (luaTolstring v).isSome

/-- The texts of an argument; a table has those of its slots. -/
def texts : LuaArg → List Bytes
  | .table slots => slots.filterMap luaTolstring
  | v => (luaTolstring v).toList

/-- The arguments, spelled out or not. -/
def flatten (args : List LuaArg) : List Bytes := args.flatMap texts

/-- An argument that starts like a timer key. -/
def isTimerKey (s : Bytes) : Bool := TIMER_EVENT.isPrefixOf s

/-- The name of a (p)subscribe command. -/
def isSubscribe (name : Bytes) : Bool :=
  decide (name.map tolower ∈ [ascii "subscribe", ascii "psubscribe"])

/-- The arguments that go to the server. -/
def wanted (flat : List Bytes) : List Bytes :=
  if isSubscribe (flat.headD []) then flat.filter (!isTimerKey ·) else flat

/-- What `command` is called with: the size of the frame is an `int`. -/
structure CommandArgs (args : List LuaArg) : Prop where
  flat : ∀ v ∈ argsOf args, v.Flat
  length : (redisFormatCommandArgv (flatten (argsOf args))).length < 2 ^ 31

/-- The timer keys among the arguments that are spelled out. -/
def timerKeys : LuaArg → List Bytes
  | .table _ => []
  | v => (luaTolstring v).toList.filter isTimerKey

/-- What the argument loop enters into `argv`. -/
def entries : LuaArg → List Bytes
  | .table slots => slots.filterMap luaTolstring
  | v => (luaTolstring v).toList.filter (!isTimerKey ·)

/-- The frames that were written. -/
def frames (trace : List Obs) : List Bytes :=
  trace.filterMap fun o => match o with
    | .uvWrite _ frame => some frame
    | _ => none

/-- A frame with exactly the wanted arguments was made and written; one of a subscription names
    a channel. -/
structure Carries (args : List LuaArg) (w w' : World) (frame : Bytes) : Prop where
  /-- in memory, with its size -/
  built : ∃ argv timers, collect args = .ok argv timers ∧
    ∀ junk, formatCommand junk argv = some (some (frame ++ [0], (frame.length : Int)))
  written : frames w'.trace = frames w.trace ++ [frame]
  decodes : Decodes item idle frame [.array ((wanted (flatten (argsOf args))).map .string)]
    (.blocked idle [])
  named : isSubscribe ((flatten (argsOf args)).headD []) = true →
    2 ≤ (wanted (flatten (argsOf args))).length

/-- Timer keys are spelled out, and there are at most 100 of them, in a subscription that
    names a channel. -/
def TimerKeysInPlace (args : List LuaArg) : Prop :=
  let flat := flatten args
  if isSubscribe (flat.headD []) then
    (∀ slots, .table slots ∈ args → ∀ v ∈ slots, ∀ s, luaTolstring v = some s → isTimerKey s = false) ∧
      (args.flatMap timerKeys).length ≤ NB_TIMERS ∧ ∃ name ∈ flat.tail, isTimerKey name = false
  else flat ≠ [] ∧ args.flatMap timerKeys = []

/-- No number of a table loses its text. -/
def Kept (args : List LuaArg) : Prop := ∀ v ∈ args, ∀ u ∈ v.slots, u.isSwept = false

/-- Nothing is in the way of a command: its timer keys are in their place, what is collected fits
    `argv`, and an `int` counts the frame and its terminator. -/
structure Carriable (args : List LuaArg) : Prop where
  inPlace : TimerKeysInPlace args
  count : (args.flatMap entries).length ≤ LUA_MAX_STACK - 1
  room : (redisFormatCommandArgv (args.flatMap entries)).length + 1 < 2 ^ 31
  kept : Kept args

/-! ## The argument loop -/

theorem isTimerKey_iff (s : Bytes) :
    strncmp s TIMER_EVENT (strlen TIMER_EVENT) ≠ .eq ↔ isTimerKey s = false := by
  rw [ne_eq, strncmp_prefix (p := TIMER_EVENT) (by decide), isTimerKey,
    ← List.isPrefixOf_iff_prefix, Bool.not_eq_true]

/-- A table is collected if `argv` has room for it. -/
theorem collectTable_ok_iff (i : Nat) {slots : List LuaArg} {argv argv' : List Bytes}
    (hflat : ∀ v ∈ slots, (luaTolstring v).isSome) (hargv : argv.length ≤ LUA_MAX_STACK - 1) :
    collectTable i slots argv = .ok argv' ↔
      argv' = argv ++ slots.filterMap luaTolstring ∧ argv'.length ≤ LUA_MAX_STACK - 1 := by
  induction slots generalizing argv with
  | nil =>
    simp only [collectTable, Except.ok.injEq, List.filterMap_nil, List.append_nil]
    constructor
    · rintro rfl
      exact ⟨rfl, hargv⟩
    · exact fun h => h.1.symm
  | cons v slots ih =>
    obtain ⟨s, hs⟩ := Option.isSome_iff_exists.mp (hflat v List.mem_cons_self)
    have hrest := fun v hv => hflat v (List.mem_cons_of_mem _ hv)
    simp only [collectTable, hs, List.filterMap_cons]
    split
    next hfull =>
      refine iff_of_false (fun h => by cases h) ?_
      rintro ⟨rfl, hcount⟩
      simp only [List.length_append, List.length_cons] at hcount
      omega
    next hroom =>
      rw [ih hrest (by rw [List.length_append, List.length_singleton]; omega), List.append_assoc,
        List.singleton_append]

/-- One round of the argument loop on a string or a number. -/
theorem collectArgs_text {v : LuaArg} {s : Bytes} (hv : luaTolstring v = some s) (i : Nat)
    (vs : List LuaArg) (argv timers : List Bytes) :
    collectArgs i (v :: vs) argv timers =
      if isTimerKey s then
        if timers.length < NB_TIMERS then collectArgs (i + 1) vs argv (timers ++ [s])
        else .fault .badArgument
      else if LUA_MAX_STACK - 1 < argv.length + 1 then .raise stackOverflow
      else collectArgs (i + 1) vs (argv ++ [s]) timers := by
  have hkey := isTimerKey_iff s
  cases hs : isTimerKey s with
  | false =>
    rw [hs] at hkey
    have hne := hkey.mpr rfl
    cases v <;> cases hv <;> simp [collectArgs, luaTolstring, hne]
  | true =>
    rw [hs] at hkey
    have heq := not_not.mp (mt hkey.mp (by simp))
    cases v <;> cases hv <;> simp [collectArgs, luaTolstring, heq]

/-- What a string or a number adds. -/
theorem entries_text {v : LuaArg} {s : Bytes} (hv : luaTolstring v = some s) :
    entries v = [s].filter (!isTimerKey ·) ∧ timerKeys v = [s].filter isTimerKey := by
  cases v <;> cases hv <;> exact ⟨rfl, rfl⟩

/-- The argument loop keeps every text but the timer keys that are spelled out, if the arrays
    have room. -/
theorem collectArgs_ok_iff (i : Nat) {args : List LuaArg} {argv timers argv' timers' : List Bytes}
    (hflat : ∀ v ∈ args, v.Flat) (hargv : argv.length ≤ LUA_MAX_STACK - 1)
    (htimers : timers.length ≤ NB_TIMERS) :
    collectArgs i args argv timers = .ok argv' timers' ↔
      argv' = argv ++ args.flatMap entries ∧ timers' = timers ++ args.flatMap timerKeys ∧
        argv'.length ≤ LUA_MAX_STACK - 1 ∧ timers'.length ≤ NB_TIMERS := by
  induction args generalizing i argv timers with
  | nil =>
    simp only [collectArgs, Collected.ok.injEq, List.flatMap_nil, List.append_nil]
    constructor
    · rintro ⟨rfl, rfl⟩
      exact ⟨rfl, rfl, hargv, htimers⟩
    · rintro ⟨rfl, rfl, -, -⟩
      exact ⟨rfl, rfl⟩
  | cons v args ih =>
    have hrest := fun v hv => hflat v (List.mem_cons_of_mem _ hv)
    have hv := hflat v List.mem_cons_self
    rw [List.flatMap_cons, List.flatMap_cons]
    -- an argument that is spelled out is a timer key or goes into `argv`
    have htext : ∀ s, luaTolstring v = some s →
        (collectArgs i (v :: args) argv timers = .ok argv' timers' ↔
          argv' = argv ++ (entries v ++ args.flatMap entries) ∧
            timers' = timers ++ (timerKeys v ++ args.flatMap timerKeys) ∧
            argv'.length ≤ LUA_MAX_STACK - 1 ∧ timers'.length ≤ NB_TIMERS) := by
      intro s hs
      rw [collectArgs_text hs, (entries_text hs).1, (entries_text hs).2, List.filter_cons,
        List.filter_cons]
      cases hkey : isTimerKey s with
      | true =>
        simp only [if_true, Bool.not_true, Bool.false_eq_true, if_false, List.filter_nil,
          List.nil_append]
        split
        next hroom =>
          rw [ih (i + 1) hrest hargv (by rw [List.length_append, List.length_singleton]; omega),
            List.append_assoc]
        next hfull =>
          refine iff_of_false (fun h => by cases h) ?_
          rintro ⟨-, rfl, -, hcount⟩
          simp only [List.length_append, List.length_cons] at hcount
          omega
      | false =>
        simp only [Bool.false_eq_true, if_false, Bool.not_false, if_true, List.filter_nil,
          List.nil_append]
        split
        next hfull =>
          refine iff_of_false (fun h => by cases h) ?_
          rintro ⟨rfl, -, hcount, -⟩
          simp only [List.length_append, List.length_cons] at hcount
          omega
        next hroom =>
          rw [ih (i + 1) hrest (by rw [List.length_append, List.length_singleton]; omega) htimers,
            List.append_assoc]
    cases v with
    | table slots =>
      -- a table goes into `argv` as a whole, timer keys too
      have htable : ∀ argv₁, collectTable i slots argv = .ok argv₁ ↔ _ := fun _ =>
        collectTable_ok_iff i hv hargv
      simp only [collectArgs, entries, timerKeys, List.nil_append]
      cases hslots : collectTable i slots argv with
      | ok argv₁ =>
        obtain ⟨rfl, hcount⟩ := (htable argv₁).mp hslots
        rw [ih (i + 1) hrest hcount htimers, List.append_assoc]
      | error e =>
        refine iff_of_false (fun h => by cases h) ?_
        rintro ⟨rfl, -, hcount, -⟩
        have hfits := (htable _).mpr ⟨rfl, by
          rw [← List.append_assoc, List.length_append] at hcount
          omega⟩
        rw [hslots] at hfits
        cases hfits
    | string s => exact htext s rfl
    | number s => exact htext s rfl
    | swept s => exact htext s rfl
    | _ => exact absurd hv (by simp [LuaArg.Flat, luaTolstring])

theorem kept_iff {args : List LuaArg} :
    Kept args ↔ (args.any fun v => v.slots.any LuaArg.isSwept) = false := by
  simp [Kept]

/-- What is collected of flat arguments. -/
theorem collect_ok_iff {args : List LuaArg} (hflat : ∀ v ∈ argsOf args, v.Flat)
    {argv timers : List Bytes} :
    collect args = .ok argv timers ↔
      argv = (argsOf args).flatMap entries ∧ timers = (argsOf args).flatMap timerKeys ∧
        argv.length ≤ LUA_MAX_STACK - 1 ∧ timers.length ≤ NB_TIMERS ∧ argv ≠ [] ∧
        Kept (argsOf args) := by
  have hargs : ∀ argv timers, collectArgs 2 (argsOf args) [] [] = .ok argv timers ↔ _ := fun _ _ =>
    collectArgs_ok_iff 2 hflat (Nat.zero_le _) (Nat.zero_le _)
  simp only [List.nil_append] at hargs
  rw [kept_iff]
  unfold collect
  split
  next timers' hempty =>
    refine iff_of_false (fun h => by cases h) ?_
    rintro ⟨rfl, -, -, -, hne, -⟩
    exact hne ((hargs _ _).mp hempty).1.symm
  next argv' timers' hne hok =>
    obtain ⟨rfl, rfl, hcount, hkeys⟩ := (hargs _ _).mp hok
    split
    next hswept => simp [hswept]
    next hkept =>
      rw [Collected.ok.injEq]
      constructor
      · rintro ⟨rfl, rfl⟩
        exact ⟨rfl, rfl, hcount, hkeys, hne, by simpa using hkept⟩
      · rintro ⟨rfl, rfl, -⟩
        exact ⟨rfl, rfl⟩
  next hne hother =>
    constructor
    · intro h
      exact absurd h (hother argv timers)
    · rintro ⟨rfl, rfl, hcount, hkeys, -⟩
      exact absurd ((hargs _ _).mpr ⟨rfl, rfl, hcount, hkeys⟩) (hother _ _)

/-! ## What is kept of the arguments -/

theorem length_entries (v : LuaArg) :
    (entries v).length + (timerKeys v).length = (texts v).length := by
  have hsplit := fun l : List Bytes => (List.length_eq_length_filter_add (l := l) isTimerKey).symm
  cases v with
  | table slots => rfl
  | _ => exact (Nat.add_comm _ _).trans (hsplit _)

theorem length_entries_all (args : List LuaArg) :
    (args.flatMap entries).length + (args.flatMap timerKeys).length = (flatten args).length := by
  induction args with
  | nil => rfl
  | cons v args ih =>
    have hv := length_entries v
    simp only [flatten, List.flatMap_cons, List.length_append] at ih ⊢
    omega

theorem entries_sublist (v : LuaArg) : (entries v).Sublist (texts v) := by
  cases v with
  | table slots => exact .refl _
  | _ => exact List.filter_sublist

theorem entries_sublist_all (args : List LuaArg) :
    (args.flatMap entries).Sublist (flatten args) := by
  induction args with
  | nil => exact .slnil
  | cons v args ih =>
    rw [flatten, List.flatMap_cons, List.flatMap_cons]
    exact (entries_sublist v).append ih

/-- Without spelled out timer keys everything is kept. -/
theorem entries_eq_flatten {args : List LuaArg} (h : args.flatMap timerKeys = []) :
    args.flatMap entries = flatten args := by
  have hsum := length_entries_all args
  rw [h, List.length_nil, Nat.add_zero] at hsum
  exact (entries_sublist_all args).eq_of_length hsum

/-- Without timer keys in tables, what is kept is what is no timer key. -/
theorem entries_eq_filter {args : List LuaArg}
    (h : ∀ slots, .table slots ∈ args → ∀ v ∈ slots, ∀ s, luaTolstring v = some s →
      isTimerKey s = false) :
    args.flatMap entries = (flatten args).filter (!isTimerKey ·) := by
  rw [flatten, List.filter_flatMap]
  refine List.flatMap_congr fun v hv => ?_
  cases v with
  | table slots =>
    refine (List.filter_eq_self.mpr fun s hs => ?_).symm
    obtain ⟨u, hu, hs⟩ := List.mem_filterMap.mp hs
    rw [h slots hv u hu s hs, Bool.not_false]
  | _ => rfl

/-- The name of a subscription is no timer key. -/
theorem isTimerKey_of_isSubscribe {name : Bytes} (h : isSubscribe name = true) :
    isTimerKey name = false := by
  have hname : (name.map tolower).head? ≠ some 95 := by
    simp only [isSubscribe, decide_eq_true_eq, List.mem_cons, List.not_mem_nil, or_false] at h
    obtain h | h := h <;> rw [h] <;> decide
  by_contra hkey
  rw [Bool.not_eq_false, isTimerKey, List.isPrefixOf_iff_prefix] at hkey
  obtain ⟨rest, rfl⟩ := hkey
  exact hname rfl

/-! ## The frame -/

theorem encode_frame (argv : List Bytes) :
    encodeAll [.array (argv.map .bulk)] = redisFormatCommandArgv argv := by
  have helements : encodeAll (argv.map .bulk) =
      (argv.map fun arg => 36 :: decimal arg.length ++ crlf ++ arg ++ crlf).flatten := by
    induction argv with
    | nil => rfl
    | cons arg argv ih => simp only [List.map_cons, encodeAll, encode, ih, List.flatten_cons]
  simp only [encodeAll, encode, List.append_nil, List.length_map, helements, redisFormatCommandArgv]

theorem decodes_frame {argv : List Bytes} (hcount : argv.length < 2 ^ 31)
    (hlength : ∀ arg ∈ argv, arg.length < 2 ^ 63) :
    Decodes item idle (redisFormatCommandArgv argv) [.array (argv.map .string)]
      (.blocked idle []) := by
  have hall : AllWellFormed 1 (argv.map .bulk) := by
    clear hcount
    induction argv with
    | nil => trivial
    | cons arg argv ih =>
      exact ⟨hlength arg List.mem_cons_self, ih fun a ha => hlength a (List.mem_cons_of_mem _ ha)⟩
  have hwf : AllWellFormed 0 [.array (argv.map .bulk)] :=
    ⟨⟨by decide, by rwa [List.length_map], hall⟩, trivial⟩
  have hdecodes := decodes_encodeAll hwf
  rw [encode_frame] at hdecodes
  simpa [toReplies, toReply, toReplies_eq_map, Function.comp_def] using hdecodes

/-- An argument is not longer than its frame. -/
theorem length_le_frame {argv : List Bytes} {arg : Bytes} (h : arg ∈ argv) :
    arg.length ≤ (redisFormatCommandArgv argv).length := by
  have hpart : 36 :: decimal arg.length ++ crlf ++ arg ++ crlf ∈
      argv.map fun arg => 36 :: decimal arg.length ++ crlf ++ arg ++ crlf :=
    List.mem_map_of_mem h
  have hle := (List.sublist_flatten_of_mem hpart).length_le
  simp only [redisFormatCommandArgv, List.length_append, List.length_cons] at hle ⊢
  omega

/-- Nor are there more arguments than its frame has bytes. -/
theorem count_le_frame (argv : List Bytes) : argv.length ≤ (redisFormatCommandArgv argv).length := by
  have hparts : argv.length ≤
      (argv.map fun arg => 36 :: decimal arg.length ++ crlf ++ arg ++ crlf).flatten.length := by
    induction argv with
    | nil => exact Nat.zero_le _
    | cons arg argv ih =>
      simp only [List.map_cons, List.flatten_cons, List.length_append, List.length_cons] at ih ⊢
      omega
  simp only [redisFormatCommandArgv, List.length_append]
  omega

/-- Fewer arguments have a shorter frame. -/
theorem frame_length_le {argv argv' : List Bytes} (h : argv.Sublist argv') :
    (redisFormatCommandArgv argv).length ≤ (redisFormatCommandArgv argv').length := by
  have hdigits := decimal_length_le h.length_le
  have hparts := ((h.map fun arg => 36 :: decimal arg.length ++ crlf ++ arg ++ crlf).flatten).length_le
  simp only [redisFormatCommandArgv, List.length_append, List.length_cons]
  omega

/-- A frame whose size is an `int` is decoded. -/
theorem decodes_frame_of_fits {argv : List Bytes}
    (h : (redisFormatCommandArgv argv).length < 2 ^ 31) :
    Decodes item idle (redisFormatCommandArgv argv) [.array (argv.map .string)]
      (.blocked idle []) := by
  have hcount := count_le_frame argv
  refine decodes_frame (by omega) fun arg harg => ?_
  have hle := length_le_frame harg
  omega

@[simp] theorem frames_append (t u : List Obs) : frames (t ++ u) = frames t ++ frames u :=
  List.filterMap_append

theorem Update.apply_frames (w : World) (u : Update) (hu : u.part ∉ [.obs .uvWrite]) :
    frames (u.apply w).trace = frames w.trace := by
  cases u with
  | log o => cases o <;> simp [apply, World.log, CrazySnail.frames] at hu ⊢
  | names p t => cases p <;> rfl
  | _ => rfl

theorem Touches.frames {ks : List Part} {w w' : World} (h : Touches ks w w')
    (hks : ks.all (fun k => decide (k ∉ [.obs .uvWrite])) = true) :
    frames w'.trace = frames w.trace :=
  h.same (f := fun w => CrazySnail.frames w.trace) Update.apply_frames hks

namespace World
variable {w : World}

theorem uvWrite_frames (w : World) (h : Handle) (block : Block) (frame : Bytes) (owner : Option Nat)
    (buf error : Nat) :
    frames (w.uvWrite (some h) block frame owner buf error).2.trace = frames w.trace ++ [frame] := by
  have hlog : frames (w.log (.uvWrite h frame)).trace = frames w.trace ++ [frame] :=
    frames_append _ _
  unfold uvWrite
  dsimp only
  split
  · exact hlog
  · split
    · exact hlog
    · split
      · exact hlog
      · split <;> exact hlog

/-- A connected client writes the frame of every command, whatever comes of it. -/
theorem luaClientCommand_frames {args : List LuaArg} (env : SendEnv) {argv timers : List Bytes}
    (hcollect : collect args = .ok argv timers) (hconn : w.cc.flags.connected = true)
    (htarget : ∀ subMode, (w.sending.target subMode).isSome) :
    frames (w.luaClientCommand args env).trace =
      frames w.trace ++ [redisFormatCommandArgv argv] := by
  have hentered := w.entered_touches argv timers (callbackOf args) env.flags
  have hsending := hentered.sending rfl
  have hframes := hentered.frames rfl
  rw [luaClientCommand_eq hcollect]
  generalize w.entered argv timers (callbackOf args) env.flags = w₁ at hsending hframes ⊢
  generalize (classify (argv.headD [])).subMode = subMode
  obtain ⟨h, hh⟩ := Option.isSome_iff_exists.mp (htarget subMode)
  have hconn₁ : w₁.cc.flags.connected = true := (congrArg Sending.connected hsending).trans hconn
  have htarget₁ : (if subMode then w₁.cc.subStream else w₁.cc.stream) = some h :=
    (congrFun (congrArg Sending.target hsending) subMode).trans hh
  unfold sendCommand
  simp only [hconn₁, if_true, htarget₁]
  have hwrite := uvWrite_frames { w₁ with uv := w₁.uv.reqAlloc.2 } h w₁.uv.reqAlloc.1
    (redisFormatCommandArgv argv)
    (if (classify (argv.headD [])).pending then some w.heap.next else none) w.nextCmd env.error
  generalize { w₁ with uv := w₁.uv.reqAlloc.2 }.uvWrite (some h) w₁.uv.reqAlloc.1
    (redisFormatCommandArgv argv)
    (if (classify (argv.headD [])).pending then some w.heap.next else none) w.nextCmd env.error
    = result at hwrite ⊢
  obtain ⟨r, w₂⟩ := result
  dsimp only at hwrite ⊢
  rw [← hframes]
  have hfreed : frames (if r = 0 then w₂.freeCmd w.nextCmd else w₂).trace = frames w₂.trace := by
    split
    · simp [freeCmd, log, frames]
    · rfl
  generalize (if r = 0 then w₂.freeCmd w.nextCmd else w₂) = w₃ at hfreed ⊢
  split
  · exact hwrite
  · split
    · exact ((failSend_touches _ _).frames rfl).trans (hfreed.trans hwrite)
    · exact hfreed.trans hwrite

end World

/-! ## The command -/

variable {args : List LuaArg}

/-- A subscription names a channel if it has an argument that is no timer key. -/
theorem two_le_wanted {flat : List Bytes} (h : isSubscribe (flat.headD []) = true) :
    2 ≤ (wanted flat).length ↔ ∃ name ∈ flat.tail, isTimerKey name = false := by
  cases flat with
  | nil => cases h
  | cons name rest =>
    have hname := isTimerKey_of_isSubscribe h
    rw [wanted, if_pos h, List.filter_cons_of_pos (by simpa using hname), List.length_cons,
      Nat.succ_le_succ_iff, Nat.one_le_iff_ne_zero, ne_eq, List.length_eq_zero_iff,
      List.filter_eq_nil_iff]
    simp

/-- What is kept is what is wanted exactly if no timer key stands in a table of a
    subscription or is spelled out in another command. -/
theorem entries_eq_wanted :
    args.flatMap entries = wanted (flatten args) ↔
      if isSubscribe ((flatten args).headD []) then
        ∀ slots, .table slots ∈ args → ∀ v ∈ slots, ∀ s, luaTolstring v = some s →
          isTimerKey s = false
      else args.flatMap timerKeys = [] := by
  unfold wanted
  split
  · refine ⟨fun heq slots hslots v hv s hs => ?_, entries_eq_filter⟩
    have hmem : s ∈ args.flatMap entries :=
      List.mem_flatMap.mpr ⟨_, hslots, List.mem_filterMap.mpr ⟨v, hv, hs⟩⟩
    rw [heq] at hmem
    simpa using (List.mem_filter.mp hmem).2
  · refine ⟨fun heq => ?_, entries_eq_flatten⟩
    have hsum := length_entries_all args
    rw [heq] at hsum
    exact List.eq_nil_of_length_eq_zero (by omega)

theorem timerKeysInPlace_iff :
    TimerKeysInPlace args ↔ ((args.flatMap timerKeys).length ≤ NB_TIMERS ∧ args.flatMap entries ≠ []) ∧
      args.flatMap entries = wanted (flatten args) ∧
      (isSubscribe ((flatten args).headD []) = true → 2 ≤ (wanted (flatten args)).length) := by
  rw [entries_eq_wanted]
  unfold TimerKeysInPlace
  dsimp only
  split
  next hsub =>
    rw [two_le_wanted hsub]
    constructor
    · rintro ⟨htables, hcount, hname⟩
      refine ⟨⟨hcount, ?_⟩, htables, fun _ => hname⟩
      have hwanted := (two_le_wanted hsub).mpr hname
      rw [entries_eq_filter htables]
      rw [wanted, if_pos hsub] at hwanted
      exact List.ne_nil_of_length_pos (by omega)
    · rintro ⟨⟨hcount, -⟩, htables, hname⟩
      exact ⟨htables, hcount, hname hsub⟩
  next hsub =>
    constructor
    · rintro ⟨hflat, hkeys⟩
      rw [entries_eq_flatten hkeys, hkeys]
      exact ⟨⟨Nat.zero_le _, hflat⟩, rfl, fun h => absurd h hsub⟩
    · rintro ⟨⟨-, hne⟩, hkeys, -⟩
      rw [entries_eq_flatten hkeys] at hne
      exact ⟨hne, hkeys⟩

/-- A frame that carries the wanted arguments was made of them. -/
theorem Carries.argv_eq {w : World} {env : SendEnv} {argv timers : List Bytes} {frame : Bytes}
    (hcollect : collect args = .ok argv timers) (hconn : w.cc.flags.connected = true)
    (htarget : ∀ subMode, (w.sending.target subMode).isSome)
    (hfits : (redisFormatCommandArgv argv).length < 2 ^ 31)
    (h : Carries args w (w.luaClientCommand args env) frame) :
    frame = redisFormatCommandArgv argv ∧ argv = wanted (flatten (argsOf args)) := by
  have hwritten := luaClientCommand_frames env hcollect hconn htarget
  obtain rfl : frame = redisFormatCommandArgv argv := by
    have heq := hwritten.symm.trans h.written
    simpa using heq.symm
  have hdet := ((decodes_frame_of_fits hfits).det h.decodes).1
  simp only [List.cons.injEq, Reply.array.injEq, and_true] at hdet
  exact ⟨rfl, List.map_injective_iff.mpr (fun _ _ h => by cases h; rfl) hdet⟩

/-- **What a connected client writes for a command** carries its arguments exactly when nothing is
    in the way. -/
theorem carriesCommand {w : World} {env : SendEnv} (hargs : CommandArgs args)
    (hconn : w.cc.flags.connected = true) (htarget : ∀ subMode, (w.sending.target subMode).isSome) :
    (∃ frame, Carries args w (w.luaClientCommand args env) frame) ↔ Carriable (argsOf args) := by
  have hfits : (redisFormatCommandArgv ((argsOf args).flatMap entries)).length < 2 ^ 31 :=
    Nat.lt_of_le_of_lt (frame_length_le (entries_sublist_all _)) hargs.length
  have hiff : ∀ argv timers, collect args = .ok argv timers ↔ _ := fun _ _ => collect_ok_iff hargs.flat
  constructor
  · rintro ⟨frame, h⟩
    obtain ⟨argv, timers, hcollect, hformat⟩ := h.built
    obtain ⟨rfl, rfl, hcount, hkeys, hne, hkept⟩ := (hiff argv timers).mp hcollect
    obtain ⟨-, hwanted⟩ := h.argv_eq hcollect hconn htarget hfits
    refine ⟨timerKeysInPlace_iff.mpr ⟨⟨hkeys, hne⟩, hwanted, h.named⟩, hcount, ?_, hkept⟩
    -- the largest `int` would leave no room for the terminator
    by_contra hroom
    have hfull : formatCommand (fun _ => 0) ((argsOf args).flatMap entries) = some none :=
      formatCommand_full _ (by omega)
    rw [hformat] at hfull
    cases hfull
  · rintro ⟨hplace, hcount, hroom, hkept⟩
    obtain ⟨⟨hkeys, hne⟩, hwanted, hnamed⟩ := timerKeysInPlace_iff.mp hplace
    have hcollect := (hiff _ _).mpr ⟨rfl, rfl, hcount, hkeys, hne, hkept⟩
    exact ⟨_, ⟨_, _, hcollect, fun junk => formatCommand_fits junk hroom⟩,
      luaClientCommand_frames env hcollect hconn htarget,
      hwanted ▸ decodes_frame_of_fits hfits, hnamed⟩

/-- A connection that stands. -/
def connectedRun : List Event := [.api .connect, .connected 0 0, .connected 0 0]

theorem connectedRun_connected :
    ∃ w, runs (World.new true) connectedRun = some w ∧ w.cc.flags.connected = true ∧
      ∀ subMode, (w.sending.target subMode).isSome := by
  have hrun : (runs (World.new true) connectedRun).map
      (fun w => (w.cc.flags.connected, w.cc.stream, w.cc.subStream)) =
      some (true, some 0, some 1) := by rfl
  obtain ⟨w, hw, hstate⟩ := Option.map_eq_some_iff.mp hrun
  simp only [Prod.mk.injEq] at hstate
  refine ⟨w, hw, hstate.1, fun subMode => ?_⟩
  cases subMode
  · exact Option.isSome_of_eq_some hstate.2.1
  · exact Option.isSome_of_eq_some hstate.2.2

/-- A subscription in a table, with a timer key spelled out. -/
theorem carriesCommand_subscribe :
    ∃ w, runs (World.new true) connectedRun = some w ∧ ∃ frame,
      Carries [.table [.string (ascii "subscribe"), .string (ascii "a")],
          .string (ascii "__timer@0__:50"), .function 1] w
        (w.luaClientCommand [.table [.string (ascii "subscribe"), .string (ascii "a")],
          .string (ascii "__timer@0__:50"), .function 1] ⟨0, false⟩) frame := by
  obtain ⟨w, hw, hconn, htarget⟩ := connectedRun_connected
  have hargs : CommandArgs [.table [.string (ascii "subscribe"), .string (ascii "a")],
      .string (ascii "__timer@0__:50"), .function 1] := by
    refine ⟨?_, by decide⟩
    simp [argsOf, callbackOf, LuaArg.Flat, luaTolstring]
  refine ⟨w, hw, (carriesCommand hargs hconn htarget).mpr ⟨⟨?_, ?_, ascii "a", ?_, ?_⟩, ?_, ?_, ?_⟩⟩
  · simp [argsOf, callbackOf, luaTolstring]
    decide
  · decide
  · decide
  · decide
  · decide
  · decide
  · simp [Kept, argsOf, callbackOf, LuaArg.slots, LuaArg.isSwept]

/-- Another command loses an argument that looks like a timer key. -/
theorem carriesCommand_fails :
    ∃ w args env, Reachable w ∧ CommandArgs args ∧ w.cc.flags.connected = true ∧
      (∀ subMode, (w.sending.target subMode).isSome) ∧
      ¬∃ frame, Carries args w (w.luaClientCommand args env) frame := by
  obtain ⟨w, hw, hconn, htarget⟩ := connectedRun_connected
  refine ⟨w, [.string (ascii "echo"), .string (ascii "__timer@0__:50")], ⟨0, false⟩, ⟨true, _, hw⟩,
    ⟨?_, ?_⟩, hconn, htarget, ?_⟩
  · simp [argsOf, callbackOf, LuaArg.Flat, luaTolstring]
  · decide
  · rintro ⟨frame, h⟩
    have hcollect : collect [.string (ascii "echo"), .string (ascii "__timer@0__:50")] =
        .ok [ascii "echo"] [ascii "__timer@0__:50"] := by rfl
    obtain ⟨-, hargv⟩ := h.argv_eq hcollect hconn htarget (by decide)
    exact absurd hargv (by decide)

end CrazySnail
