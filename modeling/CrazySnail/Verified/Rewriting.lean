import CrazySnail.Subscribe
import CrazySnail.Verified.CommandFrame
import CrazySnail.Verified.Assertions

/-! # Subscribing by key

`subscribe` is documented as `command` on keys with prefixes: a number is a timer interval, a
string a key or an event, whatever it looks like.  `lua_client_subscribe` does this exactly if
no string is one that Lua converts to a number, and the arrays of `lua_client_command` have
room for the keys (`subscribeRewrites`).
-/

namespace CrazySnail

open SearchTree (Path)
open World

/-! ## What is documented -/

/-- An argument: a number that fits an `int`, or a string without a NUL. -/
inductive Key where
  | number (n : Nat) (fits : n ≤ INT_MAX)
  | string (s : Bytes) (nulFree : (0 : Byte) ∉ s)

namespace Key

def value : Key → LuaArg
  | number n _ => .number (decimal n)
  | string s _ => .string s

/-- A string that names what it subscribes to. -/
def Prefixed (s : Bytes) : Prop := KEY_SPACE <+: s ∨ KEY_EVENT <+: s ∨ TIMER_EVENT <+: s

instance (s : Bytes) : Decidable (Prefixed s) := inferInstanceAs (Decidable (_ ∨ _ ∨ _))

instance (s : Bytes) : Decidable (s ∈ events) :=
  decidable_of_iff (events.any (decide <| · = s) = true) (by simp)

/-- The key of an argument, by its Lua type. -/
def documented : Key → Bytes
  | number n _ => TIMER_EVENT ++ decimal n
  | string s _ =>
    if Prefixed s then s else if s ∈ events then KEY_EVENT ++ s else KEY_SPACE ++ s

example : [Key.number 1000 (by decide), .string (ascii "a") (by decide),
    .string (ascii "set") (by decide)].map Key.documented =
      [ascii "__timer@0__:1000", ascii "__keyspace@0__:a", ascii "__keyevent@0__:set"] := by decide

/-- A string that Lua takes for a number. -/
def Numeric (nums : Numerals) : Key → Prop
  | number _ _ => False
  | string s _ => (nums.toInt s).isSome = true

end Key

/-- The arguments of the command. -/
def commandArgs (keys : List Key) (fn : Fn) : List LuaArg :=
  (ascii "subscribe" :: keys.map Key.documented).map .string ++ [.function fn]

/-- An interval has a node in the timer tree. -/
def Registered (w : World) (n : Nat) : Prop :=
  ∃ leaf ikey val, searchTimer ikey w.cc.timers = some leaf ∧
    w.cc.timers.get? leaf = some (ikey, val) ∧ ikey.toNat = n

/-- `subscribe` on keys is `command` on the documented arguments: these are accepted, every
    number gets its node, and to rewrite them again changes nothing. -/
structure Rewrites (nums : Numerals) (keys : List Key) (fn : Fn) : Prop where
  accepted : ∃ argv timers, collect (commandArgs keys fn) = .ok argv timers
  same : ∀ (w : World) env, w.luaClientSubscribe nums (keys.map Key.value ++ [.function fn]) env =
    w.luaClientCommand (commandArgs keys fn) env
  registered : ∀ (w : World) env n h, Key.number n h ∈ keys →
    Registered (w.luaClientSubscribe nums (keys.map Key.value ++ [.function fn]) env) n
  idempotent : rewriteArgs nums 2 (keys.map (.string ·.documented)) =
    .ok (keys.map (.string ·.documented))

/-- No string is taken for a number, and the keys fit the arrays of `lua_client_command`. -/
structure Rewritable (nums : Numerals) (keys : List Key) : Prop where
  strings : ∀ k ∈ keys, ¬k.Numeric nums
  timers : ((keys.map Key.documented).filter isTimerKey).length ≤ NB_TIMERS
  channels : ((keys.map Key.documented).filter (!isTimerKey ·)).length ≤ LUA_MAX_STACK - 2

/-! ## Digits -/

/-- The buffer has room for all digits. -/
theorem formatTimeout_eq (n : Nat) : formatTimeout n = decimal n := by
  have hcount : digitCount n = Nat.log 10 n + 1 := by
    unfold digitCount
    split
    next h => rw [h, Nat.log_zero_right]
    · rfl
  have hlength := decimalAux_length (Nat.lt_succ_self n)
  exact List.take_of_length_le (by rw [hcount, decimal, hlength])

theorem strtol_decimal {n : Nat} (h : n ≤ INT_MAX) : strtol (decimal n) = n := by
  have hdigits : ∀ d ∈ decimal n, isdigit d = true := fun d => isdigit_of_mem_decimal
  have htake : (decimal n).takeWhile isdigit = decimal n := List.takeWhile_eq_self_iff.mpr hdigits
  have hvalue := digitsValue_decimal n
  have hmax : INT_MAX < 2 ^ 63 - 1 := by decide
  cases hd : decimal n with
  | nil => exact absurd hd (decimal_ne_nil n)
  | cons d ds =>
    have hd' : d ∈ decimal n := hd ▸ List.mem_cons_self
    have h45 : d ≠ 45 := ne_of_isdigit (hdigits d hd') (by decide)
    have h43 : d ≠ 43 := ne_of_isdigit (hdigits d hd') (by decide)
    have hspace : isspace d = false := by
      have hdigit := hdigits d hd'
      simp only [isdigit, Bool.and_eq_true, decide_eq_true_eq, UInt8.le_iff_toNat_le] at hdigit
      have h48 : (48 : Byte).toNat = 48 := rfl
      have hne : d ≠ 32 := ne_of_isdigit (hdigits d hd') (by decide)
      have hnot : ¬d ≤ 13 := by
        rw [UInt8.le_iff_toNat_le]
        have h13 : (13 : Byte).toNat = 13 := rfl
        omega
      simp [isspace, hne, hnot]
    rw [hd] at htake hvalue
    -- neither a blank nor a sign comes before the digits
    have hsign : strtol (d :: ds) = min (2 ^ 63 - 1 : Int) (digitsValue ((d :: ds).takeWhile isdigit)) := by
      unfold strtol
      simp only [List.dropWhile_cons, hspace, Bool.false_eq_true, if_false]
      split
      next heq => exact absurd (List.cons.inj heq).1 h45
      next heq => exact absurd (List.cons.inj heq).1 h43
      · rfl
    rw [hsign, htake, hvalue]
    omega

/-- The interval of a timer key is its number. -/
theorem timerKey_decimal {n : Nat} (h : n ≤ INT_MAX) :
    (timerKey (TIMER_EVENT ++ decimal n)).toNat = n := by
  have hmax : INT_MAX < 2 ^ 64 := by decide
  have hlen : strlen TIMER_EVENT = TIMER_EVENT.length := by decide
  have hmod : ((n : Int) % 2 ^ 64).toNat = n := by omega
  rw [timerKey, hlen, List.drop_left, strtol_decimal h, hmod]
  simp only [Nat.toUInt64_eq, UInt64.toNat_ofNat']
  omega

/-! ## One argument -/

theorem rewriteNumber_nat (n : Nat) :
    rewriteNumber n = .ok (.string (TIMER_EVENT ++ decimal n)) := by
  rw [rewriteNumber, if_neg (by omega), Int.toNat_natCast, formatTimeout_eq]

theorem hasPrefix_iff (s : Bytes) : hasPrefix s = true ↔ Key.Prefixed s := by
  simp only [hasPrefix, Bool.or_eq_true, decide_eq_true_eq, or_assoc, Key.Prefixed,
    strncmp_prefix (p := KEY_SPACE) (by decide), strncmp_prefix (p := KEY_EVENT) (by decide),
    strncmp_prefix (p := TIMER_EVENT) (by decide)]

theorem strdup_of_nulFree {s : Bytes} (h : (0 : Byte) ∉ s) : strdup s = s :=
  List.takeWhile_eq_self_iff.mpr fun _ hc => decide_eq_true fun heq => h (heq ▸ hc)

theorem event_iff {s : Bytes} (h : (0 : Byte) ∉ s) :
    (events.any fun e => decide (strcmp e s = .eq)) = true ↔ s ∈ events := by
  have hevents : ∀ e ∈ events, strdup e = e := by decide
  simp only [List.any_eq_true, decide_eq_true_eq, strcmp_eq_iff, strdup_of_nulFree h]
  constructor
  · rintro ⟨e, he, heq⟩
    rwa [← heq, hevents e he]
  · intro hs
    exact ⟨s, hs, hevents s hs⟩

theorem rewriteString_eq {s : Bytes} (h : (0 : Byte) ∉ s) :
    rewriteString s = .string (Key.string s h).documented := by
  by_cases hp : Key.Prefixed s
  · rw [rewriteString, if_pos ((hasPrefix_iff s).mpr hp), Key.documented, if_pos hp]
  · have hevent := event_iff h
    have hnot : hasPrefix s = false := by
      rw [← Bool.not_eq_true, hasPrefix_iff]
      exact hp
    simp only [rewriteString, hnot, Bool.false_eq_true, if_false, hevent, Key.documented, if_neg hp,
      strdup_of_nulFree h]
    split <;> rfl

/-- A key has one of the prefixes. -/
theorem documented_prefixed (k : Key) : Key.Prefixed k.documented := by
  cases k with
  | number n h => exact .inr (.inr (List.prefix_append _ _))
  | string s h =>
    rw [Key.documented]
    split
    next hp => exact hp
    · split
      · exact .inr (.inl (List.prefix_append _ _))
      · exact .inl (List.prefix_append _ _)

/-- A string with one of the prefixes is no number. -/
theorem toInt_prefixed (nums : Numerals) {s : Bytes} (h : Key.Prefixed s) : nums.toInt s = none := by
  obtain ⟨rest, rfl⟩ | ⟨rest, rfl⟩ | ⟨rest, rfl⟩ := h <;> exact nums.underscore _

/-- A key stays as it is. -/
theorem rewriteArg_documented (nums : Numerals) (i : Nat) (k : Key) :
    rewriteArg nums i (.string k.documented) = .ok (.string k.documented) := by
  have hp := documented_prefixed k
  simp only [rewriteArg, toInt_prefixed nums hp, rewriteString, (hasPrefix_iff _).mpr hp, if_true]

/-- What the loop makes of an argument: the documented key, or a timer key of a string. -/
inductive RewrittenTo (nums : Numerals) (k : Key) : Bytes → Prop
  | documented : ¬k.Numeric nums → RewrittenTo nums k k.documented
  | timer {n : Nat} : k.Numeric nums → isTimerKey k.documented = false →
      RewrittenTo nums k (TIMER_EVENT ++ decimal n)

theorem isTimerKey_append (s : Bytes) : isTimerKey (TIMER_EVENT ++ s) = true :=
  List.isPrefixOf_iff_prefix.mpr (List.prefix_append _ _)

theorem rewriteArg_value (nums : Numerals) (i : Nat) (k : Key) :
    (∃ s, rewriteArg nums i k.value = .ok (.string s) ∧ RewrittenTo nums k s) ∨
      rewriteArg nums i k.value = .error (.fault .badArgument) ∧ k.Numeric nums := by
  cases k with
  | number n h =>
    refine .inl ⟨_, ?_, .documented id⟩
    rw [Key.value, rewriteArg, nums.decimal n h, Option.getD_some, rewriteNumber_nat]
    rfl
  | string s h =>
    rw [Key.value, rewriteArg]
    cases hs : nums.toInt s with
    | none =>
      have hnot : ¬(Key.string s h).Numeric nums := by simp [Key.Numeric, hs]
      exact .inl ⟨_, by rw [rewriteString_eq h], .documented hnot⟩
    | some timeout =>
      have hnumeric : (Key.string s h).Numeric nums := by simp [Key.Numeric, hs]
      have hplain : ¬Key.Prefixed s := fun hp => by
        rw [toInt_prefixed nums hp] at hs
        cases hs
      have hkey : isTimerKey (Key.string s h).documented = false := by
        rw [Key.documented, if_neg hplain]
        split <;> rfl
      dsimp only
      by_cases hneg : timeout < 0
      · exact .inr ⟨by rw [rewriteNumber, if_pos hneg], hnumeric⟩
      · obtain ⟨n, rfl⟩ := Int.eq_ofNat_of_zero_le (by omega : 0 ≤ timeout)
        exact .inl ⟨_, rewriteNumber_nat n, .timer hnumeric hkey⟩

/-! ## The loop -/

theorem rewriteArgs_documented (nums : Numerals) (i : Nat) (keys : List Key) :
    rewriteArgs nums i (keys.map (.string ·.documented)) =
      .ok (keys.map (.string ·.documented)) := by
  induction keys generalizing i with
  | nil => rfl
  | cons k keys ih => simp only [List.map_cons, rewriteArgs, rewriteArg_documented, ih]

theorem rewriteArgs_value (nums : Numerals) (i : Nat) (keys : List Key) :
    (∃ ss, rewriteArgs nums i (keys.map Key.value) = .ok (ss.map .string) ∧
        List.Forall₂ (RewrittenTo nums) keys ss) ∨
      rewriteArgs nums i (keys.map Key.value) = .error (.fault .badArgument) ∧
        ∃ k ∈ keys, k.Numeric nums := by
  induction keys generalizing i with
  | nil => exact .inl ⟨[], rfl, .nil⟩
  | cons k keys ih =>
    simp only [List.map_cons, rewriteArgs]
    obtain ⟨s, hs, hrewritten⟩ | ⟨hfault, hnumeric⟩ := rewriteArg_value nums i k
    · rw [hs]
      obtain ⟨ss, hss, hall⟩ | ⟨hfault, k', hk', hnumeric⟩ := ih (i + 1)
      · exact .inl ⟨s :: ss, by rw [hss]; rfl, .cons hrewritten hall⟩
      · exact .inr ⟨by rw [hfault], k', List.mem_cons_of_mem _ hk', hnumeric⟩
    · exact .inr ⟨by rw [hfault], k, List.mem_cons_self, hnumeric⟩

/-- Without a string that looks like a number, the keys are the documented ones. -/
theorem rewritten_documented {nums : Numerals} {keys : List Key} {ss : List Bytes}
    (hall : List.Forall₂ (RewrittenTo nums) keys ss) (h : ∀ k ∈ keys, ¬k.Numeric nums) :
    ss = keys.map Key.documented := by
  induction hall with
  | nil => rfl
  | @cons k s keys ss hone _ ih =>
    rw [ih fun k hk => h k (List.mem_cons_of_mem _ hk), List.map_cons]
    cases hone with
    | documented _ => rfl
    | timer hnumeric _ => exact absurd hnumeric (h k List.mem_cons_self)

/-- Each string that looks like a number is missing among the channels. -/
theorem rewritten_channels {nums : Numerals} {keys : List Key} {ss : List Bytes}
    (hall : List.Forall₂ (RewrittenTo nums) keys ss) :
    (ss.filter (!isTimerKey ·)).length ≤
        ((keys.map Key.documented).filter (!isTimerKey ·)).length ∧
      ((ss.filter (!isTimerKey ·)).length =
        ((keys.map Key.documented).filter (!isTimerKey ·)).length → ∀ k ∈ keys, ¬k.Numeric nums) := by
  induction hall with
  | nil => exact ⟨le_refl _, fun _ => nofun⟩
  | @cons k s keys ss hone _ ih =>
    obtain ⟨hle, heq⟩ := ih
    rw [List.map_cons, List.filter_cons, List.filter_cons]
    cases hone with
    | documented hplain =>
      cases isTimerKey k.documented with
      | true =>
        simp only [Bool.not_true, Bool.false_eq_true, if_false]
        exact ⟨hle, fun h => List.forall_mem_cons.mpr ⟨hplain, heq h⟩⟩
      | false =>
        simp only [Bool.not_false, if_true, List.length_cons]
        exact ⟨by omega, fun h => List.forall_mem_cons.mpr ⟨hplain, heq (by omega)⟩⟩
    | timer hnumeric hkey =>
      rw [isTimerKey_append, hkey]
      simp only [Bool.not_true, Bool.not_false, Bool.false_eq_true, if_false, if_true,
        List.length_cons]
      exact ⟨by omega, fun h => by omega⟩

/-- What is collected of strings. -/
theorem entries_strings (ss : List Bytes) :
    (ss.map LuaArg.string).flatMap entries = ss.filter (!isTimerKey ·) ∧
      (ss.map LuaArg.string).flatMap timerKeys = ss.filter isTimerKey := by
  induction ss with
  | nil => exact ⟨rfl, rfl⟩
  | cons s ss ih =>
    obtain ⟨hentries, hkeys⟩ := entries_text (v := .string s) rfl
    rw [List.map_cons, List.flatMap_cons, List.flatMap_cons, ih.1, ih.2, hentries, hkeys,
      ← List.filter_append, ← List.filter_append]
    exact ⟨rfl, rfl⟩

theorem callbackOf_concat (args : List LuaArg) (fn : Fn) :
    callbackOf (args ++ [.function fn]) = some fn ∧ argsOf (args ++ [.function fn]) = args := by
  have hcallback : callbackOf (args ++ [.function fn]) = some fn := by
    rw [callbackOf, List.getLast?_concat]
  exact ⟨hcallback, by rw [argsOf, hcallback, List.dropLast_concat]⟩

/-- The arguments of the command, behind its name. -/
theorem collect_strings (ss : List Bytes) (fn : Fn) (argv timers : List Bytes) :
    collect ((ascii "subscribe" :: ss).map .string ++ [.function fn]) = .ok argv timers ↔
      argv = ascii "subscribe" :: ss.filter (!isTimerKey ·) ∧ timers = ss.filter isTimerKey ∧
        argv.length ≤ LUA_MAX_STACK - 1 ∧ timers.length ≤ NB_TIMERS := by
  have hargs := (callbackOf_concat ((ascii "subscribe" :: ss).map .string) fn).2
  have hname : isTimerKey (ascii "subscribe") = false := by decide
  have hflat : ∀ v ∈ (ascii "subscribe" :: ss).map LuaArg.string, v.Flat := by
    intro v hv
    obtain ⟨s, -, rfl⟩ := List.mem_map.mp hv
    exact rfl
  have hkept : Kept ((ascii "subscribe" :: ss).map LuaArg.string) := by
    intro v hv u hu
    obtain ⟨s, -, rfl⟩ := List.mem_map.mp hv
    cases hu
  have hiff : collect ((ascii "subscribe" :: ss).map .string ++ [.function fn]) =
      .ok argv timers ↔ _ := collect_ok_iff (by rwa [hargs])
  rw [hargs, (entries_strings _).1, (entries_strings _).2, List.filter_cons, List.filter_cons,
    hname] at hiff
  simp only [Bool.false_eq_true, if_false, Bool.not_false, if_true] at hiff
  rw [hiff]
  constructor
  · rintro ⟨rfl, rfl, hargv, htimers, -⟩
    exact ⟨rfl, rfl, hargv, htimers⟩
  · rintro ⟨rfl, rfl, hargv, htimers⟩
    exact ⟨rfl, rfl, hargv, htimers, List.cons_ne_nil _ _, hkept⟩

/-! ## The command -/

namespace World
variable {w : World}

/-- An interval that is entered has a node from then on. -/
theorem subscribeTimer_lookup (cb : Nat) (w : World) (key : Bytes) :
    ((subscribeTimer cb w key).cc.timers.lookup timerCmp (timerKey key)).isSome ∧
      ∀ ikey, (w.cc.timers.lookup timerCmp ikey).isSome →
        ((subscribeTimer cb w key).cc.timers.lookup timerCmp ikey).isSome := by
  cases hleaf : w.cc.timers.lookup timerCmp (timerKey key) with
  | none =>
    rw [subscribeTimer_new hleaf]
    exact lookup_timersWith w.cc.timers cb (timerKey key)
  | some leaf =>
    rw [subscribeTimer_known hleaf]
    exact ⟨Option.isSome_of_eq_some hleaf, fun _ h => h⟩

theorem subscribeTimers_lookup (cb : Nat) (timers : List Bytes) (w : World) :
    (∀ key ∈ timers, ((timers.foldl (subscribeTimer cb) w).cc.timers.lookup timerCmp
        (timerKey key)).isSome) ∧
      ∀ ikey, (w.cc.timers.lookup timerCmp ikey).isSome →
        ((timers.foldl (subscribeTimer cb) w).cc.timers.lookup timerCmp ikey).isSome := by
  induction timers generalizing w with
  | nil => exact ⟨nofun, fun _ h => h⟩
  | cons key timers ih =>
    obtain ⟨hself, hgrow⟩ := subscribeTimer_lookup cb w key
    obtain ⟨hall, hkeep⟩ := ih (subscribeTimer cb w key)
    exact ⟨List.forall_mem_cons.mpr ⟨hkeep _ hself, hall⟩, fun ikey h => hkeep ikey (hgrow ikey h)⟩

variable {args : List LuaArg} {argv timers : List Bytes}

/-- The timer keys of a subscription get their nodes, whether it is sent or not. -/
theorem luaClientCommand_timers (hcollect : collect args = .ok argv timers) {p : Bool}
    (hkind : classify (argv.headD []) = .subscribe p) {key : Bytes} (hkey : key ∈ timers)
    (env : SendEnv) :
    ((w.luaClientCommand args env).cc.timers.lookup timerCmp (timerKey key)).isSome := by
  rw [luaClientCommand_eq hcollect, Touches.timerLookup (sendCommand_touches _ _ _ _ _ _) rfl, entered,
    hkind, registerCommand]
  exact (subscribeTimers_lookup _ timers _).1 key hkey

/-- A command that is taken notes its arguments first. -/
theorem luaClientCommand_noted (hcollect : collect args = .ok argv timers) (env : SendEnv) :
    w.trace ++ [.command (classify (argv.headD [])) argv timers (callbackOf args) w.heap.next] <+:
      (w.luaClientCommand args env).trace := by
  have hsent := (sendCommand_touches (w.entered argv timers (callbackOf args) env.flags)
    (classify (argv.headD [])).subMode (redisFormatCommandArgv argv)
    (if (classify (argv.headD [])).pending then some w.heap.next else none) w.nextCmd env.error).trace
  have hentered := (registerCommand_touches (w.noted (classify (argv.headD [])) argv timers
    (callbackOf args)) (classify (argv.headD [])) argv.tail timers (callbackOf args) env.flags).trace
  rw [luaClientCommand_eq hcollect]
  exact (List.prefix_append _ _).trans (hentered.trans hsent)

end World

/-! ## The condition -/

/-- `subscribe` is `command` on the keys the loop makes. -/
theorem luaClientSubscribe_eq {nums : Numerals} {keys : List Key} {ss : List Bytes}
    (hss : rewriteArgs nums 2 (keys.map Key.value) = .ok (ss.map .string)) (fn : Fn) (w : World)
    (env : SendEnv) :
    w.luaClientSubscribe nums (keys.map Key.value ++ [.function fn]) env =
      w.luaClientCommand ((ascii "subscribe" :: ss).map .string ++ [.function fn]) env := by
  rw [luaClientSubscribe, List.dropLast_concat, hss, List.getLast?_concat]
  rfl

/-- If `subscribe` does what `command` does on the documented keys, no string was taken for a
    number. -/
theorem not_numeric_of_same {nums : Numerals} {keys : List Key} {fn : Fn}
    (h : Rewrites nums keys fn) : ∀ k ∈ keys, ¬k.Numeric nums := by
  obtain ⟨argv, timers, hcollect⟩ := h.accepted
  have hsame := h.same (World.new true) ⟨0, false⟩
  have hnoted := luaClientCommand_noted (w := World.new true) hcollect ⟨0, false⟩
  rw [← hsame] at hnoted
  obtain ⟨ss, hss, hall⟩ | ⟨hfault, -⟩ := rewriteArgs_value nums 2 keys
  · rw [luaClientSubscribe_eq hss] at hnoted
    cases hcollect' : collect ((ascii "subscribe" :: ss).map .string ++ [.function fn]) with
    | ok argv' timers' =>
      have hnoted' := luaClientCommand_noted (w := World.new true) hcollect' ⟨0, false⟩
      have hle := List.prefix_of_prefix_length_le hnoted hnoted' (by simp)
      have heq := hle.eq_of_length (by simp)
      obtain ⟨-, hargv, -⟩ := Obs.command.inj (List.singleton_inj.mp heq)
      -- the same channels, so none is missing
      obtain ⟨rfl, -⟩ := (collect_strings (keys.map Key.documented) fn argv timers).mp hcollect
      obtain ⟨rfl, -⟩ := (collect_strings ss fn argv' timers').mp hcollect'
      exact (rewritten_channels hall).2 (congrArg List.length (List.cons.inj hargv).2).symm
    | raise e =>
      rw [luaClientCommand, hcollect'] at hnoted
      have heq := hnoted.eq_of_length rfl
      cases heq
    | fault f =>
      rw [luaClientCommand, hcollect'] at hnoted
      cases List.prefix_nil.mp hnoted
  · rw [luaClientSubscribe, List.dropLast_concat, hfault] at hnoted
    cases List.prefix_nil.mp hnoted

/-- **`subscribe` is `command` with prefixed keys**, with its numbers as timers, exactly if Lua
    takes no string for a number and the keys fit. -/
theorem subscribeRewrites (nums : Numerals) (keys : List Key) (fn : Fn) :
    Rewrites nums keys fn ↔ Rewritable nums keys := by
  have hiff := collect_strings (keys.map Key.documented) fn
  constructor
  · intro h
    obtain ⟨argv, timers, hcollect⟩ := h.accepted
    obtain ⟨rfl, rfl, hargv, htimers⟩ := (hiff argv timers).mp hcollect
    rw [List.length_cons] at hargv
    exact ⟨not_numeric_of_same h, htimers, by omega⟩
  · rintro ⟨hstrings, htimers, hchannels⟩
    have hargv : (ascii "subscribe" ::
        (keys.map Key.documented).filter (!isTimerKey ·)).length ≤ LUA_MAX_STACK - 1 := by
      have hmax : LUA_MAX_STACK = 8000 := rfl
      rw [List.length_cons]
      omega
    have hcollect := (hiff _ _).mpr ⟨rfl, rfl, hargv, htimers⟩
    obtain ⟨ss, hss, hall⟩ | ⟨-, k, hk, hnumeric⟩ := rewriteArgs_value nums 2 keys
    · obtain rfl := rewritten_documented hall hstrings
      have hsame : ∀ (w : World) env, w.luaClientSubscribe nums (keys.map Key.value ++ [.function fn]) env =
          w.luaClientCommand (commandArgs keys fn) env := luaClientSubscribe_eq hss fn
      -- each number has a node, and its key is the number
      have hregistered : ∀ (w : World) env n h, Key.number n h ∈ keys →
          Registered (w.luaClientCommand (commandArgs keys fn) env) n := by
        intro w env n hn hmem
        have hkey : TIMER_EVENT ++ decimal n ∈ (keys.map Key.documented).filter isTimerKey :=
          List.mem_filter.mpr ⟨List.mem_map.mpr ⟨_, hmem, rfl⟩, isTimerKey_append _⟩
        have hlookup := luaClientCommand_timers (w := w) hcollect (p := false) rfl hkey env
        obtain ⟨leaf, hleaf⟩ := Option.isSome_iff_exists.mp hlookup
        obtain ⟨ikey, val, hget, hcmp⟩ := SearchTree.Tree.exists_get?_of_lookup hleaf
        obtain rfl := timerCmp_eq_iff.mp hcmp
        exact ⟨leaf, _, val, by rw [searchTimer_eq]; exact hleaf, hget, timerKey_decimal hn⟩
      have hidempotent := rewriteArgs_documented nums 2 keys
      exact ⟨⟨_, _, hcollect⟩, hsame, fun w env n h hmem => hsame w env ▸ hregistered w env n h hmem,
        hidempotent⟩
    · exact absurd hnumeric (hstrings k hk)

/-- Numerals of digits only. -/
def decimalNumerals : Numerals where
  toInt s := if s ≠ [] ∧ s.all isdigit then some (digitsValue s) else none
  decimal n _ := by
    have hdigits : (decimal n).all isdigit = true :=
      List.all_eq_true.mpr fun d => isdigit_of_mem_decimal
    rw [if_pos ⟨decimal_ne_nil n, hdigits⟩, digitsValue_decimal]
  underscore s := if_neg fun h => by
    have hfirst : isdigit 95 = true := List.all_eq_true.mp h.2 95 List.mem_cons_self
    cases hfirst

/-- A key whose name consists of digits is subscribed to as a timer. -/
theorem subscribeRewrites_fails :
    ¬Rewrites decimalNumerals [.string (ascii "123") (by decide)] 1 := by
  intro h
  have hsame := h.same (World.new true) ⟨0, false⟩
  have htimer := congrArg (fun w => (searchTimer 123 w.cc.timers).isSome) hsame
  revert htimer
  decide +kernel

end CrazySnail
