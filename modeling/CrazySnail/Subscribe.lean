import CrazySnail.System

/-! # Subscriptions by key (`lua_client_subscribe`)

`subscribe` rewrites its arguments, all but the last, and goes on as `lua_client_command`
behind the command name.  Which strings Lua takes for numbers is up to Lua: `Numerals` is
what the function needs to know of it.
-/

namespace CrazySnail

/-- The largest `int`. -/
def INT_MAX : Nat := 2 ^ 31 - 1

/-- Lua's conversion of numbers (by their text) and strings: the `int` of what `lua_isnumber`
    accepts. -/
structure Numerals where
  toInt : Bytes → Option Int
  /-- decimal digits are a number -/
  decimal : ∀ n : Nat, n ≤ INT_MAX → toInt (decimal n) = some (n : Int)
  /-- no numeral starts with an underscore -/
  underscore : ∀ s, toInt (95 :: s) = none

/-- The names of Redis events. -/
def events : List Bytes :=
  [ascii "append", ascii "del",
   ascii "expire", ascii "evicted",
   ascii "incrby", ascii "incrbyfloat",
   ascii "hdel", ascii "hincrby", ascii "hincrbyfloat", ascii "hset",
   ascii "linsert", ascii "lpop", ascii "lpush", ascii "lset", ascii "ltrim",
   ascii "rename_from", ascii "rename_to", ascii "rpop", ascii "rpush",
   ascii "sadd", ascii "sdiffstore", ascii "set", ascii "setrange",
   ascii "sinterstore", ascii "sortstore", ascii "spop", ascii "srem", ascii "sunionostore",
   ascii "zadd", ascii "zincr", ascii "zinterstore", ascii "zrem", ascii "zrembyrank",
   ascii "zrembyscore", ascii "zunionstore"]

/-- Why a call of `subscribe` ends before the command. -/
inductive Stop where
  | raise (e : LuaError)
  | fault (f : Fault)
deriving Repr

/-- The room that `(int)(log10(timeout) + 1)` gives the digits. -/
def digitCount (timeout : Nat) : Nat := if timeout = 0 then 1 else Nat.log 10 timeout + 1

/-- `snprintf(buffer, len + 1, "%d", timeout)` -/
def formatTimeout (timeout : Nat) : Bytes := (decimal timeout).take (digitCount timeout)

/-- The key of a timer.  A negative number has no logarithm, and its buffer no size. -/
def rewriteNumber (timeout : Int) : Except Stop LuaArg :=
  if timeout < 0 then .error (.fault .badArgument)
  else .ok (.string (TIMER_EVENT ++ formatTimeout timeout.toNat))

/-- The test for `add_prefix` on a string. -/
def hasPrefix (key : Bytes) : Bool :=
  strncmp key KEY_SPACE (strlen KEY_SPACE) = .eq || strncmp key KEY_EVENT (strlen KEY_EVENT) = .eq
    || strncmp key TIMER_EVENT (strlen TIMER_EVENT) = .eq

/-- The key of a string. -/
def rewriteString (key : Bytes) : LuaArg :=
  if hasPrefix key then .string key
  else
    let event := events.any fun e => decide (strcmp e key = .eq)
    .string ((if event then KEY_EVENT else KEY_SPACE) ++ strdup key)

/-- `lua_typename` of a value that is no string. -/
def luaTypename : LuaArg → Bytes
  | .nil => ascii "nil"
  | .boolean _ => ascii "boolean"
  | .number _ => ascii "number"
  | .swept _ => ascii "number"
  | .string _ => ascii "string"
  | .table _ => ascii "table"
  | .function _ => ascii "function"
  | .other typename => typename

/-- One round of the argument loop, at a stack index. -/
def rewriteArg (nums : Numerals) (i : Nat) : LuaArg → Except Stop LuaArg
  | .number text => rewriteNumber ((nums.toInt text).getD 0)
  | .swept text => rewriteNumber ((nums.toInt text).getD 0)
  | .string key =>
    match nums.toInt key with
    | some timeout => rewriteNumber timeout
    | none => .ok (rewriteString key)
  -- `luaL_checkstring`
  | v => .error (.raise (.argError i (ascii "string expected, got " ++ luaTypename v)))

/-- The argument loop from a stack index on. -/
def rewriteArgs (nums : Numerals) : Nat → List LuaArg → Except Stop (List LuaArg)
  | _, [] => .ok []
  | i, v :: vs =>
    match rewriteArg nums i v with
    | .error stop => .error stop
    | .ok key =>
      match rewriteArgs nums (i + 1) vs with
      | .error stop => .error stop
      | .ok keys => .ok (key :: keys)

/-- `lua_client_subscribe` on the arguments after the client itself. -/
def World.luaClientSubscribe (w : World) (nums : Numerals) (args : List LuaArg) (env : SendEnv) :
    World :=
  match rewriteArgs nums 2 args.dropLast with
  | .error (.raise e) => w.log (.raised e)
  | .error (.fault f) => w.crash f
  | .ok keys =>
    w.luaClientCommand (.string (ascii "subscribe") :: (keys ++ args.getLast?.toList)) env

end CrazySnail
