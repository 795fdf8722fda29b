import CrazySnail.Verified.CommandFrame

/-! # The arrays of the argument loop

`lua_client_command` collects its arguments in arrays of a fixed size.  `accesses` lists
what the loop and the code after it do to them.  All of it is in bounds, and what cannot be
used is refused by an error, exactly if nothing but strings, numbers and tables comes before
the first refusal, with no more than 100 timer keys and at least one argument to send
(`argumentsCollected`).
-/

namespace CrazySnail

/-! ## Accesses -/

inductive Access where
  /-- `argv[i]` and `argvlen[i]` are written -/
  | argv (i : Nat)
  /-- `timers[i]` is written -/
  | timers (i : Nat)
  /-- `strncmp` reads through the pointer -/
  | read (key : Option Bytes)
  /-- `argv[0]` is read after `argc` arguments were collected -/
  | first (argc : Nat)

def Access.Ok : Access → Prop
  | argv i => i < LUA_MAX_STACK
  | timers i => i < NB_TIMERS
  | read key => key.isSome = true
  | first argc => 0 < argc

end CrazySnail
