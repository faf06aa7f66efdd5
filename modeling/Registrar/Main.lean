import Registrar.CommandLine
import Std.Async.Signal

/-!
The program. It reads its settings from the environment and stays up until it is interrupted; if it
cannot start, it says why and ends with status 1.
-/

namespace Registrar.Main

/-- The variables of a node that the environment has, with their values. -/
def environment : IO (List (String × String)) :=
  Variable.all.filterMapM fun var => do
    return (← IO.getEnv var.name).map fun value => (var.name, value)

/-- Wait until the user interrupts the program. -/
def awaitInterrupt : IO Unit := do
  let waiter ← Std.Async.Signal.Waiter.mk .sigint false
  let _ ← (← waiter.wait).block

end Registrar.Main

def main : IO UInt32 := do
  let settings ← Registrar.Main.environment
  match Registrar.CommandLine.start fun name => settings.lookup name with
  | .ok _ =>
    Registrar.Main.awaitInterrupt
    return 0
  | .error refusal =>
    IO.eprint refusal.report
    return 1
