/-!
Fault rules. A rule waits for the calls in its scope, lets some of them pass, and then takes over a
number of calls or all that follow. Of several rules the first that is due takes a call.
-/

namespace Registrar

/-- A rule over calls that match its scope. -/
structure Fault (κ ε : Type) where
  scope : κ
  /-- How many matching calls pass before the rule is due. -/
  skip : Nat
  /-- How many calls the rule may still take, if there is a limit. -/
  times : Option Nat
  effect : ε
  deriving DecidableEq, Repr

namespace Fault

variable {κ ε : Type}

/-- The effect of the first rule that is due for a call, if any, and the rules after the call. A
spent rule sees nothing; a rule that still waits counts the call. -/
def fire (covers : κ → Bool) : List (Fault κ ε) → Option ε × List (Fault κ ε)
  | [] => (none, [])
  | rule :: rest =>
    if !covers rule.scope || rule.times == some 0 then
      let (effect, rest) := fire covers rest
      (effect, rule :: rest)
    else if 0 < rule.skip then
      let (effect, rest) := fire covers rest
      (effect, { rule with skip := rule.skip - 1 } :: rest)
    else (some rule.effect, { rule with times := rule.times.map (· - 1) } :: rest)

@[simp] theorem fire_nil (covers : κ → Bool) : fire covers ([] : List (Fault κ ε)) = (none, []) := rfl

end Fault

end Registrar
