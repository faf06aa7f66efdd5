/-!
How long a sleep lasts. A sleep that asks for more than the longest one is woken early; a limit on
another wait is no sleep, and is kept in full.
-/

namespace Registrar.Sleep

/-- The milliseconds of the longest sleep: thirty years of 365 days. -/
def longest : Nat := 30 * 365 * 24 * 60 * 60 * 1000

/-- How long a sleep lasts that asks for so many milliseconds. -/
def lasting (duration : Nat) : Nat := min duration longest

end Registrar.Sleep
