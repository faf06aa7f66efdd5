import Registrar.Settings

/-!
The command line. A node starts if its settings can be read, are valid, and name an endpoint that it
serves; else it reports what it was doing and why that failed, and ends with status 1.
-/

namespace Registrar.CommandLine

/-- What stands in the way of a start. -/
inductive Refusal where
  | loading (error : SettingsError)
  | validating (error : SettingsError)
  | unsupportedEndpoint (endpoint : String)
  deriving DecidableEq, Repr

def Refusal.context : Refusal → String
  | .loading _ => "Failed to load configuration"
  | .validating _ => "Invalid configuration"
  | .unsupportedEndpoint _ => "Failed to initialize subsystems"

def Refusal.cause : Refusal → String
  | .loading error | .validating error => error.message
  | .unsupportedEndpoint endpoint =>
    s!"Unsupported chain endpoint '{endpoint}': only dev:// endpoints are available"

/-- Context and cause on one line. -/
def Refusal.message (refusal : Refusal) : String := s!"{refusal.context}: {refusal.cause}"

/-- Four spaces before every line but the first. -/
def indentLines (text : List Char) : List Char :=
  text.flatMap fun c => if c = '\n' then ['\n', ' ', ' ', ' ', ' '] else [c]

/-- What is written for the user, the cause on lines of its own. -/
def Refusal.report (refusal : Refusal) : String :=
  s!"Error: {refusal.context}\n\nCaused by:\n    {String.ofList (indentLines refusal.cause.toList)}\n"

/-- The settings a node starts with, or why it does not start. -/
def start (lookup : String → Option String) : Except Refusal Settings :=
  match Settings.load lookup with
  | .error error => .error (.loading error)
  | .ok settings =>
    match settings.validate with
    | .error error => .error (.validating error)
    | .ok () =>
      if settings.isServed then .ok settings else .error (.unsupportedEndpoint settings.endpoint)

end Registrar.CommandLine
