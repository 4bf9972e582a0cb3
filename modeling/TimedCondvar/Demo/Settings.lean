import TimedCondvar.Config.Reader
import TimedCondvar.Wait.Record

/-!
What the demonstration takes from its environment: how it logs, and how many events come how
fast on which clock. A variable that is not set, or is not text, has its default.
-/

namespace TimedCondvar.Demo

/-- The value of an environment variable. -/
inductive Variable
  | text (s : String)
  | bytes
  deriving DecidableEq, Repr

abbrev Environment := String → Option Variable

def Environment.text? (env : Environment) (name : String) : Option String :=
  match env name with
  | some (.text s) => some s
  | _ => none

/-! ### Failures -/

/-- Why the demonstration ended early: what it was at, and the errors behind, the nearest
first. -/
structure Failure where
  context : String
  causes : List String
  deriving DecidableEq, Repr

namespace Failure

/-- A text of several lines, all but the first set in. -/
def indented (margin : String) (s : String) : String :=
  String.ofList (s.toList.flatMap fun c => if c = '\n' then c :: margin.toList else [c])

/-- The causes with their numbers, from `n` on. -/
def numbered : Nat → List String → String
  | _, [] => ""
  | n, c :: cs =>
    let number := Numeral.decimal n
    "".pushn ' ' (5 - number.length) ++ number ++ ": " ++ indented "       " c ++ "\n"
      ++ numbered (n + 1) cs

/-- The report on the error output. Several causes are numbered. -/
def report (f : Failure) : String :=
  "Error: " ++ f.context ++ "\n" ++ match f.causes with
    | [] => ""
    | [c] => "\nCaused by:\n    " ++ indented "    " c ++ "\n"
    | cs => "\nCaused by:\n" ++ numbered 0 cs

end Failure

/-! ### Logging -/

/-- How the log is written: as objects or as lines, and which levels of it. -/
structure Logging where
  json : Bool
  least : Option Level
  deriving DecidableEq, Repr

namespace Logging

def leastOf : String → Option Level
  | "off" => none
  | "error" => some .error
  | "warn" => some .warn
  | "debug" => some .debug
  | "trace" => some .trace
  | _ => some .info

def ofEnvironment (env : Environment) : Logging where
  json := env.text? "MONOSYNC_TRACE_JSON" ∈ [some "1", some "true"]
  least := leastOf ((env.text? "RUST_LOG").getD "info")

def shows (l : Logging) (level : Level) : Bool :=
  l.least.any fun least => least.severity ≤ level.severity

end Logging

/-! ### Settings -/

def defaultDelay : Duration := .ofMillis 50
def defaultSpacing : Duration := .ofMillis 5
def defaultEvents : Nat := 20
def defaultBursts : Nat := 3

structure Settings where
  delay : Duration := defaultDelay
  spacing : Duration := defaultSpacing
  events : Nat := defaultEvents
  bursts : Nat := defaultBursts
  clock : Clock := default
  deriving DecidableEq, Repr

/-- A number of 64 bits. -/
def Environment.number (env : Environment) (name : String) (default : Nat) :
    Except Failure Nat :=
  match env.text? name with
  | none => .ok default
  | some value =>
    (Numeral.read unsignedLimit value).mapError fun e =>
      ⟨"Invalid " ++ name ++ "=" ++ value, [e.message]⟩

/-- The text of a configuration with `value` set in as the name of the clock. -/
def configText (value : String) : String := "\x7b \"clock\": \"" ++ value ++ "\" \x7d"

def Environment.clock (env : Environment) (name : String) : Except Failure Clock :=
  match env.text? name with
  | none => .ok default
  | some value =>
    let text := configText value
    match Config.ofJson text with
    | .ok config => .ok config.clock
    | .error f => .error ⟨"Unknown clock " ++ value, [f.message text.toList]⟩

/-- The settings, or the first variable that makes no sense. -/
def Settings.ofEnvironment (env : Environment) : Except Failure Settings := do
  let delay ← env.number "MONOSYNC_DEMO_DELAY_MS" (defaultDelay.totalNanos / nanosPerMilli)
  let spacing ← env.number "MONOSYNC_DEMO_SPACING_MS" (defaultSpacing.totalNanos / nanosPerMilli)
  let events ← env.number "MONOSYNC_DEMO_EVENTS" defaultEvents
  let bursts ← env.number "MONOSYNC_DEMO_BURSTS" defaultBursts
  let clock ← env.clock "MONOSYNC_DEMO_CLOCK"
  return ⟨.ofMillis delay, .ofMillis spacing, events, bursts, clock⟩

end TimedCondvar.Demo
