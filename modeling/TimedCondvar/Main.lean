import TimedCondvar.Demo.Output

/-! The demonstration as a program. -/

open TimedCondvar.Demo

/-- The variables that the demonstration looks at. -/
def variableNames : List String :=
  ["RUST_LOG", "MONOSYNC_TRACE_JSON", "MONOSYNC_DEMO_DELAY_MS", "MONOSYNC_DEMO_SPACING_MS",
    "MONOSYNC_DEMO_EVENTS", "MONOSYNC_DEMO_BURSTS", "MONOSYNC_DEMO_CLOCK"]

def main : IO UInt32 := do
  let set ← variableNames.filterMapM fun name => do
    return (← IO.getEnv name).map fun value => (name, Variable.text value)
  let printed := print fun name => set.lookup name
  for line in printed.lines do
    IO.println line
  IO.eprint printed.errors
  return UInt32.ofNat printed.exitCode
