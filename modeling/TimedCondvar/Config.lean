import TimedCondvar.Clock

/-! The configuration of a condition variable: the clock it is bound to. -/

namespace TimedCondvar

structure Config where
  clock : Clock := .monotonic
  deriving DecidableEq, Repr

namespace Config

def monotonic : Config := ⟨.monotonic⟩
def raw : Config := ⟨.monotonicRaw⟩
def boottime : Config := ⟨.boottime⟩

end Config

/-- The JSON text of a clock. -/
def Clock.json (c : Clock) : String := "\"" ++ c.key ++ "\""

/-- The JSON text of a configuration. -/
def Config.json (c : Config) : String := "\x7b\"clock\":" ++ c.clock.json ++ "\x7d"

end TimedCondvar
