/-!
The ranges of numbers that fill 64 bits. Arithmetic here is exact; what has to stay in range says
so by these limits.
-/

namespace TimedCondvar

/-- Two to the power of 64; unsigned numbers are below it. -/
def unsignedLimit : Nat := 18446744073709551616

/-- Two to the power of 63; signed numbers are below it, and not below its negative. -/
def signedLimit : Nat := 9223372036854775808

theorem unsignedLimit_eq : unsignedLimit = 2 * signedLimit := rfl

end TimedCondvar
