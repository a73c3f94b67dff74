/-!
# The bounds of words

The numbers that fit into words of 32 and 64 bits, where a setting, an index or an integer is
limited to one.
-/

namespace Flowgraph.Decimal

/-- The largest natural number in 32 bits. -/
abbrev maxNat32 : Nat := 4294967295

/-- The largest natural number in 64 bits. -/
abbrev maxNat64 : Nat := 18446744073709551615

/-- The least integer in 64 bits. -/
abbrev minInt64 : Int := -9223372036854775808

/-- The largest integer in 64 bits. -/
abbrev maxInt64 : Int := 9223372036854775807

end Flowgraph.Decimal
