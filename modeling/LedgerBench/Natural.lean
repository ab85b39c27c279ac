/-!
Powers and sums of natural numbers.

The bounds of machine words are powers, and counts are sums. Inside the library both mean the
operations of the core language, whatever other library a module imports, so that the program and
what is said about it use the same ones.
-/

namespace LedgerBench

attribute [scoped instance (10000)] instPowNat instNatPowNat Zero.ofOfNat0
attribute [default_instance 20000] instPowNat

end LedgerBench
