/-!
Contract: the machines the servers run on.

Owns: the size of their pointers.

Does not own: the records that hold pointers.
-/

set_option autoImplicit false

namespace SimpleDfs.Wire

/-- The machine the servers run on. -/
inductive Abi where
  | ilp32
  | lp64
  deriving DecidableEq, Repr

def Abi.pointerSize : Abi → Nat
  | .ilp32 => 4
  | .lp64 => 8

end SimpleDfs.Wire
