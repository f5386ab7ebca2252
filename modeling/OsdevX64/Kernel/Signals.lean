import Mathlib.Data.BitVec

/-!
# Signals

What the kernel delivers to a module, from `module.h`.
-/

namespace OsdevX64.Kernel

/-- `ModuleKeyEvent`. -/
structure ModuleKeyEvent where
  key : BitVec 32
  codepoint : BitVec 32
  released : BitVec 32
  deriving DecidableEq, Repr

/-- `SignalId` with its data.  The function table that INIT carries is the same
for every module. -/
inductive Signal
  | init
  | keyboard (e : ModuleKeyEvent)
  | timer
  deriving DecidableEq, Repr

end OsdevX64.Kernel
