import Mathlib.Data.Nat.Notation

/-! # Memory management types

Constants and types of `kernel::mm` that page tables use.
-/
namespace OpenIon.Mm

def pageSize : ℕ := 4096

def pageShift : ℕ := 12

structure MemPerms where
  read : Bool
  write : Bool
  execute : Bool
  deriving DecidableEq

def MemPerms.NonEmpty (perms : MemPerms) : Prop :=
  (perms.read || perms.write || perms.execute) = true

instance (perms : MemPerms) : Decidable perms.NonEmpty :=
  inferInstanceAs (Decidable ((perms.read || perms.write || perms.execute) = true))

inductive MmError where
  | outOfMemory
  | alreadyMapped
  | notMapped
  | invalidAlignment
  | invalidRegion
  deriving DecidableEq

end OpenIon.Mm
