import Nanofile.Base.Common

/-!
# The traversal guard

Every walk over a tree counts its levels and the nodes it visits, and fails once
a process-wide limit is passed.
-/

set_option autoImplicit false

namespace Nanofile

/-- `MAX_TREE_DEPTH` and `MAX_TREE_VISITS`, both at least one once configured. -/
structure Limits where
  maxDepth : Nat
  maxVisits : Nat
deriving DecidableEq, Repr

def defaultLimits : Limits := ⟨512, 1000000⟩

def configure (maxDepth maxVisits : Nat) : Limits := ⟨max maxDepth 1, max maxVisits 1⟩

/-- The error of `TreeGuard::enter_level`. -/
def Limits.tooDeep (limits : Limits) : AppError :=
  .badRequest ("directory tree traversal exceeded the maximum depth (" ++
    toString limits.maxDepth ++ ")")

/-- The error of `TreeGuard::visit`. -/
def Limits.tooWide (limits : Limits) : AppError :=
  .badRequest ("directory tree traversal exceeded the maximum node count (" ++
    toString limits.maxVisits ++ ")")

end Nanofile
