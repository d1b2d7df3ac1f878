/-!
# Identifiers of classes and members

A world numbers its classes, its methods and its fields, each in order of registration. No number is
used twice.
-/

namespace ClosedWorld

structure ClassId where
  val : Nat
deriving DecidableEq, Repr

structure MethodId where
  val : Nat
deriving DecidableEq, Repr

structure FieldId where
  val : Nat
deriving DecidableEq, Repr

end ClosedWorld
