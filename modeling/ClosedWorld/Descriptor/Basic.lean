import ClosedWorld.Name

/-!
# The types that descriptors denote

A field type is an innermost element, primitive or a class, under a number of array dimensions. A
reference type is a field type that is not a bare primitive.
-/

namespace ClosedWorld

inductive BaseType where
  | byte | char | double | float | int | long | short | boolean
deriving DecidableEq, Repr

namespace BaseType

def letter : BaseType → Char
  | byte => 'B'
  | char => 'C'
  | double => 'D'
  | float => 'F'
  | int => 'I'
  | long => 'J'
  | short => 'S'
  | boolean => 'Z'

def ofLetter? (c : Char) : Option BaseType :=
  [byte, char, double, float, int, long, short, boolean].find? fun b => b.letter = c

def isWide : BaseType → Bool
  | long | double => true
  | _ => false

end BaseType

/-- What remains of a type without its array dimensions. -/
inductive Element where
  | base (b : BaseType)
  | object (name : ClassName)
deriving DecidableEq, Repr

structure FieldType where
  element : Element
  dimensions : Nat := 0
deriving DecidableEq, Repr

namespace FieldType

def base (b : BaseType) : FieldType := ⟨.base b, 0⟩

def object (name : ClassName) : FieldType := ⟨.object name, 0⟩

def array (t : FieldType) : FieldType := { t with dimensions := t.dimensions + 1 }

def arrays (n : Nat) (t : FieldType) : FieldType := Nat.repeat array n t

/-- The local variable slots that a value takes. -/
def slots (t : FieldType) : Nat :=
  match t with
  | ⟨.base b, 0⟩ => if b.isWide then 2 else 1
  | _ => 1

/-- The class that the type mentions: its innermost element, if that is no primitive. -/
def className? (t : FieldType) : Option ClassName :=
  match t.element with
  | .base _ => none
  | .object name => some name

def isReference (t : FieldType) : Bool :=
  t.dimensions != 0 || t.className?.isSome

end FieldType

/-- A type whose values are references: a class or an array. -/
structure RefType where
  type : FieldType
  is_reference : type.isReference = true
deriving DecidableEq, Repr

namespace RefType

def object (name : ClassName) : RefType := ⟨.object name, rfl⟩

/-- The array type with one dimension more than `extra`. -/
def array (element : Element) (extra : Nat) : RefType :=
  ⟨⟨element, extra + 1⟩, rfl⟩

def className? (t : RefType) : Option ClassName := t.type.className?

def dimensions (t : RefType) : Nat := t.type.dimensions

end RefType

/-- Parameter types and return type; no return type is `void`. -/
structure MethodDescriptor where
  parameters : List FieldType
  returnType? : Option FieldType
deriving DecidableEq, Repr

/-- The local variable slots that the arguments take, with one more for a receiver. -/
def MethodDescriptor.argumentSlots (d : MethodDescriptor) (hasReceiver : Bool) : Nat :=
  d.parameters.foldr (fun t n => t.slots + n) hasReceiver.toNat

end ClosedWorld
