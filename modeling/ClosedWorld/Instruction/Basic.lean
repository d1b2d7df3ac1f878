import ClosedWorld.Descriptor.Basic
import ClosedWorld.FloatBits
import ClosedWorld.Instruction.Plain

/-!
# Instructions of method bodies

Members and types are referenced by name, jump targets are labels, and labels and line numbers stand
in the body as pseudo-instructions. The short and the wide encodings of an instruction are one
instruction here.
-/

namespace ClosedWorld

structure Label where
  number : UInt32
deriving DecidableEq, Repr

def Label.name (l : Label) : String := "L" ++ toString l.number.toNat

inductive Constant where
  | int (value : Int32)
  | long (value : Int64)
  | float (value : Single)
  | double (value : Double)
  | string (value : String)
  | classRef (type : RefType)
deriving DecidableEq, Repr

/-- A field, through the class by which it is accessed. -/
structure FieldRef where
  owner : ClassName
  name : MemberName
  type : FieldType
deriving DecidableEq, Repr

/-- A method, through the class or interface by which it is invoked. -/
structure MethodRef where
  owner : ClassName
  name : MemberName
  descriptor : MethodDescriptor
  ownerIsInterface : Bool
deriving DecidableEq, Repr

inductive LocalKind where
  | int | long | float | double | reference
deriving DecidableEq, Repr

inductive IntegralKind where
  | int | long
deriving DecidableEq, Repr

inductive FloatingKind where
  | float | double
deriving DecidableEq, Repr

inductive Shift where
  | left | logicalRight | arithmeticRight
deriving DecidableEq, Repr

/-- What a comparison with NaN gives: less or greater. -/
inductive NaNOrder where
  | less | greater
deriving DecidableEq, Repr

inductive Comparison where
  | eq | ge | gt | le | lt | ne
deriving DecidableEq, Repr

inductive Equality where
  | eq | ne
deriving DecidableEq, Repr

inductive FieldAccess where
  | getStatic | putStatic | getField | putField
deriving DecidableEq, Repr

def FieldAccess.isWrite : FieldAccess → Bool
  | putStatic | putField => true
  | getStatic | getField => false

inductive InvokeMode where
  | virtualCall | specialCall | staticCall | interfaceCall
deriving DecidableEq, Repr

inductive Instruction where
  | plain (op : PlainOp)
  | bipush (value : Int8)
  | sipush (value : Int16)
  | ldc (value : Constant)
  | load (kind : LocalKind) (index : UInt16)
  | store (kind : LocalKind) (index : UInt16)
  | shift (kind : IntegralKind) (shift : Shift)
  | iinc (index : UInt16) (amount : Int16)
  | compare (kind : FloatingKind) (nan : NaNOrder)
  | ifInt (comparison : Comparison) (target : Label)
  | ifIntCompare (comparison : Comparison) (target : Label)
  | ifRefCompare (comparison : Equality) (target : Label)
  | ifNull (comparison : Equality) (target : Label)
  | goto (target : Label)
  | tableSwitch (fallback : Label) (low : Int32) (targets : List Label)
  | lookupSwitch (fallback : Label) (targets : List (Int32 × Label))
  | field (access : FieldAccess) (ref : FieldRef)
  | invoke (mode : InvokeMode) (ref : MethodRef)
  | invokeDynamic (name : MemberName) (descriptor : MethodDescriptor)
  | new (name : ClassName)
  | newArray (element : BaseType)
  | aNewArray (element : RefType)
  | checkCast (type : RefType)
  | instanceOf (type : RefType)
  | multiANewArray (type : RefType) (dimensions : UInt8)
  | label (l : Label)
  | lineNumber (line : UInt16) (start : Label)
deriving DecidableEq

/-- Equality of constants, where floating point constants are compared as numbers. -/
def Constant.agrees : Constant → Constant → Bool
  | .float x, .float y => x.agrees y
  | .double x, .double y => x.agrees y
  | x, y => x == y

/-- Equality of instructions up to the comparison of their constants. -/
def Instruction.agrees : Instruction → Instruction → Bool
  | .ldc x, .ldc y => x.agrees y
  | i, j => i == j

end ClosedWorld
