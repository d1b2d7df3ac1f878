import ClosedWorld.Instruction.Basic

/-!
# What instructions mention

An instruction can mention a method that it calls, a field that it reads or writes, a class as a type,
or a string constant. Arrays stand for their element class, and arrays of primitives mention nothing.
-/

namespace ClosedWorld

inductive Mention where
  | call (ref : MethodRef)
  | read (ref : FieldRef)
  | write (ref : FieldRef)
  | type (name : ClassName)
  | string (value : String)
deriving DecidableEq, Repr

def Instruction.mention? : Instruction → Option Mention
  | .invoke _ ref => some (.call ref)
  | .field access ref => some (if access.isWrite then .write ref else .read ref)
  | .new name => some (.type name)
  | .aNewArray type | .checkCast type | .instanceOf type | .multiANewArray type _ =>
    type.className?.map .type
  | .ldc (.string value) => some (.string value)
  | _ => none

end ClosedWorld
