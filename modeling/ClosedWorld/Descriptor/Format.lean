import ClosedWorld.Descriptor.Printer
import ClosedWorld.Descriptor.Reader

/-!
# Kinds of descriptors

A descriptor pairs a printer with a reader. There are five kinds: primitive types, classes, reference
types, field types and methods.
-/

namespace ClosedWorld

class Descriptor (α : Type) where
  render : α → List Char
  read : Read α

namespace Descriptor
variable {α : Type} [Descriptor α]

def parse (s : String) : Except DescriptorError α :=
  (read : Read α).whole s

def toString (a : α) : String :=
  String.ofList (render a)

instance : Descriptor BaseType := ⟨BaseType.render, Reader.baseType⟩

instance : Descriptor ClassName := ⟨ClassName.render, Reader.className⟩

instance : Descriptor RefType := ⟨RefType.render, Reader.refType⟩

instance : Descriptor FieldType := ⟨FieldType.render, Reader.fieldType⟩

instance : Descriptor MethodDescriptor := ⟨MethodDescriptor.render, Reader.methodDescriptor⟩

end Descriptor

inductive DescriptorKind where
  | base | classRef | ref | field | method
deriving DecidableEq, Repr

namespace DescriptorKind

def Value : DescriptorKind → Type
  | base => BaseType
  | classRef => ClassName
  | ref => RefType
  | field => FieldType
  | method => MethodDescriptor

instance : (k : DescriptorKind) → Descriptor k.Value
  | base => inferInstanceAs (Descriptor BaseType)
  | classRef => inferInstanceAs (Descriptor ClassName)
  | ref => inferInstanceAs (Descriptor RefType)
  | field => inferInstanceAs (Descriptor FieldType)
  | method => inferInstanceAs (Descriptor MethodDescriptor)

/-- The reader after one read of each kind in turn, whether or not the reads succeed. -/
def readAll (l : List DescriptorKind) (r : Reader) : Reader :=
  l.foldl (fun r k => ((Descriptor.read : Read k.Value) r).2) r

end DescriptorKind
end ClosedWorld
