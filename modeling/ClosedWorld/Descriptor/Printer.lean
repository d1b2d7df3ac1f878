import ClosedWorld.Descriptor.Basic

/-!
# Printing descriptors

Each kind of descriptor prints as a list of characters. A class name stands between `L` and `;`, a
type has one `[` for each dimension, and a method has its parameters in parentheses.
-/

namespace ClosedWorld

def BaseType.render (b : BaseType) : List Char := [b.letter]

def ClassName.render (n : ClassName) : List Char := 'L' :: (n.text.toList ++ [';'])

def Element.render : Element → List Char
  | .base b => b.render
  | .object name => name.render

def FieldType.render (t : FieldType) : List Char :=
  List.replicate t.dimensions '[' ++ t.element.render

def RefType.render (t : RefType) : List Char := t.type.render

def MethodDescriptor.renderReturn : Option FieldType → List Char
  | none => ['V']
  | some t => t.render

def MethodDescriptor.render (d : MethodDescriptor) : List Char :=
  '(' :: (d.parameters.flatMap FieldType.render ++ ')' :: renderReturn d.returnType?)

end ClosedWorld
