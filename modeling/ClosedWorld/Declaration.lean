import ClosedWorld.AccessFlags
import ClosedWorld.Code.Body
import ClosedWorld.Descriptor.Format

/-!
# Declarations

A class as it is handed to a world: its header and its members, with nothing derived. Declarations are
built from text, and the first fault in reading order is reported.
-/

namespace ClosedWorld

inductive DeclError where
  | malformedName (e : NameError)
  | malformedDescriptor (text : String) (e : DescriptorError)
deriving DecidableEq, Repr

def DeclError.message : DeclError → String
  | .malformedName e => "malformed name: " ++ e.message
  | .malformedDescriptor text e => s!"malformed descriptor: '{text}': " ++ e.message

def ClassName.parse (text : String) : Except DeclError ClassName :=
  (ClassName.ofString text).mapError .malformedName

def MemberName.parse (text : String) : Except DeclError MemberName :=
  (MemberName.ofString text).mapError .malformedName

/-- The name of a member and its descriptor, of which the name is looked at first. -/
def parseMember {α : Type} [Descriptor α] (name descriptor : String) :
    Except DeclError (MemberName × α) := do
  let n ← MemberName.parse name
  let d ← (Descriptor.parse descriptor).mapError (.malformedDescriptor descriptor)
  pure (n, d)

structure FieldDecl where
  name : MemberName
  type : FieldType
  flags : Flags FieldFlag
deriving DecidableEq

def FieldDecl.parse (name descriptor : String) (flags : Flags FieldFlag) :
    Except DeclError FieldDecl := do
  let (n, t) ← parseMember name descriptor
  pure ⟨n, t, flags⟩

/-- A method with its body, which is empty for an abstract or native method. -/
structure MethodDecl where
  name : MemberName
  descriptor : MethodDescriptor
  flags : Flags MethodFlag
  body : Body := []
deriving DecidableEq

def MethodDecl.parse (name descriptor : String) (flags : Flags MethodFlag) :
    Except DeclError MethodDecl := do
  let (n, d) ← parseMember name descriptor
  pure ⟨n, d, flags, []⟩

/-- What a class declares besides its members. -/
structure ClassHeader where
  name : ClassName
  super? : Option ClassName
  interfaces : List ClassName := []
  flags : Flags ClassFlag
deriving DecidableEq

namespace ClassHeader

/-- The name of the superclass is looked at before the name of the class. -/
def parse (name : String) (super? : Option String) (flags : Flags ClassFlag) :
    Except DeclError ClassHeader := do
  let s ← super?.mapM ClassName.parse
  let n ← ClassName.parse name
  pure ⟨n, s, [], flags⟩

/-- A public interface under the root class. -/
def interface (name : ClassName) : ClassHeader :=
  ⟨name, some .object, [], .ofList ClassFlag.publicInterface⟩

def isInterface (h : ClassHeader) : Bool := h.flags.has .accInterface

end ClassHeader

structure ClassDecl extends ClassHeader where
  methods : List MethodDecl := []
  fields : List FieldDecl := []
deriving DecidableEq

/-- A method as `owner.name` and its descriptor. -/
def MethodDecl.identifier (owner : ClassName) (m : MethodDecl) : String :=
  owner.text ++ "." ++ m.name.text ++ Descriptor.toString m.descriptor

/-- A field as `owner.name`. -/
def FieldDecl.identifier (owner : ClassName) (f : FieldDecl) : String :=
  owner.text ++ "." ++ f.name.text

end ClosedWorld
