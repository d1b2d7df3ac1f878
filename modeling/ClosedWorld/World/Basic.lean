import ClosedWorld.Declaration
import ClosedWorld.World.Hierarchy
import ClosedWorld.World.References

/-!
# Worlds

A world is a closed set of classes in order of registration, each with the identifiers that it and its
members were given, together with what was derived from them: the hierarchy by linking and the
references by indexing. The stage says how far the derived part can be trusted; what is stale stays
visible until it is derived again.
-/

namespace ClosedWorld

structure MethodEntry where
  id : MethodId
  decl : MethodDecl
deriving DecidableEq

structure FieldEntry where
  id : FieldId
  decl : FieldDecl
deriving DecidableEq

structure ClassEntry extends ClassHeader where
  id : ClassId
  methods : List MethodEntry
  fields : List FieldEntry
deriving DecidableEq

namespace ClassEntry

def decl (c : ClassEntry) : ClassDecl :=
  { c.toClassHeader with methods := c.methods.map (·.decl), fields := c.fields.map (·.decl) }

def methodIds (c : ClassEntry) : List MethodId := c.methods.map (·.id)

def fieldIds (c : ClassEntry) : List FieldId := c.fields.map (·.id)

def findMethod? (c : ClassEntry) (name : MemberName) (d : MethodDescriptor) : Option MethodEntry :=
  c.methods.find? fun m => m.decl.name = name ∧ m.decl.descriptor = d

def findField? (c : ClassEntry) (name : MemberName) (t : FieldType) : Option FieldEntry :=
  c.fields.find? fun f => f.decl.name = name ∧ f.decl.type = t

end ClassEntry

/-- Which references are indexed besides calls and field accesses. -/
structure Settings where
  types : Bool := true
  strings : Bool := true
  fieldTypes : Bool := true
deriving DecidableEq, Repr

def Settings.membersOnly : Settings := ⟨false, false, false⟩

/-- How far the derived part of a world agrees with its classes. -/
inductive Stage where
  | unlinked | linked | indexed
deriving DecidableEq, Repr

/-- The stage after an edit that leaves the hierarchy right but not the references. -/
def Stage.withoutIndex : Stage → Stage
  | indexed => linked
  | s => s

/-- How many identifiers of each sort were given out. -/
structure Issued where
  classes : Nat := 0
  methods : Nat := 0
  fields : Nat := 0
deriving DecidableEq, Repr

inductive WorldError where
  | notLinked
  | cyclicInheritance (name : ClassName)
deriving DecidableEq, Repr

def WorldError.message : WorldError → String
  | .notLinked => "class pool has not been linked since it was last modified"
  | .cyclicInheritance name => "cyclic inheritance involving '" ++ name.text ++ "'"

structure World where
  settings : Settings := {}
  /-- In order of registration. -/
  classes : List ClassEntry := []
  issued : Issued := {}
  hierarchy : Hierarchy := {}
  references : References := {}
  stage : Stage := .unlinked
deriving DecidableEq

namespace World

def empty (settings : Settings) : World := { settings }

def ids (w : World) : List ClassId := w.classes.map (·.id)

def decls (w : World) : List ClassDecl := w.classes.map (·.decl)

def class? (w : World) (id : ClassId) : Option ClassEntry :=
  w.classes.find? (·.id = id)

def named? (w : World) (name : ClassName) : Option ClassEntry :=
  w.classes.find? (·.name = name)

def lookup? (w : World) (name : ClassName) : Option ClassId :=
  (w.named? name).map (·.id)

def methods (w : World) : List (ClassEntry × MethodEntry) :=
  w.classes.flatMap fun c => c.methods.map (c, ·)

def fields (w : World) : List (ClassEntry × FieldEntry) :=
  w.classes.flatMap fun c => c.fields.map (c, ·)

def method? (w : World) (id : MethodId) : Option (ClassEntry × MethodEntry) :=
  w.methods.find? (·.2.id = id)

def field? (w : World) (id : FieldId) : Option (ClassEntry × FieldEntry) :=
  w.fields.find? (·.2.id = id)

end World
end ClosedWorld
