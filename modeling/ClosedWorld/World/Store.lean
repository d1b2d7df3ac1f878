import ClosedWorld.World.History

/-!
# Slots

The declared part of a world laid out by identifiers. Classes, methods and fields have a row of slots
each, one slot for every identifier that was given out, and an index of names keeps the order of
registration. A class lists its members by their identifiers and a member names its owner. Taking a class
out empties its slot and those of its members, and an empty slot is not filled again. Nothing derived is
stored, so linking and indexing leave the slots alone.
-/

namespace ClosedWorld

/-- A row of slots. The slot of what was taken out is empty. -/
abbrev Slots (α : Type) := List (Option α)

namespace Slots
variable {α : Type}

def get? (s : Slots α) (i : Nat) : Option α := s[i]?.join

/-- Empties some slots one after the other. The answer is what was in them. -/
def takeAll (s : Slots α) : List Nat → List α × Slots α
  | [] => ([], s)
  | i :: is =>
    match s.get? i with
    | none => takeAll s is
    | some a =>
      let (as, s) := takeAll (s.set i none) is
      (a :: as, s)

end Slots

structure StoredClass extends ClassHeader where
  id : ClassId
  methods : List MethodId
  fields : List FieldId
deriving DecidableEq

structure StoredMember (ι δ : Type) where
  id : ι
  owner : ClassId
  ownerName : ClassName
  decl : δ
deriving DecidableEq

structure Store where
  classes : Slots StoredClass := []
  methods : Slots (StoredMember MethodId MethodDecl) := []
  fields : Slots (StoredMember FieldId FieldDecl) := []
  /-- In order of registration. -/
  names : List (ClassName × ClassId) := []
deriving DecidableEq

namespace Store

def class? (s : Store) (id : ClassId) : Option StoredClass := s.classes.get? id.val

def method? (s : Store) (id : MethodId) : Option (StoredMember MethodId MethodDecl) :=
  s.methods.get? id.val

def field? (s : Store) (id : FieldId) : Option (StoredMember FieldId FieldDecl) :=
  s.fields.get? id.val

def lookup? (s : Store) (name : ClassName) : Option ClassId :=
  (s.names.find? (·.1 = name)).map (·.2)

def contains (s : Store) (name : ClassName) : Bool := s.names.any (·.1 = name)

def ids (s : Store) : List ClassId := s.names.map (·.2)

def methodsOf (s : Store) (id : ClassId) : List (StoredMember MethodId MethodDecl) :=
  (s.class? id).toList.flatMap (·.methods.filterMap s.method?)

def fieldsOf (s : Store) (id : ClassId) : List (StoredMember FieldId FieldDecl) :=
  (s.class? id).toList.flatMap (·.fields.filterMap s.field?)

def findMethod? (s : Store) (c : ClassId) (name : MemberName) (d : MethodDescriptor) :
    Option MethodId :=
  ((s.methodsOf c).find? fun m => m.decl.name = name ∧ m.decl.descriptor = d).map (·.id)

def findField? (s : Store) (c : ClassId) (name : MemberName) (t : FieldType) : Option FieldId :=
  ((s.fieldsOf c).find? fun f => f.decl.name = name ∧ f.decl.type = t).map (·.id)

/-- Empties the slot of a class and then those of its members, and puts the declaration together again
from what was in them. The name stays in the index. -/
def takeClass? (s : Store) (id : ClassId) : Option (ClassDecl × Store) := do
  let c ← s.class? id
  let (methods, methodSlots) := s.methods.takeAll (c.methods.map (·.val))
  let (fields, fieldSlots) := s.fields.takeAll (c.fields.map (·.val))
  pure ({ c.toClassHeader with methods := methods.map (·.decl), fields := fields.map (·.decl) },
    { s with
      classes := s.classes.set id.val none
      methods := methodSlots
      fields := fieldSlots })

def unregister (s : Store) (id : ClassId) : Option ClassDecl × Store :=
  match s.takeClass? id with
  | none => (none, s)
  | some (d, s) => (some d, { s with names := s.names.filter (·.1 != d.name) })

def unregisterNamed (s : Store) (name : ClassName) : Option ClassDecl × Store :=
  match s.lookup? name with
  | none => (none, s)
  | some id => s.unregister id

/-- Fills new slots behind all others. -/
def insert (s : Store) (d : ClassDecl) : ClassId × Store :=
  let id : ClassId := ⟨s.classes.length⟩
  let methods := d.methods.zipIdx s.methods.length
  let fields := d.fields.zipIdx s.fields.length
  let c : StoredClass := { d.toClassHeader with
    id, methods := methods.map (⟨·.2⟩), fields := fields.map (⟨·.2⟩) }
  (id,
    { classes := s.classes ++ [some c]
      methods := s.methods ++ methods.map fun m => some ⟨⟨m.2⟩, id, d.name, m.1⟩
      fields := s.fields ++ fields.map fun f => some ⟨⟨f.2⟩, id, d.name, f.1⟩
      names := s.names ++ [(d.name, id)] })

/-- A class of the same name is taken out first. -/
def register (s : Store) (d : ClassDecl) : ClassId × Store :=
  ((s.unregisterNamed d.name).2).insert d

def setBody? (s : Store) (id : MethodId) (body : Body) : Option Store := do
  let m ← s.method? id
  pure { s with methods := s.methods.set id.val (some { m with decl := { m.decl with body } }) }

/-- The declarations of some classes, each taken out before the next is looked at. -/
def drain (s : Store) : List ClassId → List ClassDecl
  | [] => []
  | id :: ids =>
    match s.takeClass? id with
    | none => drain s ids
    | some (d, s) => d :: drain s ids

/-- Gives back all classes in order of registration. -/
def decls (s : Store) : List ClassDecl := s.drain s.ids

def apply (s : Store) : Change → Store
  | .register d => (s.register d).2
  | .unregister id => (s.unregister id).2
  | .unregisterNamed name => (s.unregisterNamed name).2
  | .setBody id body => (s.setBody? id body).getD s
  | .link | .index | .linkAndIndex | .dropDerived => s

def run (s : Store) (l : List Change) : Store := l.foldl apply s

end Store
end ClosedWorld
