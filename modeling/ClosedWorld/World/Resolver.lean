import ClosedWorld.World.Link

/-!
# Resolving members

A resolver is a world whose hierarchy can be trusted. It finds the member that a symbolic reference
denotes among the declarations of a class and of its supertypes. Classes outside of the world are never
looked at.
-/

namespace ClosedWorld

structure Resolver where
  world : World
  linked : world.stage ≠ .unlinked

def World.resolver (w : World) : Except WorldError Resolver :=
  if h : w.stage = .unlinked then .error .notLinked else .ok ⟨w, h⟩

structure Declared (α : Type) where
  owner : ClassId
  member : α
deriving DecidableEq

namespace Declared

def isConcrete (m : Declared MethodEntry) : Bool := !m.member.decl.flags.has .accAbstract

/-- A method that a call through an interface can find in the superclass. -/
def isPublicInstance (m : Declared MethodEntry) : Bool :=
  m.member.decl.flags.has .accPublic && !m.member.decl.flags.has .accStatic

def isHeritable (m : Declared MethodEntry) : Bool :=
  m.member.decl.flags.isHeritable

end Declared

namespace Resolver

def hierarchy (r : Resolver) : Hierarchy := r.world.hierarchy

def declaredMethod? (r : Resolver) (name : MemberName) (d : MethodDescriptor) (c : ClassId) :
    Option (Declared MethodEntry) :=
  ((r.world.class? c).bind (·.findMethod? name d)).map (⟨c, ·⟩)

def declaredField? (r : Resolver) (name : MemberName) (t : FieldType) (c : ClassId) :
    Option (Declared FieldEntry) :=
  ((r.world.class? c).bind (·.findField? name t)).map (⟨c, ·⟩)

/-- Looks in the class, then in its own interfaces, then in its superclasses. -/
def field? (r : Resolver) (c : ClassId) (name : MemberName) (t : FieldType) :
    Option (Declared FieldEntry) :=
  (c :: r.hierarchy.ownSuperinterfaces c ++ r.hierarchy.superclasses c).findSome?
    (r.declaredField? name t)

/-- The methods that a class could inherit from the interfaces above it. -/
def defaultCandidates (r : Resolver) (c : ClassId) (name : MemberName) (d : MethodDescriptor) :
    List (Declared MethodEntry) :=
  ((r.hierarchy.superinterfaces c).filterMap (r.declaredMethod? name d)).filter
    Declared.isHeritable

def preferConcrete (l : List (Declared MethodEntry)) : List (Declared MethodEntry) :=
  if l.any Declared.isConcrete then l.filter Declared.isConcrete else l

/-- The methods whose interface is extended by the interface of no other one. -/
def mostSpecific (r : Resolver) (l : List (Declared MethodEntry)) : List (Declared MethodEntry) :=
  l.filter fun m => !l.any fun n => r.hierarchy.isSubinterface n.owner m.owner

/-- What the comparison of interfaces leaves, or all methods if it leaves none. -/
def survivors (r : Resolver) (l : List (Declared MethodEntry)) : List (Declared MethodEntry) :=
  match r.mostSpecific l with
  | [] => l
  | specific => specific

/-- The method that a class inherits from interfaces. Methods with a body come before abstract ones,
then the most specific remain, and among those the interface registered first wins. Interfaces are not
compared for a single method. -/
def defaultMethod? (r : Resolver) (c : ClassId) (name : MemberName) (d : MethodDescriptor) :
    Option (Declared MethodEntry) :=
  match r.defaultCandidates c name d with
  | [] => none
  | [m] => some m
  | candidates =>
    match preferConcrete candidates with
    | [m] => some m
    | preferred => (r.survivors preferred).minOn? (·.owner.val)

/-- What a class inherits from its superclasses. A call through an interface sees of them only a
public instance method of the nearest. -/
def inheritedMethod? (r : Resolver) (c : ClassId) (name : MemberName) (d : MethodDescriptor)
    (throughInterface : Bool) : Option (Declared MethodEntry) :=
  if throughInterface then
    ((r.hierarchy.parent? c).bind (r.declaredMethod? name d)).filter Declared.isPublicInstance
  else
    (r.hierarchy.superclasses c).findSome? (r.declaredMethod? name d)

/-- Looks in the class, then among what it inherits from its superclasses, then from interfaces. -/
def method? (r : Resolver) (c : ClassId) (name : MemberName) (d : MethodDescriptor)
    (throughInterface : Bool) : Option (Declared MethodEntry) :=
  r.declaredMethod? name d c <|> r.inheritedMethod? c name d throughInterface <|>
    r.defaultMethod? c name d

def fieldOf? (r : Resolver) (ref : FieldRef) : Option (Declared FieldEntry) :=
  (r.world.lookup? ref.owner).bind fun c => r.field? c ref.name ref.type

def methodOf? (r : Resolver) (ref : MethodRef) : Option (Declared MethodEntry) :=
  (r.world.lookup? ref.owner).bind fun c => r.method? c ref.name ref.descriptor ref.ownerIsInterface

end Resolver
end ClosedWorld
