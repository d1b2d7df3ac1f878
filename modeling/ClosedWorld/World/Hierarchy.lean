import ClosedWorld.Graph.Edges
import ClosedWorld.Graph.Search
import ClosedWorld.World.Id

/-!
# The inheritance hierarchy

Edges lead from a class to its superclass and to each interface that it names. Walks up the hierarchy
are bounded by the number of edges: in a hierarchy without cycles no walk uses an edge twice.
-/

namespace ClosedWorld

structure Hierarchy where
  /-- From each class to its superclass. -/
  parents : Edges ClassId ClassId := {}
  /-- From each class or interface to the interfaces that it names, each once. -/
  interfaces : Edges ClassId ClassId := {}
deriving DecidableEq

namespace Hierarchy

def parent? (h : Hierarchy) (c : ClassId) : Option ClassId := (h.parents.targets c).head?

def children (h : Hierarchy) (c : ClassId) : List ClassId := h.parents.sources c

def interfacesOf (h : Hierarchy) (c : ClassId) : List ClassId := h.interfaces.targets c

def implementers (h : Hierarchy) (c : ClassId) : List ClassId := h.interfaces.sources c

def supertypes (h : Hierarchy) (c : ClassId) : List ClassId :=
  (h.parent? c).toList ++ h.interfacesOf c

/-- Takes a class out, which its superclass, its subclasses, its interfaces and its implementers
forget. -/
def dropClass (h : Hierarchy) (c : ClassId) : Hierarchy where
  parents := h.parents.dropVertex c
  interfaces := h.interfaces.dropVertex c

/-- The proper superclasses of a class, nearest first. -/
def superclasses (h : Hierarchy) (c : ClassId) : List ClassId :=
  Graph.chain h.parent? h.parents.outward.length c

/-- The interfaces met breadth first from a queue of interfaces. -/
def interfacesFrom (h : Hierarchy) (queue : List ClassId) : List ClassId :=
  Graph.breadthFirst h.interfacesOf h.interfaces.outward.length [] queue

/-- The proper superinterfaces of a class that do not come from its superclasses. -/
def ownSuperinterfaces (h : Hierarchy) (c : ClassId) : List ClassId :=
  h.interfacesFrom (h.interfacesOf c)

/-- The interfaces of a class and of its superclasses, those of the nearest class first. -/
def superinterfaces (h : Hierarchy) (c : ClassId) : List ClassId :=
  h.interfacesFrom ((c :: h.superclasses c).flatMap h.interfacesOf)

def isSubinterface (h : Hierarchy) (sub sup : ClassId) : Bool :=
  sub != sup && (h.ownSuperinterfaces sub).contains sup

/-- Whether a value of one class can be used where the other is due. -/
def isAssignable (h : Hierarchy) (sub sup : ClassId) : Bool :=
  sub == sup || (h.superclasses sub).contains sup || (h.superinterfaces sub).contains sup

/-- A class that is its own proper supertype, if there is one above the given classes. -/
def cycle? (h : Hierarchy) (classes : List ClassId) : Option ClassId :=
  Graph.cycle? h.supertypes (classes.length + 1) classes

end Hierarchy
end ClosedWorld
