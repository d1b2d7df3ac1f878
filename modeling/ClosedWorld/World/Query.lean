import ClosedWorld.World.Basic

/-!
# Queries for classes

A query is a conjunction of conditions on the header of a class. The search for a class looks at the
classes in order of registration and stops at the first that is accepted.
-/

namespace ClosedWorld

/-- The conditions that are present all have to hold. -/
structure ClassQuery where
  simpleName? : Option String := none
  /-- No package at all is a condition too. -/
  package? : Option (Option String) := none
  isInterface? : Option Bool := none
  isAbstract? : Option Bool := none
  isFinal? : Option Bool := none
deriving DecidableEq, Repr

def meets {α : Type} [BEq α] (expected? : Option α) (actual : α) : Bool :=
  expected?.all (· == actual)

def ClassQuery.accepts (q : ClassQuery) (c : ClassEntry) : Bool :=
  meets q.simpleName? c.name.simpleName && meets q.package? c.name.package? &&
    meets q.isInterface? c.isInterface && meets q.isAbstract? (c.flags.has .accAbstract) &&
    meets q.isFinal? (c.flags.has .accFinal)

namespace World

/-- The first class that passes a test, and every class that was tested for it. -/
def findClass? (w : World) (p : ClassEntry → Bool) : Option ClassEntry × List ClassEntry :=
  let found? := w.classes.find? p
  (found?, w.classes.takeWhile (!p ·) ++ found?.toList)

end World
end ClosedWorld
