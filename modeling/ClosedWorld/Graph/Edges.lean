/-!
# Edges

A relation between two kinds of vertices is recorded at both of its ends: each source lists its targets
and each target lists its sources, in the order in which the edges were found, with repetitions. Nothing
in the type makes the two sides agree. An end that is taken out is forgotten by the vertices that it
lists itself, and no other vertex is looked at.
-/

namespace ClosedWorld

/-- Arrows from one kind of vertices to another, in order. -/
abbrev Arrows (α β : Type) := List (α × β)

namespace Arrows
variable {α β : Type} [DecidableEq α] [DecidableEq β]

def targets (l : Arrows α β) (a : α) : List β :=
  l.filterMap fun x => if x.1 = a then some x.2 else none

def sources (l : Arrows α β) (b : β) : List α :=
  l.filterMap fun x => if x.2 = b then some x.1 else none

end Arrows

structure Edges (α β : Type) where
  /-- From each source to its targets. -/
  outward : Arrows α β := []
  /-- From each target to its sources. -/
  inward : Arrows β α := []
deriving DecidableEq

namespace Edges
variable {α β : Type} [DecidableEq α] [DecidableEq β]

def targets (e : Edges α β) (a : α) : List β := e.outward.targets a

def sources (e : Edges α β) (b : β) : List α := e.inward.targets b

def record (e : Edges α β) (x : α × β) : Edges α β :=
  ⟨e.outward ++ [x], e.inward ++ [x.swap]⟩

def ofList (l : List (α × β)) : Edges α β := l.foldl record {}

def flip (e : Edges α β) : Edges β α := ⟨e.inward, e.outward⟩

/-- Takes a source out with its list. Each target on the list forgets the source. -/
def dropSource (e : Edges α β) (a : α) : Edges α β where
  outward := e.outward.filter (·.1 ≠ a)
  inward := (e.targets a).foldl (fun l b => l.filter (· ≠ (b, a))) e.inward

/-- Takes a target out with its list. Each source on the list forgets the target. -/
def dropTarget (e : Edges α β) (b : β) : Edges α β := (e.flip.dropSource b).flip

/-- Takes a vertex that is a source and a target out with both of its lists. -/
def dropVertex (e : Edges α α) (a : α) : Edges α α := (e.dropSource a).dropTarget a

end Edges
end ClosedWorld
