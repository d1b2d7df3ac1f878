/-!
# Searching a graph

A graph is given by the successors of a vertex. Each search takes as fuel a bound on the number of
vertices that it can visit.
-/

namespace ClosedWorld.Graph
variable {α : Type} [DecidableEq α]

omit [DecidableEq α] in
/-- The vertices reached from `a` when each has at most one successor, nearest first. -/
def chain (next? : α → Option α) : Nat → α → List α
  | 0, _ => []
  | fuel + 1, a =>
    match next? a with
    | none => []
    | some b => b :: chain next? fuel b

/-- The vertices reached from a queue, breadth first: the first vertex of the queue that was not seen
before is visited next, and its successors join the end of the queue. -/
def breadthFirst (next : α → List α) : Nat → List α → List α → List α
  | 0, _, _ => []
  | fuel + 1, seen, queue =>
    match queue.dropWhile seen.contains with
    | [] => []
    | a :: rest => a :: breadthFirst next fuel (a :: seen) (rest ++ next a)

/-- Searches depth first from `a`, below the vertices of `path` and apart from those of `done`. The
error is the first vertex met that lies on the path to it; otherwise what was searched joins `done`. -/
def visit (next : α → List α) : Nat → List α → List α → α → Except α (List α)
  | 0, _, done, _ => .ok done
  | fuel + 1, path, done, a =>
    if path.contains a then .error a
    else if done.contains a then .ok done
    else do
      let done ← (next a).foldlM (visit next fuel (a :: path)) done
      pure (a :: done)

/-- A vertex on a cycle, if a depth-first search from the roots meets one. -/
def cycle? (next : α → List α) (fuel : Nat) (roots : List α) : Option α :=
  match roots.foldlM (visit next fuel []) [] with
  | .ok _ => none
  | .error a => some a

end ClosedWorld.Graph
