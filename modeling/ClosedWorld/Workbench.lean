import ClosedWorld.Pattern.Pass

/-!
# Workbenches

Several bodies, traces and matchers side by side. All bodies take their identities from one supply, so an
identity names one instruction on the whole workbench, and copies of a body share it. Each body is kept
with the cursor by which it was last edited, and a matcher's token is its place on the workbench.
-/

namespace ClosedWorld

structure Workbench where
  supply : Supply := {}
  bodies : List Cursor := []
  traces : List (Trace TracedValue) := []
  matchers : List (Matcher Probe) := []
  handles : List Handle := []
  probe : Probe := {}

namespace Workbench

def newBody (w : Workbench) (l : List Instruction) : Nat × Workbench :=
  let (b, supply) := w.supply.body l
  (w.bodies.length, { w with bodies := w.bodies ++ [.ofBody b 0], supply })

def copyBody (w : Workbench) (i : Nat) : Option (Nat × Workbench) := do
  let c ← w.bodies[i]?
  pure (w.bodies.length, { w with bodies := w.bodies ++ [c.seek 0] })

/-- Moves the cursor of a body or edits the body at it. -/
def edit (w : Workbench) (i : Nat) (f : Cursor → Supply → Cursor × Supply) : Option Workbench := do
  let c ← w.bodies[i]?
  let (c, supply) := f c w.supply
  pure { w with bodies := w.bodies.set i c, supply }

def newTrace (w : Workbench) : Nat × Workbench :=
  (w.traces.length, { w with traces := w.traces ++ [{}] })

def recordFrame (w : Workbench) (i : Nat) (id : InsnId) (f : Frame TracedValue) :
    Option (Option (Frame TracedValue) × Workbench) := do
  let t ← w.traces[i]?
  pure (t.frame? id, { w with traces := w.traces.set i (t.insert id f) })

def newMatcher (w : Workbench) (steps : List (Step Probe)) : Nat × Workbench :=
  (w.matchers.length,
    { w with matchers := w.matchers ++ [{ token := w.matchers.length, steps }] })

/-- Replaces a matcher by what an operation makes of it, unless the operation fails. -/
def configure {α : Type} (w : Workbench) (i : Nat)
    (f : Matcher Probe → Except MatchError (α × Matcher Probe)) :
    Option (Except MatchError α × Workbench) := do
  let m ← w.matchers[i]?
  match f m with
  | .error e => pure (.error e, w)
  | .ok (a, m) => pure (.ok a, { w with matchers := w.matchers.set i m })

def keepHandle (w : Workbench) (h : Handle) : Nat × Workbench :=
  (w.handles.length, { w with handles := w.handles ++ [h] })

def pass? (w : Workbench) (m b : Nat) : Option (Pass Probe) := do
  let matcher ← w.matchers[m]?
  let cursor ← w.bodies[b]?
  pure ⟨matcher, cursor, w.supply, w.probe⟩

def putPass (w : Workbench) (m b : Nat) (p : Pass Probe) : Workbench :=
  { w with
    matchers := w.matchers.set m p.matcher
    bodies := w.bodies.set b p.cursor
    supply := p.supply
    probe := p.memory }

def work (w : Workbench) (m b : Nat) (f : Pass Probe → Except MatchError (Bool × Pass Probe)) :
    Option (Except MatchError Bool × Workbench) := do
  let p ← w.pass? m b
  match f p with
  | .error e => pure (.error e, w)
  | .ok (answer, p) => pure (.ok answer, w.putPass m b p)

/-- Removes every match in a body. The cursor of the body keeps its place as far as the body goes. -/
def sweep (w : Workbench) (m b : Nat) : Option (Except MatchError Nat × Workbench) := do
  let p ← w.pass? m b
  let (r, q) := p.removeAll
  pure (r, w.putPass m b { q with cursor := q.cursor.seek p.cursor.position })

def newCounter (w : Workbench) : Nat × Workbench :=
  let (n, probe) := w.probe.newCounter
  (n, { w with probe })

def takeTested (w : Workbench) : List Observation × Workbench :=
  (w.probe.tested, { w with probe := { w.probe with tested := [] } })

end Workbench
end ClosedWorld
