import ClosedWorld.Pattern.OpcodeSet
import ClosedWorld.Trace

/-!
# Steps

A step is a test of one instruction of a body. A test can use and change a memory, which is how tests
that count or record their calls are made; a pure test leaves it alone.
-/

namespace ClosedWorld

abbrev Condition (σ : Type) : Type := Instruction → σ → Bool × σ

namespace Condition
variable {σ : Type}

def ofTest (p : Instruction → Bool) : Condition σ := fun insn m => (p insn, m)

protected def not (c : Condition σ) : Condition σ := fun insn m =>
  let (b, m) := c insn m
  (!b, m)

end Condition

abbrev Step (σ : Type) : Type := Node → σ → Bool × σ

namespace Step
variable {σ V : Type}

def ofTest (p : Node → Bool) : Step σ := fun n m => (p n, m)

def ofCondition (c : Condition σ) : Step σ := fun n m => c n.insn m

def ofOpcodes (s : OpcodeSet) : Step σ := ofTest (s.accepts ·.insn)

/-- A condition on an instruction and on the frame before it. An instruction without a frame fails
it and is not asked anything else. -/
def ofFrame (t : Trace V) (c : Condition σ) (q : Frame V → Bool) : Step σ := fun n m =>
  match t.frame? n.id with
  | none => (false, m)
  | some f =>
    let (b, m) := c n.insn m
    (b && q f, m)

end Step

structure Observation where
  tag : String
  id : InsnId
  answer : Bool
deriving DecidableEq, Repr

/-- The memory of tests that count and record: how often each counter was asked, and the recorded
answers in order. -/
structure Probe where
  counters : List Nat := []
  tested : List Observation := []
deriving DecidableEq, Repr

namespace Probe

def newCounter (m : Probe) : Nat × Probe :=
  (m.counters.length, { m with counters := m.counters ++ [0] })

end Probe

/-- True the `n`-th time that its counter is asked, counted from one, and false at any other time. -/
def Condition.nth (counter n : Nat) : Condition Probe := fun _ m =>
  let asked := m.counters.getD counter 0 + 1
  (asked == n, { m with counters := m.counters.set counter asked })

def Step.recorded (tag : String) (s : Step Probe) : Step Probe := fun n m =>
  let (b, m) := s n m
  (b, { m with tested := m.tested ++ [⟨tag, n.id, b⟩] })

end ClosedWorld
