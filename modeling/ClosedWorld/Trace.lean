import ClosedWorld.Code.Body

/-!
# Traces

What an analysis found to hold before each instruction of a body: a frame of local variables and stack
values, keyed by the identity of the instruction, so that a trace outlives edits of the body.
-/

namespace ClosedWorld

/-- Local variables and the operand stack, whose top is its last value. -/
structure Frame (V : Type) where
  locals : List V := []
  stack : List V := []
deriving DecidableEq, Repr

namespace Frame
variable {V : Type}

def top? (f : Frame V) : Option V := f.stack.getLast?

/-- The value `depth` places below the top. -/
def peek? (f : Frame V) (depth : Nat) : Option V := f.stack.reverse[depth]?

def local? (f : Frame V) (index : Nat) : Option V := f.locals[index]?

end Frame

/-- The frames of the instructions that were reached. -/
structure Trace (V : Type) where
  frames : List (InsnId × Frame V) := []
deriving DecidableEq, Repr

namespace Trace
variable {V : Type}

def size (t : Trace V) : Nat := t.frames.length

def frame? (t : Trace V) (id : InsnId) : Option (Frame V) := t.frames.lookup id

/-- Records a frame in place of an earlier one. -/
def insert (t : Trace V) (id : InsnId) (f : Frame V) : Trace V :=
  ⟨t.frames.filter (·.1 != id) ++ [(id, f)]⟩

/-- The values on the stack after an instruction that were not there before it. There are none for the
last instruction of the body, nor where a frame is missing. -/
def pushed [BEq V] (t : Trace V) (b : Body) (id : InsnId) : List V :=
  match t.frame? id, (b.following? id).bind t.frame? with
  | some before, some after => after.stack.filter (!before.stack.contains ·)
  | _, _ => []

end Trace

/-- A value that knows the instructions it can come from. -/
structure TracedValue where
  name : String
  origins : List InsnId
deriving DecidableEq, Repr

/-- The first instruction that a value can come from. -/
def TracedValue.origin? (v : TracedValue) : Option InsnId := v.origins.head?

/-- Conditions on a frame, of which those that are present all have to hold. A place is named by its
depth or index and holds a value of a name, or no value. -/
structure FrameQuery where
  top? : Option (Option String) := none
  depth? : Option Nat := none
  peek? : Option (Nat × Option String) := none
  local? : Option (Nat × Option String) := none
deriving DecidableEq, Repr

def FrameQuery.accepts (q : FrameQuery) (f : Frame TracedValue) : Bool :=
  q.top?.all (· == f.top?.map (·.name)) && q.depth?.all (· == f.stack.length) &&
    q.peek?.all (fun (i, n) => n == (f.peek? i).map (·.name)) &&
    q.local?.all fun (i, n) => n == (f.local? i).map (·.name)

end ClosedWorld
