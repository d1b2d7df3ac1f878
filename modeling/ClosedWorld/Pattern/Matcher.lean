import ClosedWorld.Code.Cursor
import ClosedWorld.Pattern.Scan

/-!
# Matchers

A matcher looks for a run of instructions that pass its steps. After a match it holds the captured
instructions and the rewrites queued for them, and a commit applies the rewrites to the body. A failed
operation changes nothing, so its result carries no matcher.
-/

namespace ClosedWorld

inductive MatchError where
  | noSteps
  | notIdle
  | notReset
  | notMatched
  | unknownStep (index : Nat)
  | captureMismatch (expected : InsnId) (found : Option InsnId)
  | cursorMoved (expected found : Nat)
  | nothingRemoved
deriving DecidableEq, Repr

def InsnId.label (id : InsnId) : String := "#" ++ toString id.val

def MatchError.message : MatchError → String
  | .noSteps => "instruction matching requires at least 1 step"
  | .notIdle => "reset the matcher before adding steps to it"
  | .notReset => "reset the matcher before scanning again"
  | .notMatched => "the matcher has not matched anything"
  | .unknownStep index => s!"unknown step {index}"
  | .captureMismatch expected found =>
    "expected captured instruction " ++ expected.label ++ " but found " ++
      found.elim "None" fun id => "Some(" ++ id.label ++ ")"
  | .cursorMoved expected found =>
    s!"cursor at {found} is not positioned after the matched span (ending at {expected})"
  | .nothingRemoved => "failed to find any removals in the matched span"

/-- A reference to a step of the matcher with a token. -/
structure Handle where
  token : Nat
  index : Nat
deriving DecidableEq, Repr

/-- What is to become of a captured instruction. -/
inductive Rewrite where
  | replace (insn : Instruction)
  | remove
deriving DecidableEq

/-- A captured instruction and the rewrite queued for it last. -/
structure Capture where
  node : Node
  rewrite? : Option Rewrite := none
deriving DecidableEq

/-- What a matcher holds: nothing, the knowledge that there was no match, a match with one capture for
each step, or a match whose rewrites were committed. -/
inductive MatchState where
  | idle
  | exhausted
  | matched (start : Nat) (captures : List Capture)
  | replaced (start : Nat) (captured : Body) (removed : Nat)
deriving DecidableEq

structure Matcher (σ : Type) where
  token : Nat
  steps : List (Step σ) := []
  state : MatchState := .idle
  /-- What a commit inserts after the matched span. -/
  trailing : List Instruction := []

namespace Matcher
variable {σ : Type}

def captured (m : Matcher σ) : Body :=
  match m.state with
  | .idle | .exhausted => []
  | .matched _ captures => captures.map (·.node)
  | .replaced _ captured _ => captured

/-- Where the captured instructions stood when they were matched. -/
def span? (m : Matcher σ) : Option (Nat × Nat) :=
  match m.state with
  | .idle | .exhausted => none
  | .matched start _ | .replaced start _ _ => some (start, start + m.captured.length)

def removed (m : Matcher σ) : Nat :=
  match m.state with
  | .replaced _ _ removed => removed
  | _ => 0

/-- Forgets the match, its rewrites and what was to follow it. -/
def reset (m : Matcher σ) : Matcher σ := { m with state := .idle, trailing := [] }

def addStep (m : Matcher σ) (s : Step σ) : Except MatchError (Handle × Matcher σ) :=
  match m.state with
  | .idle => .ok (⟨m.token, m.steps.length⟩, { m with steps := m.steps ++ [s] })
  | _ => .error .notIdle

def handle? (m : Matcher σ) (index : Nat) : Option Handle :=
  if index < m.steps.length then some ⟨m.token, index⟩ else none

/-- The instruction captured by the step of a handle, if the step is one of this matcher. -/
def captured? (m : Matcher σ) (h : Handle) : Option Instruction :=
  if h.token = m.token then (m.captured[h.index]?).map (·.insn) else none

/-- Queues a rewrite for the step at an index, in place of an earlier one. -/
def queue (m : Matcher σ) (index : Nat) (r : Rewrite) : Except MatchError (Matcher σ) :=
  match m.state with
  | .matched start captures =>
    if index < captures.length then
      let captures := captures.modify index fun c => { c with rewrite? := some r }
      .ok { m with state := .matched start captures }
    else .error (.unknownStep index)
  | _ => .error .notMatched

/-- Queues a rewrite for the step of a handle. A step of another matcher is unknown here. -/
def queueFor (m : Matcher σ) (h : Handle) (r : Rewrite) : Except MatchError (Matcher σ) :=
  if h.token = m.token then m.queue h.index r
  else match m.state with
    | .matched _ _ => .error (.unknownStep h.index)
    | _ => .error .notMatched

def queueRemoveAll (m : Matcher σ) : Except MatchError (Matcher σ) :=
  match m.state with
  | .matched start captures =>
    let captures := captures.map fun c => { c with rewrite? := some .remove }
    .ok { m with state := .matched start captures }
  | _ => .error .notMatched

def appendTrailing (m : Matcher σ) (insn : Instruction) : Matcher σ :=
  { m with trailing := m.trailing ++ [insn] }

/-- Why the matcher cannot scan, if it cannot. -/
def scanFault? (m : Matcher σ) : Option MatchError :=
  if m.steps.isEmpty then some .noSteps
  else match m.state with
    | .idle | .exhausted => none
    | .matched _ _ | .replaced _ _ _ => some .notReset

/-- The matcher after a scan that captured the given nodes at a position, or none. -/
def afterScan (m : Matcher σ) (found? : Option (Nat × Body)) : Matcher σ :=
  { m with state :=
    match found? with
    | some (start, captured) => .matched start (captured.map ({ node := · }))
    | none => .exhausted }

end Matcher
end ClosedWorld
