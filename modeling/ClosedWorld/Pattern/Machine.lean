import ClosedWorld.Pattern.Registers

/-!
# A matcher and a cursor, effect by effect

The registers of a matcher and a body with a place in it, and what is done to them one effect after the
other. A place is a number, and nothing in the layout keeps it within the body. A routine breaks off at a
fault and undoes nothing, so what it did until then stays. Whether a refused call has done anything, and
whether a place can come to lie outside of the body, is for the order of the effects to see to.
-/

namespace ClosedWorld

/-- A body and the number of its nodes that lie before a place in it. -/
structure Caret where
  body : Body
  position : Nat
deriving DecidableEq

/-- Why a routine breaks off. -/
inductive Fault where
  /-- The matcher refuses the call. -/
  | refused (e : MatchError)
  /-- There is no such place in the body. -/
  | outOfRange (index length : Nat)
  /-- A loop is not done after all of its rounds. -/
  | unfinished
deriving DecidableEq

structure Machine (σ : Type) where
  registers : Registers σ
  caret : Caret
  supply : Supply
  memory : σ

/-- Effects on a machine. A fault leaves the machine as it is at that moment. -/
abbrev Routine (σ : Type) := EStateM Fault (Machine σ)

namespace Routine
variable {σ α : Type}

def refuse (e : MatchError) : Routine σ α := throw (.refused e)

def registers : Routine σ (Registers σ) := return (← get).registers

def update (f : Registers σ → Registers σ) : Routine σ Unit :=
  modify fun s => { s with registers := f s.registers }

def caret : Routine σ Caret := return (← get).caret

def move (position : Nat) : Routine σ Unit := modify fun s => { s with caret.position := position }

def rewriteBody (b : Body) : Routine σ Unit := modify fun s => { s with caret.body := b }

/-! ### The cursor -/

/-- At the start, which every body has. -/
def rewind : Routine σ Unit := move 0

/-- At the end if the position lies behind it. -/
def seek (position : Nat) : Routine σ Unit := do move (min position (← caret).body.length)

def hasNext : Routine σ Bool := do
  let c ← caret
  return c.position < c.body.length

def peek : Routine σ (Option Node) := do
  let c ← caret
  return c.body[c.position]?

def advance : Routine σ (Option Node) := do
  match ← peek with
  | none => return none
  | some n => do
    move ((← caret).position + 1)
    return some n

def advanceBy : Nat → Routine σ Unit
  | 0 => return
  | n + 1 => do
    let _ ← advance
    advanceBy n

/-- A node with the next identity, which is given out by that. -/
def makeNode (insn : Instruction) : Routine σ Node :=
  modifyGet fun s => (s.supply.node insn, { s with supply := s.supply.advance 1 })

def push (insn : Instruction) : Routine σ InsnId := do
  let n ← makeNode insn
  rewriteBody ((← caret).body ++ [n])
  return n.id

def insertAt (index : Nat) (n : Node) : Routine σ Unit := do
  let b := (← caret).body
  if index ≤ b.length then rewriteBody (b.insertIdx index n)
  else throw (.outOfRange index b.length)

def removeAt (index : Nat) : Routine σ Node := do
  let b := (← caret).body
  match b[index]? with
  | none => throw (.outOfRange index b.length)
  | some n => do
    rewriteBody (b.eraseIdx index)
    return n

def insert (insn : Instruction) : Routine σ InsnId := do
  let n ← makeNode insn
  let position := (← caret).position
  insertAt position n
  move (position + 1)
  return n.id

def remove : Routine σ (Option Node) := do
  if ← hasNext then return some (← removeAt (← caret).position)
  else return none

def set (insn : Instruction) : Routine σ (Option Node) := do
  match ← peek with
  | none => return none
  | some old => do
    let n ← makeNode insn
    let c ← caret
    rewriteBody (c.body.set c.position n)
    return some old

/-! ### The matcher -/

def reset : Routine σ Unit := update Registers.reset

def addStep (t : Step σ) : Routine σ Handle := do
  if (← registers).phase ≠ .idle then refuse .notIdle
  else do
    update fun r => { r with steps := r.steps ++ [t] }
    let r ← registers
    return ⟨r.token, r.steps.length - 1⟩

def checkMatched : Routine σ Unit := do
  if (← registers).phase ≠ .matched then refuse .notMatched

def queue (index : Nat) (w : Rewrite) : Routine σ Unit := do
  checkMatched
  if index < (← registers).actions.length then
    update fun r => { r with actions := r.actions.set index (some w) }
  else refuse (.unknownStep index)

def queueFor (h : Handle) (w : Rewrite) : Routine σ Unit := do
  if h.token ≠ (← registers).token then do
    checkMatched
    refuse (.unknownStep h.index)
  else queue h.index w

def queueRemoveAll : Routine σ Unit := do
  checkMatched
  update fun r => { r with actions := r.actions.map fun _ => some .remove }

def appendTrailing (insn : Instruction) : Routine σ Unit := update (·.appendTrailing insn)

/-! ### Scans -/

def clearCaptures : Routine σ Unit := update fun r => { r with captures := [] }

def beginScan : Routine σ Unit := do
  if (← registers).steps.isEmpty then refuse .noSteps
  else match (← registers).phase with
    | .matched | .replaced => refuse .notReset
    | .idle | .scanning | .exhausted => do
      clearCaptures
      update fun r => { r with phase := .scanning }

def test (t : Step σ) (n : Node) : Routine σ Bool :=
  modifyGet fun s => ((t n s.memory).1, { s with memory := (t n s.memory).2 })

/-- Captures a node for each step, or nothing. -/
def testSteps : List (Step σ) → Routine σ Bool
  | [] => return true
  | t :: ts => do
    match ← advance with
    | none => do
      clearCaptures
      return false
    | some n => do
      if ← test t n then do
        update fun r => { r with captures := r.captures ++ [n] }
        testSteps ts
      else do
        clearCaptures
        return false

def attempt : Routine σ Bool := do
  let start := (← caret).position
  clearCaptures
  if ← testSteps (← registers).steps then do
    update fun r => { r with start }
    return true
  else return false

/-- Attempts at one place after the other. A failed attempt has moved the cursor. -/
def attemptOnward : Nat → Routine σ Bool
  | 0 => throw .unfinished
  | n + 1 => do
    let start := (← caret).position
    if ← hasNext then do
      if ← attempt then return true
      else do
        seek (start + 1)
        attemptOnward n
    else return false

def endScan (matched : Bool) : Routine σ Unit := update (·.endScan matched)

def matchHere : Routine σ Bool := do
  beginScan
  let matched ← attempt
  endScan matched
  return matched

/-- With a round for each node after the cursor and one for the end. -/
def find : Routine σ Bool := do
  beginScan
  let c ← caret
  let matched ← attemptOnward (c.body.length - c.position + 1)
  endScan matched
  return matched

/-! ### Commits -/

def checkPosition (stop : Nat) : Routine σ Unit := do
  let position := (← caret).position
  if position ≠ stop then refuse (.cursorMoved stop position)

def checkCaptures (start : Nat) : Nat → Body → Routine σ Unit
  | _, [] => return
  | offset, n :: ns => do
    let found := ((← caret).body[start + offset]?).map (·.id)
    if found = some n.id then checkCaptures start (offset + 1) ns
    else refuse (.captureMismatch n.id found)

/-- What is queued for a step, which is no longer queued then. -/
def takeAction (step : Nat) : Routine σ (Option Rewrite) := do
  let a := ((← registers).actions[step]?).join
  update fun r => { r with actions := r.actions.set step none }
  return a

/-- Rewrites the nodes of some steps. The answer is whether there was an action until now, and how many
were removals. -/
def rewriteOnward : Nat → Nat → Bool → Nat → Routine σ (Bool × Nat)
  | 0, _, changed, removed => return (changed, removed)
  | n + 1, step, changed, removed => do
    match ← takeAction step with
    | none => do
      let _ ← advance
      rewriteOnward n (step + 1) changed removed
    | some (.replace insn) => do
      let _ ← set insn
      let _ ← advance
      rewriteOnward n (step + 1) true removed
    | some .remove => do
      let _ ← remove
      rewriteOnward n (step + 1) true (removed + 1)

def takeTrailing : Routine σ (List Instruction) := do
  let trailing := (← registers).trailing
  update fun r => { r with trailing := [] }
  return trailing

def insertAll : List Instruction → Routine σ Unit
  | [] => return
  | insn :: insns => do
    let _ ← insert insn
    insertAll insns

/-- Rewrites the span, then inserts what is to follow it. Nothing is refused here. -/
def commit : Routine σ Bool := do
  let r ← registers
  seek r.start
  let (changed, removed) ← rewriteOnward r.actions.length 0 false 0
  let trailing ← takeTrailing
  insertAll trailing
  update fun r => { r with phase := .replaced, removed }
  return !trailing.isEmpty || changed

def replace : Routine σ Bool := do
  checkMatched
  let r ← registers
  checkPosition (r.start + r.captures.length)
  checkCaptures r.start 0 r.captures
  commit

end Routine
end ClosedWorld
