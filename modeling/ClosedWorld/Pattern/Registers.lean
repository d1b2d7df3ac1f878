import ClosedWorld.Pattern.Pass

/-!
# The registers of a matcher

A matcher laid out flat: its phase, and beside it the position of a match, the captured nodes, an action
for each step, and the count of the last commit. Nothing in the layout ties these to the phase. Each
operation resets only some of them, and whether what is left fits the phase is for the operations
together to see to. A scan works through the registers, so it passes through states that no caller sees.
-/

namespace ClosedWorld

inductive Phase where
  | idle | scanning | matched | exhausted | replaced
deriving DecidableEq, Repr

structure Registers (σ : Type) where
  token : Nat
  steps : List (Step σ) := []
  phase : Phase := .idle
  start : Nat := 0
  captures : Body := []
  /-- What is queued for each step. -/
  actions : List (Option Rewrite) := []
  trailing : List Instruction := []
  removed : Nat := 0

/-- Registers at work on a body through a cursor. -/
structure RegisterPass (σ : Type) where
  registers : Registers σ
  cursor : Cursor
  supply : Supply
  memory : σ

namespace Registers
variable {σ : Type}

def reset (r : Registers σ) : Registers σ :=
  { r with phase := .idle, start := 0, captures := [], actions := [], trailing := [], removed := 0 }

def addStep (r : Registers σ) (s : Step σ) : Except MatchError (Handle × Registers σ) :=
  if r.phase ≠ .idle then .error .notIdle
  else
    let r := { r with steps := r.steps ++ [s] }
    .ok (⟨r.token, r.steps.length - 1⟩, r)

def handle? (r : Registers σ) (index : Nat) : Option Handle :=
  if index < r.steps.length then some ⟨r.token, index⟩ else none

def captured? (r : Registers σ) (h : Handle) : Option Instruction :=
  if h.token ≠ r.token then none else (r.captures[h.index]?).map (·.insn)

def span? (r : Registers σ) : Option (Nat × Nat) :=
  match r.phase with
  | .matched | .replaced => some (r.start, r.start + r.captures.length)
  | _ => none

def checkMatched (r : Registers σ) : Except MatchError Unit :=
  if r.phase = .matched then .ok () else .error .notMatched

def queue (r : Registers σ) (index : Nat) (w : Rewrite) : Except MatchError (Registers σ) := do
  r.checkMatched
  if index < r.actions.length then
    pure { r with actions := r.actions.set index (some w) }
  else throw (.unknownStep index)

def queueFor (r : Registers σ) (h : Handle) (w : Rewrite) : Except MatchError (Registers σ) := do
  if h.token ≠ r.token then
    r.checkMatched
    throw (.unknownStep h.index)
  else r.queue h.index w

def queueRemoveAll (r : Registers σ) : Except MatchError (Registers σ) := do
  r.checkMatched
  pure { r with actions := r.actions.map fun _ => some .remove }

def appendTrailing (r : Registers σ) (insn : Instruction) : Registers σ :=
  { r with trailing := r.trailing ++ [insn] }

def beginScan (r : Registers σ) : Except MatchError (Registers σ) :=
  if r.steps.isEmpty then .error .noSteps
  else match r.phase with
    | .matched | .replaced => .error .notReset
    | .idle | .scanning | .exhausted => .ok { r with phase := .scanning, captures := [] }

def endScan (r : Registers σ) (matched : Bool) : Registers σ :=
  if matched then { r with phase := .matched, actions := r.steps.map fun _ => none }
  else { r with phase := .exhausted }

end Registers

namespace RegisterPass
variable {σ : Type}

def reset (p : RegisterPass σ) : RegisterPass σ := { p with registers := p.registers.reset }

/-- Tests some steps on the next nodes, capturing those that pass. The first failure drops them all. -/
def testSteps : List (Step σ) → RegisterPass σ → Bool × RegisterPass σ
  | [], p => (true, p)
  | s :: ss, p =>
    match p.cursor.next? with
    | none => (false, { p with registers := { p.registers with captures := [] } })
    | some n =>
      let (passed, memory) := s n p.memory
      let p := { p with cursor := p.cursor.advance 1, memory }
      if passed then
        testSteps ss { p with registers := { p.registers with captures := p.registers.captures ++ [n] } }
      else (false, { p with registers := { p.registers with captures := [] } })

def attemptHere (p : RegisterPass σ) : Bool × RegisterPass σ :=
  let start := p.cursor.position
  match testSteps p.registers.steps { p with registers := { p.registers with captures := [] } } with
  | (true, p) => (true, { p with registers := { p.registers with start } })
  | (false, p) => (false, p)

/-- Attempts at each position from the cursor on, at most as many as given. -/
def attemptOnward : Nat → RegisterPass σ → Bool × RegisterPass σ
  | 0, p => (false, p)
  | n + 1, p =>
    let start := p.cursor.position
    if !p.cursor.hasNext then (false, p)
    else match p.attemptHere with
      | (true, p) => (true, p)
      | (false, p) => attemptOnward n { p with cursor := p.cursor.seek (start + 1) }

def scan (p : RegisterPass σ) (f : RegisterPass σ → Bool × RegisterPass σ) :
    Except MatchError (Bool × RegisterPass σ) := do
  let registers ← p.registers.beginScan
  let (matched, p) := f { p with registers }
  pure (matched, { p with registers := p.registers.endScan matched })

def matchHere (p : RegisterPass σ) : Except MatchError (Bool × RegisterPass σ) := p.scan attemptHere

/-- There is no attempt at the end, so one more than there are nodes are enough. -/
def find (p : RegisterPass σ) : Except MatchError (Bool × RegisterPass σ) :=
  p.scan (attemptOnward (p.cursor.after.length + 1))

/-- The first capture that is not found in its place behind `start`, and what is found there. -/
def firstMismatch? (start : Nat) (captures b : Body) : Option (InsnId × Option InsnId) :=
  captures.zipIdx.findSome? fun (n, offset) =>
    let found := (b[start + offset]?).map (·.id)
    if found = some n.id then none else some (n.id, found)

/-- The cursor past one instruction of the span, and whether it was removed or changed. -/
def perform (a : Option Rewrite) (c : Cursor) (s : Supply) : Cursor × Supply :=
  match a with
  | none => (c.advance 1, s)
  | some (.replace insn) =>
    let (c, s) := c.set insn s
    (c.advance 1, s)
  | some .remove => (c.erase, s)

def replace (p : RegisterPass σ) : Except MatchError (Bool × RegisterPass σ) := do
  let r := p.registers
  r.checkMatched
  let stop := r.start + r.captures.length
  if p.cursor.position ≠ stop then throw (.cursorMoved stop p.cursor.position)
  else match firstMismatch? r.start r.captures p.cursor.body with
    | some (expected, found) => throw (.captureMismatch expected found)
    | none =>
      let spanned := r.actions.foldl (fun (c, s) a => perform a c s) (p.cursor.seek r.start, p.supply)
      let (cursor, supply) := r.trailing.foldl (fun (c, s) insn => c.insert insn s) spanned
      let registers := { r with
        phase := .replaced
        actions := r.actions.map fun _ => none
        trailing := []
        removed := r.actions.countP (· == some .remove) }
      pure (r.actions.any (·.isSome) || !r.trailing.isEmpty, { p with registers, cursor, supply })

/-- Removes every match from the cursor on, at most as many as given. -/
def removeOnward : Nat → RegisterPass σ → Nat → Except MatchError Nat × RegisterPass σ
  | 0, p, count => (.ok count, p)
  | n + 1, p, count =>
    match p.find with
    | .error e => (.error e, p)
    | .ok (false, p) => (.ok count, p.reset)
    | .ok (true, p) =>
      match p.registers.queueRemoveAll with
      | .error e => (.error e, p)
      | .ok registers =>
        match { p with registers }.replace with
        | .error e => (.error e, { p with registers })
        | .ok (_, q) =>
          if q.registers.removed = 0 then (.error .nothingRemoved, q.reset)
          else removeOnward n q.reset (count + 1)

/-- A match takes at least one node, so one more than there are nodes are enough. -/
def removeAll (p : RegisterPass σ) : Except MatchError Nat × RegisterPass σ :=
  let p := { p.reset with cursor := p.cursor.seek 0 }
  p.removeOnward (p.cursor.after.length + 1) 0

end RegisterPass
end ClosedWorld
