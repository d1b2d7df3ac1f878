import ClosedWorld.Code.Body

/-!
# Cursors

A cursor stands between two instructions of a body: it is the pair of what lies before it and what
lies after it, so every cursor has a position within its body. Each edit touches the instruction right
after the cursor, and an edit past the end changes nothing and takes no identity.
-/

namespace ClosedWorld

structure Cursor where
  before : Body
  after : Body
deriving DecidableEq

namespace Cursor

def body (c : Cursor) : Body := c.before ++ c.after

def position (c : Cursor) : Nat := c.before.length

/-- A cursor before the instruction at a position, or at the end if there is none. -/
def ofBody (b : Body) (position : Nat) : Cursor := ⟨b.take position, b.drop position⟩

def seek (c : Cursor) (position : Nat) : Cursor := ofBody c.body position

def hasNext (c : Cursor) : Bool := !c.after.isEmpty

def next? (c : Cursor) : Option Node := c.after.head?

def advance (c : Cursor) (n : Nat) : Cursor :=
  ⟨c.before ++ c.after.take n, c.after.drop n⟩

/-- Inserts an instruction with a new identity before the cursor. -/
def insert (c : Cursor) (insn : Instruction) (s : Supply) : Cursor × Supply :=
  ({ c with before := c.before ++ [s.node insn] }, s.advance 1)

def erase (c : Cursor) : Cursor := { c with after := c.after.tail }

/-- Overwrites the instruction right after the cursor by one with a new identity. -/
def set (c : Cursor) (insn : Instruction) (s : Supply) : Cursor × Supply :=
  match c.after with
  | [] => (c, s)
  | _ :: rest => ({ c with after := s.node insn :: rest }, s.advance 1)

def push (c : Cursor) (insn : Instruction) (s : Supply) : Cursor × Supply :=
  ({ c with after := c.after ++ [s.node insn] }, s.advance 1)

end Cursor
end ClosedWorld
