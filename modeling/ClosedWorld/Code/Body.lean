import ClosedWorld.Instruction.Basic

/-!
# Method bodies

A body is a list of nodes: instructions with identities. Identities come from a supply that hands out
each number once, so two equal instructions of a body are still told apart, and an identity stays
with its instruction when the body is edited around it or copied.
-/

namespace ClosedWorld

structure InsnId where
  val : Nat
deriving DecidableEq, Repr

structure Node where
  id : InsnId
  insn : Instruction
deriving DecidableEq

abbrev Body := List Node

namespace Body

def instructions (b : Body) : List Instruction := b.map (·.insn)

def position? (b : Body) (id : InsnId) : Option Nat := b.findIdx? (·.id == id)

def following? (b : Body) (id : InsnId) : Option InsnId := do
  let i ← b.position? id
  let n ← b[i + 1]?
  pure n.id

/-- Same identities and, with constants compared as numbers, same instructions. -/
def agrees : Body → Body → Bool
  | [], [] => true
  | m :: ms, n :: ns => m.id == n.id && m.insn.agrees n.insn && agrees ms ns
  | _, _ => false

end Body

/-- The number of identities handed out so far; the next one is new. -/
structure Supply where
  issued : Nat := 0
deriving DecidableEq, Repr

namespace Supply

/-- The node that the next identity makes of an instruction. -/
def node (s : Supply) (insn : Instruction) : Node := ⟨⟨s.issued⟩, insn⟩

def advance (s : Supply) (n : Nat) : Supply := ⟨s.issued + n⟩

def body (s : Supply) (l : List Instruction) : Body × Supply :=
  ((l.zipIdx s.issued).map fun (insn, i) => ⟨⟨i⟩, insn⟩, s.advance l.length)

end Supply
end ClosedWorld
