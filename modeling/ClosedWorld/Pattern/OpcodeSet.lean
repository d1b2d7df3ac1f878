import ClosedWorld.Instruction.Opcode

/-!
# Sets of opcodes

A set of opcodes is its increasing list: any list of opcodes is sorted and loses its repetitions, and an
opcode is looked for by halving the list. A set accepts the instructions whose opcode is in it, hence no
pseudo-instruction.
-/

namespace ClosedWorld

/-- Keeps one of each run of equal bytes. -/
def dropRepeats : List UInt8 → List UInt8
  | [] => []
  | [a] => [a]
  | a :: b :: l => if a = b then dropRepeats (b :: l) else a :: dropRepeats (b :: l)

theorem mem_dropRepeats {l : List UInt8} {x : UInt8} : x ∈ dropRepeats l ↔ x ∈ l := by
  fun_induction dropRepeats l with
  | case1 => rfl
  | case2 => rfl
  | case3 b l ih => simp [ih]
  | case4 a b l hne ih => simp [ih]

theorem dropRepeats_increasing {l : List UInt8} (h : l.Pairwise (· ≤ ·)) :
    (dropRepeats l).Pairwise (· < ·) := by
  fun_induction dropRepeats l with
  | case1 => exact .nil
  | case2 a => exact List.pairwise_singleton _ a
  | case3 b l ih => exact ih h.of_cons
  | case4 a b l hne ih =>
    refine List.pairwise_cons.2 ⟨fun x hx => ?_, ih h.of_cons⟩
    have hab : a ≤ b := List.rel_of_pairwise_cons h List.mem_cons_self
    have hbx : b ≤ x := by
      rcases List.mem_cons.1 (mem_dropRepeats.1 hx) with rfl | hx
      · exact UInt8.le_refl x
      · exact List.rel_of_pairwise_cons h.of_cons hx
    exact UInt8.lt_of_lt_of_le (UInt8.lt_of_le_of_ne hab hne) hbx

/-- Looks for a byte in a sorted list by comparing it with the middle one. -/
def halvingSearch (b : UInt8) (l : List UInt8) : Bool :=
  match _h : l.drop (l.length / 2) with
  | [] => false
  | m :: above =>
    if b = m then true
    else if b < m then halvingSearch b (l.take (l.length / 2))
    else halvingSearch b above
termination_by l.length
decreasing_by
  -- neither half holds the middle byte
  all_goals
    have hlen := congrArg List.length _h
    simp only [List.length_drop, List.length_cons] at hlen
  · rw [List.length_take]
    omega
  · omega

structure OpcodeSet where
  opcodes : List UInt8
  increasing : opcodes.Pairwise (· < ·)
deriving DecidableEq

structure EmptyRange where
  first : UInt8
  last : UInt8
deriving DecidableEq, Repr

def EmptyRange.message (e : EmptyRange) : String :=
  "opcode range " ++ toString e.first.toNat ++ "..=" ++ toString e.last.toNat ++ " is empty"

namespace OpcodeSet

theorem mergeSort_sorted (l : List UInt8) : (l.mergeSort fun a b => a ≤ b).Pairwise (· ≤ ·) := by
  have htrans (a b c : UInt8) (hab : decide (a ≤ b) = true) (hbc : decide (b ≤ c) = true) :
      decide (a ≤ c) = true :=
    decide_eq_true (UInt8.le_trans (of_decide_eq_true hab) (of_decide_eq_true hbc))
  have htotal (a b : UInt8) : (decide (a ≤ b) || decide (b ≤ a)) = true := by
    rw [Bool.or_eq_true, decide_eq_true_eq, decide_eq_true_eq]
    exact UInt8.le_total a b
  exact (List.pairwise_mergeSort htrans htotal l).imp of_decide_eq_true

def ofList (l : List UInt8) : OpcodeSet :=
  ⟨dropRepeats (l.mergeSort fun a b => a ≤ b), dropRepeats_increasing (mergeSort_sorted l)⟩

/-- The bytes from `first` to `last`, both included. -/
def between (first last : UInt8) : List UInt8 :=
  (List.range' first.toNat (last.toNat + 1 - first.toNat)).map UInt8.ofNat

def bytes : List UInt8 := between 0 255

/-- The opcodes from `first` to `last`, both included, and some more. -/
def range (first last : UInt8) (extra : List UInt8) : Except EmptyRange OpcodeSet :=
  if first < last then .ok (ofList (between first last ++ extra))
  else .error ⟨first, last⟩

def contains (s : OpcodeSet) (b : UInt8) : Bool := halvingSearch b s.opcodes

def accepts (s : OpcodeSet) (insn : Instruction) : Bool := insn.opcode?.any s.contains

end OpcodeSet
end ClosedWorld
