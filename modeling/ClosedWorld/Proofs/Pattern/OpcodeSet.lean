import Mathlib.Data.List.Sort
import ClosedWorld.Pattern.Step

/-!
# Opcode sets are exact

Looking for an opcode by halves finds it exactly if it is in the list, since in an increasing list the half
that is left out holds nothing equal to it (`mem_below_iff`, `mem_above_iff`). Sorting and dropping the
repetitions change no membership, and an increasing list is determined by its members, so a set is known by
the opcodes that it contains.
-/

namespace ClosedWorld

/-! ### Search by halves -/

section
variable {b m : UInt8} {below above l : List UInt8}

theorem mem_below_iff (h : (below ++ m :: above).Pairwise (· < ·)) (hlt : b < m) :
    b ∈ below ++ m :: above ↔ b ∈ below := by
  obtain ⟨-, hm, -⟩ := List.pairwise_append.1 h
  have hne : b ≠ m := UInt8.ne_of_lt hlt
  have habove : b ∉ above := fun hb => UInt8.lt_asymm hlt (List.rel_of_pairwise_cons hm hb)
  simp [hne, habove]

theorem mem_above_iff (h : (below ++ m :: above).Pairwise (· < ·)) (hne : b ≠ m) (hlt : ¬b < m) :
    b ∈ below ++ m :: above ↔ b ∈ above := by
  obtain ⟨-, -, hcross⟩ := List.pairwise_append.1 h
  have hbelow : b ∉ below := fun hb => hlt (hcross b hb m List.mem_cons_self)
  simp [hne, hbelow]

theorem halvingSearch_eq_true_iff (h : l.Pairwise (· < ·)) : halvingSearch b l = true ↔ b ∈ l := by
  fun_induction halvingSearch b l with
  | case1 l hdrop =>
    have hlen := List.length_eq_zero_iff.2 hdrop
    rw [List.length_drop] at hlen
    have hnil : l = [] := List.length_eq_zero_iff.1 (by omega)
    simp [hnil]
  | case2 l above hdrop =>
    have hmem : b ∈ l.drop (l.length / 2) := by simp [hdrop]
    exact iff_of_true rfl (List.mem_of_mem_drop hmem)
  | case3 l m above hdrop hne hlt ih =>
    have hsplit : l.take (l.length / 2) ++ m :: above = l := by
      rw [← hdrop, List.take_append_drop]
    have hparts : (l.take (l.length / 2) ++ m :: above).Pairwise (· < ·) := by rwa [hsplit]
    have hmem := mem_below_iff hparts hlt
    rw [hsplit] at hmem
    exact (ih (List.pairwise_append.1 hparts).1).trans hmem.symm
  | case4 l m above hdrop hne hlt ih =>
    have hsplit : l.take (l.length / 2) ++ m :: above = l := by
      rw [← hdrop, List.take_append_drop]
    have hparts : (l.take (l.length / 2) ++ m :: above).Pairwise (· < ·) := by rwa [hsplit]
    have hmem := mem_above_iff hparts hne hlt
    rw [hsplit] at hmem
    exact (ih (List.pairwise_append.1 hparts).2.1.of_cons).trans hmem.symm

end

/-! ### Members -/

namespace OpcodeSet
variable {b first last : UInt8}

theorem contains_eq_true_iff (s : OpcodeSet) : s.contains b = true ↔ b ∈ s.opcodes :=
  halvingSearch_eq_true_iff s.increasing

theorem contains_ofList (l : List UInt8) : (ofList l).contains b = true ↔ b ∈ l := by
  rw [contains_eq_true_iff]
  exact mem_dropRepeats.trans List.mem_mergeSort

theorem mem_between : b ∈ between first last ↔ first ≤ b ∧ b ≤ last := by
  have hlast := last.toNat_lt
  rw [between, List.mem_map, UInt8.le_iff_toNat_le, UInt8.le_iff_toNat_le]
  constructor
  · rintro ⟨n, hn, rfl⟩
    rw [List.mem_range'_1] at hn
    have hsize : n < UInt8.size := by
      change n < 256
      omega
    rw [UInt8.toNat_ofNat_of_lt' hsize]
    omega
  · rintro ⟨hfirst, hle⟩
    exact ⟨b.toNat, List.mem_range'_1.2 (by omega), UInt8.ofNat_toNat⟩

theorem contains_range (hlt : first < last) (extra : List UInt8) : ∃ s, range first last extra = .ok s ∧
    ∀ b, s.contains b = true ↔ (first ≤ b ∧ b ≤ last) ∨ b ∈ extra := by
  refine ⟨_, if_pos hlt, fun b => ?_⟩
  rw [contains_ofList, List.mem_append, mem_between]

theorem eq_iff_contains {s t : OpcodeSet} : s = t ↔ ∀ b, s.contains b = t.contains b := by
  refine ⟨fun h b => by rw [h], fun h => ?_⟩
  have hmem : ∀ b, b ∈ s.opcodes ↔ b ∈ t.opcodes := fun b => by
    rw [← contains_eq_true_iff, ← contains_eq_true_iff, h]
  have hopcodes : s.opcodes = t.opcodes := s.increasing.eq_of_mem_iff t.increasing hmem
  cases s
  cases t
  cases hopcodes
  rfl

/-! ### Acceptance -/

theorem accepts_eq_true_iff (s : OpcodeSet) (insn : Instruction) :
    s.accepts insn = true ↔ ∃ b, insn.opcode? = some b ∧ s.contains b = true :=
  Option.any_eq_true ..

/-- The set of any opcodes holds them in increasing order, contains just these, and is the only set that
does. A range contains its bounds and what lies between them, up to the last of all bytes, and some more,
and there is one whenever the first bound is below the last. An instruction is accepted exactly if it has
an opcode and the set contains it, and labels and line numbers have none. -/
theorem exactly_the_opcodes :
    (∀ l : List UInt8, (ofList l).opcodes.Pairwise (· < ·) ∧
      ∀ b, (ofList l).contains b = true ↔ b ∈ l) ∧
    (∀ s t : OpcodeSet, s = t ↔ ∀ b, s.contains b = t.contains b) ∧
    (∀ (first last : UInt8) (extra : List UInt8),
      (∃ s, range first last extra = .ok s ∧
        ∀ b, s.contains b = true ↔ (first ≤ b ∧ b ≤ last) ∨ b ∈ extra) ↔ first < last) ∧
    ∀ (σ : Type) (s : OpcodeSet) (memory : σ),
      (∀ n : Node, (Step.ofOpcodes s n memory).1 = true ↔
        ∃ b, n.insn.opcode? = some b ∧ s.contains b = true) ∧
      ∀ (id : InsnId) (line : UInt16) (l : Label),
        (Step.ofOpcodes s ⟨id, .label l⟩ memory).1 = false ∧
        (Step.ofOpcodes s ⟨id, .lineNumber line l⟩ memory).1 = false := by
  refine ⟨fun l => ⟨(ofList l).increasing, fun _ => contains_ofList l⟩, fun _ _ => eq_iff_contains,
    fun first last extra => ⟨?_, fun hlt => contains_range hlt extra⟩, fun σ s memory =>
    ⟨fun n => s.accepts_eq_true_iff n.insn, fun id line l => ⟨rfl, rfl⟩⟩⟩
  rintro ⟨s, hs, -⟩
  by_contra hlt
  rw [range, if_neg hlt] at hs
  cases hs

end OpcodeSet
end ClosedWorld
