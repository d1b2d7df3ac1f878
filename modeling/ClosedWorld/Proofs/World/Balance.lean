import ClosedWorld.Proofs.World.Closed
import Mathlib.Algebra.BigOperators.Group.Finset.Basic
import Mathlib.Algebra.GroupWithZero.Nat

/-!
# The tally balances

Every instruction that refers to a member, and every one that names a class if types are indexed, gives one
finding, be it only that the target is outside of the world (`countP_findings`). Every finding that is not
skipped is recorded as often as the tally counts it. Both of its ends are registered, so each side of a
relation lists all edges, whichever way they are summed up (`Between.total_targets`,
`Between.total_sources`).
-/

namespace ClosedWorld

/-! ### Summing up lists -/

/-- How much is listed at all vertices together. -/
def total {ι β : Type} (ids : List ι) (list : ι → List β) : ℕ := (ids.map fun i => (list i).length).sum

section Total
variable {α β : Type} [DecidableEq α]

theorem Arrows.length_targets (l : Arrows α β) (a : α) : (l.targets a).length = (l.map (·.1)).count a := by
  rw [targets, List.length_filterMap_eq_countP, List.count_eq_countP, List.countP_map]
  refine List.countP_congr fun x _ => ?_
  by_cases h : x.1 = a <;> simp [h]

theorem Arrows.total_targets {l : Arrows α β} {ids : List α} (hn : ids.Nodup)
    (hl : ∀ x ∈ l, x.1 ∈ ids) : total ids l.targets = l.length := by
  have hmem : ∀ a ∈ (l.map (·.1) : Multiset α), a ∈ ids.toFinset := by simpa using fun a b => hl (a, b)
  calc total ids l.targets = (ids.map fun a => (l.map (·.1)).count a).sum := by
        simp only [total, length_targets]
    _ = ∑ a ∈ ids.toFinset, (l.map (·.1)).count a := (List.sum_toFinset _ hn).symm
    _ = l.length := by simpa using Multiset.sum_count_eq_card hmem

namespace Edges.Between
variable [DecidableEq β] {e : Edges α β} {as : List α} {bs : List β}

omit [DecidableEq β] in
theorem total_targets (h : e.Between as bs) (hn : as.Nodup) : total as e.targets = e.outward.length :=
  Arrows.total_targets hn fun x hx => (h.mem x hx).1

omit [DecidableEq α] in
theorem total_sources (h : e.Between as bs) (hn : bs.Nodup) : total bs e.sources = e.outward.length := by
  have hinward : ∀ x ∈ e.inward, x.1 ∈ bs := fun x hx => by
    rw [h.agree, List.mem_map] at hx
    obtain ⟨y, hy, rfl⟩ := hx
    exact (h.mem y hy).2
  have hlength : e.inward.length = e.outward.length := by rw [h.agree, List.length_map]
  exact (Arrows.total_targets hn hinward).trans hlength

end Edges.Between
end Total

/-- A relation that is read off a list has one pair for each thing that it is read for. -/
theorem Edges.length_outward_filterMap {α β γ : Type} (f : γ → Option (α × β)) (l : List γ) :
    (ofList (l.filterMap f)).outward.length = l.countP fun x => (f x).isSome := by
  rw [outward_ofList, List.length_filterMap_eq_countP]

/-! ### Counting findings -/

/-- Whether a finding is for a member or for a class that is named, found or not. -/
def Finding.isReference (x : Finding) : Bool := x.type?.isSome || x.isSkipped

section Findings
variable (l : List Finding)

/-- A member that was found refers to its class as well. -/
theorem countP_type?_isSome : l.countP (·.type?.isSome) =
    l.countP (·.call?.isSome) + l.countP (·.read?.isSome) + l.countP (·.write?.isSome) +
      l.countP Finding.isType := by
  induction l with
  | nil => rfl
  | cons x l ih =>
    simp only [List.countP_cons, ih]
    cases x <;>
      simp [Finding.type?, Finding.call?, Finding.read?, Finding.write?, Finding.isType] <;> omega

theorem countP_isReference :
    l.countP Finding.isReference = l.countP (·.type?.isSome) + l.countP Finding.isSkipped := by
  induction l with
  | nil => rfl
  | cons x l ih =>
    simp only [List.countP_cons, ih]
    cases x <;> simp [Finding.isReference, Finding.type?, Finding.isSkipped] <;> omega

end Findings

/-! ### Counting instructions -/

/-- Whether an instruction calls a method or accesses a field. -/
def Instruction.refersToMember : Instruction → Bool
  | .invoke _ _ | .field _ _ => true
  | _ => false

/-- Whether an instruction names a class as a type. -/
def Instruction.namesClass (i : Instruction) : Bool := i.typeName?.isSome

namespace Resolver

/-- Whether there is a finding for the member or the class that an instruction refers to. -/
def refers (r : Resolver) (i : Instruction) : Bool :=
  i.refersToMember || (r.world.settings.types && i.namesClass)

variable (r : Resolver) (owner : ClassId) (m : MethodId)

theorem any_isReference (i : Instruction) :
    (r.instructionFinding? owner m i).any Finding.isReference = r.refers i := by
  have hnamed : ∀ j : Instruction, j.refersToMember = false → j.mention? = j.typeName?.map .type →
      (r.instructionFinding? owner m j).any Finding.isReference = r.refers j := by
    intro j hj hm
    rw [instructionFinding?, hm, refers, hj, Instruction.namesClass]
    cases j.typeName? with
    | none => simp
    | some name =>
      cases ht : r.world.settings.types <;> cases hl : r.world.lookup? name <;>
        simp [finding?, ht, hl, Finding.isReference, Finding.type?, Finding.isSkipped]
  cases i with
  | invoke mode ref =>
    cases h : r.methodOf? ref <;>
      simp [instructionFinding?, Instruction.mention?, finding?, h, refers, Instruction.refersToMember,
        Finding.isReference, Finding.type?, Finding.isSkipped]
  | field access ref =>
    cases access <;> cases h : r.fieldOf? ref <;>
      simp [instructionFinding?, Instruction.mention?, finding?, h, refers, Instruction.refersToMember,
        FieldAccess.isWrite, Finding.isReference, Finding.type?, Finding.isSkipped]
  | ldc value =>
    cases value with
    | string s =>
      cases hs : r.world.settings.strings <;>
        simp [instructionFinding?, Instruction.mention?, finding?, hs, refers,
          Instruction.refersToMember, Instruction.namesClass, Instruction.typeName?,
          Finding.isReference, Finding.type?, Finding.isSkipped]
    | _ => exact hnamed _ rfl rfl
  | _ => exact hnamed _ rfl rfl

/-- Each instruction that refers to something has one finding for it, and the types of fields none. -/
theorem countP_findings :
    r.findings.countP Finding.isReference = r.world.sites.countP fun s => r.refers s.2 := by
  have hguard : ∀ x : Option Finding,
      (x.bind (Option.guard Finding.isReference)).isSome = x.any Finding.isReference := fun x => by
    cases x with
    | none => rfl
    | some x => cases hx : x.isReference <;> simp [Option.guard, hx]
  rw [List.countP_eq_length_filter, ← List.filterMap_eq_filter, filterMap_findings r fun _ _ => rfl,
    List.length_flatMap, World.sites, List.countP_flatMap]
  refine congrArg List.sum (List.map_congr_left fun x _ => ?_)
  rw [List.length_filterMap_eq_countP, Function.comp_apply, List.countP_map]
  refine List.countP_congr fun i _ => ?_
  rw [hguard, any_isReference, Function.comp_apply]

end Resolver

theorem countP_refers (r : Resolver) (l : List (MethodId × Instruction)) :
    l.countP (fun s => r.refers s.2) = l.countP (·.2.refersToMember) +
      if r.world.settings.types then l.countP (·.2.namesClass) else 0 := by
  have hapart : ∀ i : Instruction, i.refersToMember = true → i.namesClass = false := fun i hi => by
    cases i <;> first | rfl | cases hi
  cases ht : r.world.settings.types with
  | false => simp [Resolver.refers, ht]
  | true =>
    have hrefers : ∀ i, r.refers i = (i.refersToMember || i.namesClass) := fun i => by
      rw [Resolver.refers, ht, Bool.true_and]
    rw [if_pos rfl]
    simp only [hrefers]
    induction l with
    | nil => rfl
    | cons s l ih =>
      simp only [List.countP_cons, ih]
      cases hm : s.2.refersToMember with
      | false =>
        cases s.2.namesClass with
        | false => simp
        | true => simp; omega
      | true => simp [hapart _ hm]; omega

/-! ### The result -/

namespace World
variable {w v : World} {t : Tally}

/-- The counts of a tally are the lengths of all lists of references together, from both sides, and every
instruction that refers to something is counted. -/
structure Balanced (w : World) (t : Tally) : Prop where
  calls : total w.methodIds w.references.calls.targets = t.calls
  callers : total w.methodIds w.references.calls.sources = t.calls
  reads : total w.methodIds w.references.reads.targets = t.reads
  readers : total w.fieldIds w.references.reads.sources = t.reads
  writes : total w.methodIds w.references.writes.targets = t.writes
  writers : total w.fieldIds w.references.writes.sources = t.writes
  types : total w.methodIds w.references.types.targets = t.calls + t.reads + t.writes + t.types
  users : total w.ids w.references.types.sources = t.calls + t.reads + t.writes + t.types
  strings : total w.ids w.references.strings.targets = t.strings
  fieldTypes : total w.ids w.references.fieldTypes.sources = t.fieldTypes
  sites : t.calls + t.reads + t.writes + t.types + t.skipped =
    w.sites.countP (·.2.refersToMember) +
      if w.settings.types then w.sites.countP (·.2.namesClass) else 0

theorem references_indexed (hs : w.stage ≠ .unlinked) :
    (w.indexed hs).references = .ofFindings (Resolver.findings ⟨w, hs⟩) := rfl

theorem total_strings_indexed (hs : w.stage ≠ .unlinked) (hw : (w.indexed hs).WellFormed) :
    total (w.indexed hs).ids (w.indexed hs).references.strings.targets =
      (Resolver.findings ⟨w, hs⟩).countP (·.string?.isSome) := by
  have howners : ∀ x ∈ (w.indexed hs).references.strings, x.1 ∈ (w.indexed hs).ids := by
    intro x hx
    rw [references_indexed, Resolver.strings_findings] at hx
    obtain ⟨c, hc, hid, -⟩ := Arrows.mem_ofTargets.1 hx
    exact hid ▸ List.mem_map_of_mem hc
  rw [Arrows.total_targets hw.ids_nodup howners, references_indexed, References.strings_ofFindings,
    List.length_filterMap_eq_countP]

theorem total_fieldTypes_indexed (hs : w.stage ≠ .unlinked) (hw : (w.indexed hs).WellFormed)
    (hwithin : (w.indexed hs).references.Within (w.indexed hs)) :
    total (w.indexed hs).ids (w.indexed hs).references.fieldTypes.sources =
      (Resolver.findings ⟨w, hs⟩).countP (·.fieldType?.isSome) := by
  have hmentioned : ∀ x ∈ (w.indexed hs).references.fieldTypes.map Prod.swap,
      x.1 ∈ (w.indexed hs).ids := by
    intro x hx
    obtain ⟨y, hy, rfl⟩ := List.mem_map.1 hx
    obtain ⟨_, _, _, c, hc, hid, _⟩ := hwithin.fieldTypes y hy
    exact List.mem_map.2 ⟨c, hc, hid⟩
  have hsources : total (w.indexed hs).ids (w.indexed hs).references.fieldTypes.sources =
      total (w.indexed hs).ids
        (Arrows.targets ((w.indexed hs).references.fieldTypes.map Prod.swap)) := by
    simp only [total, Arrows.targets_map_swap]
  rw [hsources, Arrows.total_targets hw.ids_nodup hmentioned, List.length_map, references_indexed,
    References.fieldTypes_ofFindings, List.length_filterMap_eq_countP]

theorem balanced_indexed (h : w.Reachable) (hs : w.stage ≠ .unlinked) :
    (w.indexed hs).Balanced (.ofFindings (Resolver.findings ⟨w, hs⟩)) := by
  have hw : (w.indexed hs).WellFormed := h.wellFormed.move (.index hs)
  have hwithin : (w.indexed hs).references.Within (w.indexed hs) :=
    (h.closed.move h.wellFormed (.index hs)).references
  let l := Resolver.findings ⟨w, hs⟩
  have hcalls : (w.indexed hs).references.calls.outward.length = l.countP (·.call?.isSome) := by
    rw [references_indexed, References.calls_ofFindings, Edges.length_outward_filterMap]
  have hreads : (w.indexed hs).references.reads.outward.length = l.countP (·.read?.isSome) := by
    rw [references_indexed, References.reads_ofFindings, Edges.length_outward_filterMap]
  have hwrites : (w.indexed hs).references.writes.outward.length = l.countP (·.write?.isSome) := by
    rw [references_indexed, References.writes_ofFindings, Edges.length_outward_filterMap]
  have htypes : (w.indexed hs).references.types.outward.length = l.countP (·.call?.isSome) +
      l.countP (·.read?.isSome) + l.countP (·.write?.isSome) + l.countP Finding.isType := by
    rw [references_indexed, References.types_ofFindings, Edges.length_outward_filterMap,
      countP_type?_isSome]
  refine ⟨(hwithin.calls.total_targets hw.methodIds_nodup).trans hcalls,
    (hwithin.calls.total_sources hw.methodIds_nodup).trans hcalls,
    (hwithin.reads.total_targets hw.methodIds_nodup).trans hreads,
    (hwithin.reads.total_sources hw.fieldIds_nodup).trans hreads,
    (hwithin.writes.total_targets hw.methodIds_nodup).trans hwrites,
    (hwithin.writes.total_sources hw.fieldIds_nodup).trans hwrites,
    (hwithin.types.total_targets hw.methodIds_nodup).trans htypes,
    (hwithin.types.total_sources hw.ids_nodup).trans htypes,
    total_strings_indexed hs hw, total_fieldTypes_indexed hs hw hwithin, ?_⟩
  calc _ = l.countP (·.type?.isSome) + l.countP Finding.isSkipped := by
        rw [countP_type?_isSome]; rfl
    _ = l.countP Finding.isReference := (countP_isReference l).symm
    _ = w.sites.countP fun s => Resolver.refers ⟨w, hs⟩ s.2 := Resolver.countP_findings _
    _ = _ := countP_refers ⟨w, hs⟩ w.sites

/-- Indexing a world answers the tally of the references that it records. -/
theorem index_balanced (h : w.Reachable) (hi : w.index = (.ok t, v)) : v.Balanced t := by
  by_cases hs : w.stage = .unlinked
  · rw [index_of_unlinked hs] at hi
    cases hi
  · rw [index_of_stage hs] at hi
    cases hi
    exact balanced_indexed h hs

/-- The shapes without the interface: the calls of its method lead out of the world. -/
theorem index_balanced_shapes :
    let w := ofShapes [.unregister ⟨0⟩, .link]
    let t : Tally := ⟨0, 2, 0, 2, 2, 1, 2⟩
    (w.Reachable ∧ w.index = (.ok t, w.index.2)) ∧ w.index.2.Balanced t :=
  have hi : (ofShapes [.unregister ⟨0⟩, .link]).index =
      (.ok ⟨0, 2, 0, 2, 2, 1, 2⟩, (ofShapes [.unregister ⟨0⟩, .link]).index.2) :=
    Prod.ext (by decide +kernel) rfl
  ⟨⟨reachable_ofShapes _, hi⟩, index_balanced (reachable_ofShapes _) hi⟩

end World
end ClosedWorld
