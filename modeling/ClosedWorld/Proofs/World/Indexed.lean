import ClosedWorld.Proofs.World.Findings
import ClosedWorld.Proofs.World.Moves

/-!
# Indexed references are those of the bodies

As long as a world counts as indexed, its references are what an index of it would find now
(`ReferencesCurrent`): indexing makes them so, and every other change ends that stage. Seen from a
method they follow its body; seen from a target they follow the registration of the classes, the
declaration of the methods and their bodies (`World.sites`).
-/

namespace ClosedWorld

/-- The instructions of all bodies, each with its method. -/
def World.sites (w : World) : List (MethodId × Instruction) :=
  w.methods.flatMap fun x => x.2.decl.body.instructions.map (x.2.id, ·)

/-- The relation from methods to what the instructions of their bodies are read as. -/
def World.reading {β : Type} (w : World) (read : Instruction → Option β) : Edges MethodId β :=
  .ofList (w.sites.filterMap fun s => (read s.2).map (s.1, ·))

/-- A relation from methods that holds just what the instructions of their bodies are read as. -/
structure World.Occurrences {β : Type} [DecidableEq β] (w : World) (e : Edges MethodId β)
    (read : Instruction → Option β) : Prop where
  targets : ∀ x ∈ w.methods, e.targets x.2.id = x.2.decl.body.instructions.filterMap read
  sources : ∀ b, e.sources b = (w.sites.filter (read ·.2 = some b)).map (·.1)

/-- References that are just those of the bodies and of the types of fields. -/
structure Resolver.Describes (r : Resolver) (refs : References) : Prop where
  calls : r.world.Occurrences refs.calls r.callee?
  reads : r.world.Occurrences refs.reads r.readField?
  writes : r.world.Occurrences refs.writes r.writtenField?
  types : r.world.Occurrences refs.types r.classOf?
  strings : ∀ c ∈ r.world.classes, refs.strings.targets c.id =
    if r.world.settings.strings then
      c.methods.flatMap fun m => m.decl.body.instructions.filterMap Instruction.string?
    else []
  fieldTypes : ∀ c ∈ r.world.classes, refs.fieldTypes.sources c.id =
    if r.world.settings.fieldTypes then
      (r.world.fields.filter (·.2.decl.type.className? = some c.name)).map (·.2.id)
    else []

/-! ### What indexing derives -/

namespace World
variable {β : Type} [DecidableEq β] {w : World}

omit [DecidableEq β] in
theorem filterMap_sites (w : World) (read : Instruction → Option β) :
    (w.sites.filterMap fun s => (read s.2).map (s.1, ·)) =
      Arrows.ofTargets w.methods (·.2.id) fun x => x.2.decl.body.instructions.filterMap read := by
  simp only [sites, Arrows.ofTargets, List.filterMap_flatMap, List.filterMap_map,
    List.map_filterMap]
  rfl

theorem occurrences_reading (hw : w.WellFormed) (read : Instruction → Option β) :
    w.Occurrences (w.reading read) read where
  targets x hx := by
    rw [reading, Edges.targets_ofList, filterMap_sites]
    exact Arrows.targets_ofTargets hw.methodIds_nodup hx
  sources b := by rw [reading, Edges.sources_ofList, Arrows.sources_filterMap]

omit [DecidableEq β] in
theorem between_reading {read : Instruction → Option β} {bs : List β}
    (h : ∀ i b, read i = some b → b ∈ bs) : (w.reading read).Between w.methodIds bs := by
  refine .ofList fun x hx => ?_
  obtain ⟨s, hs, hx⟩ := List.mem_filterMap.1 hx
  obtain ⟨b, hb, rfl⟩ := Option.map_eq_some_iff.1 hx
  obtain ⟨y, hy, hs⟩ := List.mem_flatMap.1 hs
  obtain ⟨i, -, rfl⟩ := List.mem_map.1 hs
  exact ⟨mem_methodIds.2 ⟨y, hy, rfl⟩, h _ b hb⟩

end World

namespace Resolver
variable {r : Resolver}

theorem filterMap_findings_eq_sites {β : Type} {π : Finding → Option (MethodId × β)}
    {read : Instruction → Option β} (hπ : ∀ f c, π (.fieldType f c) = none)
    (h : ∀ owner m i, (r.instructionFinding? owner m i).bind π = (read i).map (m, ·)) :
    r.findings.filterMap π = r.world.sites.filterMap fun s => (read s.2).map (s.1, ·) := by
  rw [filterMap_findings r hπ, World.filterMap_sites]
  simp only [h, Arrows.ofTargets, List.map_filterMap]

theorem calls_findings (r : Resolver) :
    (References.ofFindings r.findings).calls = r.world.reading r.callee? := by
  rw [References.calls_ofFindings,
    filterMap_findings_eq_sites (fun _ _ => rfl) r.call?_instructionFinding]
  rfl

theorem reads_findings (r : Resolver) :
    (References.ofFindings r.findings).reads = r.world.reading r.readField? := by
  rw [References.reads_ofFindings,
    filterMap_findings_eq_sites (fun _ _ => rfl) r.read?_instructionFinding]
  rfl

theorem writes_findings (r : Resolver) :
    (References.ofFindings r.findings).writes = r.world.reading r.writtenField? := by
  rw [References.writes_ofFindings,
    filterMap_findings_eq_sites (fun _ _ => rfl) r.write?_instructionFinding]
  rfl

theorem types_findings (r : Resolver) :
    (References.ofFindings r.findings).types = r.world.reading r.classOf? := by
  rw [References.types_ofFindings,
    filterMap_findings_eq_sites (fun _ _ => rfl) r.type?_instructionFinding]
  rfl

theorem strings_findings (r : Resolver) : (References.ofFindings r.findings).strings =
    Arrows.ofTargets r.world.classes (·.id) fun c =>
      if r.world.settings.strings then
        c.methods.flatMap fun m => m.decl.body.instructions.filterMap Instruction.string?
      else [] := by
  rw [References.strings_ofFindings, filterMap_findings r fun _ _ => rfl, World.methods,
    List.flatMap_assoc]
  refine List.flatMap_congr fun c _ => ?_
  simp only [string?_instructionFinding, List.flatMap_map]
  split
  · simp [List.map_flatMap, List.map_filterMap]
  · simp

theorem fieldTypes_findings (r : Resolver) : (References.ofFindings r.findings).fieldTypes =
    if r.world.settings.fieldTypes then
      r.world.fields.filterMap fun x => (r.world.typeClass? x.2).map (x.2.id, ·)
    else [] := by
  rw [References.fieldTypes_ofFindings, filterMap_fieldType?_findings]

theorem describes_ofFindings (hw : r.world.WellFormed) :
    r.Describes (.ofFindings r.findings) where
  calls := r.calls_findings ▸ World.occurrences_reading hw _
  reads := r.reads_findings ▸ World.occurrences_reading hw _
  writes := r.writes_findings ▸ World.occurrences_reading hw _
  types := r.types_findings ▸ World.occurrences_reading hw _
  strings c hc := by
    rw [strings_findings]
    exact Arrows.targets_ofTargets hw.ids_nodup hc
  fieldTypes c hc := by
    rw [fieldTypes_findings]
    split
    · rw [Arrows.sources_filterMap]
      refine congrArg _ (List.filter_congr fun x _ => decide_eq_decide.2 ?_)
      rw [World.typeClass?, Option.bind_eq_some_iff]
      constructor
      · rintro ⟨n, hn, hl⟩
        rw [hn, (hw.lookup?_eq_id_iff hc).1 hl]
      · intro hn
        exact ⟨c.name, hn, hw.lookup?_of_mem hc⟩
    · rfl

end Resolver

/-! ### Every change keeps them or ends the stage -/

namespace World
variable {w w' : World}

/-- While a world is indexed, its references are those that indexing finds in it. -/
def ReferencesCurrent (w : World) : Prop :=
  w.stage = .indexed → ∃ h, w.references = .ofFindings (Resolver.findings ⟨w, h⟩)

theorem referencesCurrent_move (hm : Move w w') : w'.ReferencesCurrent := by
  intro hs
  cases hm with
  | remove hc => exact absurd hs Stage.withoutIndex_ne_indexed
  | insert hd => cases hs
  | withBody hid => exact absurd hs Stage.withoutIndex_ne_indexed
  | dropDerived => cases hs
  | link ha => cases hs
  | index hs' => exact ⟨Stage.noConfusion, rfl⟩

theorem Reachable.referencesCurrent (h : w.Reachable) : w.ReferencesCurrent :=
  h.induct (fun _ hs => nomatch hs) fun _ _ _ _ hm => referencesCurrent_move hm

/-- In an indexed world every relation of references is the one that the bodies, the settings and the
resolver determine now, with order and multiplicity at both of its ends. -/
theorem references_of_bodies (h : w.Reachable) (hs : w.stage = .indexed) :
    ∃ r, w.resolver = .ok r ∧ r.world = w ∧ r.Describes w.references := by
  obtain ⟨hne, heq⟩ := h.referencesCurrent hs
  rw [heq]
  exact ⟨⟨w, hne⟩, resolver_of_stage hne, rfl, Resolver.describes_ofFindings h.wellFormed⟩

theorem references_of_bodies_shapes :
    let w := ofShapes [.linkAndIndex]
    (w.Reachable ∧ w.stage = .indexed) ∧
      ∃ r, w.resolver = .ok r ∧ r.world = w ∧ r.Describes w.references :=
  ⟨⟨reachable_ofShapes _, by decide +kernel⟩,
    references_of_bodies (reachable_ofShapes _) (by decide +kernel)⟩

end World
end ClosedWorld
