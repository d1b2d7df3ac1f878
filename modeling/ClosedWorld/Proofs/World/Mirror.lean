import ClosedWorld.Proofs.World.Moves
import ClosedWorld.Proofs.World.Renaming

/-!
# Worlds that are the same up to a renaming

`Renames`: the classes of one world are those of the other, renamed. Then names are looked up to renamed
classes and the declared hierarchy is the renamed one, so linking comes out the same
(`Renames.link`). `Mirrors`: what was derived is renamed as well. Then a resolver finds renamed members
(`Mirrors.method?`, `Mirrors.field?`), every finding is renamed, and indexing comes out the same
(`Mirrors.index`). Identifiers are compared for equality, and in one place, where the earlier of two
interfaces wins, for their order.
-/

namespace ClosedWorld
namespace Renaming
variable (σ : Renaming)

def ofFinding : Finding → Finding
  | .call caller callee owner => .call (σ.ofMethod caller) (σ.ofMethod callee) (σ.ofClass owner)
  | .read reader field owner => .read (σ.ofMethod reader) (σ.ofField field) (σ.ofClass owner)
  | .write writer field owner => .write (σ.ofMethod writer) (σ.ofField field) (σ.ofClass owner)
  | .type method target => .type (σ.ofMethod method) (σ.ofClass target)
  | .string owner value => .string (σ.ofClass owner) value
  | .fieldType field target => .fieldType (σ.ofField field) (σ.ofClass target)
  | .skipped => .skipped

def ofReferences (r : References) : References where
  calls := r.calls.rename σ.ofMethod σ.ofMethod
  reads := r.reads.rename σ.ofMethod σ.ofField
  writes := r.writes.rename σ.ofMethod σ.ofField
  types := r.types.rename σ.ofMethod σ.ofClass
  strings := r.strings.rename σ.ofClass id
  fieldTypes := r.fieldTypes.rename σ.ofField σ.ofClass

/-- The classes of one world are those of the other, renamed. -/
structure Renames (w w' : World) : Prop where
  settings : w'.settings = w.settings
  classes : w'.classes = w.classes.map σ.ofClassEntry

/-- What was derived is renamed as well. -/
structure Mirrors (w w' : World) : Prop extends σ.Renames w w' where
  hierarchy : w'.hierarchy = σ.ofHierarchy w.hierarchy
  references : w'.references = σ.ofReferences w.references
  stage : w'.stage = w.stage

variable {σ : Renaming} {w w' : World}

/-! ### Declarations -/

namespace Renames
variable (h : σ.Renames w w')
include h

theorem ids : w'.ids = w.ids.map σ.ofClass := by
  rw [World.ids, h.classes, World.ids, List.map_map, List.map_map]
  rfl

theorem lookup? (name : ClassName) : w'.lookup? name = (w.lookup? name).map σ.ofClass := by
  rw [World.lookup?, World.named?, h.classes, List.find?_map, World.lookup?, World.named?,
    Option.map_map, Option.map_map]
  rfl

theorem class? (c : ClassId) : w'.class? (σ.ofClass c) = (w.class? c).map σ.ofClassEntry := by
  have hid : ((fun e : ClassEntry => decide (e.id = σ.ofClass c)) ∘ σ.ofClassEntry) =
      fun e => decide (e.id = c) := by
    funext e
    exact decide_eq_decide.2 σ.ofClass_inj
  rw [World.class?, h.classes, List.find?_map, hid]
  rfl

theorem typeClass? (f : FieldEntry) :
    w'.typeClass? (σ.ofFieldEntry f) = (w.typeClass? f).map σ.ofClass := by
  show f.decl.type.className?.bind w'.lookup? = (f.decl.type.className?.bind w.lookup?).map σ.ofClass
  cases f.decl.type.className? with
  | none => rfl
  | some name => exact h.lookup? name

theorem declaredHierarchy : w'.declaredHierarchy = σ.ofHierarchy w.declaredHierarchy := by
  have hparents : w'.declaredHierarchy.parents =
      w.declaredHierarchy.parents.rename σ.ofClass σ.ofClass := by
    rw [World.declared_parents, World.declared_parents, ← Edges.ofList_rename, h.classes]
    refine congrArg Edges.ofList (Arrows.ofTargets_map ?_ ?_ _)
    · exact fun _ => rfl
    · intro c
      rw [← Option.toList_map, ← World.super?_of_lookup? h.lookup?]
      rfl
  have hinterfaces : w'.declaredHierarchy.interfaces =
      w.declaredHierarchy.interfaces.rename σ.ofClass σ.ofClass := by
    rw [World.declared_interfaces, World.declared_interfaces, ← Edges.ofList_rename, h.classes]
    refine congrArg Edges.ofList (Arrows.ofTargets_map ?_ ?_ _)
    · exact fun _ => rfl
    · exact fun c => World.interfaces_of_lookup? h.lookup? c σ.ofClass_injective
  exact congr (congrArg Hierarchy.mk hparents) hinterfaces

theorem dropDerived : σ.Mirrors w.dropDerived w'.dropDerived :=
  ⟨⟨h.settings, h.classes⟩, rfl, rfl, rfl⟩

/-- Linking has the same outcome, down to the class that it reports on a cycle. -/
theorem link : w'.link.1 = w.link.1 ∧ σ.Mirrors w.link.2 w'.link.2 := by
  have hd := h.dropDerived
  have hcycle : (w'.dropDerived.declaredHierarchy.cycle? w'.dropDerived.ids).bind w'.dropDerived.class? =
      ((w.dropDerived.declaredHierarchy.cycle? w.dropDerived.ids).bind w.dropDerived.class?).map
        σ.ofClassEntry := by
    rw [hd.declaredHierarchy, hd.ids, cycle?_ofHierarchy]
    cases w.dropDerived.declaredHierarchy.cycle? w.dropDerived.ids with
    | none => rfl
    | some c => exact hd.class? c
  cases hc : (w.dropDerived.declaredHierarchy.cycle? w.dropDerived.ids).bind w.dropDerived.class? with
  | some c =>
    rw [hc] at hcycle
    simp only [World.link, hc, hcycle, Option.map_some]
    exact ⟨rfl, hd⟩
  | none =>
    rw [hc] at hcycle
    simp only [World.link, hc, hcycle, Option.map_none]
    exact ⟨trivial, ⟨hd.settings, hd.classes⟩, hd.declaredHierarchy, rfl, rfl⟩

end Renames

/-! ### Resolving -/

section Resolver
variable {r r' : Resolver} (h : σ.Mirrors r.world r'.world)

/-- A method that was found, renamed with its owner. -/
abbrev ofMethodFound (σ : Renaming) : Declared MethodEntry → Declared MethodEntry :=
  σ.ofDeclared σ.ofMethodEntry

abbrev ofFieldFound (σ : Renaming) : Declared FieldEntry → Declared FieldEntry :=
  σ.ofDeclared σ.ofFieldEntry

namespace Mirrors
include h

theorem hierarchy_follows : r.hierarchy.Follows σ.ofClass r'.hierarchy := by
  have hh : r'.hierarchy = σ.ofHierarchy r.hierarchy := h.hierarchy
  exact hh ▸ σ.follows_ofHierarchy r.hierarchy

theorem follows : Resolver.Follows σ.ofClass σ.ofMethodEntry σ.ofFieldEntry r r' :=
  σ.relabeling.follows h.hierarchy_follows h.class?

theorem field? (c : ClassId) (name : MemberName) (t : FieldType) :
    r'.field? (σ.ofClass c) name t = (r.field? c name t).map σ.ofFieldFound :=
  h.follows.field? c name t

/-- The choice among what remains looks at the order of the interfaces, which a renaming keeps. -/
theorem method? (c : ClassId) (name : MemberName) (d : MethodDescriptor) (throughInterface : Bool) :
    r'.method? (σ.ofClass c) name d throughInterface =
      (r.method? c name d throughInterface).map σ.ofMethodFound := by
  have hchoice : ∀ l : List (Declared MethodEntry), (l.map σ.ofMethodFound).minOn? (·.owner.val) =
      (l.minOn? (·.owner.val)).map σ.ofMethodFound :=
    minOn?_map fun a b => σ.classes_strictMono.le_iff_le
  exact h.follows.method? fun _ _ => hchoice _

theorem methodOf? (ref : MethodRef) : r'.methodOf? ref = (r.methodOf? ref).map σ.ofMethodFound := by
  rw [Resolver.methodOf?, h.lookup?, Resolver.methodOf?]
  cases r.world.lookup? ref.owner with
  | none => rfl
  | some c => exact h.method? c ref.name ref.descriptor ref.ownerIsInterface

theorem fieldOf? (ref : FieldRef) : r'.fieldOf? ref = (r.fieldOf? ref).map σ.ofFieldFound := by
  rw [Resolver.fieldOf?, h.lookup?, Resolver.fieldOf?]
  cases r.world.lookup? ref.owner with
  | none => rfl
  | some c => exact h.field? c ref.name ref.type

/-! ### Findings -/

theorem finding? (owner : ClassId) (m : MethodId) (i : Mention) :
    r'.finding? (σ.ofClass owner) (σ.ofMethod m) i = (r.finding? owner m i).map σ.ofFinding := by
  cases i with
  | call ref =>
    rw [Resolver.finding?, h.methodOf?, Resolver.finding?]
    cases r.methodOf? ref <;> rfl
  | read ref =>
    rw [Resolver.finding?, h.fieldOf?, Resolver.finding?]
    cases r.fieldOf? ref <;> rfl
  | write ref =>
    rw [Resolver.finding?, h.fieldOf?, Resolver.finding?]
    cases r.fieldOf? ref <;> rfl
  | type name =>
    rw [Resolver.finding?, h.settings, h.lookup?, Resolver.finding?]
    cases r.world.settings.types <;> cases r.world.lookup? name <;> rfl
  | string value =>
    rw [Resolver.finding?, h.settings, Resolver.finding?]
    cases r.world.settings.strings <;> rfl

theorem bodyFindings (owner : ClassId) (m : MethodEntry) :
    r'.bodyFindings (σ.ofClass owner) (σ.ofMethodEntry m) =
      (r.bodyFindings owner m).map σ.ofFinding := by
  rw [Resolver.bodyFindings, Resolver.bodyFindings, List.map_filterMap]
  exact List.filterMap_congr fun i _ => h.finding? owner m.id i

theorem fieldFinding? (f : FieldEntry) :
    r'.fieldFinding? (σ.ofFieldEntry f) = (r.fieldFinding? f).map σ.ofFinding := by
  rw [Resolver.fieldFinding?, h.typeClass?, Resolver.fieldFinding?]
  cases r.world.typeClass? f <;> rfl

theorem classFindings (c : ClassEntry) :
    r'.classFindings (σ.ofClassEntry c) = (r.classFindings c).map σ.ofFinding := by
  have hbodies : (c.methods.map σ.ofMethodEntry).flatMap (r'.bodyFindings (σ.ofClass c.id)) =
      (c.methods.flatMap (r.bodyFindings c.id)).map σ.ofFinding := by
    rw [List.flatMap_map, List.map_flatMap]
    exact List.flatMap_congr fun m _ => h.bodyFindings c.id m
  have hfields : (c.fields.map σ.ofFieldEntry).filterMap r'.fieldFinding? =
      (c.fields.filterMap r.fieldFinding?).map σ.ofFinding := by
    rw [List.filterMap_map, List.map_filterMap]
    exact List.filterMap_congr fun f _ => h.fieldFinding? f
  show (c.methods.map σ.ofMethodEntry).flatMap (r'.bodyFindings (σ.ofClass c.id)) ++
    (if r'.world.settings.fieldTypes then (c.fields.map σ.ofFieldEntry).filterMap r'.fieldFinding?
      else []) = _
  rw [hbodies, hfields, h.settings, Resolver.classFindings, List.map_append]
  split <;> rfl

theorem findings : r'.findings = r.findings.map σ.ofFinding := by
  rw [Resolver.findings, h.classes, List.flatMap_map, Resolver.findings, List.map_flatMap]
  exact List.flatMap_congr fun c _ => h.classFindings c

end Mirrors
end Resolver

/-! ### Indexing -/

theorem record_rename (r : References) (x : Finding) :
    (σ.ofReferences r).record (σ.ofFinding x) = σ.ofReferences (r.record x) := by
  cases x <;>
    simp only [References.record, ofReferences, ofFinding, ← Edges.record_rename, Arrows.rename,
      List.map_append, List.map_cons, List.map_nil, Prod.map_apply, id]

theorem ofFindings_rename (l : List Finding) :
    References.ofFindings (l.map σ.ofFinding) = σ.ofReferences (.ofFindings l) := by
  rw [References.ofFindings, List.foldl_map]
  show l.foldl (fun r x => r.record (σ.ofFinding x)) (σ.ofReferences {}) =
    σ.ofReferences (l.foldl References.record {})
  exact List.foldl_hom _ record_rename

/-- A renamed finding is of the same kind. -/
theorem tally_rename (l : List Finding) : Tally.ofFindings (l.map σ.ofFinding) = .ofFindings l := by
  have hcount : ∀ p : Finding → Bool, (∀ x, p (σ.ofFinding x) = p x) →
      (l.map σ.ofFinding).countP p = l.countP p := fun p hp => by
    rw [List.countP_map]
    exact congrArg (List.countP · l) (funext hp)
  unfold Tally.ofFindings
  congr 1 <;> exact hcount _ fun x => by cases x <;> rfl

theorem Mirrors.index (h : σ.Mirrors w w') : w'.index.1 = w.index.1 ∧ σ.Mirrors w.index.2 w'.index.2 := by
  by_cases hs : w.stage = .unlinked
  · rw [World.index_of_unlinked hs, World.index_of_unlinked (h.stage.trans hs)]
    exact ⟨rfl, h⟩
  · have hs' : w'.stage ≠ .unlinked := fun e => hs (h.stage.symm.trans e)
    let r : Resolver := ⟨w, hs⟩
    let r' : Resolver := ⟨w', hs'⟩
    have hr : σ.Mirrors r.world r'.world := h
    have hfindings : r'.findings = r.findings.map σ.ofFinding := hr.findings
    rw [World.index_of_stage hs, World.index_of_stage hs']
    refine ⟨?_, ⟨h.settings, h.classes⟩, h.hierarchy, ?_, rfl⟩
    · rw [hfindings, tally_rename]
    · show References.ofFindings _ = σ.ofReferences (.ofFindings _)
      rw [hfindings, ofFindings_rename]

theorem Renames.linkAndIndex (h : σ.Renames w w') :
    w'.linkAndIndex.1 = w.linkAndIndex.1 ∧ σ.Mirrors w.linkAndIndex.2 w'.linkAndIndex.2 := by
  obtain ⟨hlink, hm⟩ := h.link
  unfold World.linkAndIndex
  generalize w.link = x, w'.link = x' at hlink hm
  rcases x with ⟨e | ⟨⟩, v⟩ <;> rcases x' with ⟨e' | ⟨⟩, v'⟩ <;> cases hlink
  · exact ⟨rfl, hm⟩
  · exact hm.index

end Renaming
end ClosedWorld
