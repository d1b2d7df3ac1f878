import ClosedWorld.Proofs.World.Mirror

/-!
# Nothing is left of the history

The fresh world has the declarations of a world registered in their order (`fresh`). It numbers classes,
methods and fields without gaps (`Compact`), and numbers increase along every world, so the world is its
fresh world renamed, position by position (`renames_fresh`). Linking and indexing do not see the
difference: they drop what was derived before and come out the same on both.
-/

namespace ClosedWorld

/-! ### Numbers by position -/

/-- The numbers of a list by position, and numbers from `next` on behind it. -/
def numbering (next : ℕ) (l : List ℕ) (i : ℕ) : ℕ := l[i]?.getD (next + i)

namespace Numbered
variable {next : ℕ} {l : List ℕ}

theorem strictMono_numbering (h : Numbered next l) : StrictMono (numbering next l) := by
  intro i j hij
  by_cases hj : j < l.length
  · have hi : i < l.length := hij.trans hj
    have hlt := List.pairwise_iff_getElem.1 h.increasing i j hi hj hij
    simpa [numbering, hi, hj] using hlt
  · by_cases hi : i < l.length
    · have hlt := h.lt l[i] (List.getElem_mem hi)
      simp only [numbering, hi, List.getElem?_eq_getElem, Option.getD_some,
        List.getElem?_eq_none (Nat.not_lt.1 hj), Option.getD_none]
      omega
    · simp only [numbering, List.getElem?_eq_none (Nat.not_lt.1 hj),
        List.getElem?_eq_none (Nat.not_lt.1 hi), Option.getD_none]
      omega

end Numbered

theorem map_numbering (next : ℕ) (l : List ℕ) : (List.range l.length).map (numbering next l) = l := by
  refine List.ext_getElem (by simp) fun i _ hi => ?_
  simp [numbering, hi]

/-- Identifiers without gaps become those of a list of the same length. -/
theorem map_of_range {ι : Type} {val : ι → ℕ} (hval : Function.Injective val) {f : ι → ι}
    {l l' : List ι} {next n : ℕ} (hf : ∀ i, val (f i) = numbering next (l'.map val) (val i))
    (hl : l.map val = List.range n) (hlen : l.length = l'.length) : l.map f = l' := by
  have hn : n = (l'.map val).length := by
    have := congrArg List.length hl
    simp only [List.length_map, List.length_range] at this
    rw [List.length_map, ← hlen, this]
  refine List.map_injective_iff.2 hval ?_
  calc (l.map f).map val = (l.map val).map (numbering next (l'.map val)) := by
        rw [List.map_map, List.map_map]
        exact List.map_congr_left fun i _ => hf i
    _ = l'.map val := by rw [hl, hn, map_numbering]

/-! ### Classes from their declarations -/

theorem eq_of_map_of_map {α β γ : Type} {f : α → β} {g : α → γ}
    (hfg : ∀ a b, f a = f b → g a = g b → a = b) {l l' : List α} (hf : l.map f = l'.map f)
    (hg : l.map g = l'.map g) : l = l' := by
  have hpair : Function.Injective fun a => (f a, g a) := fun a b h =>
    hfg a b (Prod.mk.inj h).1 (Prod.mk.inj h).2
  refine List.map_injective_iff.2 hpair ?_
  rw [← List.zip_map', ← List.zip_map', hf, hg]

namespace ClassEntry
variable {c c' : ClassEntry}

theorem length_methodIds (c : ClassEntry) : c.methodIds.length = c.decl.methods.length := by
  simp [methodIds, decl]

theorem length_fieldIds (c : ClassEntry) : c.fieldIds.length = c.decl.fields.length := by
  simp [fieldIds, decl]

theorem ext_of_decl (hd : c.decl = c'.decl) (hid : c.id = c'.id) (hm : c.methodIds = c'.methodIds)
    (hf : c.fieldIds = c'.fieldIds) : c = c' := by
  have hheader : c.toClassHeader = c'.toClassHeader := congrArg (·.toClassHeader) hd
  have hmethods : c.methods = c'.methods := by
    refine eq_of_map_of_map (fun ⟨_, _⟩ ⟨_, _⟩ hi hd => ?_) hm (congrArg (·.methods) hd)
    exact congr (congrArg MethodEntry.mk hi) hd
  have hfields : c.fields = c'.fields := by
    refine eq_of_map_of_map (fun ⟨_, _⟩ ⟨_, _⟩ hi hd => ?_) hf (congrArg (·.fields) hd)
    exact congr (congrArg FieldEntry.mk hi) hd
  cases c
  cases c'
  simp_all

end ClassEntry

/-- A list of classes is given by its declarations and by the numbers in it, in their order. -/
theorem classes_ext {l l' : List ClassEntry} (hd : l.map (·.decl) = l'.map (·.decl))
    (hid : l.map (·.id) = l'.map (·.id)) (hm : l.flatMap (·.methodIds) = l'.flatMap (·.methodIds))
    (hf : l.flatMap (·.fieldIds) = l'.flatMap (·.fieldIds)) : l = l' := by
  induction l generalizing l' with
  | nil =>
    cases l' with
    | nil => rfl
    | cons c' l' => cases hd
  | cons c l ih =>
    cases l' with
    | nil => cases hd
    | cons c' l' =>
      rw [List.map_cons, List.map_cons, List.cons.injEq] at hd hid
      obtain ⟨hdecl, hd⟩ := hd
      obtain ⟨hcid, hid⟩ := hid
      -- as many numbers belong to the first class as its declaration has members
      have hmlen : c.methodIds.length = c'.methodIds.length := by
        rw [c.length_methodIds, c'.length_methodIds, hdecl]
      have hflen : c.fieldIds.length = c'.fieldIds.length := by
        rw [c.length_fieldIds, c'.length_fieldIds, hdecl]
      rw [List.flatMap_cons, List.flatMap_cons] at hm hf
      obtain ⟨hcm, hm⟩ := List.append_inj hm hmlen
      obtain ⟨hcf, hf⟩ := List.append_inj hf hflen
      rw [ClassEntry.ext_of_decl hdecl hcid hcm hcf, ih hd hid hm hf]

/-- Classes with the same declarations and with other numbers, in their order. -/
theorem Relabeling.map_ofClassEntry (ρ : Relabeling) {l l' : List ClassEntry}
    (hd : l.map (·.decl) = l'.map (·.decl)) (hid : (l.map (·.id)).map ρ.ofClass = l'.map (·.id))
    (hm : (l.flatMap (·.methodIds)).map ρ.ofMethod = l'.flatMap (·.methodIds))
    (hf : (l.flatMap (·.fieldIds)).map ρ.ofField = l'.flatMap (·.fieldIds)) :
    l.map ρ.ofClassEntry = l' := by
  refine classes_ext ?_ ?_ ?_ ?_
  · rw [← hd, List.map_map]
    exact List.map_congr_left fun c _ => ρ.ofClassEntry_decl c
  · rw [← hid, List.map_map, List.map_map]
    rfl
  · rw [← hm, List.flatMap_map, List.map_flatMap]
    exact List.flatMap_congr fun c _ => ρ.methodIds_ofClassEntry c
  · rw [← hf, List.flatMap_map, List.map_flatMap]
    exact List.flatMap_congr fun c _ => ρ.fieldIds_ofClassEntry c

namespace World
variable {w : World} {d : ClassDecl} {l : List ClassDecl}

/-! ### The fresh world -/

/-- A new world to which the declarations of this one are registered in their order. -/
def fresh (w : World) : World := (World.empty w.settings).run (w.decls.map .register)

/-- The numbers that were given out are all in use. -/
structure Compact (w : World) : Prop where
  classes : w.ids.map (·.val) = List.range w.issued.classes
  methods : w.methodIds.map (·.val) = List.range w.issued.methods
  fields : w.fieldIds.map (·.val) = List.range w.issued.fields

theorem range_append_range' (n k : ℕ) : List.range n ++ List.range' n k = List.range (n + k) := by
  rw [List.range_eq_range', List.range_eq_range', ← List.range'_append_1, Nat.zero_add]

namespace Compact

theorem empty (s : Settings) : (World.empty s).Compact := ⟨rfl, rfl, rfl⟩

theorem insert (hw : w.Compact) (d : ClassDecl) : (w.insert d).Compact where
  classes := by
    rw [ids, insert_classes, List.map_append, List.map_append]
    show w.ids.map (·.val) ++ [w.issued.classes] = List.range (w.issued.classes + 1)
    rw [hw.classes, List.range_succ]
  methods := by
    rw [insert_methodIds, hw.methods, range_append_range']
    rfl
  fields := by
    rw [insert_fieldIds, hw.fields, range_append_range']
    rfl

end Compact

theorem register_of_free (h : w.lookup? d.name = none) : (w.register d).2 = w.insert d := by
  rw [register_snd, unregisterNamed_of_unknown h]

/-- Declarations of different names are registered one behind the other. -/
theorem run_register (hw : w.Compact) (hl : ((w.decls ++ l).map (·.name)).Nodup) :
    (w.run (l.map .register)).Compact ∧ (w.run (l.map .register)).decls = w.decls ++ l ∧
      (w.run (l.map .register)).settings = w.settings := by
  induction l generalizing w with
  | nil => exact ⟨hw, (List.append_nil _).symm, rfl⟩
  | cons d l ih =>
    have hfree : w.lookup? d.name = none := by
      rw [List.map_append] at hl
      have hdisjoint := (List.nodup_append.1 hl).2.2
      refine lookup?_eq_none_iff.2 fun c hc => hdisjoint c.name ?_ d.name (by simp)
      exact List.mem_map_of_mem (f := (·.name)) (List.mem_map_of_mem (f := (·.decl)) hc)
    have hrun : w.run ((d :: l).map .register) = (w.insert d).run (l.map .register) := by
      rw [← register_of_free hfree]
      rfl
    have hnext := ih (hw.insert d) (by rwa [insert_decls, List.append_assoc])
    rw [insert_decls, List.append_assoc] at hnext
    rw [hrun]
    exact hnext

/-! ### The world as its fresh world, renamed -/

namespace WellFormed
variable (hw : w.WellFormed)
include hw

theorem compact_fresh : w.fresh.Compact ∧ w.fresh.decls = w.decls ∧ w.fresh.settings = w.settings := by
  refine run_register (.empty w.settings) ?_
  have hnames : (w.decls.map (·.name)) = w.classes.map (·.name) := by
    rw [decls, List.map_map]
    rfl
  rw [show (World.empty w.settings).decls ++ w.decls = w.decls from rfl, hnames]
  exact hw.names

end WellFormed

def renumbering (w : World) (hw : w.WellFormed) : Renaming where
  classes := numbering w.issued.classes (w.ids.map (·.val))
  methods := numbering w.issued.methods (w.methodIds.map (·.val))
  fields := numbering w.issued.fields (w.fieldIds.map (·.val))
  classes_strictMono := hw.classes.strictMono_numbering
  methods_strictMono := hw.methods.strictMono_numbering
  fields_strictMono := hw.fields.strictMono_numbering

theorem length_methodIds (w : World) : w.methodIds.length = (w.decls.flatMap (·.methods)).length := by
  rw [methodIds_eq, decls, List.length_flatMap, List.flatMap_map, List.length_flatMap]
  simp only [ClassEntry.length_methodIds]

theorem length_fieldIds (w : World) : w.fieldIds.length = (w.decls.flatMap (·.fields)).length := by
  rw [fieldIds_eq, decls, List.length_flatMap, List.flatMap_map, List.length_flatMap]
  simp only [ClassEntry.length_fieldIds]

theorem length_ids (w : World) : w.ids.length = w.decls.length := by
  rw [ids, decls, List.length_map, List.length_map]

theorem renames_fresh (hw : w.WellFormed) : (w.renumbering hw).Renames w.fresh w := by
  let σ := w.renumbering hw
  obtain ⟨hcompact, hdecls, hsettings⟩ := hw.compact_fresh
  have hids : w.fresh.ids.map σ.ofClass = w.ids :=
    map_of_range ClassId.val_injective (fun _ => rfl) hcompact.classes
      (by rw [length_ids, length_ids, hdecls])
  have hmethodIds : w.fresh.methodIds.map σ.ofMethod = w.methodIds :=
    map_of_range MethodId.val_injective (fun _ => rfl) hcompact.methods
      (by rw [length_methodIds, length_methodIds, hdecls])
  have hfieldIds : w.fresh.fieldIds.map σ.ofField = w.fieldIds :=
    map_of_range FieldId.val_injective (fun _ => rfl) hcompact.fields
      (by rw [length_fieldIds, length_fieldIds, hdecls])
  rw [methodIds_eq, methodIds_eq] at hmethodIds
  rw [fieldIds_eq, fieldIds_eq] at hfieldIds
  exact ⟨hsettings.symm, (σ.relabeling.map_ofClassEntry hdecls hids hmethodIds hfieldIds).symm⟩

/-! ### The result -/

/-- Linking and indexing in a row fail by a cycle only. -/
theorem linkAndIndex_cases (hw : w.WellFormed) :
    (∃ name, w.linkAndIndex.1 = .error (.cyclicInheritance name)) ∨
      ∃ tally, w.linkAndIndex.1 = .ok tally ∧ w.linkAndIndex.2.stage ≠ .unlinked := by
  by_cases ha : w.declaredHierarchy.Acyclic
  · have hs := w.stage_linked_ne
    refine .inr ⟨.ofFindings (Resolver.findings ⟨w.linked, hs⟩), ?_⟩
    simp only [linkAndIndex, link_of_acyclic hw ha, index_of_stage hs]
    exact ⟨trivial, stage_indexed_ne hs⟩
  · obtain ⟨c, -, -, hlink⟩ := link_of_cyclic hw ha
    refine .inl ⟨c.name, ?_⟩
    simp only [linkAndIndex, hlink]

end World

namespace Renaming
variable {σ : Renaming} {w w' : World} {r r' : Resolver}

/-- The classes of one world are those of the other, renamed, and so is each list of edges. -/
structure Corresponds (σ : Renaming) (w w' : World) : Prop where
  classes : w'.classes = w.classes.map σ.ofClassEntry
  parent? : ∀ c, w'.hierarchy.parent? (σ.ofClass c) = (w.hierarchy.parent? c).map σ.ofClass
  children : ∀ c, w'.hierarchy.children (σ.ofClass c) = (w.hierarchy.children c).map σ.ofClass
  interfaces : ∀ c, w'.hierarchy.interfacesOf (σ.ofClass c) = (w.hierarchy.interfacesOf c).map σ.ofClass
  implementers : ∀ c,
    w'.hierarchy.implementers (σ.ofClass c) = (w.hierarchy.implementers c).map σ.ofClass
  calls : ∀ m,
    w'.references.calls.targets (σ.ofMethod m) = (w.references.calls.targets m).map σ.ofMethod
  callers : ∀ m,
    w'.references.calls.sources (σ.ofMethod m) = (w.references.calls.sources m).map σ.ofMethod
  reads : ∀ m, w'.references.reads.targets (σ.ofMethod m) = (w.references.reads.targets m).map σ.ofField
  readers : ∀ f, w'.references.reads.sources (σ.ofField f) = (w.references.reads.sources f).map σ.ofMethod
  writes : ∀ m,
    w'.references.writes.targets (σ.ofMethod m) = (w.references.writes.targets m).map σ.ofField
  writers : ∀ f,
    w'.references.writes.sources (σ.ofField f) = (w.references.writes.sources f).map σ.ofMethod
  types : ∀ m, w'.references.types.targets (σ.ofMethod m) = (w.references.types.targets m).map σ.ofClass
  users : ∀ c, w'.references.types.sources (σ.ofClass c) = (w.references.types.sources c).map σ.ofMethod
  strings : ∀ c, w'.references.strings.targets (σ.ofClass c) = w.references.strings.targets c
  fieldTypes : ∀ c,
    w'.references.fieldTypes.sources (σ.ofClass c) = (w.references.fieldTypes.sources c).map σ.ofField

theorem Mirrors.corresponds (h : σ.Mirrors w w') : σ.Corresponds w w' where
  classes := h.classes
  parent? c := by rw [h.hierarchy, parent?_ofHierarchy]
  children c := by rw [h.hierarchy, children_ofHierarchy]
  interfaces c := by rw [h.hierarchy, interfacesOf_ofHierarchy]
  implementers c := by rw [h.hierarchy, implementers_ofHierarchy]
  calls m := by rw [h.references, ofReferences, Edges.targets_rename σ.ofMethod_injective]
  callers m := by rw [h.references, ofReferences, Edges.sources_rename σ.ofMethod_injective]
  reads m := by rw [h.references, ofReferences, Edges.targets_rename σ.ofMethod_injective]
  readers f := by rw [h.references, ofReferences, Edges.sources_rename σ.ofField_injective]
  writes m := by rw [h.references, ofReferences, Edges.targets_rename σ.ofMethod_injective]
  writers f := by rw [h.references, ofReferences, Edges.sources_rename σ.ofField_injective]
  types m := by rw [h.references, ofReferences, Edges.targets_rename σ.ofMethod_injective]
  users c := by rw [h.references, ofReferences, Edges.sources_rename σ.ofClass_injective]
  strings c := by
    rw [h.references, ofReferences, Arrows.targets_rename σ.ofClass_injective, List.map_id]
  fieldTypes c := by rw [h.references, ofReferences, Arrows.sources_rename σ.ofClass_injective]

/-- Questions about a class have the answers for the renamed class, renamed. -/
structure Answers (σ : Renaming) (r r' : Resolver) : Prop where
  method? : ∀ c name d throughInterface, r'.method? (σ.ofClass c) name d throughInterface =
    (r.method? c name d throughInterface).map σ.ofMethodFound
  field? : ∀ c name t, r'.field? (σ.ofClass c) name t = (r.field? c name t).map σ.ofFieldFound
  superinterfaces : ∀ c,
    r'.hierarchy.superinterfaces (σ.ofClass c) = (r.hierarchy.superinterfaces c).map σ.ofClass
  isAssignable : ∀ sub sup, r'.hierarchy.isAssignable (σ.ofClass sub) (σ.ofClass sup) =
    r.hierarchy.isAssignable sub sup

theorem Mirrors.answers (h : σ.Mirrors r.world r'.world) : σ.Answers r r' := by
  have hh := h.hierarchy_follows
  exact ⟨h.method?, h.field?, hh.superinterfaces, hh.isAssignable⟩

end Renaming

namespace World
variable {w : World}

/-- Linking and indexing a world has the same outcome as on the fresh world, whatever the history of the
world is. Under a renaming that keeps the order of registration and declaration, all edges are the same,
and if it succeeds, all answers are. -/
theorem linkAndIndex_fresh (h : w.Reachable) :
    w.linkAndIndex.1 = w.fresh.linkAndIndex.1 ∧ ∃ σ : Renaming,
      σ.Corresponds w.fresh.linkAndIndex.2 w.linkAndIndex.2 ∧
        ((∃ name, w.linkAndIndex.1 = .error (.cyclicInheritance name)) ∨
          ∃ tally r r', w.linkAndIndex.1 = .ok tally ∧ w.fresh.linkAndIndex.2.resolver = .ok r ∧
            w.linkAndIndex.2.resolver = .ok r' ∧ σ.Answers r r') := by
  have hw := h.wellFormed
  obtain ⟨hresult, hm⟩ := (renames_fresh hw).linkAndIndex
  refine ⟨hresult, w.renumbering hw, hm.corresponds, ?_⟩
  rcases linkAndIndex_cases hw with herror | ⟨tally, hok, hs⟩
  · exact .inl herror
  · have hs' : w.fresh.linkAndIndex.2.stage ≠ .unlinked := hm.stage ▸ hs
    let r : Resolver := ⟨w.fresh.linkAndIndex.2, hs'⟩
    let r' : Resolver := ⟨w.linkAndIndex.2, hs⟩
    have hr : (w.renumbering hw).Mirrors r.world r'.world := hm
    exact .inr ⟨tally, r, r', hok, resolver_of_stage hs', resolver_of_stage hs, hr.answers⟩

/-- The square is registered again and the tile is taken out, so numbers are missing, and there are edges
from before. -/
theorem linkAndIndex_fresh_shapes :
    let w := ofShapes [.linkAndIndex, .register shapes[1], .link, .unregister ⟨2⟩, .index]
    w.Reachable ∧ w.linkAndIndex.1 = w.fresh.linkAndIndex.1 ∧ ∃ σ : Renaming,
      σ.Corresponds w.fresh.linkAndIndex.2 w.linkAndIndex.2 ∧
        ((∃ name, w.linkAndIndex.1 = .error (.cyclicInheritance name)) ∨
          ∃ tally r r', w.linkAndIndex.1 = .ok tally ∧ w.fresh.linkAndIndex.2.resolver = .ok r ∧
            w.linkAndIndex.2.resolver = .ok r' ∧ σ.Answers r r') :=
  ⟨reachable_ofShapes _, linkAndIndex_fresh (reachable_ofShapes _)⟩

example : (ofShapes [.linkAndIndex, .register shapes[1], .link, .unregister ⟨2⟩, .index]).ids =
    [⟨0⟩, ⟨3⟩] := by decide +kernel

end World
end ClosedWorld
