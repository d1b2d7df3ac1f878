import ClosedWorld.World.Edit
import Mathlib.Data.List.Nodup

/-!
# What edits do to the classes

Removing a class filters the lists of classes and members, adding one appends to them, and a new body
leaves all names and identifiers where they are. Editing a world is one of these three, or nothing
(`unregister_snd`, `register_snd`, `setBody?_eq_some_iff`).
-/

namespace ClosedWorld

namespace Stage
variable {s : Stage}

@[simp] theorem withoutIndex_eq_unlinked : s.withoutIndex = .unlinked ↔ s = .unlinked := by
  cases s <;> simp [withoutIndex]

theorem withoutIndex_ne_indexed : s.withoutIndex ≠ .indexed := by
  cases s <;> simp [withoutIndex]

end Stage

/-- The class with another body for one of its methods, if that is one of them. -/
def ClassEntry.withBody (c : ClassEntry) (id : MethodId) (body : Body) : ClassEntry :=
  { c with methods := c.methods.map fun m =>
      if m.id = id then { m with decl := { m.decl with body } } else m }

namespace ClassEntry
variable {c : ClassEntry} {id : MethodId} {body : Body}

@[simp] theorem withBody_id : (c.withBody id body).id = c.id := rfl

@[simp] theorem withBody_toClassHeader :
    (c.withBody id body).toClassHeader = c.toClassHeader := rfl

@[simp] theorem withBody_fields : (c.withBody id body).fields = c.fields := rfl

theorem withBody_methods : (c.withBody id body).methods = c.methods.map fun m =>
    if m.id = id then { m with decl := { m.decl with body } } else m := rfl

/-- A method of the class is the one with the new body, or another one as it was. -/
theorem mem_withBody_methods {m : MethodEntry} : m ∈ (c.withBody id body).methods ↔
    (∃ n ∈ c.methods, n.id = id ∧ m = { n with decl := { n.decl with body } }) ∨
      m ∈ c.methods ∧ m.id ≠ id := by
  rw [withBody_methods, List.mem_map]
  constructor
  · rintro ⟨n, hn, rfl⟩
    split
    · next hid => exact .inl ⟨n, hn, hid, rfl⟩
    · next hid => exact .inr ⟨hn, hid⟩
  · rintro (⟨n, hn, hid, rfl⟩ | ⟨hm, hid⟩)
    · exact ⟨n, hn, if_pos hid⟩
    · exact ⟨m, hm, if_neg hid⟩

@[simp] theorem withBody_methodIds : (c.withBody id body).methodIds = c.methodIds := by
  simp only [methodIds, withBody_methods, List.map_map]
  refine List.map_congr_left fun m _ => ?_
  simp only [Function.comp]
  split <;> rfl

end ClassEntry

namespace World

def remove (w : World) (c : ClassEntry) : World :=
  let w := { w with classes := w.classes.filter (·.id != c.id) }
  { w with
    hierarchy := w.hierarchy.dropClass c.id
    references := w.referencesWithout c
    stage := w.stage.withoutIndex }

def insert (w : World) (d : ClassDecl) : World :=
  { w with
    classes := w.classes ++ [w.entryOf d]
    issued := ⟨w.issued.classes + 1, w.issued.methods + d.methods.length,
      w.issued.fields + d.fields.length⟩
    stage := .unlinked }

def withBody (w : World) (id : MethodId) (body : Body) : World :=
  { w with
    classes := w.classes.map (·.withBody id body)
    stage := w.stage.withoutIndex }

def methodIds (w : World) : List MethodId := w.methods.map (·.2.id)

def fieldIds (w : World) : List FieldId := w.fields.map (·.2.id)

variable {w : World} {c : ClassEntry} {d : ClassDecl} {id : MethodId} {body : Body}

theorem mem_ids {id : ClassId} : id ∈ w.ids ↔ ∃ c ∈ w.classes, c.id = id := List.mem_map

theorem mem_methodIds : id ∈ w.methodIds ↔ ∃ x ∈ w.methods, x.2.id = id := List.mem_map

theorem method?_isSome : (w.method? id).isSome ↔ id ∈ w.methodIds := by
  simp [method?, mem_methodIds]

theorem mem_fieldIds {id : FieldId} : id ∈ w.fieldIds ↔ ∃ x ∈ w.fields, x.2.id = id := List.mem_map

theorem mem_methods {x : ClassEntry × MethodEntry} :
    x ∈ w.methods ↔ x.1 ∈ w.classes ∧ x.2 ∈ x.1.methods := by
  obtain ⟨c, m⟩ := x
  simp only [methods, List.mem_flatMap, List.mem_map, Prod.mk.injEq]
  constructor
  · rintro ⟨_, hc, _, hm, rfl, rfl⟩; exact ⟨hc, hm⟩
  · rintro ⟨hc, hm⟩; exact ⟨c, hc, m, hm, rfl, rfl⟩

theorem mem_fields {x : ClassEntry × FieldEntry} :
    x ∈ w.fields ↔ x.1 ∈ w.classes ∧ x.2 ∈ x.1.fields := by
  obtain ⟨c, f⟩ := x
  simp only [fields, List.mem_flatMap, List.mem_map, Prod.mk.injEq]
  constructor
  · rintro ⟨_, hc, _, hf, rfl, rfl⟩; exact ⟨hc, hf⟩
  · rintro ⟨hc, hf⟩; exact ⟨c, hc, f, hf, rfl, rfl⟩

theorem methodIds_eq (w : World) : w.methodIds = w.classes.flatMap (·.methodIds) := by
  simp only [methodIds, methods, List.map_flatMap, List.map_map]
  rfl

theorem fieldIds_eq (w : World) : w.fieldIds = w.classes.flatMap (·.fieldIds) := by
  simp only [fieldIds, fields, List.map_flatMap, List.map_map]
  rfl

/-! ### The edits by their parts -/

theorem unregister_of_class? {id : ClassId} (h : w.class? id = some c) :
    w.unregister id = (some c.decl, w.remove c) := by
  have hc : c.id = id := by simpa using List.find?_some h
  subst hc
  simp only [unregister, h, remove]

theorem unregister_of_not_mem {id : ClassId} (h : id ∉ w.ids) : w.unregister id = (none, w) := by
  have hnone : w.class? id = none := by
    refine List.find?_eq_none.2 fun c hc => ?_
    simpa using fun e => h (List.mem_map.2 ⟨c, hc, e⟩)
  simp only [unregister, hnone]

theorem unregister_snd (w : World) (id : ClassId) :
    (w.unregister id).2 = w ∨ ∃ c, w.class? id = some c ∧ (w.unregister id).2 = w.remove c := by
  cases h : w.class? id with
  | none => exact .inl (by simp only [unregister, h])
  | some c => exact .inr ⟨c, rfl, by rw [unregister_of_class? h]⟩

theorem unregister_classes (w : World) (id : ClassId) :
    (w.unregister id).2.classes = w.classes.filter (·.id != id) := by
  rcases h : w.class? id with _ | c
  · have hall : ∀ c ∈ w.classes, c.id != id := by
      simpa [class?] using h
    simp only [unregister, h, List.filter_eq_self.2 hall]
  · simp only [unregister, h]

theorem unregister_issued (w : World) (id : ClassId) : (w.unregister id).2.issued = w.issued := by
  rcases h : w.class? id with _ | c <;> simp only [unregister, h]

theorem unregisterNamed_issued (w : World) (name : ClassName) :
    (w.unregisterNamed name).2.issued = w.issued := by
  unfold unregisterNamed
  split
  · rfl
  · exact unregister_issued w _

theorem unregisterNamed_of_lookup? {name : ClassName} {id : ClassId} (h : w.lookup? name = some id) :
    w.unregisterNamed name = w.unregister id := by
  simp only [unregisterNamed, h]

theorem unregisterNamed_of_unknown {name : ClassName} (h : w.lookup? name = none) :
    w.unregisterNamed name = (none, w) := by
  simp only [unregisterNamed, h]

theorem register_snd (w : World) (d : ClassDecl) :
    (w.register d).2 = ((w.unregisterNamed d.name).2).insert d := rfl

theorem setBody?_eq_some_iff {w' : World} :
    w.setBody? id body = some w' ↔ (w.method? id).isSome ∧ w' = w.withBody id body := by
  unfold setBody?
  split
  · next h => exact ⟨fun e => ⟨h, (Option.some.inj e).symm⟩, fun e => congrArg some e.2.symm⟩
  · next h => exact ⟨fun e => (nomatch e), fun e => absurd e.1 h⟩

/-! ### Classes and members after an edit -/

@[simp] theorem remove_classes : (w.remove c).classes = w.classes.filter (·.id != c.id) := rfl

@[simp] theorem insert_classes : (w.insert d).classes = w.classes ++ [w.entryOf d] := rfl

@[simp] theorem withBody_classes :
    (w.withBody id body).classes = w.classes.map (·.withBody id body) := rfl

theorem mem_remove {e : ClassEntry} :
    e ∈ (w.remove c).classes ↔ e ∈ w.classes ∧ e.id ≠ c.id := by
  simp [List.mem_filter]

/-- Members of the owners that pass a test are the members whose owner passes it. -/
theorem flatMap_filter_owner {α β : Type} (l : List α) (p : α → Bool) (f : α → List β) :
    ((l.filter p).flatMap fun a => (f a).map (a, ·)) =
      (l.flatMap fun a => (f a).map (a, ·)).filter (p ·.1) := by
  induction l with
  | nil => rfl
  | cons a l ih => cases h : p a <;> simp [h, ih, List.filter_map, Function.comp_def]

theorem remove_methods : (w.remove c).methods = w.methods.filter (·.1.id != c.id) :=
  flatMap_filter_owner _ _ _

theorem remove_fields : (w.remove c).fields = w.fields.filter (·.1.id != c.id) :=
  flatMap_filter_owner _ _ _

@[simp] theorem entryOf_toClassHeader : (w.entryOf d).toClassHeader = d.toClassHeader := rfl

@[simp] theorem entryOf_id : (w.entryOf d).id = ⟨w.issued.classes⟩ := rfl

/-- The members of a new class are numbered on from those given out before. -/
theorem entryOf_methodIds :
    (w.entryOf d).methodIds = (List.range' w.issued.methods d.methods.length).map .mk := by
  rw [← List.zipIdx_map_snd w.issued.methods d.methods]
  simp only [ClassEntry.methodIds, entryOf, List.map_map]
  rfl

theorem entryOf_fieldIds :
    (w.entryOf d).fieldIds = (List.range' w.issued.fields d.fields.length).map .mk := by
  rw [← List.zipIdx_map_snd w.issued.fields d.fields]
  simp only [ClassEntry.fieldIds, entryOf, List.map_map]
  rfl

@[simp] theorem entryOf_decl (w : World) (d : ClassDecl) : (w.entryOf d).decl = d := by
  have hm : (w.entryOf d).methods.map (·.decl) = d.methods := by
    simp only [entryOf, List.map_map]
    exact List.zipIdx_map_fst _ _
  have hf : (w.entryOf d).fields.map (·.decl) = d.fields := by
    simp only [entryOf, List.map_map]
    exact List.zipIdx_map_fst _ _
  rw [ClassEntry.decl, hm, hf]
  rfl

theorem insert_decls : (w.insert d).decls = w.decls ++ [d] := by
  rw [decls, insert_classes, List.map_append, List.map_singleton, entryOf_decl]
  rfl

theorem insert_methods :
    (w.insert d).methods = w.methods ++ (w.entryOf d).methods.map (w.entryOf d, ·) := by
  simp [methods]

theorem insert_fields :
    (w.insert d).fields = w.fields ++ (w.entryOf d).fields.map (w.entryOf d, ·) := by
  simp [fields]

theorem insert_methodIds :
    (w.insert d).methodIds.map (·.val) =
      w.methodIds.map (·.val) ++ List.range' w.issued.methods d.methods.length := by
  simp [methodIds_eq, entryOf_methodIds, Function.comp_def]

theorem insert_fieldIds :
    (w.insert d).fieldIds.map (·.val) =
      w.fieldIds.map (·.val) ++ List.range' w.issued.fields d.fields.length := by
  simp [fieldIds_eq, entryOf_fieldIds, Function.comp_def]

@[simp] theorem withBody_ids : (w.withBody id body).ids = w.ids := by
  simp [ids, Function.comp_def]

@[simp] theorem withBody_methodIds : (w.withBody id body).methodIds = w.methodIds := by
  simp [methodIds_eq, List.flatMap_map]

@[simp] theorem withBody_fieldIds : (w.withBody id body).fieldIds = w.fieldIds := by
  simp [fieldIds_eq, List.flatMap_map, ClassEntry.fieldIds]

end World
end ClosedWorld
