import ClosedWorld.Proofs.World.Edit

/-!
# Names and identifiers are unique

`WellFormed`: the identifiers of classes, of methods and of fields increase along the world and stay
below the numbers that come next, and no two classes share a name. Removing a class keeps a part of each
list, a new class brings numbers that were never given out, and a new body keeps them all. So a lookup
finds an entry exactly if the world has it (`class?_eq_some_iff`, `named?_eq_some_iff`).
-/

namespace ClosedWorld

/-- Numbers in increasing order, all below the one that comes next. -/
structure Numbered (next : Nat) (l : List Nat) : Prop where
  increasing : l.Pairwise (· < ·)
  lt : ∀ i ∈ l, i < next

namespace Numbered
variable {next n : Nat} {l l' : List Nat}

theorem nil : Numbered next [] := ⟨.nil, by simp⟩

theorem sublist (h : Numbered next l) (hl : l'.Sublist l) : Numbered next l' :=
  ⟨h.increasing.sublist hl, fun i hi => h.lt i (hl.subset hi)⟩

theorem nodup (h : Numbered next l) : l.Nodup :=
  h.increasing.imp Nat.ne_of_lt

theorem append_range' (h : Numbered next l) : Numbered (next + n) (l ++ List.range' next n) where
  increasing := by
    refine List.pairwise_append.2 ⟨h.increasing, List.pairwise_lt_range', fun i hi j hj => ?_⟩
    exact Nat.lt_of_lt_of_le (h.lt i hi) (List.mem_range'_1.1 hj).1
  lt i hi := by
    rcases List.mem_append.1 hi with hi | hi
    · exact Nat.lt_of_lt_of_le (h.lt i hi) (Nat.le_add_right ..)
    · exact (List.mem_range'_1.1 hi).2

end Numbered

theorem ClassId.val_injective : Function.Injective ClassId.val := fun ⟨_⟩ ⟨_⟩ h => congrArg mk h

theorem MethodId.val_injective : Function.Injective MethodId.val := fun ⟨_⟩ ⟨_⟩ h => congrArg mk h

theorem FieldId.val_injective : Function.Injective FieldId.val := fun ⟨_⟩ ⟨_⟩ h => congrArg mk h

/-- With distinct keys, a search by key finds an element exactly if the list has it under the key. -/
theorem find?_key_eq_some_iff {α κ : Type} [DecidableEq κ] {key : α → κ} {l : List α} {k : κ} {a : α}
    (h : (l.map key).Nodup) : l.find? (key · = k) = some a ↔ a ∈ l ∧ key a = k := by
  constructor
  · intro ha
    exact ⟨List.mem_of_find?_eq_some ha, by simpa using List.find?_some ha⟩
  · rintro ⟨ha, rfl⟩
    cases hf : l.find? (key · = key a) with
    | none => simpa using List.find?_eq_none.1 hf a ha
    | some b =>
      have hb : key b = key a := by simpa using List.find?_some hf
      rw [List.inj_on_of_nodup_map h (List.mem_of_find?_eq_some hf) ha hb]

/-- If the members of an owner are those of its list, the others are those of the other owners. -/
theorem mem_filter_owner {α κ : Type} {key : α → κ} {l : List (ClassEntry × α)} {c : ClassEntry}
    {ms : List α} {k : κ} (hl : (l.map (key ·.2)).Nodup) (hown : ∀ x ∈ l, x.1.id = c.id → x.2 ∈ ms)
    (hms : ∀ m ∈ ms, (c, m) ∈ l) :
    k ∈ (l.filter (·.1.id != c.id)).map (key ·.2) ↔ k ∈ l.map (key ·.2) ∧ k ∉ ms.map key := by
  simp only [List.mem_map, List.mem_filter, bne_iff_ne]
  constructor
  · rintro ⟨x, ⟨hx, hne⟩, rfl⟩
    refine ⟨⟨x, hx, rfl⟩, ?_⟩
    rintro ⟨m, hm, hk⟩
    have hxm : (c, m) = x := List.inj_on_of_nodup_map hl (hms m hm) hx hk
    exact hne (hxm ▸ rfl)
  · rintro ⟨⟨x, hx, rfl⟩, hne⟩
    exact ⟨x, ⟨hx, fun h => hne ⟨x.2, hown x hx h, rfl⟩⟩, rfl⟩

namespace World

structure WellFormed (w : World) : Prop where
  classes : Numbered w.issued.classes (w.ids.map (·.val))
  methods : Numbered w.issued.methods (w.methodIds.map (·.val))
  fields : Numbered w.issued.fields (w.fieldIds.map (·.val))
  names : (w.classes.map (·.name)).Nodup

variable {w : World}

/-! ### Unique entries -/

namespace WellFormed
variable {c e : ClassEntry}

theorem ids_nodup (hw : w.WellFormed) : w.ids.Nodup := hw.classes.nodup.of_map _

theorem methodIds_nodup (hw : w.WellFormed) : w.methodIds.Nodup := hw.methods.nodup.of_map _

theorem fieldIds_nodup (hw : w.WellFormed) : w.fieldIds.Nodup := hw.fields.nodup.of_map _

theorem class_ext (hw : w.WellFormed) (hc : c ∈ w.classes) (he : e ∈ w.classes) (h : c.id = e.id) :
    c = e :=
  List.inj_on_of_nodup_map hw.ids_nodup hc he h

theorem methodIds_nodup_of_mem (hw : w.WellFormed) (hc : c ∈ w.classes) :
    (c.methodIds.map (·.val)).Nodup := by
  have hnodup := hw.methods.nodup
  rw [methodIds_eq, List.map_flatMap] at hnodup
  exact (List.nodup_flatMap.1 hnodup).1 c hc

theorem fieldIds_nodup_of_mem (hw : w.WellFormed) (hc : c ∈ w.classes) :
    (c.fieldIds.map (·.val)).Nodup := by
  have hnodup := hw.fields.nodup
  rw [fieldIds_eq, List.map_flatMap] at hnodup
  exact (List.nodup_flatMap.1 hnodup).1 c hc

theorem method_ext (hw : w.WellFormed) {x y : ClassEntry × MethodEntry} (hx : x ∈ w.methods)
    (hy : y ∈ w.methods) (h : x.2.id = y.2.id) : x = y :=
  List.inj_on_of_nodup_map hw.methodIds_nodup hx hy h

theorem field_ext (hw : w.WellFormed) {x y : ClassEntry × FieldEntry} (hx : x ∈ w.fields)
    (hy : y ∈ w.fields) (h : x.2.id = y.2.id) : x = y :=
  List.inj_on_of_nodup_map hw.fieldIds_nodup hx hy h

theorem class?_eq_some_iff (hw : w.WellFormed) {id : ClassId} :
    w.class? id = some c ↔ c ∈ w.classes ∧ c.id = id :=
  find?_key_eq_some_iff hw.ids_nodup

theorem named?_eq_some_iff (hw : w.WellFormed) {name : ClassName} :
    w.named? name = some c ↔ c ∈ w.classes ∧ c.name = name :=
  find?_key_eq_some_iff hw.names

theorem lookup?_eq_some_iff (hw : w.WellFormed) {name : ClassName} {id : ClassId} :
    w.lookup? name = some id ↔ ∃ c ∈ w.classes, c.name = name ∧ c.id = id := by
  simp only [lookup?, Option.map_eq_some_iff, hw.named?_eq_some_iff, and_assoc]

/-- Among the classes of a world, names differ exactly if identifiers do. -/
theorem name_bne_iff_id_bne (hw : w.WellFormed) (hc : c ∈ w.classes) (he : e ∈ w.classes) :
    (c.name != e.name) = (c.id != e.id) := by
  refine Bool.eq_iff_iff.2 ?_
  rw [bne_iff_ne, bne_iff_ne]
  refine not_congr ⟨fun h => ?_, fun h => congrArg (·.name) (hw.class_ext hc he h)⟩
  exact congrArg (·.id) (List.inj_on_of_nodup_map hw.names hc he h)

theorem lookup?_of_mem (hw : w.WellFormed) (hc : c ∈ w.classes) : w.lookup? c.name = some c.id :=
  hw.lookup?_eq_some_iff.2 ⟨c, hc, rfl, rfl⟩

/-- A method is listed by its own class only. -/
theorem mem_methodIds_iff (hw : w.WellFormed) (hc : c ∈ w.classes) (he : e ∈ w.classes)
    {m : MethodEntry} (hm : m ∈ e.methods) : m.id ∈ c.methodIds ↔ e.id = c.id := by
  constructor
  · intro h
    obtain ⟨m', hm', hid⟩ := List.mem_map.1 h
    exact congrArg (·.1.id) (hw.method_ext (x := (e, m)) (y := (c, m')) (mem_methods.2 ⟨he, hm⟩)
      (mem_methods.2 ⟨hc, hm'⟩) hid.symm)
  · intro h
    exact hw.class_ext hc he h.symm ▸ List.mem_map_of_mem hm

theorem mem_fieldIds_iff (hw : w.WellFormed) (hc : c ∈ w.classes) (he : e ∈ w.classes)
    {f : FieldEntry} (hf : f ∈ e.fields) : f.id ∈ c.fieldIds ↔ e.id = c.id := by
  constructor
  · intro h
    obtain ⟨f', hf', hid⟩ := List.mem_map.1 h
    exact congrArg (·.1.id) (hw.field_ext (x := (e, f)) (y := (c, f')) (mem_fields.2 ⟨he, hf⟩)
      (mem_fields.2 ⟨hc, hf'⟩) hid.symm)
  · intro h
    exact hw.class_ext hc he h.symm ▸ List.mem_map_of_mem hf

/-- A name is looked up to a class exactly if it is the name of that class. -/
theorem lookup?_eq_id_iff (hw : w.WellFormed) (hc : c ∈ w.classes) {name : ClassName} :
    w.lookup? name = some c.id ↔ name = c.name := by
  constructor
  · intro h
    obtain ⟨e, he, rfl, hid⟩ := hw.lookup?_eq_some_iff.1 h
    rw [hw.class_ext he hc hid]
  · rintro rfl
    exact hw.lookup?_of_mem hc

end WellFormed

/-! ### The order of registration -/

/-- One class is registered before the other. -/
def Before (w : World) (a b : ClassId) : Prop := [a, b].Sublist w.ids

namespace WellFormed
variable {a b : ClassId}

theorem ids_increasing (hw : w.WellFormed) : w.ids.Pairwise (·.val < ·.val) :=
  List.pairwise_map.1 hw.classes.increasing

/-- Identifiers are given out in the order of registration. -/
theorem before_of_lt (hw : w.WellFormed) (ha : a ∈ w.ids) (hb : b ∈ w.ids) (h : a.val < b.val) :
    w.Before a b := by
  have hlt := hw.ids_increasing
  obtain ⟨l₁, l₂, hl⟩ := List.append_of_mem ha
  rw [hl] at hb hlt
  rcases List.mem_append.1 hb with hb | hb
  · have hba : b.val < a.val := (List.pairwise_append.1 hlt).2.2 b hb a List.mem_cons_self
    omega
  rcases List.mem_cons.1 hb with rfl | hb
  · omega
  · rw [Before, hl]
    exact ((List.singleton_sublist.2 hb).cons_cons a).trans (List.sublist_append_right l₁ _)

end WellFormed

theorem lookup?_eq_none_iff {name : ClassName} :
    w.lookup? name = none ↔ ∀ c ∈ w.classes, c.name ≠ name := by
  simp [lookup?, named?, List.find?_eq_none]

/-! ### Every edit keeps them -/

namespace WellFormed
variable {c : ClassEntry} {d : ClassDecl} {id : MethodId} {body : Body}

theorem empty (s : Settings) : (World.empty s).WellFormed := ⟨.nil, .nil, .nil, .nil⟩

/-- What is well formed depends on the classes and the issued numbers only. -/
theorem congr {w' : World} (hw : w.WellFormed) (hc : w'.classes = w.classes)
    (hi : w'.issued = w.issued) : w'.WellFormed := by
  refine ⟨?_, ?_, ?_, ?_⟩ <;>
    simp only [ids, methodIds, fieldIds, World.methods, World.fields, hc, hi]
  exacts [hw.classes, hw.methods, hw.fields, hw.names]

theorem remove (hw : w.WellFormed) (c : ClassEntry) : (w.remove c).WellFormed where
  classes := hw.classes.sublist ((List.filter_sublist.map _).map _)
  methods := by
    refine hw.methods.sublist (List.Sublist.map _ ?_)
    rw [methodIds, remove_methods]
    exact List.filter_sublist.map _
  fields := by
    refine hw.fields.sublist (List.Sublist.map _ ?_)
    rw [fieldIds, remove_fields]
    exact List.filter_sublist.map _
  names := hw.names.sublist (List.filter_sublist.map _)

theorem mem_ids_remove {i : ClassId} : i ∈ (w.remove c).ids ↔ i ∈ w.ids ∧ i ≠ c.id := by
  simp only [mem_ids, mem_remove]
  constructor
  · rintro ⟨e, ⟨he, hne⟩, rfl⟩; exact ⟨⟨e, he, rfl⟩, hne⟩
  · rintro ⟨⟨e, he, rfl⟩, hne⟩; exact ⟨e, ⟨he, hne⟩, rfl⟩

theorem mem_methodIds_remove (hw : w.WellFormed) (hc : c ∈ w.classes) {i : MethodId} :
    i ∈ (w.remove c).methodIds ↔ i ∈ w.methodIds ∧ i ∉ c.methodIds := by
  rw [methodIds, remove_methods]
  refine mem_filter_owner hw.methodIds_nodup (fun x hx h => ?_) fun m hm => mem_methods.2 ⟨hc, hm⟩
  obtain ⟨hx1, hx2⟩ := mem_methods.1 hx
  exact hw.class_ext hx1 hc h ▸ hx2

theorem mem_fieldIds_remove (hw : w.WellFormed) (hc : c ∈ w.classes) {i : FieldId} :
    i ∈ (w.remove c).fieldIds ↔ i ∈ w.fieldIds ∧ i ∉ c.fieldIds := by
  rw [fieldIds, remove_fields]
  refine mem_filter_owner hw.fieldIds_nodup (fun x hx h => ?_) fun f hf => mem_fields.2 ⟨hc, hf⟩
  obtain ⟨hx1, hx2⟩ := mem_fields.1 hx
  exact hw.class_ext hx1 hc h ▸ hx2

/-- A name is looked up as before, unless it is that of the removed class. -/
theorem lookup?_remove (hw : w.WellFormed) (c : ClassEntry) (name : ClassName) :
    (w.remove c).lookup? name = (w.lookup? name).filter (· ≠ c.id) := by
  refine Option.ext fun id => ?_
  rw [(hw.remove c).lookup?_eq_some_iff, Option.filter_eq_some_iff, hw.lookup?_eq_some_iff]
  constructor
  · rintro ⟨e, he, hn, rfl⟩
    obtain ⟨he, hne⟩ := mem_remove.1 he
    exact ⟨⟨e, he, hn, rfl⟩, by simpa using hne⟩
  · rintro ⟨⟨e, he, hn, rfl⟩, hne⟩
    exact ⟨e, mem_remove.2 ⟨he, by simpa using hne⟩, hn, rfl⟩

theorem lookup?_remove_self (hw : w.WellFormed) (hc : c ∈ w.classes) :
    (w.remove c).lookup? c.name = none := by
  rw [hw.lookup?_remove, hw.lookup?_of_mem hc]
  simp

theorem insert (hw : w.WellFormed) (hd : w.lookup? d.name = none) : (w.insert d).WellFormed where
  classes := by
    simpa [ids, World.insert] using hw.classes.append_range' (n := 1)
  methods := insert_methodIds (d := d) ▸ hw.methods.append_range'
  fields := insert_fieldIds (d := d) ▸ hw.fields.append_range'
  names := by
    rw [insert_classes, List.map_append]
    refine List.nodup_append.2 ⟨hw.names, List.nodup_singleton _, ?_⟩
    rintro _ hn _ hd' rfl
    obtain ⟨c, hc, rfl⟩ := List.mem_map.1 hn
    simp only [List.map_cons, List.map_nil, List.mem_singleton] at hd'
    exact lookup?_eq_none_iff.1 hd c hc hd'

theorem withBody (hw : w.WellFormed) (id : MethodId) (body : Body) :
    (w.withBody id body).WellFormed where
  classes := by rw [withBody_ids]; exact hw.classes
  methods := by rw [withBody_methodIds]; exact hw.methods
  fields := by rw [withBody_fieldIds]; exact hw.fields
  names := by simpa [Function.comp_def] using hw.names

end WellFormed

@[simp] theorem lookup?_withBody {id : MethodId} {body : Body} (name : ClassName) :
    (w.withBody id body).lookup? name = w.lookup? name := by
  simp only [lookup?, named?, withBody_classes, List.find?_map, Option.map_map]
  rfl

end World
end ClosedWorld
