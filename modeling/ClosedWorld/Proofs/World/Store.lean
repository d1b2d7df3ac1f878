import ClosedWorld.Proofs.World.Moves
import ClosedWorld.World.Store

/-!
# The slots of a world

`Store.Holds`: the occupied slots are the classes and members of a world, and the index of names is its
order of registration. Every change keeps it (`Holds.apply`), so the slots and the world stay together
along a run (`holds_run`), and what the slots answer is what the world answers.
-/

namespace ClosedWorld

/-! ### Rows of slots -/

namespace Slots
variable {α β : Type} {s : Slots α} {i j : ℕ} {a b : α}

theorem get?_eq_some_iff : s.get? i = some a ↔ s[i]? = some (some a) := Option.join_eq_some_iff

theorem lt_length_of_get? (h : s.get? i = some a) : i < s.length :=
  (List.getElem?_eq_some_iff.1 (get?_eq_some_iff.1 h)).1

theorem get?_set_none : get? (s.set i none) j = some a ↔ s.get? j = some a ∧ j ≠ i := by
  rcases eq_or_ne i j with rfl | h
  · by_cases hi : i < s.length <;> simp [get?_eq_some_iff, hi]
  · simp [get?_eq_some_iff, h, h.symm]

theorem get?_set_some (hi : s.get? i = some b) :
    get? (s.set i (some a)) j = if j = i then some a else s.get? j := by
  have hlt := lt_length_of_get? hi
  rcases eq_or_ne i j with rfl | h
  · simp [get?, hlt]
  · simp [get?, h, h.symm]

theorem get?_takeAll {is : List ℕ} {s : Slots α} :
    (s.takeAll is).2.get? j = some a ↔ s.get? j = some a ∧ j ∉ is := by
  induction is generalizing s with
  | nil => simp [takeAll]
  | cons i is ih =>
    rcases h : s.get? i with _ | b
    · simp only [takeAll, h, ih, List.mem_cons]
      refine and_congr_right fun ha => ⟨fun hj => ?_, fun hj hmem => hj (.inr hmem)⟩
      rintro (rfl | hmem)
      · rw [h] at ha; cases ha
      · exact hj hmem
    · simp only [takeAll, h, ih, get?_set_none, List.mem_cons, not_or, and_assoc]

@[simp] theorem length_takeAll {is : List ℕ} {s : Slots α} : (s.takeAll is).2.length = s.length := by
  induction is generalizing s with
  | nil => rfl
  | cons i is ih => rcases h : s.get? i with _ | b <;> simp [takeAll, h, ih]

/-- Different slots are emptied of what was in them at the beginning. -/
theorem takeAll_fst {is : List ℕ} (h : is.Nodup) : (s.takeAll is).1 = is.filterMap s.get? := by
  induction is generalizing s with
  | nil => rfl
  | cons i is ih =>
    obtain ⟨hi, his⟩ := List.nodup_cons.1 h
    rcases hs : s.get? i with _ | b
    · simp only [takeAll, hs, List.filterMap_cons, ih his]
    · have hrest : is.filterMap (get? (s.set i none)) = is.filterMap s.get? := by
        refine List.filterMap_congr fun j hj => Option.ext fun a => ?_
        rw [get?_set_none, and_iff_left]
        rintro rfl
        exact hi hj
      simp only [takeAll, hs, List.filterMap_cons, ih his, hrest]

theorem get?_concat : get? (s ++ [some b]) j = some a ↔ s.get? j = some a ∨ j = s.length ∧ b = a := by
  simp only [get?_eq_some_iff, List.getElem?_append, List.getElem?_singleton]
  grind

/-- What is added behind a row is numbered on from its length. -/
theorem get?_append_zipIdx {l : List β} {f : β × ℕ → α} :
    get? (s ++ (l.zipIdx s.length).map fun p => some (f p)) j = some a ↔
      s.get? j = some a ∨ ∃ b, (b, j) ∈ l.zipIdx s.length ∧ f (b, j) = a := by
  simp only [get?_eq_some_iff, List.mem_zipIdx_iff_le_and_getElem?_sub]
  rcases Nat.lt_or_ge j s.length with h | h
  · simp [List.getElem?_append_left h, Nat.not_le.2 h]
  · simp [List.getElem?_append_right h, h, Nat.add_sub_cancel' h]

end Slots

/-! ### What a store holds of a world -/

def ClassEntry.stored (c : ClassEntry) : StoredClass :=
  { c.toClassHeader with id := c.id, methods := c.methodIds, fields := c.fieldIds }

def MethodEntry.stored (m : MethodEntry) (owner : ClassEntry) : StoredMember MethodId MethodDecl :=
  ⟨m.id, owner.id, owner.name, m.decl⟩

def FieldEntry.stored (f : FieldEntry) (owner : ClassEntry) : StoredMember FieldId FieldDecl :=
  ⟨f.id, owner.id, owner.name, f.decl⟩

@[simp] theorem ClassEntry.stored_withBody {c : ClassEntry} {id : MethodId} {body : Body} :
    (c.withBody id body).stored = c.stored := by
  simp [stored, fieldIds]

@[simp] theorem MethodEntry.stored_withBody {m : MethodEntry} {c : ClassEntry} {id : MethodId}
    {body : Body} : m.stored (c.withBody id body) = m.stored c := rfl

@[simp] theorem FieldEntry.stored_withBody {f : FieldEntry} {c : ClassEntry} {id : MethodId}
    {body : Body} : f.stored (c.withBody id body) = f.stored c := rfl

namespace World
variable {w : World}

/-! ### Deriving leaves the declared part alone -/

theorem link_kept (w : World) : w.link.2.classes = w.classes ∧ w.link.2.issued = w.issued := by
  simp only [link]
  split <;> exact ⟨rfl, rfl⟩

theorem index_kept (w : World) : w.index.2.classes = w.classes ∧ w.index.2.issued = w.issued := by
  simp only [index]
  split <;> exact ⟨rfl, rfl⟩

theorem linkAndIndex_kept (w : World) :
    w.linkAndIndex.2.classes = w.classes ∧ w.linkAndIndex.2.issued = w.issued := by
  obtain ⟨hc, hi⟩ := w.link_kept
  simp only [linkAndIndex]
  split
  · next h => rw [h] at hc hi; exact ⟨hc, hi⟩
  · next h =>
    rw [h] at hc hi
    exact ⟨(index_kept _).1.trans hc, (index_kept _).2.trans hi⟩

end World

/-! ### Rows of members -/

section Members
variable {ι ε δ : Type} {val : ι → ℕ} {members : ClassEntry → List ε}
  {stored : ε → ClassEntry → StoredMember ι δ} {row : Slots (StoredMember ι δ)} {cs : List ClassEntry}
  {c e : ClassEntry} {m : ε}

/-- The occupied slots of a row are the members of some classes, each in the slot of its identifier. -/
def Shelves (val : ι → ℕ) (members : ClassEntry → List ε) (stored : ε → ClassEntry → StoredMember ι δ)
    (row : Slots (StoredMember ι δ)) (cs : List ClassEntry) : Prop :=
  ∀ j x, row.get? (val j) = some x ↔ ∃ c ∈ cs, ∃ m ∈ members c, (stored m c).id = j ∧ stored m c = x

namespace Shelves

theorem get?_of_mem (h : Shelves val members stored row cs) (hc : c ∈ cs) (hm : m ∈ members c) :
    row.get? (val (stored m c).id) = some (stored m c) :=
  (h _ _).2 ⟨c, hc, m, hm, rfl, rfl⟩

theorem isSome_get?_iff (h : Shelves val members stored row cs) {j : ι} :
    (row.get? (val j)).isSome ↔ ∃ c ∈ cs, ∃ m ∈ members c, (stored m c).id = j := by
  rw [Option.isSome_iff_exists]
  constructor
  · rintro ⟨x, hx⟩
    obtain ⟨c, hc, m, hm, hid, -⟩ := (h j x).1 hx
    exact ⟨c, hc, m, hm, hid⟩
  · rintro ⟨c, hc, m, hm, rfl⟩
    exact ⟨_, h.get?_of_mem hc hm⟩

theorem filterMap_of_mem (h : Shelves val members stored row cs) (hc : c ∈ cs) :
    (((members c).map fun m => (stored m c).id).filterMap fun j => row.get? (val j)) =
      (members c).map (stored · c) := by
  rw [List.filterMap_map, ← List.filterMap_eq_map]
  exact List.filterMap_congr fun m hm => h.get?_of_mem hc hm

/-- Taking out what a class lists leaves the members of the others, if it lists only its own. -/
theorem takeAll (h : Shelves val members stored row cs) (hval : Function.Injective val)
    (hown : ∀ e ∈ cs, ∀ m ∈ members e,
      (stored m e).id ∈ (members c).map (fun m => (stored m c).id) ↔ e.id = c.id) :
    Shelves val members stored
      (row.takeAll (((members c).map fun m => (stored m c).id).map val)).2
      (cs.filter (·.id != c.id)) := by
  intro j x
  rw [Slots.get?_takeAll, List.mem_map_of_injective hval, h j x]
  simp only [List.mem_filter, bne_iff_ne]
  constructor
  · rintro ⟨⟨e, he, m, hm, rfl, rfl⟩, hout⟩
    exact ⟨e, ⟨he, fun hid => hout ((hown e he m hm).2 hid)⟩, m, hm, rfl, rfl⟩
  · rintro ⟨e, ⟨he, hne⟩, m, hm, rfl, rfl⟩
    exact ⟨⟨e, he, m, hm, rfl, rfl⟩, fun hin => hne ((hown e he m hm).1 hin)⟩

/-- Members that are numbered on from the length of the row stand behind it. -/
theorem append {β : Type} {l : List β} {f : β × ℕ → StoredMember ι δ}
    (h : Shelves val members stored row cs) (hval : Function.Injective val)
    (hf : (members c).map (stored · c) = (l.zipIdx row.length).map f)
    (hid : ∀ p, val (f p).id = p.2) :
    Shelves val members stored (row ++ (l.zipIdx row.length).map fun p => some (f p)) (cs ++ [c]) := by
  intro j x
  have hnew : (∃ m ∈ members c, (stored m c).id = j ∧ stored m c = x) ↔
      x ∈ (members c).map (stored · c) ∧ x.id = j := by
    rw [List.mem_map]
    constructor
    · rintro ⟨m, hm, hj, rfl⟩; exact ⟨⟨m, hm, rfl⟩, hj⟩
    · rintro ⟨⟨m, hm, rfl⟩, hj⟩; exact ⟨m, hm, hj, rfl⟩
  simp only [List.mem_append, List.mem_singleton, or_and_right, exists_or, exists_eq_left]
  rw [Slots.get?_append_zipIdx, h j x, hnew, hf, List.mem_map]
  refine or_congr_right ⟨?_, ?_⟩
  · rintro ⟨b, hb, rfl⟩
    exact ⟨⟨_, hb, rfl⟩, hval (hid _)⟩
  · rintro ⟨⟨⟨b, i⟩, hb, rfl⟩, rfl⟩
    rw [hid]
    exact ⟨b, hb, rfl⟩

end Shelves
end Members

namespace Store
open World

structure Holds (s : Store) (w : World) : Prop where
  classes_length : s.classes.length = w.issued.classes
  methods_length : s.methods.length = w.issued.methods
  fields_length : s.fields.length = w.issued.fields
  names : s.names = w.classes.map fun c => (c.name, c.id)
  class? : ∀ {id x}, s.class? id = some x ↔ ∃ c ∈ w.classes, c.id = id ∧ c.stored = x
  methods : Shelves MethodId.val ClassEntry.methods MethodEntry.stored s.methods w.classes
  fields : Shelves FieldId.val ClassEntry.fields FieldEntry.stored s.fields w.classes

variable {s : Store} {w : World} {c : ClassEntry}

namespace Holds

theorem empty (settings : Settings) : Holds {} (World.empty settings) where
  classes_length := rfl
  methods_length := rfl
  fields_length := rfl
  names := rfl
  class? := by simp [Store.class?, Slots.get?, World.empty]
  methods := by simp [Shelves, Slots.get?, World.empty]
  fields := by simp [Shelves, Slots.get?, World.empty]

theorem lookup? (h : s.Holds w) (name : ClassName) : s.lookup? name = w.lookup? name := by
  simp only [Store.lookup?, World.lookup?, named?, h.names, List.find?_map, Option.map_map]
  rfl

theorem ids (h : s.Holds w) : s.ids = w.ids := by
  simp only [Store.ids, World.ids, h.names, List.map_map]
  rfl

/-- What a store holds depends on the classes and the issued numbers only. -/
theorem congr {w' : World} (h : s.Holds w) (hc : w'.classes = w.classes)
    (hi : w'.issued = w.issued) : s.Holds w' := by
  refine ⟨?_, ?_, ?_, ?_, ?_, ?_, ?_⟩ <;> simp only [hc, hi]
  exacts [h.classes_length, h.methods_length, h.fields_length, h.names, h.class?, h.methods, h.fields]

theorem class?_of_mem (h : s.Holds w) (hc : c ∈ w.classes) : s.class? c.id = some c.stored :=
  h.class?.2 ⟨c, hc, rfl, rfl⟩

theorem mem_ids_iff (h : s.Holds w) {id : ClassId} : id ∈ w.ids ↔ (s.class? id).isSome := by
  simp only [World.mem_ids, Option.isSome_iff_exists, h.class?]
  constructor
  · rintro ⟨c, hc, hid⟩; exact ⟨_, c, hc, hid, rfl⟩
  · rintro ⟨_, c, hc, hid, -⟩; exact ⟨c, hc, hid⟩

theorem mem_methodIds_iff (h : s.Holds w) {id : MethodId} :
    id ∈ w.methodIds ↔ (s.method? id).isSome := by
  refine Iff.trans ?_ h.methods.isSome_get?_iff.symm
  simp only [World.mem_methodIds, Prod.exists, mem_methods, and_assoc, exists_and_left]
  rfl

theorem mem_fieldIds_iff (h : s.Holds w) {id : FieldId} :
    id ∈ w.fieldIds ↔ (s.field? id).isSome := by
  refine Iff.trans ?_ h.fields.isSome_get?_iff.symm
  simp only [World.mem_fieldIds, Prod.exists, mem_fields, and_assoc, exists_and_left]
  rfl

/-! ### Taking a class out -/

/-- The slots that are left without a class and its members. -/
def left (s : Store) (c : ClassEntry) : Store :=
  { s with
    classes := s.classes.set c.id.val none
    methods := (s.methods.takeAll (c.methodIds.map (·.val))).2
    fields := (s.fields.takeAll (c.fieldIds.map (·.val))).2 }

/-- Taken out of its slots a class is what was registered, with the bodies as they are now. -/
theorem takeClass?_of_mem (h : s.Holds w) (hw : w.WellFormed) (hc : c ∈ w.classes) :
    s.takeClass? c.id = some (c.decl, left s c) := by
  have hmethods : (s.methods.takeAll (c.methodIds.map (·.val))).1 = c.methods.map (·.stored c) := by
    rw [Slots.takeAll_fst (hw.methodIds_nodup_of_mem hc), List.filterMap_map]
    exact h.methods.filterMap_of_mem hc
  have hfields : (s.fields.takeAll (c.fieldIds.map (·.val))).1 = c.fields.map (·.stored c) := by
    rw [Slots.takeAll_fst (hw.fieldIds_nodup_of_mem hc), List.filterMap_map]
    exact h.fields.filterMap_of_mem hc
  simp only [takeClass?, h.class?_of_mem hc, Option.bind_eq_bind, Option.bind_some]
  simp only [ClassEntry.stored, hmethods, hfields, left]
  simp [ClassEntry.decl, Function.comp_def, MethodEntry.stored, FieldEntry.stored]

/-- A class that is left has another identifier and another name, and other members. -/
theorem remove (h : s.Holds w) (hw : w.WellFormed) (hc : c ∈ w.classes) :
    { left s c with names := s.names.filter (·.1 != c.name) }.Holds (w.remove c) where
  classes_length := (List.length_set ..).trans h.classes_length
  methods_length := Slots.length_takeAll.trans h.methods_length
  fields_length := Slots.length_takeAll.trans h.fields_length
  names := by
    rw [h.names, List.filter_map, remove_classes]
    refine congrArg _ (List.filter_congr fun e he => ?_)
    simp only [Function.comp, hw.name_bne_iff_id_bne he hc]
  class? := by
    intro id x
    show Slots.get? (s.classes.set c.id.val none) id.val = some x ↔ _
    rw [Slots.get?_set_none]
    constructor
    · rintro ⟨hx, hne⟩
      obtain ⟨e, he, rfl, rfl⟩ := h.class?.1 hx
      exact ⟨e, mem_remove.2 ⟨he, fun hid => hne (congrArg _ hid)⟩, rfl, rfl⟩
    · rintro ⟨e, he, rfl, rfl⟩
      obtain ⟨he, hne⟩ := mem_remove.1 he
      exact ⟨h.class?_of_mem he, fun hid => hne (ClassId.val_injective hid)⟩
  methods := h.methods.takeAll MethodId.val_injective fun _ he _ hm => hw.mem_methodIds_iff hc he hm
  fields := h.fields.takeAll FieldId.val_injective fun _ he _ hf => hw.mem_fieldIds_iff hc he hf

theorem takeClass?_of_not_mem (h : s.Holds w) {id : ClassId} (hid : id ∉ w.ids) :
    s.takeClass? id = none := by
  rw [h.mem_ids_iff, Option.not_isSome_iff_eq_none] at hid
  simp only [takeClass?, hid, Option.bind_eq_bind, Option.bind_none]

theorem unregister (h : s.Holds w) (hw : w.WellFormed) (id : ClassId) :
    (s.unregister id).1 = (w.unregister id).1 ∧ (s.unregister id).2.Holds (w.unregister id).2 := by
  by_cases hid : id ∈ w.ids
  · obtain ⟨c, hc, rfl⟩ := mem_ids.1 hid
    rw [unregister_of_class? (hw.class?_eq_some_iff.2 ⟨hc, rfl⟩)]
    simp only [Store.unregister, h.takeClass?_of_mem hw hc]
    exact ⟨trivial, h.remove hw hc⟩
  · rw [unregister_of_not_mem hid]
    simp only [Store.unregister, h.takeClass?_of_not_mem hid]
    exact ⟨trivial, h⟩

theorem unregisterNamed (h : s.Holds w) (hw : w.WellFormed) (name : ClassName) :
    (s.unregisterNamed name).1 = (w.unregisterNamed name).1 ∧
      (s.unregisterNamed name).2.Holds (w.unregisterNamed name).2 := by
  simp only [Store.unregisterNamed, World.unregisterNamed, h.lookup?]
  cases w.lookup? name with
  | none => exact ⟨rfl, h⟩
  | some id => exact h.unregister hw id

/-! ### Adding a class -/

variable {d : ClassDecl}

theorem stored_entryOf (h : s.Holds w) : (w.entryOf d).stored = { d.toClassHeader with
    id := ⟨s.classes.length⟩
    methods := (d.methods.zipIdx s.methods.length).map (⟨·.2⟩)
    fields := (d.fields.zipIdx s.fields.length).map (⟨·.2⟩) } := by
  simp only [ClassEntry.stored, ClassEntry.methodIds, ClassEntry.fieldIds, entryOf, List.map_map,
    h.classes_length, h.methods_length, h.fields_length]
  rfl

theorem insert (h : s.Holds w) (d : ClassDecl) :
    (s.insert d).1 = (w.entryOf d).id ∧ (s.insert d).2.Holds (w.insert d) := by
  have hid : (w.entryOf d).id = ⟨s.classes.length⟩ := by rw [entryOf_id, h.classes_length]
  refine ⟨hid.symm, ?_, ?_, ?_, ?_, ?_, ?_, ?_⟩
  · simp [Store.insert, World.insert, h.classes_length]
  · simp [Store.insert, World.insert, h.methods_length]
  · simp [Store.insert, World.insert, h.fields_length]
  · rw [insert_classes, List.map_append, ← h.names]
    simp [Store.insert, h.classes_length]
  · intro id x
    refine Slots.get?_concat.trans ?_
    rw [insert_classes]
    simp only [List.mem_append, List.mem_singleton, or_and_right, exists_or, exists_eq_left]
    refine or_congr h.class? (and_congr ?_ (Eq.congr_left h.stored_entryOf.symm))
    rw [hid, ← ClassId.val_injective.eq_iff, eq_comm]
  · refine h.methods.append MethodId.val_injective ?_ fun _ => rfl
    simp only [entryOf, List.map_map, ← h.methods_length, ← h.classes_length]
    rfl
  · refine h.fields.append FieldId.val_injective ?_ fun _ => rfl
    simp only [entryOf, List.map_map, ← h.fields_length, ← h.classes_length]
    rfl

theorem register (h : s.Holds w) (hw : w.WellFormed) (d : ClassDecl) :
    (s.register d).1 = (w.register d).1 ∧ (s.register d).2.Holds (w.register d).2 :=
  (h.unregisterNamed hw d.name).2.insert d

/-! ### Editing a body -/

theorem withBody (h : s.Holds w) {id : MethodId} {body : Body}
    {x : StoredMember MethodId MethodDecl} (hx : s.method? id = some x) :
    { s with methods := s.methods.set id.val (some { x with decl := { x.decl with body } }) }.Holds
      (w.withBody id body) where
  classes_length := h.classes_length
  methods_length := (List.length_set ..).trans h.methods_length
  fields_length := h.fields_length
  names := by simp [h.names, Function.comp_def]
  class? := by
    intro i y
    refine h.class?.trans ?_
    simp
  methods := by
    intro i y
    rw [Slots.get?_set_some hx]
    simp only [withBody_classes, List.mem_map, exists_exists_and_eq_and,
      ClassEntry.mem_withBody_methods, MethodEntry.stored_withBody]
    by_cases hi : i = id
    · subst hi
      rw [if_pos rfl, Option.some.injEq]
      constructor
      · rintro rfl
        obtain ⟨c, hc, m, hm, hid, rfl⟩ := (h.methods _ _).1 hx
        exact ⟨c, hc, _, .inl ⟨m, hm, hid, rfl⟩, hid, rfl⟩
      · rintro ⟨c, hc, _, ⟨m, hm, hid, rfl⟩ | ⟨_, hne⟩, hid', rfl⟩
        · have hold := (h.methods.get?_of_mem hc hm).symm.trans (hid ▸ hx)
          cases hold
          rfl
        · exact absurd hid' hne
    · rw [if_neg (MethodId.val_injective.ne hi)]
      refine (h.methods i y).trans (exists_congr fun c => and_congr_right fun hc => exists_congr fun m => ?_)
      constructor
      · rintro ⟨hm, rfl, hy⟩
        exact ⟨.inr ⟨hm, hi⟩, rfl, hy⟩
      · rintro ⟨⟨m, hm, hid, rfl⟩ | ⟨hm, -⟩, hid', hy⟩
        · exact absurd (hid'.symm.trans hid) hi
        · exact ⟨hm, hid', hy⟩
  fields := by
    intro i y
    refine (h.fields i y).trans ?_
    simp

theorem setBody? (h : s.Holds w) (id : MethodId) (body : Body) :
    (s.setBody? id body).isSome = (w.setBody? id body).isSome ∧
      ((s.setBody? id body).getD s).Holds ((w.setBody? id body).getD w) := by
  have hiff : (w.method? id).isSome = (s.method? id).isSome :=
    Bool.eq_iff_iff.2 (method?_isSome.trans h.mem_methodIds_iff)
  rcases hx : s.method? id with _ | x
  · rw [hx] at hiff
    simp only [Store.setBody?, World.setBody?, hx, hiff, Option.bind_eq_bind, Option.bind_none]
    exact ⟨rfl, h⟩
  · rw [hx] at hiff
    simp only [Store.setBody?, setBody?_eq_some_iff.2 ⟨hiff, rfl⟩, hx, Option.bind_eq_bind,
      Option.bind_some]
    exact ⟨rfl, h.withBody hx⟩

/-! ### Every change -/

theorem apply (h : s.Holds w) (hw : w.WellFormed) (x : Change) : (s.apply x).Holds (w.apply x) := by
  cases x with
  | register d => exact (h.register hw d).2
  | unregister id => exact (h.unregister hw id).2
  | unregisterNamed name => exact (h.unregisterNamed hw name).2
  | setBody id body => exact (h.setBody? id body).2
  | link => exact h.congr w.link_kept.1 w.link_kept.2
  | index => exact h.congr w.index_kept.1 w.index_kept.2
  | linkAndIndex => exact h.congr w.linkAndIndex_kept.1 w.linkAndIndex_kept.2
  | dropDerived => exact h.congr rfl rfl

theorem run (h : s.Holds w) (hw : w.WellFormed) (l : List Change) : (s.run l).Holds (w.run l) := by
  induction l generalizing s w with
  | nil => exact h
  | cons x l ih => exact ih (h.apply hw x) (hw.moves (moves_apply hw x))

end Holds

/-- The slots and the world stay together along every run. -/
theorem holds_run (settings : Settings) (l : List Change) :
    (run {} l).Holds ((World.empty settings).run l) :=
  (Holds.empty settings).run (.empty settings) l

end Store
end ClosedWorld
