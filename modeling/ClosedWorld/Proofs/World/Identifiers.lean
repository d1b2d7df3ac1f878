import ClosedWorld.Proofs.World.Store

/-!
# Identifiers are given out once

`Slots.Grown`: a row of slots only becomes longer, and an empty slot stays empty. All rows of a store grow
with every change (`Later.apply`), and a new class fills slots behind them, so an identifier that is gone
stays unknown and is not given out again (`GivenOutOnce`). In between the rows and the index of names
agree with each other (`Store.Sound`).
-/

namespace ClosedWorld

namespace Slots
variable {α β : Type} {s s' s'' : Slots α} {i : ℕ} {a b : α}

/-- Behind the slots that there were, new ones may have come. None of them was filled again. -/
structure Grown (s s' : Slots α) : Prop where
  length_le : s.length ≤ s'.length
  empty : ∀ i < s.length, s.get? i = none → s'.get? i = none

namespace Grown

theorem refl (s : Slots α) : s.Grown s := ⟨Nat.le_refl _, fun _ _ h => h⟩

theorem trans (h : s.Grown s') (h' : s'.Grown s'') : s.Grown s'' where
  length_le := Nat.le_trans h.length_le h'.length_le
  empty i hi he := h'.empty i (Nat.lt_of_lt_of_le hi h.length_le) (h.empty i hi he)

/-- A row of the same length grows if it has nothing where it had nothing before. -/
theorem of_length (hl : s'.length = s.length) (h : ∀ i a, s'.get? i = some a → (s.get? i).isSome) :
    s.Grown s' where
  length_le := Nat.le_of_eq hl.symm
  empty i _ he := by
    refine Option.eq_none_iff_forall_ne_some.2 fun a ha => ?_
    simpa [he] using h i a ha

theorem set_none (s : Slots α) (i : ℕ) : s.Grown (s.set i none) :=
  of_length (List.length_set ..) fun _ _ h => Option.isSome_iff_exists.2 ⟨_, (get?_set_none.1 h).1⟩

theorem takeAll (s : Slots α) (is : List ℕ) : s.Grown (s.takeAll is).2 :=
  of_length length_takeAll fun _ _ h => Option.isSome_iff_exists.2 ⟨_, (get?_takeAll.1 h).1⟩

theorem set_some (h : s.get? i = some a) : s.Grown (s.set i (some b)) := by
  refine of_length (List.length_set ..) fun j c hc => ?_
  rw [get?_set_some h] at hc
  split at hc
  · next e => rw [e, h]; rfl
  · rw [hc]; rfl

theorem append (s t : Slots α) : s.Grown (s ++ t) where
  length_le := by simp
  empty i hi he := by rw [get?, List.getElem?_append_left hi]; exact he

/-- What was there and is gone now will not be there again. -/
theorem gone (h : s.Grown s') (h' : s'.Grown s'') (hs : (s.get? i).isSome)
    (hs' : s'.get? i = none) : s''.get? i = none := by
  obtain ⟨a, ha⟩ := Option.isSome_iff_exists.1 hs
  exact h'.empty i (Nat.lt_of_lt_of_le (lt_length_of_get? ha) h.length_le) hs'

end Grown
end Slots

namespace Store
variable {s s' s'' : Store}

/-! ### A store grows with every change -/

structure Later (s s' : Store) : Prop where
  classes : s.classes.Grown s'.classes
  methods : s.methods.Grown s'.methods
  fields : s.fields.Grown s'.fields

namespace Later

theorem refl (s : Store) : s.Later s := ⟨.refl _, .refl _, .refl _⟩

theorem trans (h : s.Later s') (h' : s'.Later s'') : s.Later s'' :=
  ⟨h.classes.trans h'.classes, h.methods.trans h'.methods, h.fields.trans h'.fields⟩

theorem takeClass? {id : ClassId} {d : ClassDecl} (h : s.takeClass? id = some (d, s')) :
    s.Later s' := by
  obtain ⟨c, -, hc⟩ := Option.bind_eq_some_iff.1 h
  cases hc
  exact ⟨.set_none _ _, .takeAll _ _, .takeAll _ _⟩

theorem unregister (s : Store) (id : ClassId) : s.Later (s.unregister id).2 := by
  unfold Store.unregister
  split
  · exact .refl s
  · next h => exact ⟨(takeClass? h).classes, (takeClass? h).methods, (takeClass? h).fields⟩

theorem unregisterNamed (s : Store) (name : ClassName) : s.Later (s.unregisterNamed name).2 := by
  unfold Store.unregisterNamed
  split
  · exact .refl s
  · exact .unregister s _

theorem insert (s : Store) (d : ClassDecl) : s.Later (s.insert d).2 :=
  ⟨.append _ _, .append _ _, .append _ _⟩

theorem setBody? {id : MethodId} {body : Body} (h : s.setBody? id body = some s') : s.Later s' := by
  obtain ⟨m, hm, hs⟩ := Option.bind_eq_some_iff.1 h
  cases hs
  exact ⟨.refl _, .set_some hm, .refl _⟩

theorem apply (s : Store) (x : Change) : s.Later (s.apply x) := by
  cases x with
  | register d => exact (unregisterNamed s d.name).trans (.insert _ d)
  | unregister id => exact .unregister s id
  | unregisterNamed name => exact .unregisterNamed s name
  | setBody id body =>
    show s.Later ((s.setBody? id body).getD s)
    cases h : s.setBody? id body with
    | none => exact .refl s
    | some s' => exact setBody? h
  | link | index | linkAndIndex | dropDerived => exact .refl s

theorem run (s : Store) (l : List Change) : s.Later (s.run l) := by
  induction l generalizing s with
  | nil => exact .refl s
  | cons x l ih => exact (apply s x).trans (ih (s.apply x))

end Later

/-! ### The rows and the index of names agree -/

/-- What stands in a row of members are the members that the classes list. -/
structure Placed {ι δ : Type} [DecidableEq ι] (s : Store) (member? : ι → Option (StoredMember ι δ))
    (listed : StoredClass → List ι) : Prop where
  id : ∀ {j m}, member? j = some m → m.id = j
  /-- The owner is registered under the name that the member has for it, and lists it once. -/
  owner : ∀ {j m}, member? j = some m → ∃ c, s.class? m.owner = some c ∧
    s.lookup? m.ownerName = some m.owner ∧ c.name = m.ownerName ∧ (listed c).count j = 1
  /-- No other class lists it. -/
  alone : ∀ {j m i c}, member? j = some m → s.class? i = some c → j ∈ listed c → i = m.owner
  occupied : ∀ {i c j}, s.class? i = some c → j ∈ listed c → (member? j).isSome

structure Sound (s : Store) : Prop where
  increasing : s.ids.Pairwise (·.val < ·.val)
  distinct : (s.names.map (·.1)).Nodup
  id : ∀ {i c}, s.class? i = some c → c.id = i
  named : ∀ {n i}, s.lookup? n = some i ↔ ∃ c, s.class? i = some c ∧ c.name = n ∧ c.id = i
  methods : s.Placed s.method? (·.methods)
  fields : s.Placed s.field? (·.fields)

namespace Holds
open World
variable {w : World}

theorem named (h : s.Holds w) (hw : w.WellFormed) {n : ClassName} {i : ClassId} :
    s.lookup? n = some i ↔ ∃ c, s.class? i = some c ∧ c.name = n ∧ c.id = i := by
  rw [h.lookup?, hw.lookup?_eq_some_iff]
  simp only [h.class?]
  constructor
  · rintro ⟨c, hc, rfl, rfl⟩
    exact ⟨c.stored, ⟨c, hc, rfl, rfl⟩, rfl, rfl⟩
  · rintro ⟨_, ⟨c, hc, rfl, rfl⟩, rfl, -⟩
    exact ⟨c, hc, rfl, rfl⟩

/-- A row of members is in place if the classes list what it shelves, each class its own. -/
theorem placed {ι ε δ : Type} [DecidableEq ι] {val : ι → ℕ} {members : ClassEntry → List ε}
    {stored : ε → ClassEntry → StoredMember ι δ} {row : Slots (StoredMember ι δ)}
    {listed : StoredClass → List ι} (h : s.Holds w) (hw : w.WellFormed)
    (hrow : Shelves val members stored row w.classes)
    (hlisted : ∀ c, listed c.stored = (members c).map fun m => (stored m c).id)
    (howner : ∀ m c, (stored m c).owner = c.id ∧ (stored m c).ownerName = c.name)
    (hnodup : ∀ c ∈ w.classes, (listed c.stored).Nodup)
    (hown : ∀ c ∈ w.classes, ∀ e ∈ w.classes, ∀ m ∈ members e,
      (stored m e).id ∈ listed c.stored ↔ e.id = c.id) :
    s.Placed (fun j => row.get? (val j)) listed where
  id hm := by
    obtain ⟨_, -, _, -, hid, rfl⟩ := (hrow _ _).1 hm
    exact hid
  owner hm := by
    obtain ⟨c, hc, m, hmem, rfl, rfl⟩ := (hrow _ _).1 hm
    rw [(howner m c).1, (howner m c).2, h.lookup?]
    refine ⟨c.stored, h.class?_of_mem hc, hw.lookup?_of_mem hc, rfl, ?_⟩
    exact List.count_eq_one_of_mem (hnodup c hc) ((hown c hc c hc m hmem).2 rfl)
  alone hm he hj := by
    obtain ⟨c, hc, m, hmem, rfl, rfl⟩ := (hrow _ _).1 hm
    obtain ⟨e, hmem', rfl, rfl⟩ := h.class?.1 he
    rw [(howner m c).1]
    exact ((hown e hmem' c hc m hmem).1 hj).symm
  occupied hc hj := by
    obtain ⟨c, hmem, rfl, rfl⟩ := h.class?.1 hc
    rw [hlisted] at hj
    obtain ⟨m, hm, rfl⟩ := List.mem_map.1 hj
    exact Option.isSome_iff_exists.2 ⟨_, hrow.get?_of_mem hmem hm⟩

theorem sound (h : s.Holds w) (hw : w.WellFormed) : s.Sound where
  increasing := h.ids ▸ hw.ids_increasing
  distinct := by
    rw [h.names, List.map_map]
    exact hw.names
  id hc := by
    obtain ⟨_, -, hid, rfl⟩ := h.class?.1 hc
    exact hid
  named := h.named hw
  methods := h.placed hw h.methods (fun _ => rfl) (fun _ _ => ⟨rfl, rfl⟩)
    (fun _ hc => (hw.methodIds_nodup_of_mem hc).of_map _) fun _ hc _ he _ => hw.mem_methodIds_iff hc he
  fields := h.placed hw h.fields (fun _ => rfl) (fun _ _ => ⟨rfl, rfl⟩)
    (fun _ hc => (hw.fieldIds_nodup_of_mem hc).of_map _) fun _ hc _ he _ => hw.mem_fieldIds_iff hc he

end Holds
end Store

/-! ### The result -/

namespace World

/-- What becomes of the identifiers of a world, whatever changes are made to it. -/
structure GivenOutOnce (w : World) : Prop where
  classes : ∀ l l' : List Change, ∀ i ∈ w.ids, i ∉ (w.run l).ids → i ∉ ((w.run l).run l').ids
  methods : ∀ l l' : List Change, ∀ i ∈ w.methodIds, i ∉ (w.run l).methodIds →
    i ∉ ((w.run l).run l').methodIds
  fields : ∀ l l' : List Change, ∀ i ∈ w.fieldIds, i ∉ (w.run l).fieldIds →
    i ∉ ((w.run l).run l').fieldIds
  /-- A class that is registered later has none of the identifiers, nor have its members. -/
  register : ∀ (l : List Change) (d : ClassDecl), ∃ c, c.id = ((w.run l).register d).1 ∧
    c ∈ ((w.run l).register d).2.classes ∧ c.id ∉ w.ids ∧ c.methodIds.Disjoint w.methodIds ∧
      c.fieldIds.Disjoint w.fieldIds

end World

namespace Store.Holds
open World
variable {s : Store} {w : World}

/-- More identifiers are given out along a run. -/
theorem issued_le (h : s.Holds w) (hw : w.WellFormed) (l : List Change) :
    w.issued.classes ≤ (w.run l).issued.classes ∧ w.issued.methods ≤ (w.run l).issued.methods ∧
      w.issued.fields ≤ (w.run l).issued.fields := by
  have hl := h.run hw l
  have hlater := Later.run s l
  rw [← h.classes_length, ← h.methods_length, ← h.fields_length, ← hl.classes_length,
    ← hl.methods_length, ← hl.fields_length]
  exact ⟨hlater.classes.length_le, hlater.methods.length_le, hlater.fields.length_le⟩

theorem givenOutOnce (h : s.Holds w) (hw : w.WellFormed) : w.GivenOutOnce where
  classes l l' i hi hl := by
    have h' := h.run hw l
    rw [h'.mem_ids_iff, Option.not_isSome_iff_eq_none] at hl
    rw [(h'.run (hw.moves (moves_run hw l)) l').mem_ids_iff, Option.not_isSome_iff_eq_none]
    exact (Later.run s l).classes.gone (Later.run _ l').classes (h.mem_ids_iff.1 hi) hl
  methods l l' i hi hl := by
    have h' := h.run hw l
    rw [h'.mem_methodIds_iff, Option.not_isSome_iff_eq_none] at hl
    rw [(h'.run (hw.moves (moves_run hw l)) l').mem_methodIds_iff, Option.not_isSome_iff_eq_none]
    exact (Later.run s l).methods.gone (Later.run _ l').methods (h.mem_methodIds_iff.1 hi) hl
  fields l l' i hi hl := by
    have h' := h.run hw l
    rw [h'.mem_fieldIds_iff, Option.not_isSome_iff_eq_none] at hl
    rw [(h'.run (hw.moves (moves_run hw l)) l').mem_fieldIds_iff, Option.not_isSome_iff_eq_none]
    exact (Later.run s l).fields.gone (Later.run _ l').fields (h.mem_fieldIds_iff.1 hi) hl
  register l d := by
    obtain ⟨hc, hm, hf⟩ := h.issued_le hw l
    have hi := (w.run l).unregisterNamed_issued d.name
    refine ⟨((w.run l).unregisterNamed d.name).2.entryOf d, rfl, ?_, ?_, ?_, ?_⟩
    · rw [register_snd, insert_classes]
      exact List.mem_append_right _ (List.mem_singleton_self _)
    · rw [entryOf_id, hi]
      exact fun hmem => Nat.not_lt.2 hc (hw.classes.lt _ (List.mem_map_of_mem hmem))
    · rw [entryOf_methodIds, hi]
      intro j hj hmem
      obtain ⟨n, hn, rfl⟩ := List.mem_map.1 hj
      have hlt := hw.methods.lt _ (List.mem_map_of_mem hmem)
      exact Nat.not_lt.2 (Nat.le_trans hm (List.mem_range'_1.1 hn).1) hlt
    · rw [entryOf_fieldIds, hi]
      intro j hj hmem
      obtain ⟨n, hn, rfl⟩ := List.mem_map.1 hj
      have hlt := hw.fields.lt _ (List.mem_map_of_mem hmem)
      exact Nat.not_lt.2 (Nat.le_trans hf (List.mem_range'_1.1 hn).1) hlt

end Store.Holds

namespace World

/-- After every run the classes and members of a world lie in slots by their identifiers, the index of
names and the lists of members agree with the slots, and no identifier comes back. -/
theorem stored_of_run (settings : Settings) (l : List Change) :
    let w := (World.empty settings).run l
    let s := Store.run {} l
    s.Holds w ∧ s.Sound ∧ w.GivenOutOnce := by
  have h := Store.holds_run settings l
  have hw : ((World.empty settings).run l).WellFormed := Reachable.wellFormed ⟨settings, l, rfl⟩
  exact ⟨h, h.sound hw, h.givenOutOnce hw⟩

end World
end ClosedWorld
