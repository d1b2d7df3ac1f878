import ClosedWorld.Proofs.Graph.Edges
import ClosedWorld.Proofs.World.WellFormed

/-!
# References within a world

`References.Within`: all ends of references are registered, both ends of a relation list each other
equally often, and a field is listed at most once, at the class that its type mentions by name. So the
class that a field is pruned from by name is the one that lists it, and removing a class member by member
takes away just the references that touch the class or one of its members (`Within.remove_references`).
-/

namespace ClosedWorld

/-- The type of a registered field mentions a registered class. -/
def World.Mentions (w : World) (f : FieldId) (t : ClassId) : Prop :=
  ∃ x ∈ w.fields, x.2.id = f ∧ ∃ c ∈ w.classes, c.id = t ∧ x.2.decl.type.className? = some c.name

namespace References

structure Within (r : References) (w : World) : Prop where
  calls : r.calls.Between w.methodIds w.methodIds
  reads : r.reads.Between w.methodIds w.fieldIds
  writes : r.writes.Between w.methodIds w.fieldIds
  types : r.types.Between w.methodIds w.ids
  fieldTypes : ∀ x ∈ r.fieldTypes, w.Mentions x.1 x.2
  fieldTypes_nodup : (r.fieldTypes.map (·.1)).Nodup

/-- The references that touch neither a class nor its members. -/
def without (r : References) (c : ClassEntry) : References where
  calls := r.calls.without c.methodIds c.methodIds
  reads := r.reads.without c.methodIds c.fieldIds
  writes := r.writes.without c.methodIds c.fieldIds
  types := r.types.without c.methodIds [c.id]
  strings := r.strings.without [c.id] []
  fieldTypes := r.fieldTypes.without c.fieldIds [c.id]

/-! ### Member by member -/

theorem foldl_dropMethod (ms : List MethodId) (r : References) :
    ms.foldl dropMethod r =
      { r with
        calls := ms.foldl .dropVertex r.calls
        reads := ms.foldl .dropSource r.reads
        writes := ms.foldl .dropSource r.writes
        types := ms.foldl .dropSource r.types } := by
  induction ms generalizing r with
  | nil => rfl
  | cons m ms ih => rw [List.foldl_cons, ih]; rfl

theorem foldl_dropField (type? : FieldEntry → Option ClassId) (fs : List FieldEntry)
    (r : References) :
    fs.foldl (fun r f => r.dropField f.id (type? f)) r =
      { r with
        reads := (fs.map (·.id)).foldl .dropTarget r.reads
        writes := (fs.map (·.id)).foldl .dropTarget r.writes
        fieldTypes := r.fieldTypes.filter fun x =>
          ∀ f ∈ fs, ¬(x.1 = f.id ∧ type? f = some x.2) } := by
  induction fs generalizing r with
  | nil => simp
  | cons f fs ih =>
    rw [List.foldl_cons, ih]
    simp only [dropField, List.map_cons, List.foldl_cons, List.filter_filter, List.forall_mem_cons,
      Bool.decide_and, Bool.and_comm]

namespace Within
variable {r : References} {w w' : World} {c : ClassEntry}

theorem empty (w : World) : Within {} w := by
  refine ⟨.empty, .empty, .empty, .empty, ?_, ?_⟩ <;> simp

theorem mono (hr : r.Within w) (hi : ∀ i ∈ w.ids, i ∈ w'.ids)
    (hm : ∀ m ∈ w.methodIds, m ∈ w'.methodIds) (hf : ∀ f ∈ w.fieldIds, f ∈ w'.fieldIds)
    (ht : ∀ f t, w.Mentions f t → w'.Mentions f t) : r.Within w' where
  calls := hr.calls.mono hm hm
  reads := hr.reads.mono hm hf
  writes := hr.writes.mono hm hf
  types := hr.types.mono hm hi
  fieldTypes x hx := ht _ _ (hr.fieldTypes x hx)
  fieldTypes_nodup := hr.fieldTypes_nodup

/-- A field that is taken out is forgotten by the class that lists it. -/
theorem fieldTypes_remove (hr : w.references.Within w) (hw : w.WellFormed) (hc : c ∈ w.classes) :
    ((w.references.fieldTypes.filter (·.2 ≠ c.id)).filter fun x =>
      ∀ f ∈ c.fields, ¬(x.1 = f.id ∧ (w.remove c).typeClass? f = some x.2)) =
    w.references.fieldTypes.without c.fieldIds [c.id] := by
  rw [List.filter_filter, Arrows.without]
  refine List.filter_congr fun x hx => ?_
  rw [← Bool.decide_and]
  refine decide_eq_decide.2 ?_
  rw [List.mem_singleton]
  refine and_congr_left fun hne => ?_
  constructor
  · intro h hf
    obtain ⟨f, hf, hid⟩ := List.mem_map.1 hf
    refine h f hf ⟨hid.symm, ?_⟩
    -- the class that lists the field is registered under the name in the type of the field
    obtain ⟨y, hy, hyid, t, ht, htid, hn⟩ := hr.fieldTypes x hx
    have hyf : y = (c, f) :=
      hw.field_ext hy (World.mem_fields.2 ⟨hc, hf⟩) (hyid.trans hid.symm)
    subst hyf
    rw [World.typeClass?, hn, Option.bind_some, hw.lookup?_remove, hw.lookup?_of_mem ht, htid]
    simp [hne]
  · rintro h f hf ⟨hid, -⟩
    exact h (List.mem_map.2 ⟨f, hf, hid.symm⟩)

theorem foldl_drop_members {e : Edges MethodId FieldId} (h : e.Agree) (c : ClassEntry) :
    c.fieldIds.foldl .dropTarget (c.methodIds.foldl .dropSource e) =
      e.without c.methodIds c.fieldIds := by
  rw [h.foldl_dropSource, (h.without _ _).foldl_dropTarget, Edges.without_without, List.append_nil]
  rfl

/-- Removing a class takes away the references that touch it or its members, and no others. -/
theorem remove_references (hr : w.references.Within w) (hw : w.WellFormed) (hc : c ∈ w.classes) :
    (w.remove c).references = w.references.without c := by
  have hstep : (w.remove c).references = c.fields.foldl
      (fun r f => r.dropField f.id ((w.remove c).typeClass? f))
      (c.methodIds.foldl dropMethod (w.references.dropClass c.id)) := rfl
  have hcalls := hr.calls.agree.foldl_dropVertex c.methodIds
  have hreads := foldl_drop_members hr.reads.agree c
  have hwrites := foldl_drop_members hr.writes.agree c
  have htypes : c.methodIds.foldl .dropSource (w.references.types.dropTarget c.id) =
      w.references.types.without c.methodIds [c.id] := by
    have hagree := hr.types.agree
    rw [hagree.dropTarget, (hagree.without _ _).foldl_dropSource, Edges.without_without]
    rfl
  have hstrings := Arrows.filter_fst_ne w.references.strings c.id
  have hfields := hr.fieldTypes_remove hw hc
  rw [hstep, foldl_dropField, foldl_dropMethod, without, ← hcalls, ← hreads, ← hwrites, ← htypes,
    ← hstrings, ← hfields]
  rfl

theorem without (hr : w.references.Within w) (hw : w.WellFormed) (hc : c ∈ w.classes) :
    (w.references.without c).Within (w.remove c) := by
  have hm : ∀ m ∈ w.methodIds.filter (· ∉ c.methodIds), m ∈ (w.remove c).methodIds := fun m h =>
    (hw.mem_methodIds_remove hc).2 (by simpa using List.mem_filter.1 h)
  have hf : ∀ f ∈ w.fieldIds.filter (· ∉ c.fieldIds), f ∈ (w.remove c).fieldIds := fun f h =>
    (hw.mem_fieldIds_remove hc).2 (by simpa using List.mem_filter.1 h)
  have hi : ∀ i ∈ w.ids.filter (· ∉ [c.id]), i ∈ (w.remove c).ids := fun i h =>
    World.WellFormed.mem_ids_remove.2 (by simpa using List.mem_filter.1 h)
  refine ⟨hr.calls.without.mono hm hm, hr.reads.without.mono hm hf,
    hr.writes.without.mono hm hf, hr.types.without.mono hm hi, fun x hx => ?_, ?_⟩
  · obtain ⟨hx, h1, h2⟩ := Arrows.mem_without.1 hx
    obtain ⟨y, hy, hyid, t, ht, htid, hn⟩ := hr.fieldTypes x hx
    obtain ⟨hy1, hy2⟩ := World.mem_fields.1 hy
    have hyne : y.1.id ≠ c.id := fun h => by
      have := hw.class_ext hy1 hc h
      exact h1 (hyid ▸ this ▸ List.mem_map_of_mem hy2)
    have htne : t.id ≠ c.id := fun h => h2 (List.mem_singleton.2 (htid ▸ h))
    refine ⟨y, ?_, hyid, t, World.mem_remove.2 ⟨ht, htne⟩, htid, hn⟩
    exact World.mem_fields.2 ⟨World.mem_remove.2 ⟨hy1, hyne⟩, hy2⟩
  · exact hr.fieldTypes_nodup.sublist (Arrows.without_sublist.map _)

theorem insert (hr : r.Within w) (d : ClassDecl) : r.Within (w.insert d) := by
  have hc : ∀ c ∈ w.classes, c ∈ (w.insert d).classes := fun c hc => by simp [hc]
  have hm : ∀ x ∈ w.methods, x ∈ (w.insert d).methods := fun x hx => by
    rw [World.insert_methods]; exact List.mem_append_left _ hx
  have hf : ∀ x ∈ w.fields, x ∈ (w.insert d).fields := fun x hx => by
    rw [World.insert_fields]; exact List.mem_append_left _ hx
  refine hr.mono ?_ ?_ ?_ ?_
  · exact fun i hi => List.map_subset _ hc hi
  · exact fun i hi => List.map_subset _ hm hi
  · exact fun i hi => List.map_subset _ hf hi
  · rintro f t ⟨x, hx, hid, c, h, hn⟩
    exact ⟨x, hf x hx, hid, c, hc c h, hn⟩

/-- A body is no end of a reference. -/
theorem withBody (hr : r.Within w) (id : MethodId) (body : Body) : r.Within (w.withBody id body) := by
  refine hr.mono ?_ ?_ ?_ ?_
  · rw [World.withBody_ids]; exact fun _ h => h
  · rw [World.withBody_methodIds]; exact fun _ h => h
  · rw [World.withBody_fieldIds]; exact fun _ h => h
  · rintro f t ⟨x, hx, hid, c, hc, hn⟩
    obtain ⟨hx1, hx2⟩ := World.mem_fields.1 hx
    exact ⟨(x.1.withBody id body, x.2), World.mem_fields.2 ⟨List.mem_map_of_mem hx1, hx2⟩, hid,
      c.withBody id body, List.mem_map_of_mem hc, hn⟩

end Within
end References
end ClosedWorld
