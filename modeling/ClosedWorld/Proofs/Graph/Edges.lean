import ClosedWorld.Proofs.Graph.Arrows

/-!
# The two sides of a relation

The sides of a relation agree if one is the other turned around (`Agree`). Recording keeps that
(`agree_ofList`), and so does taking an end out, although only the vertices that it lists are looked at:
if the sides agree, no other vertex lists it (`Agree.dropSource`, `Agree.dropTarget`). So ends that are
taken out one by one are gone from all lists, and the rest of each list stays (`without`).
-/

namespace ClosedWorld.Edges
variable {α β : Type}

def Agree (e : Edges α β) : Prop := e.inward = e.outward.map Prod.swap

theorem ofList_eq (l : List (α × β)) : ofList l = ⟨l, l.map Prod.swap⟩ := by
  have hfold : ∀ l' : List (α × β), l.foldl record ⟨l', l'.map Prod.swap⟩ =
      ⟨l' ++ l, (l' ++ l).map Prod.swap⟩ := by
    induction l with
    | nil => simp
    | cons x l ih =>
      intro l'
      have hx : record ⟨l', l'.map Prod.swap⟩ x = ⟨l' ++ [x], (l' ++ [x]).map Prod.swap⟩ := by
        simp [record]
      rw [List.foldl_cons, hx, ih]
      simp
  exact hfold []

theorem agree_ofList (l : List (α × β)) : (ofList l).Agree := by
  rw [ofList_eq]
  rfl

theorem outward_ofList (l : List (α × β)) : (ofList l).outward = l := by rw [ofList_eq]

theorem Agree.flip {e : Edges α β} (h : e.Agree) : e.flip.Agree := by
  show e.outward = e.inward.map Prod.swap
  rw [h]
  simp

variable [DecidableEq α] [DecidableEq β]

omit [DecidableEq β] in
theorem targets_ofList (l : List (α × β)) (a : α) : (ofList l).targets a = Arrows.targets l a := by
  rw [ofList_eq]
  rfl

omit [DecidableEq α] in
theorem sources_ofList (l : List (α × β)) (b : β) : (ofList l).sources b = Arrows.sources l b := by
  rw [ofList_eq]
  exact Arrows.targets_map_swap

namespace Agree
variable {e : Edges α β} (h : e.Agree)
include h

omit [DecidableEq α] in
theorem sources_eq (b : β) : e.sources b = e.outward.sources b := by
  rw [Edges.sources, h]
  exact Arrows.targets_map_swap

/-- Both ends of an edge list it equally often. -/
theorem count_eq (a : α) (b : β) : (e.targets a).count b = (e.sources b).count a := by
  rw [h.sources_eq, Arrows.count_sources]
  exact Arrows.count_targets

theorem mem_iff {a : α} {b : β} : b ∈ e.targets a ↔ a ∈ e.sources b := by
  rw [h.sources_eq, Arrows.mem_sources]
  exact Arrows.mem_targets

end Agree

/-! ### Taking ends out -/

/-- The edges that touch no source in `as` and no target in `bs`, on both sides. -/
def without (e : Edges α β) (as : List α) (bs : List β) : Edges α β :=
  ⟨e.outward.without as bs, e.inward.without bs as⟩

section Without
variable {e : Edges α β} {as as' : List α} {bs bs' : List β}

theorem targets_without {a : α} (ha : a ∉ as) :
    (e.without as bs).targets a = (e.targets a).filter (· ∉ bs) :=
  Arrows.targets_without ha

theorem sources_without {b : β} (hb : b ∉ bs) :
    (e.without as bs).sources b = (e.sources b).filter (· ∉ as) :=
  Arrows.targets_without hb

theorem without_nil : e.without [] [] = e := by
  rw [without, Arrows.without_nil, Arrows.without_nil]

theorem without_without :
    (e.without as bs).without as' bs' = e.without (as ++ as') (bs ++ bs') := by
  simp only [without, Arrows.without_without]

theorem without_ofList (l : List (α × β)) :
    (ofList l).without as bs = ofList (Arrows.without l as bs) := by
  rw [ofList_eq, ofList_eq, without, Arrows.map_swap_without]

end Without

/-- Each vertex on a list forgets `a`. -/
theorem foldl_filter_ne (bs : List β) (a : α) (l : List (β × α)) :
    bs.foldl (fun l b => l.filter (· ≠ (b, a))) l = l.filter fun x => ¬(x.2 = a ∧ x.1 ∈ bs) := by
  induction bs generalizing l with
  | nil => simp
  | cons b bs ih =>
    rw [List.foldl_cons, ih, List.filter_filter]
    refine List.filter_congr fun x _ => ?_
    rw [← Bool.decide_and]
    refine decide_eq_decide.2 ?_
    obtain ⟨x₁, x₂⟩ := x
    simp only [List.mem_cons, ne_eq, Prod.mk.injEq]
    tauto

namespace Agree
variable {e : Edges α β}

theorem without (h : e.Agree) (as : List α) (bs : List β) : (e.without as bs).Agree := by
  show e.inward.without bs as = (e.outward.without as bs).map Prod.swap
  rw [Arrows.map_swap_without, h]

/-- The vertices that list a source are those that it lists. -/
theorem dropSource (h : e.Agree) (a : α) : e.dropSource a = e.without [a] [] := by
  have hin : e.inward.filter (fun x => ¬(x.2 = a ∧ x.1 ∈ e.targets a)) =
      e.inward.without [] [a] := by
    refine List.filter_congr fun x hx => decide_eq_decide.2 ?_
    obtain ⟨b, a'⟩ := x
    -- `b` lists the source only if the source lists `b`
    have hb : a' = a → b ∈ e.targets a := by
      rintro rfl
      exact h.mem_iff.2 (Arrows.mem_targets.2 hx)
    simp only [List.not_mem_nil, not_false_eq_true, List.mem_singleton, true_and]
    exact not_congr ⟨And.left, fun ha => ⟨ha, hb ha⟩⟩
  rw [Edges.dropSource, foldl_filter_ne, hin, Arrows.filter_fst_ne]
  rfl

theorem dropTarget (h : e.Agree) (b : β) : e.dropTarget b = e.without [] [b] := by
  rw [Edges.dropTarget, h.flip.dropSource]
  rfl

theorem dropVertex {e : Edges α α} (h : e.Agree) (a : α) : e.dropVertex a = e.without [a] [a] := by
  rw [Edges.dropVertex, h.dropSource, (h.without _ _).dropTarget, without_without]
  rfl

/-- If each step takes some ends away, the steps of a list together take all of these away. -/
theorem foldl {ι : Type} {f : Edges α β → ι → Edges α β} {as : ι → List α} {bs : ι → List β}
    (hf : ∀ e : Edges α β, e.Agree → ∀ i, f e i = e.without (as i) (bs i)) (h : e.Agree)
    (l : List ι) : l.foldl f e = e.without (l.flatMap as) (l.flatMap bs) := by
  induction l generalizing e with
  | nil => exact without_nil.symm
  | cons i l ih =>
    rw [List.foldl_cons, hf e h, ih (h.without _ _), without_without, List.flatMap_cons,
      List.flatMap_cons]

theorem foldl_dropVertex {e : Edges α α} (h : e.Agree) (as : List α) :
    as.foldl .dropVertex e = e.without as as := by
  rw [foldl (fun _ h => h.dropVertex) h, List.flatMap_singleton']

theorem foldl_dropSource (h : e.Agree) (as : List α) :
    as.foldl .dropSource e = e.without as [] := by
  rw [foldl (fun _ h => h.dropSource) h, List.flatMap_singleton',
    List.flatMap_eq_nil_iff.2 fun _ _ => rfl]

theorem foldl_dropTarget (h : e.Agree) (bs : List β) :
    bs.foldl .dropTarget e = e.without [] bs := by
  rw [foldl (fun _ h => h.dropTarget) h, List.flatMap_singleton',
    List.flatMap_eq_nil_iff.2 fun _ _ => rfl]

end Agree

/-! ### Relations between given vertices -/

/-- The sides agree and no edge leaves the given vertices. -/
structure Between (e : Edges α β) (as : List α) (bs : List β) : Prop where
  agree : e.Agree
  mem : ∀ x ∈ e.outward, x.1 ∈ as ∧ x.2 ∈ bs

namespace Between
variable {e : Edges α β} {as as' : List α} {bs bs' : List β}

omit [DecidableEq α] [DecidableEq β] in
theorem empty : Between ({} : Edges α β) as bs := ⟨rfl, by simp⟩

omit [DecidableEq α] [DecidableEq β] in
theorem ofList {l : List (α × β)} (h : ∀ x ∈ l, x.1 ∈ as ∧ x.2 ∈ bs) : (ofList l).Between as bs :=
  ⟨agree_ofList l, by rwa [outward_ofList]⟩

omit [DecidableEq α] [DecidableEq β] in
theorem mono (h : e.Between as bs) (ha : ∀ a ∈ as, a ∈ as') (hb : ∀ b ∈ bs, b ∈ bs') :
    e.Between as' bs' :=
  ⟨h.agree, fun x hx => (h.mem x hx).imp (ha _) (hb _)⟩

theorem without (h : e.Between as bs) :
    (e.without as' bs').Between (as.filter (· ∉ as')) (bs.filter (· ∉ bs')) := by
  refine ⟨h.agree.without _ _, fun x hx => ?_⟩
  obtain ⟨hx, h1, h2⟩ := Arrows.mem_without.1 hx
  obtain ⟨ha, hb⟩ := h.mem x hx
  exact ⟨List.mem_filter.2 ⟨ha, by simpa using h1⟩, List.mem_filter.2 ⟨hb, by simpa using h2⟩⟩

omit [DecidableEq β] in
theorem mem_of_target (h : e.Between as bs) {a : α} {b : β} (hb : b ∈ e.targets a) :
    a ∈ as ∧ b ∈ bs :=
  h.mem _ (Arrows.mem_targets.1 hb)

theorem mem_of_source (h : e.Between as bs) {a : α} {b : β} (ha : a ∈ e.sources b) :
    a ∈ as ∧ b ∈ bs :=
  h.mem_of_target (h.agree.mem_iff.2 ha)

end Between
end ClosedWorld.Edges
