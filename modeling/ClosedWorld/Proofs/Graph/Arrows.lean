import ClosedWorld.Graph.Edges
import Mathlib.Data.List.Nodup

/-!
# Arrows

What a vertex lists is a part of the arrows in their order, so membership and multiplicity in a list are
those of the arrow. Taking ends away filters the lists of the other ends (`targets_without`,
`sources_without`).

Arrows are often written down source by source (`ofTargets`). Then the targets of a source are what was
written down for it, and the sources of a target come in the order in which they were gone through.
-/

namespace ClosedWorld.Arrows
variable {α β γ : Type} [DecidableEq α] [DecidableEq β]

section Views
variable {l : Arrows α β} {a : α} {b : β}

omit [DecidableEq β] in
theorem mem_targets : b ∈ l.targets a ↔ (a, b) ∈ l := by
  simp [targets, List.mem_filterMap]

omit [DecidableEq α] in
theorem mem_sources : a ∈ l.sources b ↔ (a, b) ∈ l := by
  simp [sources, List.mem_filterMap]

omit [DecidableEq α] in
theorem sources_sublist (l : Arrows α β) (b : β) : (l.sources b).Sublist (l.map (·.1)) := by
  induction l with
  | nil => exact List.Sublist.refl _
  | cons x l ih =>
    by_cases h : x.2 = b
    · simpa [sources, h] using ih
    · simpa [sources, h] using ih.cons _

theorem count_targets : (l.targets a).count b = l.count (a, b) := by
  induction l with
  | nil => rfl
  | cons x l ih =>
    obtain ⟨x₁, x₂⟩ := x
    by_cases h : x₁ = a <;> simp_all [targets, List.count_cons]

theorem count_sources : (l.sources b).count a = l.count (a, b) := by
  induction l with
  | nil => rfl
  | cons x l ih =>
    obtain ⟨x₁, x₂⟩ := x
    by_cases h : x₂ = b <;> simp_all [sources, List.count_cons]

omit [DecidableEq α] in
theorem targets_map_swap : targets (l.map Prod.swap) b = l.sources b := by
  simp only [targets, sources, List.filterMap_map]
  rfl

end Views

/-! ### Taking arrows away -/

/-- The arrows that touch no source in `as` and no target in `bs`. -/
def without (l : Arrows α β) (as : List α) (bs : List β) : Arrows α β :=
  l.filter fun x => x.1 ∉ as ∧ x.2 ∉ bs

section Without
variable {l : Arrows α β} {as as' : List α} {bs bs' : List β}

theorem mem_without {x : α × β} : x ∈ l.without as bs ↔ x ∈ l ∧ x.1 ∉ as ∧ x.2 ∉ bs := by
  simp [without]

theorem without_sublist : (l.without as bs).Sublist l := List.filter_sublist

theorem without_nil : l.without [] [] = l := by simp [without]

theorem filter_fst_ne (l : Arrows α β) (a : α) : l.filter (·.1 ≠ a) = l.without [a] [] :=
  List.filter_congr fun x _ => by simp

theorem map_swap_without : (l.without as bs).map Prod.swap = without (l.map Prod.swap) bs as := by
  simp [without, List.filter_map, Function.comp_def, and_comm]

theorem without_without :
    (l.without as bs).without as' bs' = l.without (as ++ as') (bs ++ bs') := by
  simp only [without, List.filter_filter, List.mem_append]
  refine List.filter_congr fun x _ => ?_
  rw [← Bool.decide_and]
  exact decide_eq_decide.2 (by tauto)

theorem targets_without {a : α} (ha : a ∉ as) :
    (l.without as bs).targets a = (l.targets a).filter (· ∉ bs) := by
  induction l with
  | nil => rfl
  | cons x l ih =>
    obtain ⟨x₁, x₂⟩ := x
    by_cases h : x₁ = a
    · subst h
      by_cases hb : x₂ ∈ bs <;> simp_all [without, targets]
    · by_cases h' : x₁ ∈ as <;> by_cases hb : x₂ ∈ bs <;> simp_all [without, targets]

theorem sources_without {b : β} (hb : b ∉ bs) :
    (l.without as bs).sources b = (l.sources b).filter (· ∉ as) := by
  induction l with
  | nil => rfl
  | cons x l ih =>
    obtain ⟨x₁, x₂⟩ := x
    by_cases h : x₂ = b
    · subst h
      by_cases ha : x₁ ∈ as <;> simp_all [without, sources]
    · by_cases h' : x₁ ∈ as <;> by_cases hb : x₂ ∈ bs <;> simp_all [without, sources]

end Without

/-! ### Source by source -/

/-- The arrows from the key of each element of a list to the targets that it has. -/
def ofTargets (l : List γ) (key : γ → α) (f : γ → List β) : Arrows α β :=
  l.flatMap fun x => (f x).map (key x, ·)

section OfTargets
variable {l : List γ} {key : γ → α} {f g : γ → List β}

omit [DecidableEq α] [DecidableEq β] in
theorem mem_ofTargets {a : α} {b : β} : (a, b) ∈ ofTargets l key f ↔ ∃ x ∈ l, key x = a ∧ b ∈ f x := by
  simp only [ofTargets, List.mem_flatMap, List.mem_map, Prod.mk.injEq]
  constructor
  · rintro ⟨x, hx, _, hb, rfl, rfl⟩; exact ⟨x, hx, rfl, hb⟩
  · rintro ⟨x, hx, rfl, hb⟩; exact ⟨x, hx, b, hb, rfl, rfl⟩

omit [DecidableEq α] [DecidableEq β] in
theorem filterMap_eq_ofTargets {f : γ → Option β} :
    (l.filterMap fun x => (f x).map (key x, ·)) = ofTargets l key fun x => (f x).toList := by
  induction l with
  | nil => rfl
  | cons x l ih => cases h : f x <;> simp_all [ofTargets]

omit [DecidableEq α] in
/-- With at most one target each, the sources of a target are the keys of what is read as it. -/
theorem sources_filterMap {f : γ → Option β} (b : β) :
    sources (l.filterMap fun x => (f x).map (key x, ·)) b = (l.filter (f · = some b)).map key := by
  induction l with
  | nil => rfl
  | cons x l ih =>
    cases hx : f x with
    | none => simpa [hx] using ih
    | some c => by_cases hc : c = b <;> simpa [hx, hc, sources] using ih

omit [DecidableEq α] [DecidableEq β] in
theorem nodup_ofTargets (hl : (l.map key).Nodup) (hf : ∀ x ∈ l, (f x).Nodup) :
    (ofTargets l key f).Nodup := by
  refine List.nodup_flatMap.2 ⟨fun x hx => (hf x hx).map fun _ _ h => (Prod.mk.inj h).2, ?_⟩
  refine (List.pairwise_map.1 hl).imp fun hne z hx hy => hne ?_
  obtain ⟨_, -, rfl⟩ := List.mem_map.1 hx
  obtain ⟨_, -, h⟩ := List.mem_map.1 hy
  exact (Prod.mk.inj h).1.symm

omit [DecidableEq α] [DecidableEq β] in
/-- With at most one target each, no key is the source of two arrows. -/
theorem map_fst_ofTargets_sublist (hf : ∀ x ∈ l, (f x).length ≤ 1) :
    ((ofTargets l key f).map (·.1)).Sublist (l.map key) := by
  induction l with
  | nil => exact List.Sublist.refl _
  | cons x l ih =>
    have hrest := ih fun y hy => hf y (by simp [hy])
    have hx := hf x (by simp)
    simp only [ofTargets, List.flatMap_cons, List.map_append, List.map_map] at hrest ⊢
    match h : f x, hx with
    | [], _ => exact hrest.cons _
    | [b], _ => exact hrest.cons_cons _

omit [DecidableEq α] [DecidableEq β] in
theorem ofTargets_congr (h : ∀ x ∈ l, f x = g x) : ofTargets l key f = ofTargets l key g := by
  simp only [ofTargets]
  exact List.flatMap_congr fun x hx => by rw [h x hx]

omit [DecidableEq β] in
theorem targets_ofTargets_of_not_mem {a : α} (h : a ∉ l.map key) : (ofTargets l key f).targets a = [] := by
  refine List.eq_nil_iff_forall_not_mem.2 fun b hb => h ?_
  obtain ⟨x, hx, rfl, -⟩ := mem_ofTargets.1 (mem_targets.1 hb)
  exact List.mem_map_of_mem hx

omit [DecidableEq β] in
theorem targets_ofTargets_cons (x : γ) (a : α) :
    (ofTargets (x :: l) key f).targets a =
      (if key x = a then f x else []) ++ (ofTargets l key f).targets a := by
  simp only [ofTargets, targets, List.flatMap_cons, List.filterMap_append, List.filterMap_map]
  split
  · next h => simp [h]
  · next h => simp [h]

omit [DecidableEq β] in
theorem targets_ofTargets (hl : (l.map key).Nodup) {x : γ} (hx : x ∈ l) :
    (ofTargets l key f).targets (key x) = f x := by
  induction l with
  | nil => cases hx
  | cons y l ih =>
    obtain ⟨hy, hl⟩ := List.nodup_cons.1 hl
    rw [targets_ofTargets_cons]
    rcases List.mem_cons.1 hx with rfl | hx
    · rw [if_pos rfl, targets_ofTargets_of_not_mem hy, List.append_nil]
    · have hne : key y ≠ key x := fun e => hy (e ▸ List.mem_map_of_mem hx)
      rw [if_neg hne, List.nil_append, ih hl hx]

omit [DecidableEq α] in
theorem sources_map_pair (a : α) {l : List β} (hl : l.Nodup) (b : β) :
    sources (l.map (a, ·)) b = if b ∈ l then [a] else [] := by
  induction l with
  | nil => rfl
  | cons c l ih =>
    obtain ⟨hc, hl⟩ := List.nodup_cons.1 hl
    by_cases h : c = b
    · subst h
      have hrest := ih hl
      rw [if_neg hc] at hrest
      simp only [sources] at hrest
      simp [sources, hrest]
    · simpa [sources, h, Ne.symm h] using ih hl

omit [DecidableEq α] in
/-- If nothing is written down twice for a source, a target has each source once. -/
theorem sources_ofTargets (hf : ∀ x ∈ l, (f x).Nodup) (b : β) :
    (ofTargets l key f).sources b = (l.filter (b ∈ f ·)).map key := by
  induction l with
  | nil => rfl
  | cons x l ih =>
    have hx := sources_map_pair (key x) (hf x (by simp)) b
    have hl := ih fun y hy => hf y (by simp [hy])
    simp only [sources, ofTargets] at hx hl
    simp only [sources, ofTargets, List.flatMap_cons, List.filterMap_append, hx, hl]
    by_cases hb : b ∈ f x <;> simp [hb]

theorem without_ofTargets (as : List α) (bs : List β) :
    (ofTargets l key f).without as bs =
      ofTargets (l.filter (key · ∉ as)) key fun x => (f x).filter (· ∉ bs) := by
  induction l with
  | nil => rfl
  | cons x l ih =>
    simp only [without, ofTargets, Bool.decide_and, decide_not] at ih
    by_cases hx : key x ∈ as <;>
      simp [without, ofTargets, ih, hx, List.filter_map, Function.comp_def]

end OfTargets
end ClosedWorld.Arrows
