import ClosedWorld.Graph.Search
import ClosedWorld.Proofs.Graph.Edges

/-!
# Renaming vertices

A renaming gives each vertex another name and no two vertices the same. What a graph lists for a renamed
vertex are the renamed vertices, in the same order (`Edges.targets_rename`, `Edges.sources_rename`), and
every search runs as before: it compares vertices with each other and looks at nothing else of them.
-/

namespace ClosedWorld

/-! ### Lists -/

section Lists
variable {α β : Type} [DecidableEq α] [DecidableEq β] {f : α → β} (hf : Function.Injective f)
include hf

theorem contains_map_of_injective (l : List α) (a : α) : (l.map f).contains (f a) = l.contains a := by
  rw [Bool.eq_iff_iff, List.contains_iff_mem, List.contains_iff_mem, List.mem_map_of_injective hf]

theorem eraseDups_map_of_injective (l : List α) : (l.map f).eraseDups = l.eraseDups.map f := by
  induction hn : l.length using Nat.strongRecOn generalizing l with
  | _ n ih =>
    cases l with
    | nil => rfl
    | cons a l =>
      have hlt : (l.filter fun b => !b == a).length < n := by
        rw [← hn]; exact Nat.lt_succ_of_le (List.length_filter_le _ _)
      have hrest : (l.map f).filter (fun b => !b == f a) = (l.filter fun b => !b == a).map f := by
        rw [List.filter_map]
        refine congrArg (List.map f) (List.filter_congr fun b _ => ?_)
        simp [hf.beq_eq]
      rw [List.map_cons, List.eraseDups_cons, hrest, ih _ hlt _ rfl, List.eraseDups_cons,
        List.map_cons]

omit [DecidableEq α] [DecidableEq β] hf in
/-- A renaming that keeps the order of the keys keeps the choice of the first one. -/
theorem minOn?_map {key : α → Nat} {key' : β → Nat} (h : ∀ a b, key' (f a) ≤ key' (f b) ↔ key a ≤ key b)
    (l : List α) : (l.map f).minOn? key' = (l.minOn? key).map f := by
  have hmin : ∀ a b, minOn key' (f a) (f b) = f (minOn key a b) := by
    intro a b
    by_cases hab : key a ≤ key b
    · simp [minOn, hab, h]
    · simp [minOn, hab, h]
  cases l with
  | nil => rfl
  | cons a l =>
    show some ((l.map f).foldl (minOn key') (f a)) = some (f (l.foldl (minOn key) a))
    rw [List.foldl_map]
    exact congrArg some (List.foldl_hom f hmin)

end Lists

/-! ### What is listed -/

namespace Arrows
variable {α β α' β' : Type} {f : α → α'} {g : β → β'}

def rename (f : α → α') (g : β → β') (l : Arrows α β) : Arrows α' β' := l.map (Prod.map f g)

/-- Arrows that are written down under other names. -/
theorem ofTargets_map {γ γ' : Type} {e : γ → γ'} {key : γ → α} {key' : γ' → α'}
    (hkey : ∀ x, key' (e x) = f (key x)) {F : γ → List β} {F' : γ' → List β'}
    (hF : ∀ x, F' (e x) = (F x).map g) (l : List γ) :
    ofTargets (l.map e) key' F' = (ofTargets l key F).rename f g := by
  rw [ofTargets, ofTargets, rename, List.flatMap_map, List.map_flatMap]
  refine List.flatMap_congr fun x _ => ?_
  rw [hkey, hF, List.map_map, List.map_map]
  rfl

variable [DecidableEq α] [DecidableEq α'] [DecidableEq β] [DecidableEq β']

omit [DecidableEq β] [DecidableEq β'] in
theorem targets_rename (hf : Function.Injective f) (l : Arrows α β) (a : α) :
    (l.rename f g).targets (f a) = (l.targets a).map g := by
  rw [targets, targets, rename, List.filterMap_map, List.map_filterMap]
  refine List.filterMap_congr fun x _ => ?_
  by_cases h : x.1 = a <;> simp [h, hf.eq_iff]

omit [DecidableEq α] [DecidableEq α'] in
theorem sources_rename (hg : Function.Injective g) (l : Arrows α β) (b : β) :
    (l.rename f g).sources (g b) = (l.sources b).map f := by
  rw [sources, sources, rename, List.filterMap_map, List.map_filterMap]
  refine List.filterMap_congr fun x _ => ?_
  by_cases h : x.2 = b <;> simp [h, hg.eq_iff]

end Arrows

namespace Edges
variable {α β α' β' : Type} {f : α → α'} {g : β → β'}

def rename (f : α → α') (g : β → β') (e : Edges α β) : Edges α' β' :=
  ⟨e.outward.rename f g, e.inward.rename g f⟩

theorem record_rename (e : Edges α β) (x : α × β) :
    (e.rename f g).record (Prod.map f g x) = (e.record x).rename f g := by
  simp only [record, rename, Arrows.rename, List.map_append]
  rfl

theorem ofList_rename (l : List (α × β)) :
    ofList (Arrows.rename f g l) = (ofList l).rename f g := by
  simp only [ofList_eq, rename, Arrows.rename, List.map_map]
  rfl

variable [DecidableEq α] [DecidableEq α'] [DecidableEq β] [DecidableEq β']

omit [DecidableEq β] [DecidableEq β'] in
theorem targets_rename (hf : Function.Injective f) (e : Edges α β) (a : α) :
    (e.rename f g).targets (f a) = (e.targets a).map g :=
  Arrows.targets_rename hf _ _

omit [DecidableEq α] [DecidableEq α'] in
theorem sources_rename (hg : Function.Injective g) (e : Edges α β) (b : β) :
    (e.rename f g).sources (g b) = (e.sources b).map f :=
  Arrows.targets_rename hg _ _

end Edges

/-! ### Searches -/

namespace Graph
variable {α β : Type} {f : α → β}

theorem chain_map {next? : α → Option α} {next?' : β → Option β}
    (h : ∀ a, next?' (f a) = (next? a).map f) (fuel : Nat) (a : α) :
    chain next?' fuel (f a) = (chain next? fuel a).map f := by
  induction fuel generalizing a with
  | zero => rfl
  | succ fuel ih =>
    rw [chain, chain, h]
    cases next? a with
    | none => rfl
    | some b => exact congrArg (f b :: ·) (ih b)

/-- What a depth-first search returns, or the vertex that it reports. -/
def renameOutcome (f : α → β) : Except α (List α) → Except β (List β)
  | .ok done => .ok (done.map f)
  | .error a => .error (f a)

theorem foldlM_rename {g : List α → α → Except α (List α)} {g' : List β → β → Except β (List β)}
    (hg : ∀ done a, g' (done.map f) (f a) = renameOutcome f (g done a)) (l done : List α) :
    (l.map f).foldlM g' (done.map f) = renameOutcome f (l.foldlM g done) := by
  induction l generalizing done with
  | nil => rfl
  | cons a l ih =>
    rw [List.map_cons, List.foldlM_cons, List.foldlM_cons, hg]
    cases g done a with
    | error b => rfl
    | ok done => exact ih done

variable [DecidableEq α] [DecidableEq β] {next : α → List α} {next' : β → List β}
  (hf : Function.Injective f) (hnext : ∀ a, next' (f a) = (next a).map f)
include hf hnext

theorem breadthFirst_map (fuel : Nat) (seen queue : List α) :
    breadthFirst next' fuel (seen.map f) (queue.map f) = (breadthFirst next fuel seen queue).map f := by
  induction fuel generalizing seen queue with
  | zero => rfl
  | succ fuel ih =>
    have hdrop : (queue.map f).dropWhile (seen.map f).contains =
        (queue.dropWhile seen.contains).map f := by
      rw [List.dropWhile_map]
      congr 2
      funext a
      exact contains_map_of_injective hf seen a
    rw [breadthFirst, breadthFirst, hdrop]
    cases queue.dropWhile seen.contains with
    | nil => rfl
    | cons a rest =>
      have hrest := ih (a :: seen) (rest ++ next a)
      rw [List.map_append, ← hnext] at hrest
      exact congrArg (f a :: ·) hrest

theorem visit_map (fuel : Nat) (path done : List α) (a : α) :
    visit next' fuel (path.map f) (done.map f) (f a) = renameOutcome f (visit next fuel path done a) := by
  induction fuel generalizing path done a with
  | zero => rfl
  | succ fuel ih =>
    rw [visit, visit, contains_map_of_injective hf, contains_map_of_injective hf, hnext]
    have hbelow := foldlM_rename (ih (a :: path)) (next a) done
    split
    · rfl
    split
    · rfl
    rw [List.map_cons] at hbelow
    rw [hbelow]
    cases (next a).foldlM (visit next fuel (a :: path)) done <;> rfl

theorem cycle?_map (fuel : Nat) (roots : List α) :
    cycle? next' fuel (roots.map f) = (cycle? next fuel roots).map f := by
  have h := foldlM_rename (visit_map hf hnext fuel []) roots []
  simp only [List.map_nil] at h
  rw [cycle?, cycle?, h]
  cases roots.foldlM (visit next fuel []) [] <;> rfl

end Graph
end ClosedWorld
