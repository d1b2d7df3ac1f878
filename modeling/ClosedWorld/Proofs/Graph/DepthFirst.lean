import ClosedWorld.Graph.Search
import Mathlib.Data.List.Perm.Subperm
import Mathlib.Logic.Relation

/-!
# Depth-first search finds the cycles

The vertices that a search is done with form a list in which all successors of a vertex stand behind it
(`Finished`), so none of them lies on a cycle; a vertex of the current path leads to the vertex that is
visited, so meeting it again closes a cycle. As the path never repeats a vertex, fuel for one vertex more
than there are is never used up. Hence a search from all vertices fails exactly on the graphs with a
cycle (`cycle?_eq_none_iff`), and what it reports lies on one (`transGen_of_cycle?_eq_some`).
-/

namespace ClosedWorld.Graph
open Relation
variable {α : Type} {next : α → List α} {l : List α} {a b : α}

/-- An edge leads from a vertex to each of its successors. -/
def Edge (next : α → List α) (a b : α) : Prop := b ∈ next a

/-- Each vertex of a list has all its successors behind it and is not repeated there. -/
def Finished (next : α → List α) : List α → Prop
  | [] => True
  | a :: l => a ∉ l ∧ next a ⊆ l ∧ Finished next l

namespace Finished

theorem closed (h : Finished next l) (ha : a ∈ l) : next a ⊆ l := by
  induction l with
  | nil => cases ha
  | cons c l ih =>
    obtain ⟨-, hc, hl⟩ := h
    rcases List.mem_cons.1 ha with rfl | ha
    · exact List.subset_cons_of_subset _ hc
    · exact List.subset_cons_of_subset _ (ih hl ha)

theorem mem_of_transGen (h : Finished next l) (ha : a ∈ l) (hab : TransGen (Edge next) a b) :
    b ∈ l := by
  induction hab with
  | single hab => exact h.closed ha hab
  | tail _ hbc ih => exact h.closed ih hbc

theorem acyclic (h : Finished next l) (ha : a ∈ l) : ¬ TransGen (Edge next) a a := by
  induction l with
  | nil => cases ha
  | cons c l ih =>
    obtain ⟨hcl, hc, hl⟩ := h
    rcases List.mem_cons.1 ha with rfl | ha
    · intro hcycle
      obtain ⟨b, hab, hba⟩ := TransGen.head'_iff.1 hcycle
      rcases reflTransGen_iff_eq_or_transGen.1 hba with rfl | hba
      · exact hcl (hc hab)
      · exact hcl (hl.mem_of_transGen (hc hab) hba)
    · exact ih hl ha

end Finished

/-! ### A search over several vertices -/

section Fold
variable {f : List α → α → Except α (List α)} {s s' : List α} {x : α}

/-- What each visit keeps and adds, the visits of a list of vertices keep and add together. -/
theorem foldlM_ok {P : List α → Prop}
    (hf : ∀ b ∈ l, ∀ s s', P s → f s b = .ok s' → P s' ∧ s ⊆ s' ∧ b ∈ s')
    (hs : P s) (h : l.foldlM f s = .ok s') : P s' ∧ s ⊆ s' ∧ l ⊆ s' := by
  induction l generalizing s with
  | nil =>
    cases h
    exact ⟨hs, List.Subset.refl _, List.nil_subset _⟩
  | cons c l ih =>
    rw [List.foldlM_cons] at h
    cases hc : f s c with
    | error e => rw [hc] at h; cases h
    | ok t =>
      rw [hc] at h
      obtain ⟨ht, hst, hct⟩ := hf c (by simp) s t hs hc
      obtain ⟨hs', hts', hl⟩ := ih (fun b hb => hf b (by simp [hb])) ht h
      exact ⟨hs', List.Subset.trans hst hts', List.cons_subset.2 ⟨hts' hct, hl⟩⟩

theorem foldlM_error (h : l.foldlM f s = .error x) : ∃ b ∈ l, ∃ t, f t b = .error x := by
  induction l generalizing s with
  | nil => cases h
  | cons c l ih =>
    rw [List.foldlM_cons] at h
    cases hc : f s c with
    | error e => rw [hc] at h; cases h; exact ⟨c, by simp, s, hc⟩
    | ok t =>
      rw [hc] at h
      obtain ⟨b, hb, t, ht⟩ := ih h
      exact ⟨b, by simp [hb], t, ht⟩

end Fold

/-! ### One visit -/

/-- What a search is done with while it stands at the end of a path. -/
structure Apart (next : α → List α) (path done : List α) : Prop where
  finished : Finished next done
  disjoint : ∀ p ∈ path, p ∉ done

/-- The path within the vertices of the graph, and fuel for all that are not on it and one more. -/
structure Fuelled (vertices path : List α) (fuel : Nat) : Prop where
  nodup : path.Nodup
  subset : path ⊆ vertices
  lt : vertices.length < fuel + path.length

namespace Fuelled
variable {vertices path : List α} {fuel : Nat}

theorem fuel_ne_zero (h : Fuelled vertices path fuel) : fuel ≠ 0 := by
  rintro rfl
  have := (h.nodup.subperm h.subset).length_le
  have := h.lt
  omega

theorem cons (h : Fuelled vertices path (fuel + 1)) (hap : a ∉ path) (ha : a ∈ vertices) :
    Fuelled vertices (a :: path) fuel where
  nodup := List.nodup_cons.2 ⟨hap, h.nodup⟩
  subset := List.cons_subset.2 ⟨ha, h.subset⟩
  lt := by have := h.lt; simp only [List.length_cons]; omega

end Fuelled

section Visit
variable [DecidableEq α] {fuel : Nat} {path done done' vertices : List α} {x : α}

theorem visit_of_mem_path (h : a ∈ path) :
    visit next (fuel + 1) path done a = .error a := by
  simp [visit, h]

theorem visit_of_mem_done (hp : a ∉ path) (h : a ∈ done) :
    visit next (fuel + 1) path done a = .ok done := by
  simp [visit, hp, h]

theorem visit_of_new (hp : a ∉ path) (hd : a ∉ done) :
    visit next (fuel + 1) path done a =
      ((next a).foldlM (visit next fuel (a :: path)) done).map (a :: ·) := by
  simp only [visit, List.contains_iff_mem, hp, hd, ↓reduceIte]
  cases (next a).foldlM (visit next fuel (a :: path)) done <;> rfl

/-- A vertex that is met on the path to itself lies on a cycle. -/
theorem transGen_of_visit_error (hp : ∀ p ∈ path, TransGen (Edge next) p a)
    (h : visit next fuel path done a = .error x) : TransGen (Edge next) x x := by
  induction fuel generalizing path done a with
  | zero => cases h
  | succ fuel ih =>
    by_cases hap : a ∈ path
    · rw [visit_of_mem_path hap] at h
      cases h
      exact hp _ hap
    by_cases had : a ∈ done
    · rw [visit_of_mem_done hap had] at h; cases h
    rw [visit_of_new hap had] at h
    cases hr : (next a).foldlM (visit next fuel (a :: path)) done with
    | ok t => rw [hr] at h; cases h
    | error e =>
      rw [hr] at h
      cases h
      obtain ⟨b, hb, t, hbt⟩ := foldlM_error hr
      refine ih (fun p hpa => ?_) hbt
      rcases List.mem_cons.1 hpa with rfl | hpp
      · exact .single hb
      · exact (hp p hpp).tail hb

/-- A visit without a fault is done with its vertex and with all that it was done with before. -/
theorem visit_ok (hv : ∀ a b, Edge next a b → a ∈ vertices ∧ b ∈ vertices) (ha : a ∈ vertices)
    (hf : Fuelled vertices path fuel) (hd : Apart next path done)
    (h : visit next fuel path done a = .ok done') :
    Apart next path done' ∧ done ⊆ done' ∧ a ∈ done' := by
  induction fuel generalizing path done done' a with
  | zero => exact absurd rfl hf.fuel_ne_zero
  | succ fuel ih =>
    by_cases hap : a ∈ path
    · rw [visit_of_mem_path hap] at h; cases h
    by_cases had : a ∈ done
    · rw [visit_of_mem_done hap had] at h
      cases h
      exact ⟨hd, List.Subset.refl _, had⟩
    rw [visit_of_new hap had] at h
    cases hr : (next a).foldlM (visit next fuel (a :: path)) done with
    | error e => rw [hr] at h; cases h
    | ok t =>
      rw [hr] at h
      cases h
      -- `a` is on the path until all its successors are done with, and is done with then
      have hstart : Apart next (a :: path) done :=
        ⟨hd.finished, List.forall_mem_cons.2 ⟨had, hd.disjoint⟩⟩
      obtain ⟨ht, hdt, hat⟩ := foldlM_ok
        (fun b hb s s' hs hbs => ih (hv a b hb).2 (hf.cons hap ha) hs hbs) hstart hr
      obtain ⟨hta, htp⟩ := List.forall_mem_cons.1 ht.disjoint
      refine ⟨⟨⟨hta, hat, ht.finished⟩, fun p hp => ?_⟩, List.subset_cons_of_subset _ hdt, by simp⟩
      exact List.not_mem_cons_of_ne_of_not_mem (fun e => hap (e ▸ hp)) (htp p hp)

end Visit

/-! ### The search from all vertices -/

section Cycle
variable [DecidableEq α] {fuel : Nat} {vertices : List α}

theorem transGen_of_cycle?_eq_some {roots : List α} (h : cycle? next fuel roots = some a) :
    TransGen (Edge next) a a := by
  unfold cycle? at h
  cases hr : roots.foldlM (visit next fuel []) [] with
  | ok t => rw [hr] at h; cases h
  | error x =>
    rw [hr] at h
    cases h
    obtain ⟨b, -, t, ht⟩ := foldlM_error hr
    exact transGen_of_visit_error (by simp) ht

theorem acyclic_of_cycle?_eq_none (hv : ∀ a b, Edge next a b → a ∈ vertices ∧ b ∈ vertices)
    (hf : vertices.length < fuel) (h : cycle? next fuel vertices = none) :
    ¬ TransGen (Edge next) a a := by
  intro hcycle
  unfold cycle? at h
  cases hr : vertices.foldlM (visit next fuel []) [] with
  | error x => rw [hr] at h; cases h
  | ok t =>
    have hfuel : Fuelled vertices [] fuel := ⟨List.nodup_nil, List.nil_subset _, by simpa using hf⟩
    have hstart : Apart next [] [] := ⟨trivial, by simp⟩
    obtain ⟨ht, -, hvt⟩ := foldlM_ok
      (fun b hb s s' hs hbs => visit_ok hv hb hfuel hs hbs) hstart hr
    obtain ⟨b, hab, -⟩ := TransGen.head'_iff.1 hcycle
    exact ht.finished.acyclic (hvt (hv a b hab).1) hcycle

theorem cycle?_eq_none_iff (hv : ∀ a b, Edge next a b → a ∈ vertices ∧ b ∈ vertices)
    (hf : vertices.length < fuel) :
    cycle? next fuel vertices = none ↔ ∀ a, ¬ TransGen (Edge next) a a := by
  refine ⟨fun h a => acyclic_of_cycle?_eq_none hv hf h, fun h => ?_⟩
  cases hc : cycle? next fuel vertices with
  | none => rfl
  | some a => exact absurd (transGen_of_cycle?_eq_some hc) (h a)

end Cycle
end ClosedWorld.Graph
