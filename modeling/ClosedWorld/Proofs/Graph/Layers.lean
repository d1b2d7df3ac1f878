import ClosedWorld.Proofs.Graph.Reach

/-!
# Breadth first is layer by layer

The vertices that a number of edges lead to from some roots form a layer (`InLayer`). The queue of a
breadth-first search holds what is left of one layer and then what has been found of the next; all that
fewer edges lead to has been seen (`Layers`). So a vertex is visited before those that are further away
(`pairwise_layers_breadthFirst`). Within the queue that the search starts with, it keeps to the order
(`pairwise_queue_breadthFirst`).
-/

namespace ClosedWorld.Graph
open Relation
variable {α : Type} {next : α → List α} {roots seen near far queue : List α} {n : ℕ} {a b c : α}

/-! ### Counting edges -/

/-- That many edges lead from one vertex to another. -/
inductive Walk (next : α → List α) : ℕ → α → α → Prop
  | refl (a : α) : Walk next 0 a a
  | tail {n : ℕ} {a b c : α} : Walk next n a b → Edge next b c → Walk next (n + 1) a c

namespace Walk

theorem head (hab : Edge next a b) (hbc : Walk next n b c) : Walk next (n + 1) a c := by
  induction hbc with
  | refl => exact .tail (.refl a) hab
  | tail _ hcd ih => exact .tail (ih hab) hcd

theorem exists_head (h : Walk next (n + 1) a c) : ∃ b, Edge next a b ∧ Walk next n b c := by
  generalize hm : n + 1 = m at h
  induction h generalizing n with
  | refl => cases hm
  | @tail k a b c hab hbc ih =>
    obtain rfl := Nat.succ.inj hm
    cases n with
    | zero =>
      cases hab
      exact ⟨c, hbc, .refl c⟩
    | succ n =>
      obtain ⟨d, had, hdb⟩ := ih rfl
      exact ⟨d, had, hdb.tail hbc⟩

end Walk

theorem reflTransGen_iff_exists_walk : ReflTransGen (Edge next) a b ↔ ∃ n, Walk next n a b := by
  constructor
  · intro h
    induction h with
    | refl => exact ⟨0, .refl a⟩
    | tail _ hbc ih =>
      obtain ⟨n, hn⟩ := ih
      exact ⟨n + 1, hn.tail hbc⟩
  · rintro ⟨n, hn⟩
    induction hn with
    | refl => exact .refl
    | tail _ hbc ih => exact ih.tail hbc

/-- That many edges lead to the vertex from one of the roots. -/
def InLayer (next : α → List α) (roots : List α) (n : ℕ) (b : α) : Prop :=
  ∃ a ∈ roots, Walk next n a b

theorem InLayer.exists_edge (h : InLayer next roots (n + 1) b) :
    ∃ a, InLayer next roots n a ∧ Edge next a b := by
  obtain ⟨q, hq, hqb⟩ := h
  cases hqb with
  | tail hqa hab => exact ⟨_, ⟨q, hq, hqa⟩, hab⟩

theorem InLayer.edge (h : InLayer next roots n a) (hab : Edge next a b) :
    InLayer next roots (n + 1) b := by
  obtain ⟨q, hq, hqa⟩ := h
  exact ⟨q, hq, hqa.tail hab⟩

/-! ### The queue of a search -/

/-- The queue is split into vertices of one layer and vertices of the next. What is above that layer has
been seen, and so has what of the layer is not in the queue any more. -/
structure Layers (next : α → List α) (roots : List α) (n : ℕ) (seen near far : List α) : Prop where
  near_inLayer : ∀ a ∈ near, InLayer next roots n a
  far_inLayer : ∀ a ∈ far, InLayer next roots (n + 1) a
  below : ∀ m a, m < n → InLayer next roots m a → a ∈ seen
  here : ∀ a, InLayer next roots n a → a ∈ seen ∨ a ∈ near
  frontier : Frontier next seen (near ++ far)

namespace Layers

theorem start (next : α → List α) (queue : List α) : Layers next queue 0 [] queue [] where
  near_inLayer a ha := ⟨a, ha, .refl a⟩
  far_inLayer _ ha := nomatch ha
  below _ _ hm := nomatch hm
  here a := by
    rintro ⟨q, hq, hqa⟩
    cases hqa
    exact .inr hq
  frontier _ ha := nomatch ha

theorem skip (h : Layers next roots n seen (a :: near) far) (ha : a ∈ seen) :
    Layers next roots n seen near far where
  near_inLayer b hb := h.near_inLayer b (List.mem_cons_of_mem _ hb)
  far_inLayer := h.far_inLayer
  below := h.below
  here b hb := by
    rcases h.here b hb with hs | hn
    · exact .inl hs
    rcases List.mem_cons.1 hn with rfl | hn
    · exact .inl ha
    · exact .inr hn
  frontier x hx b hxb := by
    rcases h.frontier x hx b hxb with hs | hq
    · exact .inl hs
    rcases List.mem_cons.1 hq with rfl | hq
    · exact .inl ha
    · exact .inr hq

/-- When a layer has been seen, what was found of the next is all of it that is new. -/
theorem deeper (h : Layers next roots n seen [] far) : Layers next roots (n + 1) seen far [] where
  near_inLayer := h.far_inLayer
  far_inLayer _ ha := nomatch ha
  below m a hm ha := by
    rcases Nat.lt_succ_iff_lt_or_eq.1 hm with hm | rfl
    · exact h.below m a hm ha
    · exact (h.here a ha).elim id fun hn => nomatch hn
  here b hb := by
    obtain ⟨a, ha, hab⟩ := hb.exists_edge
    have hseen : a ∈ seen := (h.here a ha).elim id fun hn => nomatch hn
    exact h.frontier a hseen b hab
  frontier := by
    rw [List.append_nil]
    exact h.frontier

theorem visit (h : Layers next roots n seen (a :: near) far) :
    Layers next roots n (a :: seen) near (far ++ next a) where
  near_inLayer b hb := h.near_inLayer b (List.mem_cons_of_mem _ hb)
  far_inLayer b hb := by
    rcases List.mem_append.1 hb with hb | hb
    · exact h.far_inLayer b hb
    · exact (h.near_inLayer a List.mem_cons_self).edge hb
  below m b hm hb := List.mem_cons_of_mem _ (h.below m b hm hb)
  here b hb := by
    rcases h.here b hb with hs | hn
    · exact .inl (List.mem_cons_of_mem _ hs)
    rcases List.mem_cons.1 hn with rfl | hn
    · exact .inl List.mem_cons_self
    · exact .inr hn
  frontier := by
    have hqueue : Frontier next seen ([] ++ a :: (near ++ far)) := h.frontier
    rw [← List.append_assoc]
    exact hqueue.visit (List.nil_subset _)

/-- The head of the queue belongs to the layer that is gone through, or to the next if that is done. -/
theorem exists_head (h : Layers next roots n seen near far) {rest : List α}
    (hq : near ++ far = a :: rest) :
    ∃ m near' far', near' ++ far' = rest ∧ Layers next roots m seen (a :: near') far' := by
  cases near with
  | nil =>
    obtain rfl : far = a :: rest := hq
    exact ⟨n + 1, rest, [], List.append_nil rest, h.deeper⟩
  | cons b near =>
    obtain ⟨rfl, hrest⟩ := List.cons.inj hq
    exact ⟨n, near, far, hrest, h⟩

theorem exists_after_skipped (h : Layers next roots n seen near far) {skipped rest : List α}
    (hq : near ++ far = skipped ++ a :: rest) (hskip : skipped ⊆ seen) :
    ∃ m near' far', near' ++ far' = rest ∧ Layers next roots m seen (a :: near') far' := by
  induction skipped generalizing n near far with
  | nil => exact h.exists_head hq
  | cons b skipped ih =>
    obtain ⟨hb, hskip⟩ := List.cons_subset.1 hskip
    obtain ⟨m, near', far', hrest, h'⟩ := h.exists_head hq
    exact ih (h'.skip hb) hrest hskip

end Layers

/-! ### The order of visits -/

variable [DecidableEq α]

/-- What is visited later is not in an earlier layer. -/
theorem Layers.pairwise_breadthFirst (h : Layers next roots n seen near far) (fuel : ℕ) :
    (breadthFirst next fuel seen (near ++ far)).Pairwise fun a b =>
      ∀ m, InLayer next roots m b → ∃ k ≤ m, InLayer next roots k a := by
  generalize hqueue : near ++ far = queue
  induction fuel generalizing n seen near far queue with
  | zero => exact .nil
  | succ fuel ih =>
    rcases breadthFirst_cases next fuel seen queue with
      ⟨-, hr⟩ | ⟨skipped, a, rest, hsplit, hskip, -, hr⟩
    · rw [hr]
      exact .nil
    obtain ⟨d, near', far', hrest, h'⟩ := h.exists_after_skipped (hqueue.trans hsplit) hskip
    rw [hr]
    refine List.pairwise_cons.2 ⟨fun b hb m hbm => ?_, ih h'.visit _ ?_⟩
    · -- `b` has not been seen, so it is in no layer above that of `a`
      have hnew : b ∉ seen := fun hs =>
        not_mem_seen_of_mem_breadthFirst hb (List.mem_cons_of_mem _ hs)
      have hdm : d ≤ m := Nat.le_of_not_lt fun hlt => hnew (h'.below m b hlt hbm)
      exact ⟨d, hdm, h'.near_inLayer a List.mem_cons_self⟩
    · rw [← hrest, List.append_assoc]

theorem pairwise_layers_breadthFirst (next : α → List α) (fuel : ℕ) (queue : List α) :
    (breadthFirst next fuel [] queue).Pairwise fun a b =>
      ∀ m, InLayer next queue m b → ∃ k ≤ m, InLayer next queue k a := by
  have h := (Layers.start next queue).pairwise_breadthFirst fuel
  rwa [List.append_nil] at h

omit [DecidableEq α] in
/-- A vertex that was neither skipped nor is visited now stands behind the one that is visited now. -/
theorem split_behind {skipped rest before after : List α}
    (h : skipped ++ a :: rest = before ++ b :: after) (hb : b ∉ skipped) (hne : b ≠ a) :
    ∃ between, before = skipped ++ a :: between ∧ rest = between ++ b :: after := by
  rcases List.append_eq_append_iff.1 h with ⟨l, rfl, hl⟩ | ⟨l, rfl, hl⟩
  · cases l with
    | nil => exact absurd (List.cons.inj hl).1.symm hne
    | cons x l =>
      obtain ⟨rfl, hrest⟩ := List.cons.inj hl
      exact ⟨l, rfl, hrest⟩
  · cases l with
    | nil => exact absurd (List.cons.inj hl).1 hne
    | cons x l =>
      obtain ⟨rfl, -⟩ := List.cons.inj hl
      exact absurd (by simp) hb

/-- What is visited before a vertex of the queue stands before it in the queue. -/
theorem pairwise_queue_breadthFirst (next : α → List α) (fuel : ℕ) (seen queue : List α) :
    (breadthFirst next fuel seen queue).Pairwise fun a b =>
      ∀ before after, queue = before ++ b :: after → a ∈ before := by
  induction fuel generalizing seen queue with
  | zero => exact .nil
  | succ fuel ih =>
    rcases breadthFirst_cases next fuel seen queue with
      ⟨-, hr⟩ | ⟨skipped, x, rest, rfl, hskip, -, hr⟩
    · rw [hr]
      exact .nil
    have hbehind : ∀ b ∈ breadthFirst next fuel (x :: seen) (rest ++ next x), b ∉ skipped ∧ b ≠ x := by
      intro b hb
      have hnew := not_mem_seen_of_mem_breadthFirst hb
      exact ⟨fun hs => hnew (List.mem_cons_of_mem _ (hskip hs)), fun e => hnew (by simp [e])⟩
    rw [hr]
    refine List.pairwise_cons.2 ⟨fun b hb before after hq => ?_, ?_⟩
    · obtain ⟨between, rfl, -⟩ := split_behind hq (hbehind b hb).1 (hbehind b hb).2
      simp
    · refine (ih (x :: seen) (rest ++ next x)).imp_of_mem fun {a b} _ hb hab before after hq => ?_
      obtain ⟨between, rfl, rfl⟩ := split_behind hq (hbehind b hb).1 (hbehind b hb).2
      have ha := hab between (after ++ next x) (by rw [List.append_assoc, List.cons_append])
      exact List.mem_append_right _ (List.mem_cons_of_mem _ ha)

end ClosedWorld.Graph
