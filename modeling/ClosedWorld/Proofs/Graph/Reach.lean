import ClosedWorld.Proofs.Graph.DepthFirst
import Mathlib.Data.List.TakeWhile

/-!
# What the searches reach

A chain follows the only successor of each vertex. In a graph without cycles it never comes back, so
fuel for the vertices that have a successor lasts to its end (`mem_chain_iff`).

A breadth-first search skips what it has seen at the head of its queue and visits the vertex behind
(`breadthFirst_cases`). The successors of a seen vertex have been seen as well or stand in the queue
(`Frontier`), and fuel for the vertices that are not seen yet is never used up. So the search visits
each vertex that the queue leads to, and each once (`mem_breadthFirst_iff`, `nodup_breadthFirst`).
-/

namespace ClosedWorld.Graph
open Relation
variable {α : Type} {vertices : List α} {fuel : Nat} {a b : α}

theorem Fuelled.mem_path {path : List α} (h : Fuelled vertices path 1) (ha : a ∈ vertices) :
    a ∈ path := by
  by_contra hap
  exact (h.cons hap ha).fuel_ne_zero rfl

/-! ### Chains -/

/-- A step leads from a vertex to its only successor. -/
def Step (next? : α → Option α) (a b : α) : Prop := next? a = some b

section Chain
variable {next? : α → Option α} {path : List α}

theorem chain_succ_of_step {c : α} (h : Step next? a c) :
    chain next? (fuel + 1) a = c :: chain next? fuel c := by
  unfold Step at h
  simp only [chain, h]

theorem transGen_of_mem_chain (h : b ∈ chain next? fuel a) : TransGen (Step next?) a b := by
  induction fuel generalizing a with
  | zero => cases h
  | succ fuel ih =>
    cases hn : next? a with
    | none => simp [chain, hn] at h
    | some c =>
      rw [chain_succ_of_step hn] at h
      rcases List.mem_cons.1 h with rfl | h
      · exact .single hn
      · exact .head hn (ih h)

/-- Each vertex of a chain leads to all that come after it. -/
theorem pairwise_chain (next? : α → Option α) (fuel : Nat) (a : α) :
    (a :: chain next? fuel a).Pairwise (TransGen (Step next?)) := by
  refine List.pairwise_cons.2 ⟨fun b hb => transGen_of_mem_chain hb, ?_⟩
  induction fuel generalizing a with
  | zero => exact .nil
  | succ fuel ih =>
    cases hn : next? a with
    | none =>
      simp only [chain, hn]
      exact .nil
    | some c =>
      rw [chain_succ_of_step hn]
      exact List.pairwise_cons.2 ⟨fun b hb => transGen_of_mem_chain hb, ih c⟩

/-- The vertices that the chain has left behind lead to where it stands, so it is none of them. -/
theorem mem_chain_of_transGen (hacyclic : ∀ c, ¬ TransGen (Step next?) c c)
    (hv : ∀ a b, Step next? a b → a ∈ vertices) (hf : Fuelled vertices path (fuel + 1))
    (hp : ∀ p ∈ path, TransGen (Step next?) p a) (hab : TransGen (Step next?) a b) :
    b ∈ chain next? fuel a := by
  induction fuel generalizing a path with
  | zero =>
    obtain ⟨c, hac, -⟩ := TransGen.head'_iff.1 hab
    have hap : a ∈ path := hf.mem_path (hv a c hac)
    exact absurd (hp a hap) (hacyclic a)
  | succ fuel ih =>
    obtain ⟨c, hac, hcb⟩ := TransGen.head'_iff.1 hab
    have hap : a ∉ path := fun h => hacyclic a (hp a h)
    rw [chain_succ_of_step hac]
    rcases reflTransGen_iff_eq_or_transGen.1 hcb with rfl | hcb
    · exact List.mem_cons_self
    · refine List.mem_cons_of_mem _ (ih (hf.cons hap (hv a c hac)) (fun p hpa => ?_) hcb)
      rcases List.mem_cons.1 hpa with rfl | hpp
      · exact .single hac
      · exact (hp p hpp).tail hac

/-- A chain that has come to its end is not made longer by more fuel. -/
theorem chain_succ (hacyclic : ∀ c, ¬ TransGen (Step next?) c c)
    (hv : ∀ a b, Step next? a b → a ∈ vertices) (hf : Fuelled vertices path (fuel + 1))
    (hp : ∀ p ∈ path, TransGen (Step next?) p a) :
    chain next? (fuel + 1) a = chain next? fuel a := by
  induction fuel generalizing a path with
  | zero =>
    cases hn : next? a with
    | none => simp only [chain, hn]
    | some c =>
      have hap : a ∈ path := hf.mem_path (hv a c hn)
      exact absurd (hp a hap) (hacyclic a)
  | succ fuel ih =>
    cases hn : next? a with
    | none => simp only [chain, hn]
    | some c =>
      have hap : a ∉ path := fun h => hacyclic a (hp a h)
      rw [chain_succ_of_step hn, chain_succ_of_step hn]
      refine congrArg (c :: ·) (ih (hf.cons hap (hv a c hn)) fun p hpa => ?_)
      rcases List.mem_cons.1 hpa with rfl | hpp
      · exact .single hn
      · exact (hp p hpp).tail hn

theorem mem_chain_iff (hacyclic : ∀ c, ¬ TransGen (Step next?) c c)
    (hv : ∀ a b, Step next? a b → a ∈ vertices) (hf : vertices.length ≤ fuel) :
    b ∈ chain next? fuel a ↔ TransGen (Step next?) a b := by
  have hfuel : Fuelled vertices [] (fuel + 1) :=
    ⟨List.nodup_nil, List.nil_subset _, Nat.lt_succ_of_le hf⟩
  exact ⟨transGen_of_mem_chain, mem_chain_of_transGen hacyclic hv hfuel (by simp)⟩

end Chain

/-! ### Breadth first -/

section BreadthFirst
variable [DecidableEq α] {next : α → List α} {seen queue : List α}

/-- Either the whole queue has been seen, or the first vertex that has not is visited. -/
theorem breadthFirst_cases (next : α → List α) (fuel : Nat) (seen queue : List α) :
    (queue ⊆ seen ∧ breadthFirst next (fuel + 1) seen queue = []) ∨
      ∃ skipped a rest, queue = skipped ++ a :: rest ∧ skipped ⊆ seen ∧ a ∉ seen ∧
        breadthFirst next (fuel + 1) seen queue =
          a :: breadthFirst next fuel (a :: seen) (rest ++ next a) := by
  have hsplit : queue.takeWhile seen.contains ++ queue.dropWhile seen.contains = queue :=
    List.takeWhile_append_dropWhile
  have hskip : queue.takeWhile seen.contains ⊆ seen := fun x hx => by
    simpa using List.mem_takeWhile_imp hx
  cases hd : queue.dropWhile seen.contains with
  | nil =>
    rw [hd, List.append_nil] at hsplit
    exact .inl ⟨hsplit ▸ hskip, by simp only [breadthFirst, hd]⟩
  | cons a rest =>
    have ha : seen.contains a = false := by
      have := List.head?_dropWhile_not seen.contains queue
      rwa [hd] at this
    rw [hd] at hsplit
    exact .inr ⟨_, a, rest, hsplit.symm, hskip, by simpa using ha, by simp only [breadthFirst, hd]⟩

theorem reflTransGen_of_mem_breadthFirst (h : b ∈ breadthFirst next fuel seen queue) :
    ∃ q ∈ queue, ReflTransGen (Edge next) q b := by
  induction fuel generalizing seen queue with
  | zero => cases h
  | succ fuel ih =>
    rcases breadthFirst_cases next fuel seen queue with
      ⟨-, hr⟩ | ⟨skipped, a, rest, rfl, -, -, hr⟩
    · rw [hr] at h; cases h
    rw [hr] at h
    rcases List.mem_cons.1 h with rfl | h
    · exact ⟨b, by simp, .refl⟩
    obtain ⟨q, hq, hqb⟩ := ih h
    rcases List.mem_append.1 hq with hq | hq
    · exact ⟨q, by simp [hq], hqb⟩
    · exact ⟨a, by simp, hqb.head hq⟩

theorem not_mem_seen_of_mem_breadthFirst (h : b ∈ breadthFirst next fuel seen queue) :
    b ∉ seen := by
  induction fuel generalizing seen queue with
  | zero => cases h
  | succ fuel ih =>
    rcases breadthFirst_cases next fuel seen queue with
      ⟨-, hr⟩ | ⟨skipped, a, rest, -, -, ha, hr⟩
    · rw [hr] at h; cases h
    rw [hr] at h
    rcases List.mem_cons.1 h with rfl | h
    · exact ha
    · exact fun hb => ih h (List.mem_cons_of_mem _ hb)

theorem nodup_breadthFirst (next : α → List α) (fuel : Nat) (seen queue : List α) :
    (breadthFirst next fuel seen queue).Nodup := by
  induction fuel generalizing seen queue with
  | zero => exact List.nodup_nil
  | succ fuel ih =>
    rcases breadthFirst_cases next fuel seen queue with
      ⟨-, hr⟩ | ⟨skipped, a, rest, -, -, -, hr⟩
    · rw [hr]; exact List.nodup_nil
    · rw [hr]
      refine List.nodup_cons.2 ⟨fun ha => ?_, ih _ _⟩
      exact not_mem_seen_of_mem_breadthFirst ha List.mem_cons_self

/-- What a seen vertex leads to has been seen or will be looked at. -/
def Frontier (next : α → List α) (seen queue : List α) : Prop :=
  ∀ a ∈ seen, ∀ b, Edge next a b → b ∈ seen ∨ b ∈ queue

omit [DecidableEq α] in
theorem Frontier.visit {skipped rest : List α} (h : Frontier next seen (skipped ++ a :: rest))
    (hskip : skipped ⊆ seen) : Frontier next (a :: seen) (rest ++ next a) := by
  intro x hx b hxb
  rcases List.mem_cons.1 hx with rfl | hx
  · exact .inr (List.mem_append_right _ hxb)
  rcases h x hx b hxb with hb | hb
  · exact .inl (List.mem_cons_of_mem _ hb)
  rcases List.mem_append.1 hb with hb | hb
  · exact .inl (List.mem_cons_of_mem _ (hskip hb))
  rcases List.mem_cons.1 hb with rfl | hb
  · exact .inl List.mem_cons_self
  · exact .inr (List.mem_append_left _ hb)

/-- In the end the queue has been seen, and nothing leads out of what has been seen. -/
theorem breadthFirst_complete (hv : ∀ a b, Edge next a b → b ∈ vertices) (hq : queue ⊆ vertices)
    (hf : Fuelled vertices seen (fuel + 1)) (h : Frontier next seen queue) :
    queue ⊆ seen ++ breadthFirst next fuel seen queue ∧
      Frontier next (seen ++ breadthFirst next fuel seen queue) [] := by
  induction fuel generalizing seen queue with
  | zero =>
    have hall : vertices ⊆ seen := fun x hx => hf.mem_path hx
    rw [breadthFirst, List.append_nil]
    exact ⟨List.Subset.trans hq hall, fun a ha b hab => .inl (hall (hv a b hab))⟩
  | succ fuel ih =>
    rcases breadthFirst_cases next fuel seen queue with
      ⟨hqs, hr⟩ | ⟨skipped, a, rest, rfl, hskip, ha, hr⟩
    · rw [hr, List.append_nil]
      exact ⟨hqs, fun a ha b hab => .inl ((h a ha b hab).elim id fun hb => hqs hb)⟩
    have hav : a ∈ vertices := hq (by simp)
    have hq' : rest ++ next a ⊆ vertices :=
      List.append_subset.2 ⟨fun x hx => hq (by simp [hx]), fun b hb => hv a b hb⟩
    obtain ⟨hqr, hclosed⟩ := ih hq' (hf.cons ha hav) (h.visit hskip)
    -- what is visited from here on is the same list, with `a` on the other side
    have hmem : ∀ x, x ∈ (a :: seen) ++ breadthFirst next fuel (a :: seen) (rest ++ next a) ↔
        x ∈ seen ++ breadthFirst next (fuel + 1) seen (skipped ++ a :: rest) := by
      intro x
      rw [hr]
      simp only [List.mem_append, List.mem_cons]
      tauto
    refine ⟨fun x hx => ?_, fun x hx b hxb => ?_⟩
    · rcases List.mem_append.1 hx with hx | hx
      · exact List.mem_append_left _ (hskip hx)
      rcases List.mem_cons.1 hx with rfl | hx
      · exact (hmem x).1 List.mem_cons_self
      · exact (hmem x).1 (hqr (List.mem_append_left _ hx))
    · rcases hclosed x ((hmem x).2 hx) b hxb with hb | hb
      · exact .inl ((hmem b).1 hb)
      · cases hb

theorem mem_breadthFirst_iff (hv : ∀ a b, Edge next a b → b ∈ vertices) (hq : queue ⊆ vertices)
    (hf : vertices.length ≤ fuel) :
    b ∈ breadthFirst next fuel [] queue ↔ ∃ q ∈ queue, ReflTransGen (Edge next) q b := by
  refine ⟨reflTransGen_of_mem_breadthFirst, ?_⟩
  rintro ⟨q, hqmem, hqb⟩
  have hfuel : Fuelled vertices [] (fuel + 1) :=
    ⟨List.nodup_nil, List.nil_subset _, Nat.lt_succ_of_le hf⟩
  have hstart : Frontier next [] queue := fun a ha => absurd ha List.not_mem_nil
  obtain ⟨hqueue, hclosed⟩ := breadthFirst_complete hv hq hfuel hstart
  rw [List.nil_append] at hqueue hclosed
  induction hqb with
  | refl => exact hqueue hqmem
  | tail _ hbc ih => exact (hclosed _ ih _ hbc).elim id fun h => absurd h List.not_mem_nil

end BreadthFirst
end ClosedWorld.Graph
