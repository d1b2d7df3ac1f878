import ClosedWorld.Pattern.Step

/-!
# Scanning a body for a run of steps

An attempt tests the steps in order on the first nodes of a body and ends with the first that fails. A
search attempts at each position from the left until one succeeds.
-/

namespace ClosedWorld

/-- The nodes that passed all steps, if they did, and how many nodes were tested. -/
structure Attempt where
  captured? : Option Body
  tested : Nat
deriving DecidableEq

variable {σ : Type}

def attempt : List (Step σ) → Body → σ → Attempt × σ
  | [], _, m => (⟨some [], 0⟩, m)
  | _ :: _, [], m => (⟨none, 0⟩, m)
  | s :: ss, n :: ns, m =>
    match s n m with
    | (false, m) => (⟨none, 1⟩, m)
    | (true, m) =>
      let (r, m) := attempt ss ns m
      (⟨r.captured?.map (n :: ·), r.tested + 1⟩, m)

/-- The number of nodes before the leftmost success, and the nodes that it captured. -/
def search (steps : List (Step σ)) : Body → σ → Option (Nat × Body) × σ
  | [], m => (none, m)
  | n :: ns, m =>
    match attempt steps (n :: ns) m with
    | (⟨some captured, _⟩, m) => (some (0, captured), m)
    | (⟨none, _⟩, m) =>
      let (r, m) := search steps ns m
      (r.map fun (skipped, captured) => (skipped + 1, captured), m)

/-! ### What is captured -/

variable {steps : List (Step σ)} {b captured : Body} {m : σ}

theorem length_le_of_attempt (h : (attempt steps b m).1.captured? = some captured) :
    captured.length = steps.length ∧ steps.length ≤ b.length := by
  induction steps generalizing b captured m with
  | nil =>
    obtain rfl : [] = captured := by simpa [attempt] using h
    exact ⟨rfl, Nat.zero_le _⟩
  | cons s ss ih =>
    cases b with
    | nil => simp [attempt] at h
    | cons n ns =>
      rcases hs : s n m with ⟨_ | _, m'⟩
      · simp [attempt, hs] at h
      · simp only [attempt, hs] at h
        obtain ⟨c, hc, rfl⟩ := Option.map_eq_some_iff.1 h
        have := ih hc
        simp only [List.length_cons]
        omega

/-- A search captures one node for each step, behind the nodes that it skipped. -/
theorem length_le_of_search {skipped : Nat} (h : (search steps b m).1 = some (skipped, captured)) :
    captured.length = steps.length ∧ skipped + captured.length ≤ b.length := by
  induction b generalizing skipped captured m with
  | nil => simp [search] at h
  | cons n ns ih =>
    rcases ha : attempt steps (n :: ns) m with ⟨⟨_ | c, tested⟩, m'⟩
    · simp only [search, ha] at h
      obtain ⟨⟨k, c⟩, hc, heq⟩ := Option.map_eq_some_iff.1 h
      obtain ⟨rfl, rfl⟩ := Prod.mk.inj heq
      have := ih hc
      simp only [List.length_cons]
      omega
    · simp only [search, ha, Option.some.injEq, Prod.mk.injEq] at h
      obtain ⟨rfl, rfl⟩ := h
      have hc : (attempt steps (n :: ns) m).1.captured? = some c := by rw [ha]
      have := length_le_of_attempt hc
      omega

end ClosedWorld
