import ClosedWorld.Pattern.Scan
import Mathlib.Data.List.Basic

/-!
# A body cut at its matches

Steps that are pure tests match a body wherever its next nodes pass them, one each and in order
(`Body.fits`). Cutting the body from left to right at these places, without going back behind a cut,
gives its pieces (`Body.pieces`). A search meets the first piece that is a match, behind the nodes that
are pieces by themselves, and the nodes behind it are cut as if they stood alone (`search_cases`).
-/

namespace ClosedWorld

/-- The next nodes of a body pass the tests, one each, in order. -/
def Body.fits : List (Node → Bool) → Body → Bool
  | [], _ => true
  | _ :: _, [] => false
  | t :: ts, n :: ns => t n && fits ts ns

/-- A part of a body: a node at which no match begins, or the nodes of a match. -/
inductive Piece where
  | kept (n : Node)
  | matched (span : Body)
deriving DecidableEq

namespace Piece

def nodes : Piece → Body
  | kept n => [n]
  | matched span => span

def kept? : Piece → Option Node
  | kept n => some n
  | matched _ => none

def span? : Piece → Option Body
  | kept _ => none
  | matched span => some span

variable {n : Node} {span : Body}

@[simp] theorem kept?_kept : (kept n).kept? = some n := rfl

@[simp] theorem kept?_matched : (matched span).kept? = none := rfl

@[simp] theorem span?_kept : (kept n).span? = none := rfl

@[simp] theorem span?_matched : (matched span).span? = some span := rfl

end Piece

namespace Body

/-- The greedy cut for one test or more: where the tests fit, the nodes that pass them are a match and the
cut goes on behind them, and anywhere else the next node is left alone. -/
def pieces (tests : List (Node → Bool)) : Body → List Piece
  | [] => []
  | n :: ns =>
    if fits tests (n :: ns) then
      .matched ((n :: ns).take tests.length) :: pieces tests (ns.drop (tests.length - 1))
    else .kept n :: pieces tests ns
termination_by b => b.length

/-- The matches of the greedy cut, from left to right. -/
def spans (tests : List (Node → Bool)) (b : Body) : List Body :=
  (b.pieces tests).filterMap Piece.span?

/-- What the greedy cut leaves without its matches. -/
def unmatched (tests : List (Node → Bool)) (b : Body) : Body :=
  (b.pieces tests).filterMap Piece.kept?

variable {tests : List (Node → Bool)} {b : Body} {n : Node}

theorem pieces_nil : pieces tests [] = [] := by rw [pieces]

theorem pieces_cons_of_not_fits (h : ¬ fits tests (n :: b)) :
    pieces tests (n :: b) = .kept n :: pieces tests b := by
  rw [pieces, if_neg h]

theorem length_le_of_fits (h : fits tests b) : tests.length ≤ b.length := by
  induction tests generalizing b with
  | nil => exact Nat.zero_le _
  | cons t ts ih =>
    cases b with
    | nil => simp [fits] at h
    | cons n ns =>
      have := ih (Bool.and_eq_true_iff.1 h).2
      simpa using this

theorem fits_take : fits tests (b.take tests.length) = fits tests b := by
  induction tests generalizing b with
  | nil => rfl
  | cons t ts ih =>
    cases b with
    | nil => rfl
    | cons n ns => simp [fits, ih]

/-- Where tests fit, the body is cut in front of them and behind as many nodes as there are tests. -/
theorem pieces_of_fits (hne : tests ≠ []) (h : fits tests b) :
    pieces tests b = .matched (b.take tests.length) :: pieces tests (b.drop tests.length) := by
  have hlen := length_le_of_fits h
  have hpos := List.length_pos_iff.2 hne
  cases b with
  | nil => simp only [List.length_nil] at hlen; omega
  | cons n ns =>
    obtain ⟨k, hk⟩ := Nat.exists_eq_succ_of_ne_zero (Nat.ne_of_gt hpos)
    rw [pieces, if_pos h, hk]
    rfl

/-! ### The parts and the whole -/

/-- The cut goes through a body node by node and match by match. -/
theorem pieces_induct {P : Body → List Piece → Prop} (hne : tests ≠ []) (nil : P [] [])
    (kept : ∀ n ns, P ns (pieces tests ns) → P (n :: ns) (.kept n :: pieces tests ns))
    (matched : ∀ span rest, span.length = tests.length → fits tests span →
      P rest (pieces tests rest) → P (span ++ rest) (.matched span :: pieces tests rest))
    (b : Body) : P b (b.pieces tests) := by
  induction hn : b.length using Nat.strongRecOn generalizing b with
  | _ k ih =>
    cases b with
    | nil => rw [pieces_nil]; exact nil
    | cons n ns =>
      by_cases h : fits tests (n :: ns)
      · have hpos := List.length_pos_iff.2 hne
        have hlt : ((n :: ns).drop tests.length).length < k := by
          rw [← hn, List.length_drop, List.length_cons]
          omega
        rw [pieces_of_fits hne h]
        have hm := matched _ _ (List.length_take_of_le (length_le_of_fits h)) (fits_take.trans h)
          (ih _ hlt _ rfl)
        rwa [List.take_append_drop] at hm
      · rw [pieces_cons_of_not_fits h]
        exact kept n ns (ih _ (by rw [← hn]; exact Nat.lt_succ_self _) _ rfl)

theorem flatMap_nodes_pieces (hne : tests ≠ []) (b : Body) :
    (b.pieces tests).flatMap Piece.nodes = b := by
  refine pieces_induct (P := fun b ps => ps.flatMap Piece.nodes = b) hne rfl ?_ ?_ b
  · intro n ns ih
    rw [List.flatMap_cons, ih]
    rfl
  · intro span rest _ _ ih
    rw [List.flatMap_cons, ih]
    rfl

/-- Every match of the cut is one. -/
theorem fits_of_mem_spans (hne : tests ≠ []) (b : Body) :
    ∀ span ∈ b.spans tests, span.length = tests.length ∧ fits tests span := by
  refine pieces_induct (P := fun _ ps => ∀ span ∈ ps.filterMap Piece.span?,
    span.length = tests.length ∧ fits tests span) hne ?_ ?_ ?_ b
  · simp
  · exact fun n ns ih => ih
  · exact fun span rest hlen hf ih => List.forall_mem_cons.2 ⟨⟨hlen, hf⟩, ih⟩

theorem unmatched_sublist (hne : tests ≠ []) (b : Body) : (b.unmatched tests).Sublist b := by
  refine pieces_induct (P := fun b ps => (ps.filterMap Piece.kept?).Sublist b) hne .slnil ?_ ?_ b
  · exact fun n ns ih => ih.cons_cons n
  · exact fun span rest _ _ ih => ih.trans (List.sublist_append_right _ _)

/-- The cut loses as many nodes as there are tests, for each match. -/
theorem length_unmatched (hne : tests ≠ []) (b : Body) :
    (b.unmatched tests).length + (b.spans tests).length * tests.length = b.length := by
  refine pieces_induct (P := fun b ps => (ps.filterMap Piece.kept?).length +
    (ps.filterMap Piece.span?).length * tests.length = b.length) hne (by simp) ?_ ?_ b
  · intro n ns ih
    simp only [List.filterMap_cons, Piece.kept?_kept, Piece.span?_kept, List.length_cons]
    omega
  · intro span rest hlen _ ih
    simp only [List.filterMap_cons, Piece.kept?_matched, Piece.span?_matched, List.length_cons,
      List.length_append, Nat.succ_mul]
    omega

/-! ### The first match -/

section First
variable {skipped span rest : Body}

theorem spans_of_kept (h : b.pieces tests = b.map .kept) : b.spans tests = [] := by
  simp [spans, h, Function.comp_def]

theorem unmatched_of_kept (h : b.pieces tests = b.map .kept) : b.unmatched tests = b := by
  simp [unmatched, h, Function.comp_def]

variable (h : b.pieces tests = skipped.map .kept ++ .matched span :: pieces tests rest)
include h

theorem spans_of_matched : b.spans tests = span :: rest.spans tests := by
  simp [spans, h, Function.comp_def]

theorem unmatched_of_matched : b.unmatched tests = skipped ++ rest.unmatched tests := by
  simp [unmatched, h, Function.comp_def, List.filterMap_cons]

end First
end Body

/-! ### Scanning with pure steps -/

section Scan
variable {σ : Type} {tests : List (Node → Bool)}

theorem attempt_ofTest (tests : List (Node → Bool)) (b : Body) (m : σ) :
    ∃ tested, attempt (tests.map .ofTest) b m =
      (⟨if b.fits tests then some (b.take tests.length) else none, tested⟩, m) := by
  induction tests generalizing b with
  | nil => exact ⟨0, rfl⟩
  | cons t ts ih =>
    cases b with
    | nil => exact ⟨0, rfl⟩
    | cons n ns =>
      obtain ⟨tested, h⟩ := ih ns
      cases ht : t n with
      | false => exact ⟨1, by simp [attempt, Step.ofTest, Body.fits, ht]⟩
      | true =>
        refine ⟨tested + 1, ?_⟩
        simp only [List.map_cons, attempt, Step.ofTest, ht, h, Body.fits, Bool.true_and,
          List.length_cons, List.take_succ_cons]
        split <;> rfl

/-- Either no node begins a match, or the search meets the first one behind the nodes that do not. -/
theorem search_cases (hne : tests ≠ []) (b : Body) (m : σ) :
    (search (tests.map .ofTest) b m = (none, m) ∧ b.pieces tests = b.map .kept) ∨
      ∃ skipped span rest, b = skipped ++ span ++ rest ∧
        search (tests.map .ofTest) b m = (some (skipped.length, span), m) ∧
        b.pieces tests = skipped.map .kept ++ .matched span :: Body.pieces tests rest := by
  induction b with
  | nil => exact .inl ⟨rfl, Body.pieces_nil⟩
  | cons n ns ih =>
    obtain ⟨tested, ha⟩ := attempt_ofTest tests (n :: ns) m
    by_cases hf : Body.fits tests (n :: ns)
    · rw [if_pos hf] at ha
      refine .inr ⟨[], (n :: ns).take tests.length, (n :: ns).drop tests.length, ?_, ?_, ?_⟩
      · exact (List.take_append_drop _ _).symm
      · simp only [search, ha]
        rfl
      · exact Body.pieces_of_fits hne hf
    · rw [if_neg hf] at ha
      have hskip := Body.pieces_cons_of_not_fits hf
      rcases ih with ⟨hs, hp⟩ | ⟨skipped, span, rest, rfl, hs, hp⟩
      · refine .inl ⟨?_, by rw [hskip, hp]; rfl⟩
        simp only [search, ha, hs]
        rfl
      · refine .inr ⟨n :: skipped, span, rest, rfl, ?_, by rw [hskip, hp]; rfl⟩
        simp only [search, ha, hs]
        rfl

end Scan
end ClosedWorld
