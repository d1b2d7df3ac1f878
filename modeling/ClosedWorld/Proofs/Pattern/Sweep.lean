import ClosedWorld.Proofs.Pattern.Round

/-!
# The sweep removes the matches of the greedy cut

The sweep scans a body that shrinks behind its cursor. In each round the nodes before the cursor are those
that it left alone, and the nodes after it are a tail of the body as it was, so its matches are those of
the greedy cut of the whole body (`removeOnward_eq`). No commit of the sweep can fail: the cursor stays
behind the match, and a match has a node to remove for each step.
-/

namespace ClosedWorld.Pass
variable {σ : Type} {p q r : Pass σ} {count : Nat} {tests : List (Node → Bool)}

/-! ### The rounds of the sweep -/

theorem removeOnward_of_fault {e : MatchError} (h : p.find = .error e) :
    p.removeOnward count = (.error e, p) := by
  rw [removeOnward]
  split <;> simp_all

theorem removeOnward_of_miss (h : p.find = .ok (false, q)) :
    p.removeOnward count = (.ok count, q.reset) := by
  rw [removeOnward]
  split <;> simp_all

theorem removeOnward_of_match {changed : Bool} (h : p.find = .ok (true, q))
    (hr : q.removeMatched = .ok (changed, r)) (hremoved : r.matcher.removed ≠ 0) :
    p.removeOnward count = r.reset.removeOnward (count + 1) := by
  rw [removeOnward]
  split
  · simp_all
  · simp_all
  · next q' h' =>
    obtain rfl : q = q' := by simpa using h.symm.trans h'
    split <;> simp_all

theorem rewritten_of_removals (span : Body) (s : Supply) :
    rewritten (span.map ({ node := ·, rewrite? := some .remove })) s = ([], s) := by
  induction span with
  | nil => rfl
  | cons n ns ih =>
    have hn : Capture.rewritten ⟨n, some .remove⟩ s = ([], s) := rfl
    rw [List.map_cons, rewritten_cons, hn, ih]
    rfl

/-- A match is removed as a whole, and the next round starts where it stood. -/
theorem removeMatched_met (ht : p.matcher.trailing = []) (skipped span rest : Body) :
    ∃ changed r, (p.met skipped span rest).removeMatched = .ok (changed, r) ∧
      r.matcher.removed = span.length ∧
      r.reset = { p.reset with cursor := ⟨p.cursor.before ++ skipped, rest⟩ } := by
  let captures : List Capture := span.map ({ node := ·, rewrite? := some .remove })
  let m : Matcher σ :=
    { p.matcher with state := .matched (p.cursor.before ++ skipped).length captures }
  let q : Pass σ := { p with matcher := m }
  have hqueue : (p.met skipped span rest).matcher.queueRemoveAll = .ok m := by
    simp only [Matcher.queueRemoveAll, met, List.map_map]
    rfl
  have hspan : captures.map (·.node) = span := by simp [captures, Function.comp_def]
  have hremoved : captures.countP (·.rewrite? == some .remove) = span.length := by
    simp [captures, List.countP_map, Function.comp_def]
  have hleft : rewritten captures p.supply = ([], p.supply) := rewritten_of_removals span p.supply
  obtain ⟨changed, hreplace⟩ : ∃ changed, { p.met skipped span rest with matcher := m }.replace =
      .ok (changed, q.committed (p.cursor.before ++ skipped) captures rest) := replace_met rfl hspan
  refine ⟨changed, q.committed (p.cursor.before ++ skipped) captures rest, ?_, hremoved, ?_⟩
  · rw [removeMatched, hqueue]
    exact hreplace
  · simp only [q, m, reset, committed, hleft, ht, supply_body_nil, List.append_nil]
    rfl

/-- With the matches that the greedy cut finds after the cursor, the sweep is done. -/
theorem removeOnward_eq (hsteps : p.matcher.steps = tests.map .ofTest) (hne : tests ≠ [])
    (hreset : p.matcher.reset = p.matcher) (count : Nat) :
    p.removeOnward count = (.ok (count + (p.cursor.after.spans tests).length),
      { p with cursor := ⟨p.cursor.before ++ p.cursor.after.unmatched tests, []⟩ }) := by
  induction hn : p.cursor.after.length using Nat.strongRecOn generalizing p count with
  | _ k ih =>
    have hidle : p.matcher.state = .idle := by rw [← hreset]; rfl
    have ht : p.matcher.trailing = [] := by rw [← hreset]; rfl
    have hf : p.matcher.scanFault? = none := by simp [Matcher.scanFault?, hsteps, hne, hidle]
    have hp : p.reset = p := congrArg (fun m => { p with matcher := m }) hreset
    rcases find_cases hsteps hne hf with ⟨h, hpieces⟩ | ⟨skipped, span, rest, ha, h, hpieces⟩
    · rw [removeOnward_of_miss h, Body.spans_of_kept hpieces, Body.unmatched_of_kept hpieces]
      exact congrArg (fun q : Pass σ => (_, { q with cursor := ⟨p.cursor.body, []⟩ })) hp
    · have hspans := Body.spans_of_matched hpieces
      have hkept := Body.unmatched_of_matched hpieces
      obtain ⟨changed, r, hr, hremoved, hrest⟩ := removeMatched_met ht skipped span rest
      have hpos : r.matcher.removed ≠ 0 := by
        have hspan := Body.fits_of_mem_spans hne p.cursor.after span (by simp [hspans])
        rw [hremoved, hspan.1]
        exact fun h => hne (List.length_eq_zero_iff.1 h)
      have hlt : rest.length < p.cursor.after.length := length_after_lt_of_find h
      -- the next round sees a tail of the body, so the nodes before a match never meet those behind it
      let q : Pass σ := { p with cursor := ⟨p.cursor.before ++ skipped, rest⟩ }
      have hq : q.removeOnward (count + 1) = _ := ih _ (hn ▸ hlt) (p := q) hsteps hreset _ rfl
      rw [hp] at hrest
      rw [removeOnward_of_match h hr hpos, hrest, hspans, hkept, hq]
      simp only [q, List.length_cons, List.append_assoc, Nat.add_assoc, Nat.add_comm]

/-! ### The result -/

/-- What the removal of all matches of some tests makes of a pass. -/
structure Swept (p : Pass σ) (tests : List (Node → Bool)) (r : Except MatchError Nat) (q : Pass σ) :
    Prop where
  /-- The only failure is that there is no step. -/
  error : ∀ e, r = .error e ↔ e = .noSteps ∧ tests = []
  unchanged : tests = [] → q.cursor.body = p.cursor.body
  count : tests ≠ [] → r = .ok (p.cursor.body.spans tests).length
  body : tests ≠ [] → q.cursor.body = p.cursor.body.unmatched tests
  /-- The pieces are parts of the body as it was, so no match reaches across a removed one. -/
  pieces : tests ≠ [] → (p.cursor.body.pieces tests).flatMap Piece.nodes = p.cursor.body
  /-- What is left keeps its identities and its order. -/
  sublist : q.cursor.body.Sublist p.cursor.body
  length : tests ≠ [] → q.cursor.body.length + (p.cursor.body.spans tests).length * tests.length =
    p.cursor.body.length
  supply : q.supply = p.supply
  matcher : q.matcher = p.matcher.reset
  idle : q.matcher.state = .idle ∧ q.matcher.captured = []

/-- With pure steps, the removal of all matches takes those of the greedy cut out of the body, in whatever
state the matcher is. It fails only without steps. -/
theorem removeAll_sweeps (p : Pass σ) (hsteps : p.matcher.steps = tests.map .ofTest) :
    p.Swept tests p.removeAll.1 p.removeAll.2 := by
  let s : Pass σ := { p with matcher := p.matcher.reset, cursor := p.cursor.seek 0 }
  have hbody : s.cursor.after = p.cursor.body := rfl
  by_cases hne : tests = []
  · subst hne
    have hfind : s.find = .error .noSteps := by
      have hf : s.matcher.scanFault? = some .noSteps := by
        simp [s, Matcher.scanFault?, Matcher.reset, hsteps]
      simp only [find, hf]
    have h : p.removeAll = (.error .noSteps, s) := removeOnward_of_fault hfind
    rw [h]
    refine ⟨fun e => ?_, fun _ => rfl, fun h => absurd rfl h, fun h => absurd rfl h,
      fun h => absurd rfl h, List.Sublist.refl _, fun h => absurd rfl h, rfl, rfl, rfl, rfl⟩
    exact ⟨fun h => ⟨(Except.error.inj h).symm, rfl⟩, fun h => congrArg _ h.1.symm⟩
  · have h : p.removeAll = (.ok (p.cursor.body.spans tests).length,
        { s with cursor := ⟨p.cursor.body.unmatched tests, []⟩ }) := by
      have h := removeOnward_eq (p := s) hsteps hne rfl 0
      rw [Nat.zero_add, hbody] at h
      exact h
    have hleft : (⟨p.cursor.body.unmatched tests, []⟩ : Cursor).body = p.cursor.body.unmatched tests :=
      List.append_nil _
    rw [h]
    refine ⟨fun e => ?_, fun h => absurd h hne, fun _ => rfl, fun _ => hleft,
      fun _ => Body.flatMap_nodes_pieces hne _, ?_, fun _ => ?_, rfl, rfl, rfl, rfl⟩
    · exact ⟨fun h => (by cases h), fun h => absurd h.2 hne⟩
    · rw [hleft]; exact Body.unmatched_sublist hne _
    · rw [hleft]; exact Body.length_unmatched hne _

/-- After an earlier commit, with something left to insert. -/
theorem removeAll_sweeps_nested :
    let p := overNestedPops (.replaced 0 nestedPops 1)
    p.matcher.steps = poppedConstant.map .ofTest ∧ p.Swept poppedConstant p.removeAll.1 p.removeAll.2 :=
  ⟨rfl, removeAll_sweeps _ rfl⟩

/-- The outer constant and pop become neighbours, but are no match. -/
example : nestedPops.unmatched poppedConstant =
    [⟨⟨0⟩, .plain .iconst0⟩, ⟨⟨3⟩, .plain .pop⟩] := by decide +kernel

end ClosedWorld.Pass
