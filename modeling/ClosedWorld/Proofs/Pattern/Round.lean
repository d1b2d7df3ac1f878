import ClosedWorld.Pattern.Pass
import ClosedWorld.Proofs.Pattern.Pieces

/-!
# One round of a pass

A round scans for a match and commits what was queued for it. With pure steps the scan stops behind the
first match of the greedy cut, or there is none and it stops at the end (`find_cases`). As long as the
cursor stands behind the captured nodes, the commit succeeds: it puts in their place what was queued for
each of them and then what is to follow, and leaves the nodes behind the cursor alone
(`replace_of_span`).
-/

namespace ClosedWorld

/-! ### What a commit makes of a match -/

/-- What a commit leaves in the place of a captured node. -/
def Capture.rewritten (x : Capture) (s : Supply) : Body × Supply :=
  match x.rewrite? with
  | none => ([x.node], s)
  | some (.replace insn) => ([s.node insn], s.advance 1)
  | some .remove => ([], s)

/-- What a commit leaves in the place of captured nodes, one after the other. -/
def rewritten : List Capture → Supply → Body × Supply
  | [], s => ([], s)
  | x :: xs, s =>
    let (b, s) := x.rewritten s
    let (bs, s) := rewritten xs s
    (b ++ bs, s)

section Commit

theorem rewritten_cons (x : Capture) (xs : List Capture) (s : Supply) :
    rewritten (x :: xs) s =
      ((x.rewritten s).1 ++ (rewritten xs (x.rewritten s).2).1, (rewritten xs (x.rewritten s).2).2) :=
  rfl

theorem commit_of_node (x : Capture) (pre rest : Body) (s : Supply) :
    x.commit ⟨pre, x.node :: rest⟩ s = (⟨pre ++ (x.rewritten s).1, rest⟩, (x.rewritten s).2) := by
  rcases x with ⟨n, _ | ⟨insn⟩ | _⟩
  · rfl
  · rfl
  · exact congrArg (fun b => ((⟨b, rest⟩ : Cursor), s)) (List.append_nil pre).symm

theorem foldl_commit (captures : List Capture) (pre rest : Body) (s : Supply) :
    captures.foldl (fun (c, s) x => x.commit c s) (⟨pre, captures.map (·.node) ++ rest⟩, s) =
      (⟨pre ++ (rewritten captures s).1, rest⟩, (rewritten captures s).2) := by
  induction captures generalizing pre s with
  | nil => exact congrArg (fun b => ((⟨b, rest⟩ : Cursor), s)) (List.append_nil pre).symm
  | cons x xs ih =>
    simp only [List.foldl_cons, List.map_cons, List.cons_append, commit_of_node, ih, List.append_assoc]
    rfl

theorem supply_body_nil (s : Supply) : s.body [] = ([], s) := rfl

theorem supply_body_cons (insn : Instruction) (l : List Instruction) (s : Supply) :
    s.body (insn :: l) = (s.node insn :: ((s.advance 1).body l).1, ((s.advance 1).body l).2) := by
  simp [Supply.body, Supply.advance, Supply.node, Nat.add_comm, Nat.add_left_comm]

theorem foldl_insert (l : List Instruction) (pre rest : Body) (s : Supply) :
    l.foldl (fun (c, s) insn => c.insert insn s) ((⟨pre, rest⟩ : Cursor), s) =
      (⟨pre ++ (s.body l).1, rest⟩, (s.body l).2) := by
  induction l generalizing pre s with
  | nil => exact congrArg (fun b => ((⟨b, rest⟩ : Cursor), s)) (List.append_nil pre).symm
  | cons insn l ih =>
    have hinsert : (⟨pre, rest⟩ : Cursor).insert insn s =
        (⟨pre ++ [s.node insn], rest⟩, s.advance 1) := rfl
    simp only [List.foldl_cons, hinsert, ih, supply_body_cons, List.append_assoc]
    rfl

theorem firstMismatch_of_held (captures : List Capture) (rest : Body) :
    firstMismatch captures (captures.map (·.node) ++ rest) = none := by
  induction captures with
  | nil => rfl
  | cons x xs ih => simpa [firstMismatch] using ih

end Commit

namespace Pass
variable {σ : Type} {p : Pass σ}

/-- The pass after a commit of captures behind some nodes and before others. -/
def committed (p : Pass σ) (pre : Body) (captures : List Capture) (rest : Body) : Pass σ :=
  let (b, s) := rewritten captures p.supply
  let (inserted, s) := s.body p.matcher.trailing
  { p with
    matcher := { p.matcher with
      state := .replaced pre.length (captures.map (·.node)) (captures.countP (·.rewrite? == some .remove))
      trailing := [] }
    cursor := ⟨pre ++ b ++ inserted, rest⟩
    supply := s }

theorem replace_of_span {pre rest : Body} {captures : List Capture}
    (hs : p.matcher.state = .matched pre.length captures)
    (hc : p.cursor = ⟨pre ++ captures.map (·.node), rest⟩) :
    p.replace = .ok (captures.any (·.rewrite?.isSome) || !p.matcher.trailing.isEmpty,
      p.committed pre captures rest) := by
  have hbody : p.cursor.body = pre ++ (captures.map (·.node) ++ rest) := by
    rw [hc, Cursor.body, List.append_assoc]
  have hpos : p.cursor.position = pre.length + captures.length := by simp [hc, Cursor.position]
  have hseek : p.cursor.seek pre.length = ⟨pre, captures.map (·.node) ++ rest⟩ := by
    rw [Cursor.seek, hbody, Cursor.ofBody, List.take_left, List.drop_left]
  have hspan : p.rewriteSpan pre.length captures =
      ((p.committed pre captures rest).cursor, (p.committed pre captures rest).supply) := by
    rw [rewriteSpan, hseek, foldl_commit, foldl_insert]
    rfl
  have hheld : firstMismatch captures (p.cursor.body.drop pre.length) = none := by
    rw [hbody, List.drop_left, firstMismatch_of_held]
  simp only [replace, hs, hpos, ne_eq, not_true_eq_false, if_false, hheld, hspan]
  rfl

/-! ### The scan of a round -/

/-- The pass after a scan without a match. -/
def missed (p : Pass σ) : Pass σ :=
  { p with matcher := { p.matcher with state := .exhausted }, cursor := ⟨p.cursor.body, []⟩ }

/-- The pass after a scan that matched some nodes behind those that it skipped. -/
def met (p : Pass σ) (skipped span rest : Body) : Pass σ :=
  { p with
    matcher := { p.matcher with
      state := .matched (p.cursor.before ++ skipped).length (span.map ({ node := · })) }
    cursor := ⟨p.cursor.before ++ skipped ++ span, rest⟩ }

theorem find_of_search_none (hf : p.matcher.scanFault? = none)
    (hs : search p.matcher.steps p.cursor.after p.memory = (none, p.memory)) :
    p.find = .ok (false, p.missed) := by
  simp only [find, hf, hs, afterScan, Matcher.afterScan, Cursor.advance, List.take_length,
    List.drop_length]
  rfl

theorem find_of_search_some {skipped span rest : Body} {m : σ} (hf : p.matcher.scanFault? = none)
    (ha : p.cursor.after = skipped ++ span ++ rest)
    (hs : search p.matcher.steps p.cursor.after p.memory = (some (skipped.length, span), m)) :
    p.find = .ok (true, { p with memory := m }.met skipped span rest) := by
  have hadvance : p.cursor.advance (skipped.length + span.length) =
      ⟨p.cursor.before ++ skipped ++ span, rest⟩ := by
    have hlen : skipped.length + span.length = (skipped ++ span).length := List.length_append.symm
    rw [Cursor.advance, ha, hlen, List.take_left, List.drop_left, List.append_assoc]
  simp only [find, hf, hs, afterScan, Matcher.afterScan, hadvance, Cursor.position]
  rw [← List.length_append]
  rfl

theorem matchHere_of_attempt_some {span rest : Body} {m : σ} (hf : p.matcher.scanFault? = none)
    (ha : p.cursor.after = span ++ rest)
    (h : attempt p.matcher.steps p.cursor.after p.memory = (⟨some span, span.length⟩, m)) :
    p.matchHere = .ok (true, { p with memory := m }.met [] span rest) := by
  have hadvance : p.cursor.advance span.length = ⟨p.cursor.before ++ [] ++ span, rest⟩ := by
    rw [Cursor.advance, ha, List.take_left, List.drop_left, List.append_nil]
  simp only [matchHere, hf, h, afterScan, Matcher.afterScan, hadvance, met, List.append_nil]
  rfl

theorem matchHere_of_attempt_none {tested : Nat} {m : σ} (hf : p.matcher.scanFault? = none)
    (h : attempt p.matcher.steps p.cursor.after p.memory = (⟨none, tested⟩, m)) :
    p.matchHere = .ok (false, { p with
      matcher := { p.matcher with state := .exhausted }
      cursor := p.cursor.advance tested
      memory := m }) := by
  simp only [matchHere, hf, h]
  rfl

/-- The commit of a match succeeds, whatever was queued for it. -/
theorem replace_met {m : Matcher σ} {skipped span rest : Body} {captures : List Capture}
    (hs : m.state = .matched (p.cursor.before ++ skipped).length captures)
    (hspan : captures.map (·.node) = span) :
    ∃ changed, { p.met skipped span rest with matcher := m }.replace =
      .ok (changed, { p with matcher := m }.committed (p.cursor.before ++ skipped) captures rest) := by
  subst hspan
  exact ⟨_, replace_of_span (p := { p.met skipped _ rest with matcher := m }) hs rfl⟩

variable {tests : List (Node → Bool)}

/-- A matcher with pure steps that has nothing captured finds the first match of the greedy cut. -/
theorem find_cases (hsteps : p.matcher.steps = tests.map .ofTest) (hne : tests ≠ [])
    (hf : p.matcher.scanFault? = none) :
    (p.find = .ok (false, p.missed) ∧ p.cursor.after.pieces tests = p.cursor.after.map .kept) ∨
      ∃ skipped span rest, p.cursor.after = skipped ++ span ++ rest ∧
        p.find = .ok (true, p.met skipped span rest) ∧
        p.cursor.after.pieces tests =
          skipped.map .kept ++ .matched span :: Body.pieces tests rest := by
  rcases search_cases hne p.cursor.after p.memory with ⟨hs, hp⟩ | ⟨skipped, span, rest, ha, hs, hp⟩
  · rw [← hsteps] at hs
    exact .inl ⟨find_of_search_none hf hs, hp⟩
  · rw [← hsteps] at hs
    exact .inr ⟨skipped, span, rest, ha, find_of_search_some hf ha hs, hp⟩

/-! ### A small pass -/

/-- Two constants and two pops. The inner two are a constant and its pop; the outer two are not
neighbours. -/
def nestedPops : Body :=
  [⟨⟨0⟩, .plain .iconst0⟩, ⟨⟨1⟩, .plain .iconst0⟩, ⟨⟨2⟩, .plain .pop⟩, ⟨⟨3⟩, .plain .pop⟩]

/-- Tests for a constant and the pop behind it. -/
def poppedConstant : List (Node → Bool) :=
  [(·.insn = .plain .iconst0), (·.insn = .plain .pop)]

/-- A pass whose cursor stands in the middle and whose matcher has something to insert. -/
def overNestedPops (state : MatchState) : Pass Unit where
  matcher := { token := 0, steps := poppedConstant.map .ofTest, state, trailing := [.plain .dup] }
  cursor := .ofBody nestedPops 2
  supply := ⟨4⟩
  memory := ()

end Pass
end ClosedWorld
