import ClosedWorld.Proofs.Pattern.Machine

/-!
# Scans with pure steps

Pure steps fit at a place of a body or they do not (`Body.FitsAt`), and where they do not, either there is
a first node that fails its test or the nodes run out. An attempt tells which (`attempt_cases`), and a search
stops at the first place where the steps fit (`search_leftmost`). So a scan finds the leftmost match or goes
to the end (`finds_of_ready`), and an attempt by itself stops where it fails (`tries_of_ready`).
-/

namespace ClosedWorld

variable {σ : Type} {tests : List (Node → Bool)}

/-! ### Where tests fit -/

namespace Body

/-- The nodes from a place on pass the tests, one each, in order. -/
structure FitsAt (tests : List (Node → Bool)) (b : Body) (i : ℕ) : Prop where
  le : i + tests.length ≤ b.length
  test : ∀ j t n, tests[j]? = some t → b[i + j]? = some n → t n = true

/-- The test by that number is the first that fails on the nodes from a place on. -/
structure FailsAt (tests : List (Node → Bool)) (b : Body) (i j : ℕ) : Prop where
  before : FitsAt (tests.take j) b i
  test : ∃ t n, tests[j]? = some t ∧ b[i + j]? = some n ∧ t n = false

/-- The nodes from a place on pass, but there are fewer than tests. -/
structure RunsOut (tests : List (Node → Bool)) (b : Body) (i : ℕ) : Prop where
  lt : b.length < i + tests.length
  before : FitsAt (tests.take (b.length - i)) b i

variable {b : Body} {n : Node} {t : Node → Bool} {i j : ℕ}

theorem FailsAt.not_fitsAt (h : FailsAt tests b i j) : ¬ FitsAt tests b i := by
  intro hf
  obtain ⟨t, n, ht, hn, hfalse⟩ := h.test
  have htrue := hf.test j t n ht hn
  rw [hfalse] at htrue
  cases htrue

theorem RunsOut.not_fitsAt (h : RunsOut tests b i) : ¬ FitsAt tests b i := fun hf =>
  Nat.not_lt_of_le hf.le h.lt

theorem fitsAt_nil (b : Body) : FitsAt [] b 0 := ⟨Nat.zero_le _, by simp⟩

theorem FitsAt.cons (ht : t n = true) (h : FitsAt tests b 0) : FitsAt (t :: tests) (n :: b) 0 := by
  refine ⟨?_, fun j u m hu hm => ?_⟩
  · have := h.le
    simp only [List.length_cons]
    omega
  · cases j with
    | zero =>
      cases hu
      cases hm
      exact ht
    | succ j =>
      rw [Nat.zero_add] at hm
      exact h.test j u m hu (by rw [Nat.zero_add]; exact hm)

theorem FailsAt.cons (ht : t n = true) (h : FailsAt tests b 0 j) :
    FailsAt (t :: tests) (n :: b) 0 (j + 1) := by
  obtain ⟨u, m, hu, hm, hfalse⟩ := h.test
  rw [Nat.zero_add] at hm
  exact ⟨h.before.cons ht, u, m, hu, by rw [Nat.zero_add]; exact hm, hfalse⟩

theorem RunsOut.cons (ht : t n = true) (h : RunsOut tests b 0) : RunsOut (t :: tests) (n :: b) 0 := by
  refine ⟨?_, h.before.cons ht⟩
  have := h.lt
  simp only [List.length_cons]
  omega

theorem FailsAt.lt (h : FailsAt tests b i j) : i + j < b.length := by
  obtain ⟨t, n, -, hn, -⟩ := h.test
  exact (List.getElem?_eq_some_iff.1 hn).1

/-! Nodes in front of a place are not looked at. -/

theorem getElem?_behind (pre b : Body) (i : ℕ) : (pre ++ b)[pre.length + i]? = b[i]? := by
  rw [List.getElem?_append_right (Nat.le_add_right _ _), Nat.add_sub_cancel_left]

theorem fitsAt_append (pre b : Body) (i : ℕ) :
    FitsAt tests (pre ++ b) (pre.length + i) ↔ FitsAt tests b i := by
  have hget : ∀ j, (pre ++ b)[pre.length + i + j]? = b[i + j]? := fun j => by
    rw [Nat.add_assoc, getElem?_behind]
  constructor
  · intro h
    refine ⟨?_, fun j t n ht hn => h.test j t n ht ((hget j).trans hn)⟩
    have := h.le
    rw [List.length_append] at this
    omega
  · intro h
    refine ⟨?_, fun j t n ht hn => h.test j t n ht ((hget j).symm.trans hn)⟩
    have := h.le
    rw [List.length_append]
    omega

theorem FailsAt.append (pre : Body) (h : FailsAt tests b 0 j) : FailsAt tests (pre ++ b) pre.length j := by
  obtain ⟨t, n, ht, hn, hfalse⟩ := h.test
  rw [Nat.zero_add] at hn
  exact ⟨(fitsAt_append pre b 0).2 h.before, t, n, ht, (getElem?_behind pre b j).trans hn, hfalse⟩

theorem RunsOut.append (pre : Body) (h : RunsOut tests b 0) : RunsOut tests (pre ++ b) pre.length := by
  have hlen : (pre ++ b).length - pre.length = b.length - 0 := by
    rw [List.length_append, Nat.add_sub_cancel_left, Nat.sub_zero]
  refine ⟨?_, hlen ▸ (fitsAt_append pre b 0).2 h.before⟩
  have := h.lt
  rw [List.length_append]
  omega

end Body

/-! ### Attempts and searches -/

/-- An attempt captures the nodes that fit, or it stops behind the first that fails, or at the end. -/
theorem attempt_cases (tests : List (Node → Bool)) (b : Body) (m : σ) :
    (∃ span rest, b = span ++ rest ∧ span.length = tests.length ∧ b.FitsAt tests 0 ∧
      attempt (tests.map .ofTest) b m = (⟨some span, span.length⟩, m)) ∨
    (∃ j, b.FailsAt tests 0 j ∧ attempt (tests.map .ofTest) b m = (⟨none, j + 1⟩, m)) ∨
    (b.RunsOut tests 0 ∧ attempt (tests.map .ofTest) b m = (⟨none, b.length⟩, m)) := by
  induction tests generalizing b with
  | nil => exact .inl ⟨[], b, rfl, rfl, Body.fitsAt_nil b, rfl⟩
  | cons t ts ih =>
    cases b with
    | nil => exact .inr (.inr ⟨⟨Nat.succ_pos _, Body.fitsAt_nil []⟩, rfl⟩)
    | cons n ns =>
      cases ht : t n with
      | false =>
        refine .inr (.inl ⟨0, ⟨Body.fitsAt_nil _, t, n, rfl, rfl, ht⟩, ?_⟩)
        simp only [List.map_cons, attempt, Step.ofTest, ht]
      | true =>
        have hround : attempt ((t :: ts).map .ofTest) (n :: ns) m =
            (⟨(attempt (ts.map .ofTest) ns m).1.captured?.map (n :: ·),
              (attempt (ts.map .ofTest) ns m).1.tested + 1⟩, (attempt (ts.map .ofTest) ns m).2) := by
          simp only [List.map_cons, attempt, Step.ofTest, ht]
        rcases ih ns with ⟨span, rest, rfl, hlen, h, ha⟩ | ⟨j, h, ha⟩ | ⟨h, ha⟩
        · refine .inl ⟨n :: span, rest, rfl, congrArg (· + 1) hlen, h.cons ht, ?_⟩
          rw [hround, ha]
          rfl
        · exact .inr (.inl ⟨j + 1, h.cons ht, by rw [hround, ha]; rfl⟩)
        · exact .inr (.inr ⟨h.cons ht, by rw [hround, ha]; rfl⟩)

theorem attempt_of_not_fitsAt {b : Body} (h : ¬ b.FitsAt tests 0) (m : σ) :
    ∃ tested, attempt (tests.map .ofTest) b m = (⟨none, tested⟩, m) := by
  rcases attempt_cases tests b m with ⟨span, rest, -, -, hf, -⟩ | ⟨j, -, ha⟩ | ⟨-, ha⟩
  · exact absurd hf h
  · exact ⟨_, ha⟩
  · exact ⟨_, ha⟩

theorem attempt_of_fitsAt {b : Body} (h : b.FitsAt tests 0) (m : σ) :
    ∃ span rest, b = span ++ rest ∧ span.length = tests.length ∧
      attempt (tests.map .ofTest) b m = (⟨some span, span.length⟩, m) := by
  rcases attempt_cases tests b m with ⟨span, rest, hb, hlen, -, ha⟩ | ⟨j, hf, -⟩ | ⟨hf, -⟩
  · exact ⟨span, rest, hb, hlen, ha⟩
  · exact absurd h hf.not_fitsAt
  · exact absurd h hf.not_fitsAt

/-- A search stops at the first place where the tests fit, or there is none. -/
theorem search_leftmost (hne : tests ≠ []) (b : Body) (m : σ) :
    (search (tests.map .ofTest) b m = (none, m) ∧ ∀ i, ¬ b.FitsAt tests i) ∨
      ∃ skipped span rest, b = skipped ++ span ++ rest ∧ span.length = tests.length ∧
        search (tests.map .ofTest) b m = (some (skipped.length, span), m) ∧
        b.FitsAt tests skipped.length ∧ ∀ i < skipped.length, ¬ b.FitsAt tests i := by
  induction b with
  | nil =>
    refine .inl ⟨rfl, fun i h => ?_⟩
    have hle := h.le
    have hpos := List.length_pos_iff.2 hne
    simp only [List.length_nil] at hle
    omega
  | cons n ns ih =>
    by_cases hf : Body.FitsAt tests (n :: ns) 0
    · obtain ⟨span, rest, hb, hlen, ha⟩ := attempt_of_fitsAt hf m
      refine .inr ⟨[], span, rest, hb, hlen, ?_, hf, fun i hi => absurd hi (Nat.not_lt_zero i)⟩
      simp only [search, ha]
      rfl
    · obtain ⟨tested, ha⟩ := attempt_of_not_fitsAt hf m
      -- the places behind the first node are those of the rest
      have hsucc : ∀ i, Body.FitsAt tests (n :: ns) (i + 1) ↔ Body.FitsAt tests ns i := fun i => by
        rw [Nat.add_comm]
        exact Body.fitsAt_append [n] ns i
      rcases ih with ⟨hs, hnone⟩ | ⟨skipped, span, rest, rfl, hlen, hs, hfits, hleast⟩
      · refine .inl ⟨by simp only [search, ha, hs]; rfl, fun i => ?_⟩
        cases i with
        | zero => exact hf
        | succ i => exact fun h => hnone i ((hsucc i).1 h)
      · refine .inr ⟨n :: skipped, span, rest, rfl, hlen, by simp only [search, ha, hs]; rfl,
          (hsucc _).2 hfits, fun i hi => ?_⟩
        cases i with
        | zero => exact hf
        | succ i => exact fun h => hleast i (Nat.lt_of_succ_lt_succ hi) ((hsucc i).1 h)

/-! ### Scans -/

namespace Pass
variable {p q : Pass σ}

/-- The pass holds the nodes from a place on as captured, and stands right behind them. -/
structure Holds (q : Pass σ) (i n : ℕ) : Prop where
  captured : q.matcher.captured = (q.cursor.body.drop i).take n
  span : q.matcher.span? = some (i, i + n)
  position : q.cursor.position = i + n
  state : ∃ captures, q.matcher.state = .matched i captures

/-- What a scan of pure steps leaves alone, whatever it finds. -/
structure Unmoved (p q : Pass σ) : Prop where
  body : q.cursor.body = p.cursor.body
  supply : q.supply = p.supply
  memory : q.memory = p.memory

/-- What comes of a search from the cursor on. -/
structure Finds (p : Pass σ) (tests : List (Node → Bool)) (found : Bool) (q : Pass σ) : Prop where
  find : p.find = .ok (found, q)
  /-- The loop comes to an end. -/
  machine : Routine.find.run p.machine = .ok found q.machine
  unmoved : p.Unmoved q
  found_iff : found = true ↔ ∃ i, p.cursor.position ≤ i ∧ p.cursor.body.FitsAt tests i
  leftmost : ∀ i, p.cursor.position ≤ i → p.cursor.body.FitsAt tests i →
    (∀ j, p.cursor.position ≤ j → p.cursor.body.FitsAt tests j → i ≤ j) → q.Holds i tests.length
  missed : found = false → q.cursor.position = q.cursor.body.length ∧ q.matcher.captured = [] ∧
    q.matcher.state = .exhausted

/-- What comes of an attempt right at the cursor. -/
structure Tries (p : Pass σ) (tests : List (Node → Bool)) (found : Bool) (q : Pass σ) : Prop where
  matchHere : p.matchHere = .ok (found, q)
  machine : Routine.matchHere.run p.machine = .ok found q.machine
  unmoved : p.Unmoved q
  found_iff : found = true ↔ p.cursor.body.FitsAt tests p.cursor.position
  holds : found = true → q.Holds p.cursor.position tests.length
  /-- The cursor is behind the first node that failed, or at the end. -/
  failed : found = false → q.matcher.captured = [] ∧ q.matcher.state = .exhausted ∧
    ((∃ j, p.cursor.body.FailsAt tests p.cursor.position j ∧
        q.cursor.position = p.cursor.position + j + 1) ∨
      (p.cursor.body.RunsOut tests p.cursor.position ∧ q.cursor.position = q.cursor.body.length))

theorem holds_met (p : Pass σ) (skipped span rest : Body) :
    (p.met skipped span rest).Holds (p.cursor.before ++ skipped).length span.length where
  captured := by
    have hcaptured : (p.met skipped span rest).matcher.captured = span := by
      simp [met, Matcher.captured, Function.comp_def]
    rw [hcaptured, met, Cursor.body, List.append_assoc, List.drop_left, List.take_left]
  span := by simp [met, Matcher.span?, Matcher.captured]
  position := List.length_append
  state := ⟨_, rfl⟩

theorem body_met (p : Pass σ) {skipped span rest : Body} (ha : p.cursor.after = skipped ++ span ++ rest) :
    (p.met skipped span rest).cursor.body = p.cursor.body := by
  simp only [met, Cursor.body, ha, List.append_assoc]

theorem fitsAt_body (p : Pass σ) (i : ℕ) :
    p.cursor.body.FitsAt tests (p.cursor.position + i) ↔ p.cursor.after.FitsAt tests i :=
  Body.fitsAt_append p.cursor.before p.cursor.after i

theorem finds_of_ready (hsteps : p.matcher.steps = tests.map .ofTest) (hne : tests ≠ [])
    (hf : p.matcher.scanFault? = none) : ∃ found q, p.Finds tests found q := by
  rcases search_leftmost hne p.cursor.after p.memory with
    ⟨hs, hnone⟩ | ⟨skipped, span, rest, ha, hlen, hs, hfits, hleast⟩
  · rw [← hsteps] at hs
    have hfind := find_of_search_none hf hs
    have hnowhere : ∀ i, p.cursor.position ≤ i → ¬ p.cursor.body.FitsAt tests i := by
      intro i hi
      obtain ⟨k, rfl⟩ := Nat.exists_eq_add_of_le hi
      exact fun h => hnone k ((p.fitsAt_body k).1 h)
    refine ⟨false, p.missed, hfind, run_find hfind, ⟨?_, rfl, rfl⟩, ?_, ?_, ?_⟩
    · exact List.append_nil _
    · simp only [Bool.false_eq_true, false_iff, not_exists, not_and]
      exact hnowhere
    · exact fun i hi h => absurd h (hnowhere i hi)
    · intro _
      refine ⟨?_, rfl, rfl⟩
      simp [missed, Cursor.position, Cursor.body]
  · rw [← hsteps] at hs
    have hfind := find_of_search_some hf ha hs
    have hplace := (p.fitsAt_body skipped.length).2 hfits
    refine ⟨true, p.met skipped span rest, hfind, run_find hfind, ⟨p.body_met ha, rfl, rfl⟩, ?_, ?_,
      fun h => by cases h⟩
    · simp only [true_iff]
      exact ⟨_, Nat.le_add_right _ _, hplace⟩
    · intro i hi h hmin
      obtain ⟨k, rfl⟩ := Nat.exists_eq_add_of_le hi
      have hle := hmin _ (Nat.le_add_right _ _) hplace
      have hnot : ¬ k < skipped.length := fun hk => hleast k hk ((p.fitsAt_body k).1 h)
      obtain rfl : k = skipped.length := by omega
      have hholds := p.holds_met skipped span rest
      rwa [List.length_append, hlen] at hholds

/-- The pass after an attempt that failed. -/
theorem tries_of_none (hf : p.matcher.scanFault? = none) {tested : ℕ}
    (ha : attempt p.matcher.steps p.cursor.after p.memory = (⟨none, tested⟩, p.memory))
    (hnot : ¬ p.cursor.body.FitsAt tests p.cursor.position)
    (hwhere : (∃ j, p.cursor.body.FailsAt tests p.cursor.position j ∧
        (p.cursor.advance tested).position = p.cursor.position + j + 1) ∨
      (p.cursor.body.RunsOut tests p.cursor.position ∧
        (p.cursor.advance tested).position = (p.cursor.advance tested).body.length)) :
    ∃ found q, p.Tries tests found q := by
  have hmatch := matchHere_of_attempt_none hf ha
  refine ⟨false, _, hmatch, run_matchHere hmatch, ⟨p.cursor.body_advance tested, rfl, rfl⟩, ?_,
    (fun h => by cases h), fun _ => ⟨rfl, rfl, hwhere⟩⟩
  simp only [Bool.false_eq_true, false_iff]
  exact hnot

theorem tries_of_ready (hsteps : p.matcher.steps = tests.map .ofTest)
    (hf : p.matcher.scanFault? = none) : ∃ found q, p.Tries tests found q := by
  have hposition : ∀ n ≤ p.cursor.after.length, (p.cursor.advance n).position = p.cursor.position + n :=
    fun n hn => by simp [Cursor.position, Cursor.advance, hn]
  rcases attempt_cases tests p.cursor.after p.memory with
    ⟨span, rest, hafter, hlen, h, ha⟩ | ⟨j, h, ha⟩ | ⟨h, ha⟩
  all_goals rw [← hsteps] at ha
  · have hmatch := matchHere_of_attempt_some hf hafter ha
    refine ⟨true, _, hmatch, run_matchHere hmatch, ⟨p.body_met hafter, rfl, rfl⟩, ?_, fun _ => ?_,
      fun h => by cases h⟩
    · simp only [true_iff]
      exact (p.fitsAt_body 0).2 h
    · have hholds := p.holds_met [] span rest
      rwa [List.append_nil, hlen] at hholds
  · have hfails : p.cursor.body.FailsAt tests p.cursor.position j := h.append p.cursor.before
    have hlt := h.lt
    rw [Nat.zero_add] at hlt
    exact tries_of_none hf ha hfails.not_fitsAt (.inl ⟨j, hfails, hposition (j + 1) hlt⟩)
  · have hout : p.cursor.body.RunsOut tests p.cursor.position := h.append p.cursor.before
    refine tries_of_none hf ha hout.not_fitsAt (.inr ⟨hout, ?_⟩)
    rw [hposition _ (Nat.le_refl _), p.cursor.body_advance]
    exact List.length_append.symm

/-- Pure steps find the leftmost place where they fit, from the cursor on or right at it. -/
theorem scan_leftmost (p : Pass σ) (hsteps : p.matcher.steps = tests.map .ofTest) (hne : tests ≠ [])
    (hstate : p.matcher.state = .idle ∨ p.matcher.state = .exhausted) :
    (∃ found q, p.Finds tests found q) ∧ ∃ found q, p.Tries tests found q := by
  have hf : p.matcher.scanFault? = none := by
    rcases hstate with h | h <;> simp [Matcher.scanFault?, hsteps, hne, h]
  exact ⟨finds_of_ready hsteps hne hf, tries_of_ready hsteps hf⟩

theorem scan_leftmost_nested :
    let p : Pass Unit := { overNestedPops .exhausted with cursor := .ofBody nestedPops 0 }
    p.matcher.steps = poppedConstant.map .ofTest ∧ poppedConstant ≠ [] ∧
      (p.matcher.state = .idle ∨ p.matcher.state = .exhausted) ∧
      (∃ found q, p.Finds poppedConstant found q) ∧ ∃ found q, p.Tries poppedConstant found q :=
  ⟨rfl, by decide, .inr rfl, scan_leftmost { overNestedPops .exhausted with cursor := .ofBody nestedPops 0 }
    rfl (by decide) (.inr rfl)⟩

end Pass
end ClosedWorld
