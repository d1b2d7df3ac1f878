import ClosedWorld.Pattern.Registers
import ClosedWorld.Proofs.Pattern.Sweep

/-!
# A matcher in its registers

What a matcher holds determines its registers (`Matcher.registers`), and every operation on the registers
comes out where the operation on the matcher does, with the same answer (`find_inRegisters`,
`replace_inRegisters`, `removeAll_inRegisters`). A scan works through registers that are those of no
matcher, so it is compared as a whole (`attemptOnward_eq`).
-/

namespace ClosedWorld

variable {σ : Type}

/-! ### The registers by what is held -/

namespace Matcher

def registers (m : Matcher σ) : Registers σ :=
  match m.state with
  | .idle => { token := m.token, steps := m.steps, trailing := m.trailing }
  | .exhausted =>
    { token := m.token, steps := m.steps, phase := .exhausted, trailing := m.trailing }
  | .matched start captures =>
    { token := m.token, steps := m.steps, phase := .matched, start
      captures := captures.map (·.node)
      actions := captures.map (·.rewrite?)
      trailing := m.trailing }
  | .replaced start captured removed =>
    { token := m.token, steps := m.steps, phase := .replaced, start, captures := captured
      actions := captured.map fun _ => none
      trailing := m.trailing
      removed }

/-- The registers of a scan that has captured nothing yet. -/
def scanning (m : Matcher σ) : Registers σ :=
  { token := m.token, steps := m.steps, phase := .scanning, trailing := m.trailing }

variable {m : Matcher σ}

@[simp] theorem registers_token : m.registers.token = m.token := by
  unfold registers; split <;> rfl

@[simp] theorem registers_steps : m.registers.steps = m.steps := by
  unfold registers; split <;> rfl

theorem registers_reset : m.registers.reset = m.reset.registers := by
  simp only [Registers.reset, reset, registers_token, registers_steps]
  rfl

theorem registers_removed : m.registers.removed = m.removed := by
  unfold registers removed; split <;> simp [*]

theorem registers_captures : m.registers.captures = m.captured := by
  unfold registers captured; split <;> simp [*]

theorem registers_span? : m.registers.span? = m.span? := by
  unfold registers span? captured Registers.span?
  cases m.state <;> rfl

theorem registers_captured? (h : Handle) : m.registers.captured? h = m.captured? h := by
  rw [Registers.captured?, captured?, registers_token, registers_captures, ite_not]

theorem registers_handle? (i : ℕ) : m.registers.handle? i = m.handle? i := by
  rw [Registers.handle?, handle?, registers_token, registers_steps]

theorem registers_addStep (s : Step σ) :
    m.registers.addStep s = (m.addStep s).map fun x => (x.1, x.2.registers) := by
  rcases m with ⟨token, steps, state, trailing⟩
  cases state <;> simp [registers, Registers.addStep, addStep, Except.map]

theorem registers_queue (i : ℕ) (w : Rewrite) :
    m.registers.queue i w = (m.queue i w).map registers := by
  rcases m with ⟨token, steps, state, trailing⟩
  cases state with
  | idle | exhausted | replaced => rfl
  | matched start captures =>
    have hnode : (captures.modify i fun c => { c with rewrite? := some w }).map (·.node) =
        captures.map (·.node) := by
      refine List.ext_getElem? fun j => ?_
      rw [List.getElem?_map, List.getElem?_modify, List.getElem?_map]
      by_cases h : i = j <;> simp [h, Function.comp_def]
    have haction : (captures.modify i fun c => { c with rewrite? := some w }).map (·.rewrite?) =
        (captures.map (·.rewrite?)).set i (some w) := by
      refine List.ext_getElem? fun j => ?_
      rw [List.getElem?_map, List.getElem?_modify, List.getElem?_set', List.getElem?_map]
      by_cases h : i = j <;> simp [h, Function.comp_def]
    by_cases h : i < captures.length
    · simp only [registers, Registers.queue, queue, List.length_map, h, if_true, Except.map, hnode,
        haction]
      rfl
    · simp only [registers, Registers.queue, queue, List.length_map, h, if_false, Except.map]
      rfl

theorem registers_queueFor (h : Handle) (w : Rewrite) :
    m.registers.queueFor h w = (m.queueFor h w).map registers := by
  by_cases ht : h.token = m.token
  · rw [queueFor, if_pos ht, ← registers_queue, Registers.queueFor, registers_token,
      if_neg (not_not.2 ht)]
  · rw [queueFor, if_neg ht, Registers.queueFor, registers_token, if_pos ht]
    rcases m with ⟨token, steps, state, trailing⟩
    cases state <;> rfl

theorem registers_queueRemoveAll :
    m.registers.queueRemoveAll = m.queueRemoveAll.map registers := by
  rcases m with ⟨token, steps, state, trailing⟩
  cases state with
  | idle | exhausted | replaced => rfl
  | matched start captures =>
    simp only [queueRemoveAll, Except.map, registers, List.map_map]
    exact congrArg Except.ok (by simp [Function.comp_def])

theorem registers_appendTrailing (insn : Instruction) :
    m.registers.appendTrailing insn = (m.appendTrailing insn).registers := by
  rcases m with ⟨token, steps, state, trailing⟩
  cases state <;> rfl

theorem registers_beginScan_of_fault {e : MatchError} (h : m.scanFault? = some e) :
    m.registers.beginScan = .error e := by
  rcases m with ⟨token, steps, state, trailing⟩
  cases steps with
  | nil =>
    cases h
    simp [Registers.beginScan]
  | cons s ss => cases state <;> cases h <;> rfl

theorem registers_beginScan (h : m.scanFault? = none) : m.registers.beginScan = .ok m.scanning := by
  rcases m with ⟨token, _ | ⟨s, ss⟩, state, trailing⟩
  · cases h
  · cases state <;> cases h <;> rfl

/-- The end of a scan with a capture for each step. -/
theorem registers_afterScan {start : ℕ} {captured : Body} (h : captured.length = m.steps.length) :
    { m.scanning with start, captures := captured }.endScan true =
      (m.afterScan (some (start, captured))).registers := by
  simp [scanning, Registers.endScan, afterScan, registers, Function.comp_def, List.map_const', h]

end Matcher

/-! ### Moving a cursor -/

namespace Cursor
variable {c : Cursor}

theorem advance_zero (c : Cursor) : c.advance 0 = c := by simp [advance]

theorem advance_advance (c : Cursor) (i j : ℕ) : (c.advance i).advance j = c.advance (i + j) := by
  simp only [advance, List.drop_drop, List.append_assoc, List.take_add]

theorem body_advance (c : Cursor) (i : ℕ) : (c.advance i).body = c.body := by
  simp [advance, body]

/-- A place after the cursor is found again from everywhere in the body. -/
theorem seek_advance (c : Cursor) (i j : ℕ) : (c.advance i).seek (c.position + j) = c.advance j := by
  rw [seek, body_advance, ofBody, body, position, List.take_length_add_append,
    List.drop_length_add_append]
  rfl

end Cursor

/-! ### Scans -/

theorem tested_of_attempt {steps : List (Step σ)} {b captured : Body} {m : σ}
    (h : (attempt steps b m).1.captured? = some captured) :
    (attempt steps b m).1.tested = captured.length := by
  induction steps generalizing b captured m with
  | nil =>
    obtain rfl : [] = captured := by simpa [attempt] using h
    rfl
  | cons s ss ih =>
    cases b with
    | nil => simp [attempt] at h
    | cons n ns =>
      rcases hs : s n m with ⟨_ | _, m'⟩
      · simp [attempt, hs] at h
      · simp only [attempt, hs] at h ⊢
        obtain ⟨c, hc, rfl⟩ := Option.map_eq_some_iff.1 h
        rw [ih hc, List.length_cons]

namespace RegisterPass

theorem testSteps_eq (ss : List (Step σ)) (r : Registers σ) (c : Cursor) (s : Supply) (m : σ) :
    testSteps ss ⟨r, c, s, m⟩ =
      ((attempt ss c.after m).1.captured?.isSome,
        ⟨{ r with captures := (attempt ss c.after m).1.captured?.elim [] (r.captures ++ ·) },
          c.advance (attempt ss c.after m).1.tested, s, (attempt ss c.after m).2⟩) := by
  induction ss generalizing r c m with
  | nil => simp [testSteps, attempt, Cursor.advance_zero]
  | cons t ss ih =>
    rcases c with ⟨before, _ | ⟨n, ns⟩⟩
    · simp [testSteps, attempt, Cursor.next?, Cursor.advance_zero]
    · rcases ht : t n m with ⟨_ | _, m'⟩
      · simp [testSteps, attempt, Cursor.next?, ht]
      · simp only [testSteps, attempt, Cursor.next?, ht, List.head?_cons, if_true]
        rw [ih, Cursor.advance_advance, Nat.add_comm 1]
        have hafter : (Cursor.advance ⟨before, n :: ns⟩ 1).after = ns := rfl
        rw [hafter]
        cases (attempt ss ns m').1.captured? <;> simp

/-- An attempt captures all or nothing, and says where it began if it captures. -/
theorem attemptHere_eq (r : Registers σ) (c : Cursor) (s : Supply) (m : σ) :
    attemptHere ⟨r, c, s, m⟩ =
      ((attempt r.steps c.after m).1.captured?.isSome,
        ⟨match (attempt r.steps c.after m).1.captured? with
          | some captured => { r with start := c.position, captures := captured }
          | none => { r with captures := [] },
          c.advance (attempt r.steps c.after m).1.tested, s, (attempt r.steps c.after m).2⟩) := by
  rw [attemptHere, testSteps_eq]
  cases (attempt r.steps c.after m).1.captured? <;> rfl

/-- Attempts from nothing captured on are a search, if there are enough of them. -/
theorem attemptOnward_eq {n : ℕ} {r : Registers σ} {c : Cursor} (s : Supply) (m : σ)
    (hr : r.captures = []) (hn : c.after.length < n) :
    attemptOnward n ⟨r, c, s, m⟩ =
      match search r.steps c.after m with
      | (some (skipped, captured), m) =>
        (true, ⟨{ r with start := c.position + skipped, captures := captured },
          c.advance (skipped + captured.length), s, m⟩)
      | (none, m) => (false, ⟨r, c.advance c.after.length, s, m⟩) := by
  induction n generalizing c m with
  | zero => omega
  | succ n ih =>
    rcases hc : c.after with _ | ⟨x, xs⟩
    · simp [attemptOnward, search, Cursor.hasNext, hc, Cursor.advance_zero]
    have hkept : { r with captures := [] } = r := by rw [← hr]
    have hround : attemptOnward (n + 1) ⟨r, c, s, m⟩ =
        let p := attemptHere ⟨r, c, s, m⟩
        if p.1 then (true, p.2)
        else attemptOnward n { p.2 with cursor := p.2.cursor.seek (c.position + 1) } := by
      have hnext : ¬ (!c.hasNext) = true := by simp [Cursor.hasNext, hc]
      refine (if_neg hnext).trans ?_
      rcases attemptHere ⟨r, c, s, m⟩ with ⟨_ | _, p⟩ <;> rfl
    rw [hround, attemptHere_eq, hc]
    rcases ha : attempt r.steps (x :: xs) m with ⟨⟨_ | captured, tested⟩, m'⟩
    · have hafter : (c.advance 1).after = xs := by rw [Cursor.advance, hc]; rfl
      have hpos : (c.advance 1).position = c.position + 1 := by simp [Cursor.advance, Cursor.position, hc]
      have hlen : (c.advance 1).after.length < n := by
        rw [hc, List.length_cons] at hn
        rw [hafter]
        exact Nat.lt_of_succ_lt_succ hn
      simp only [hkept, Option.isSome_none, Bool.false_eq_true, if_false, Cursor.seek_advance, search, ha,
        ih m' hlen, hafter, hpos]
      rcases search r.steps xs m' with ⟨_ | ⟨skipped, captured⟩, m''⟩
      · simp only [Cursor.advance_advance, Option.map_none, List.length_cons, Nat.add_comm 1]
      · simp only [Cursor.advance_advance, Option.map_some, Nat.add_assoc, Nat.add_comm 1]
    · have hcaptured : (attempt r.steps (x :: xs) m).1.captured? = some captured := by rw [ha]
      have htested : tested = captured.length := by simpa only [ha] using tested_of_attempt hcaptured
      simp [ha, search, htested]

theorem removeOnward_of_match {p q r : RegisterPass σ} {registers : Registers σ} {changed : Bool}
    {n count : ℕ} (h : p.find = .ok (true, q)) (hq : q.registers.queueRemoveAll = .ok registers)
    (hr : { q with registers }.replace = .ok (changed, r)) (hremoved : r.registers.removed ≠ 0) :
    p.removeOnward (n + 1) count = r.reset.removeOnward n (count + 1) := by
  simp only [removeOnward, h, hq, hr, if_neg hremoved]

end RegisterPass

/-! ### Passes in registers -/

theorem perform_rewrite? (x : Capture) (c : Cursor) (s : Supply) :
    RegisterPass.perform x.rewrite? c s = x.commit c s := by
  rcases x with ⟨n, _ | ⟨insn⟩ | _⟩ <;> rfl

theorem firstMismatch?_map_node (captures : List Capture) (start : ℕ) (b : Body) :
    RegisterPass.firstMismatch? start (captures.map (·.node)) b =
      firstMismatch captures (b.drop start) := by
  induction captures generalizing start with
  | nil => rfl
  | cons x xs ih =>
    have hrest : (((xs.map (·.node)).zipIdx 1).findSome? fun x =>
        if (b[start + x.2]?).map (·.id) = some x.1.id then none
        else some (x.1.id, (b[start + x.2]?).map (·.id))) = firstMismatch xs (b.drop (start + 1)) := by
      rw [← ih, RegisterPass.firstMismatch?, List.zipIdx_succ, List.findSome?_map]
      simp [Function.comp_def, Nat.add_right_comm, Nat.add_assoc]
    simp only [RegisterPass.firstMismatch?, List.map_cons, List.zipIdx_cons, List.findSome?_cons,
      Nat.add_zero, Nat.zero_add, hrest, firstMismatch, List.head?_drop, List.tail_drop]
    split <;> simp_all

namespace Pass
variable {p q : Pass σ}

def inRegisters (p : Pass σ) : RegisterPass σ := ⟨p.matcher.registers, p.cursor, p.supply, p.memory⟩

theorem reset_inRegisters : p.inRegisters.reset = p.reset.inRegisters :=
  congrArg (RegisterPass.mk · p.cursor p.supply p.memory) Matcher.registers_reset

theorem scan_of_fault {e : MatchError} (hf : p.matcher.scanFault? = some e)
    (f : RegisterPass σ → Bool × RegisterPass σ) : p.inRegisters.scan f = .error e := by
  simp only [RegisterPass.scan, inRegisters, Matcher.registers_beginScan_of_fault hf]
  rfl

theorem scan_of_ready (hf : p.matcher.scanFault? = none)
    (f : RegisterPass σ → Bool × RegisterPass σ) :
    p.inRegisters.scan f =
      let x := f ⟨p.matcher.scanning, p.cursor, p.supply, p.memory⟩
      .ok (x.1, { x.2 with registers := x.2.registers.endScan x.1 }) := by
  simp only [RegisterPass.scan, inRegisters, Matcher.registers_beginScan hf]
  rfl

/-- The pass after a scan with a capture for each step. -/
theorem afterScan_inRegisters {start : ℕ} {captured : Body} (h : captured.length = p.matcher.steps.length)
    (n : ℕ) (m : σ) :
    (⟨{ p.matcher.scanning with start, captures := captured }.endScan true, p.cursor.advance n, p.supply,
      m⟩ : RegisterPass σ) = (p.afterScan (some (start, captured)) n m).2.inRegisters :=
  congrArg (RegisterPass.mk · _ p.supply m) (Matcher.registers_afterScan h)

theorem matchHere_inRegisters :
    p.inRegisters.matchHere = p.matchHere.map fun x => (x.1, x.2.inRegisters) := by
  cases hf : p.matcher.scanFault? with
  | some e =>
    simp only [matchHere, hf, RegisterPass.matchHere, scan_of_fault hf]
    rfl
  | none =>
    have hsteps : p.matcher.scanning.steps = p.matcher.steps := rfl
    rw [RegisterPass.matchHere, scan_of_ready hf, RegisterPass.attemptHere_eq]
    simp only [matchHere, hf, hsteps]
    rcases ha : attempt p.matcher.steps p.cursor.after p.memory with ⟨⟨_ | captured, tested⟩, m⟩
    · rfl
    · have hcaptured : (attempt p.matcher.steps p.cursor.after p.memory).1.captured? = some captured := by
        rw [ha]
      have hlen := (length_le_of_attempt hcaptured).1
      exact congrArg (fun q => Except.ok (true, q)) (afterScan_inRegisters hlen tested m)

theorem find_inRegisters : p.inRegisters.find = p.find.map fun x => (x.1, x.2.inRegisters) := by
  cases hf : p.matcher.scanFault? with
  | some e =>
    simp only [find, hf, RegisterPass.find, scan_of_fault hf]
    rfl
  | none =>
    have hscan := RegisterPass.attemptOnward_eq (r := p.matcher.scanning) p.supply p.memory rfl
      (Nat.lt_succ_self p.cursor.after.length)
    have hsteps : p.matcher.scanning.steps = p.matcher.steps := rfl
    rw [RegisterPass.find, scan_of_ready hf]
    simp only [find, hf, inRegisters, hscan, hsteps]
    rcases hs : search p.matcher.steps p.cursor.after p.memory with ⟨_ | ⟨skipped, captured⟩, m⟩
    · rfl
    · have hlen := (length_le_of_search (congrArg (·.1) hs)).1
      exact congrArg (fun q => Except.ok (true, q)) (afterScan_inRegisters hlen _ m)

theorem replace_inRegisters :
    p.inRegisters.replace = p.replace.map fun x => (x.1, x.2.inRegisters) := by
  rcases hs : p.matcher.state with _ | _ | ⟨start, captures⟩ | _
  all_goals simp only [replace, hs, inRegisters, RegisterPass.replace, Matcher.registers, Registers.checkMatched]
  · rfl
  · rfl
  · simp only [if_true, List.length_map, firstMismatch?_map_node]
    by_cases hpos : p.cursor.position = start + captures.length
    · simp only [hpos, ne_eq, not_true_eq_false, if_false]
      cases firstMismatch captures (p.cursor.body.drop start) with
      | some x => rfl
      | none =>
        have hactions : (captures.map (·.rewrite?)).map (fun _ => none) =
            (captures.map (·.node)).map fun _ => (none : Option Rewrite) := by
          rw [List.map_map, List.map_map]
          rfl
        simp only [rewriteSpan, List.foldl_map, List.any_map, List.countP_map, hactions,
          perform_rewrite?]
        rfl
    · simp only [hpos, ne_eq, not_false_eq_true, if_true]
      rfl
  · rfl

/-! ### The sweep -/

theorem exists_queue_of_removeMatched {changed : Bool} (h : p.removeMatched = .ok (changed, q)) :
    ∃ matcher, p.matcher.queueRemoveAll = .ok matcher ∧
      { p with matcher }.replace = .ok (changed, q) := by
  unfold removeMatched at h
  cases hm : p.matcher.queueRemoveAll with
  | error e => rw [hm] at h; cases h
  | ok matcher => rw [hm] at h; exact ⟨matcher, rfl, h⟩

theorem exists_append_of_attempt {steps : List (Step σ)} {b captured : Body} {m : σ}
    (h : (attempt steps b m).1.captured? = some captured) : ∃ rest, b = captured ++ rest := by
  induction steps generalizing b captured m with
  | nil =>
    obtain rfl : [] = captured := by simpa [attempt] using h
    exact ⟨b, rfl⟩
  | cons s ss ih =>
    cases b with
    | nil => simp [attempt] at h
    | cons n ns =>
      rcases hs : s n m with ⟨_ | _, m'⟩
      · simp [attempt, hs] at h
      · simp only [attempt, hs] at h
        obtain ⟨c, hc, rfl⟩ := Option.map_eq_some_iff.1 h
        obtain ⟨rest, rfl⟩ := ih hc
        exact ⟨rest, rfl⟩

/-- What a search captures stands in the body behind what it skipped. -/
theorem exists_append_of_search {steps : List (Step σ)} {b captured : Body} {m : σ} {k : ℕ}
    (h : (search steps b m).1 = some (k, captured)) :
    ∃ skipped rest, b = skipped ++ captured ++ rest ∧ skipped.length = k := by
  induction b generalizing k captured m with
  | nil => simp [search] at h
  | cons n ns ih =>
    rcases ha : attempt steps (n :: ns) m with ⟨⟨_ | c, tested⟩, m'⟩
    · simp only [search, ha] at h
      obtain ⟨⟨k, c⟩, hc, heq⟩ := Option.map_eq_some_iff.1 h
      obtain ⟨rfl, rfl⟩ := Prod.mk.inj heq
      obtain ⟨skipped, rest, rfl, rfl⟩ := ih hc
      exact ⟨n :: skipped, rest, rfl, rfl⟩
    · simp only [search, ha, Option.some.injEq, Prod.mk.injEq] at h
      obtain ⟨rfl, rfl⟩ := h
      obtain ⟨rest, hrest⟩ := exists_append_of_attempt (congrArg (·.1.captured?) ha)
      exact ⟨[], rest, hrest, rfl⟩

/-- A scan that matches holds a span that stands right before its cursor. -/
theorem met_of_find (h : p.find = .ok (true, q)) : ∃ skipped span rest m,
    span.length = p.matcher.steps.length ∧ p.matcher.steps ≠ [] ∧
      q = { p with memory := m }.met skipped span rest := by
  cases hf : p.matcher.scanFault? with
  | some e => simp [find, hf] at h
  | none =>
    have hne : p.matcher.steps ≠ [] := by
      intro hnil
      simp [Matcher.scanFault?, hnil] at hf
    rcases hs : search p.matcher.steps p.cursor.after p.memory with ⟨_ | ⟨k, span⟩, m⟩
    · simp [find, hf, hs, afterScan] at h
    · have hfound := congrArg (·.1) hs
      obtain ⟨skipped, rest, ha, rfl⟩ := exists_append_of_search hfound
      have hq := h.symm.trans (find_of_search_some hf ha hs)
      exact ⟨skipped, span, rest, m, (length_le_of_search hfound).1, hne,
        (Prod.mk.inj (Except.ok.inj hq)).2⟩

theorem removeOnward_inRegisters {n count : ℕ} (ht : p.matcher.trailing = [])
    (hn : p.cursor.after.length < n) :
    p.inRegisters.removeOnward n count =
      ((p.removeOnward count).1, (p.removeOnward count).2.inRegisters) := by
  induction n generalizing p count with
  | zero => omega
  | succ n ih =>
    have hfind := find_inRegisters (p := p)
    rcases h : p.find with e | ⟨_ | _, q⟩
    · rw [removeOnward_of_fault h, RegisterPass.removeOnward, hfind, h]
      rfl
    · rw [removeOnward_of_miss h, RegisterPass.removeOnward, hfind, h, ← reset_inRegisters]
      rfl
    · obtain ⟨skipped, span, rest, m, hlen, hne, rfl⟩ := met_of_find h
      obtain ⟨changed, r, hr, hremoved, -⟩ :=
        removeMatched_met (p := { p with memory := m }) ht skipped span rest
      have hpos : r.matcher.removed ≠ 0 := by
        rw [hremoved, hlen]
        exact fun h => hne (List.length_eq_zero_iff.1 h)
      have hless : r.reset.cursor.after.length < n := by
        have hafter := after_of_removeMatched hr
        have hlt := length_after_lt_of_find h
        rw [← hafter] at hlt
        exact Nat.lt_of_lt_of_le hlt (Nat.le_of_lt_succ hn)
      let q : Pass σ := { p with memory := m }.met skipped span rest
      obtain ⟨matcher, hqueue, hreplace⟩ := exists_queue_of_removeMatched hr
      have hmatch : p.inRegisters.find = .ok (true, q.inRegisters) := by
        rw [find_inRegisters, h]
        rfl
      have hregisters : q.inRegisters.registers.queueRemoveAll = .ok matcher.registers :=
        Matcher.registers_queueRemoveAll.trans (congrArg (Except.map _) hqueue)
      have hcommit : { q.inRegisters with registers := matcher.registers }.replace =
          .ok (changed, r.inRegisters) :=
        replace_inRegisters.trans (congrArg (Except.map _) hreplace)
      rw [removeOnward_of_match h hr hpos, ← ih rfl hless, ← reset_inRegisters]
      refine RegisterPass.removeOnward_of_match hmatch hregisters hcommit ?_
      exact fun h => hpos (Matcher.registers_removed.symm.trans h)

theorem removeAll_inRegisters :
    p.inRegisters.removeAll = (p.removeAll.1, p.removeAll.2.inRegisters) := by
  let s : Pass σ := { p with matcher := p.matcher.reset, cursor := p.cursor.seek 0 }
  have hs : { p.inRegisters.reset with cursor := p.cursor.seek 0 } = s.inRegisters :=
    congrArg (RegisterPass.mk · _ p.supply p.memory) Matcher.registers_reset
  have h : s.inRegisters.removeOnward (s.cursor.after.length + 1) 0 =
      ((s.removeOnward 0).1, (s.removeOnward 0).2.inRegisters) :=
    removeOnward_inRegisters rfl (Nat.lt_succ_self _)
  rw [← hs] at h
  exact h

end Pass
end ClosedWorld
