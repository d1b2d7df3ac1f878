import ClosedWorld.Pattern.Machine
import ClosedWorld.Proofs.Pattern.Registers

/-!
# The machine follows the pass

A pass has its place on the machine (`Pass.machine`), and a routine that starts there ends in the place of
what the pass becomes, with the same answer (`find_machine`, `replace_machine`). A routine that is refused
ends where it started, although nothing on the machine takes an effect back (`RegisterPass.settle`). The
effects are followed on registers of any kind, as a scan works through registers that are those of no
matcher.
-/

namespace ClosedWorld

variable {σ α : Type}

/-! ### Places by number -/

namespace Cursor
variable {c : Cursor}

def caret (c : Cursor) : Caret := ⟨c.body, c.position⟩

theorem position_le (c : Cursor) : c.position ≤ c.body.length := by simp [position, body]

theorem caret_seek (c : Cursor) (i : ℕ) : (c.seek i).caret = ⟨c.body, min i c.body.length⟩ := by
  simp [caret, seek, ofBody, position, body]

theorem getElem?_position (c : Cursor) : c.body[c.position]? = c.next? := by
  rw [body, position, next?, List.getElem?_append_right (Nat.le_refl _), Nat.sub_self,
    List.head?_eq_getElem?]

theorem position_lt_iff : c.position < c.body.length ↔ c.hasNext = true := by
  rcases c with ⟨before, _ | ⟨n, ns⟩⟩ <;> simp [position, body, hasNext]

theorem length_sub_position (c : Cursor) : c.body.length - c.position = c.after.length := by
  simp [position, body]

theorem advance_of_next?_eq_none (h : c.next? = none) : c.advance 1 = c := by
  rcases c with ⟨before, _ | ⟨n, ns⟩⟩
  · simp [advance]
  · cases h

theorem caret_advance {n : Node} (h : c.next? = some n) :
    (c.advance 1).caret = ⟨c.body, c.position + 1⟩ := by
  rcases c with ⟨before, _ | ⟨m, ns⟩⟩
  · cases h
  · simp [caret, advance, position, body]

theorem insertIdx_length (pre rest : Body) (n : Node) :
    (pre ++ rest).insertIdx pre.length n = pre ++ n :: rest := by
  induction pre with
  | nil => rfl
  | cons m ms ih => exact congrArg (m :: ·) ih

theorem caret_push (c : Cursor) (insn : Instruction) (s : Supply) :
    (c.push insn s).1.caret = ⟨c.body ++ [s.node insn], c.position⟩ := by
  simp [caret, push, position, body]

theorem caret_insert (c : Cursor) (insn : Instruction) (s : Supply) :
    (c.insert insn s).1.caret = ⟨c.body.insertIdx c.position (s.node insn), c.position + 1⟩ := by
  simp [caret, insert, position, body, insertIdx_length]

theorem caret_erase (c : Cursor) : c.erase.caret = ⟨c.body.eraseIdx c.position, c.position⟩ := by
  have hbody : c.erase.body = c.body.eraseIdx c.position := by
    rw [erase, body, body, position, List.eraseIdx_append_of_length_le (Nat.le_refl _), Nat.sub_self,
      List.eraseIdx_zero]
  rw [caret, hbody]
  rfl

theorem caret_set {n : Node} (h : c.next? = some n) (insn : Instruction) (s : Supply) :
    (c.set insn s).1.caret = ⟨c.body.set c.position (s.node insn), c.position⟩ := by
  rcases c with ⟨before, _ | ⟨m, ns⟩⟩
  · cases h
  · simp [caret, set, position, body]

theorem set_of_next?_eq_none (h : c.next? = none) (insn : Instruction) (s : Supply) :
    c.set insn s = (c, s) := by
  rcases c with ⟨before, _ | ⟨n, ns⟩⟩
  · rfl
  · cases h

theorem set_snd {n : Node} (h : c.next? = some n) (insn : Instruction) (s : Supply) :
    (c.set insn s).2 = s.advance 1 := by
  rcases c with ⟨before, _ | ⟨m, ns⟩⟩
  · cases h
  · rfl

theorem erase_of_next?_eq_none (h : c.next? = none) : c.erase = c := by
  rcases c with ⟨before, _ | ⟨n, ns⟩⟩
  · rfl
  · cases h

end Cursor

/-! ### Routines one after the other -/

namespace Routine
variable {s : Machine σ}

theorem run_registers : registers.run s = .ok s.registers s := rfl

theorem run_caret : caret.run s = .ok s.caret s := rfl

theorem run_move (i : ℕ) : (move i).run s = .ok () { s with caret.position := i } := rfl

theorem run_rewriteBody (b : Body) : (rewriteBody b).run s = .ok () { s with caret.body := b } := rfl

theorem run_makeNode (insn : Instruction) :
    (makeNode insn).run s = .ok (s.supply.node insn) { s with supply := s.supply.advance 1 } := rfl

theorem run_test (t : Step σ) (n : Node) :
    (test t n).run s = .ok (t n s.memory).1 { s with memory := (t n s.memory).2 } := rfl

theorem run_advance_of_none (h : s.caret.body[s.caret.position]? = none) :
    advance.run s = .ok none s := by
  have hpeek : peek.run s = .ok none s := by rw [← h]; rfl
  simp only [advance, EStateM.run_bind, hpeek, EStateM.run_pure]

theorem run_advance_of_some {n : Node} (h : s.caret.body[s.caret.position]? = some n) :
    advance.run s = .ok (some n) { s with caret.position := s.caret.position + 1 } := by
  have hpeek : peek.run s = .ok (some n) s := by rw [← h]; rfl
  simp only [advance, EStateM.run_bind, hpeek, run_caret, run_move, EStateM.run_pure]

theorem run_insert (h : s.caret.position ≤ s.caret.body.length) (insn : Instruction) :
    (insert insn).run s = .ok ⟨s.supply.issued⟩ { s with
      caret := ⟨s.caret.body.insertIdx s.caret.position (s.supply.node insn), s.caret.position + 1⟩
      supply := s.supply.advance 1 } := by
  simp only [insert, insertAt, EStateM.run_bind, run_makeNode, run_caret, if_pos h, run_rewriteBody,
    run_move, EStateM.run_pure]
  rfl

theorem run_remove_of_none (h : s.caret.body[s.caret.position]? = none) : remove.run s = .ok none s := by
  have hnext : hasNext.run s = .ok false s := by
    rw [List.getElem?_eq_none_iff, ← Nat.not_lt] at h
    rw [← decide_eq_false h]
    rfl
  simp only [remove, EStateM.run_bind, hnext, Bool.false_eq_true, if_false, EStateM.run_pure]

theorem run_remove_of_some {n : Node} (h : s.caret.body[s.caret.position]? = some n) :
    remove.run s = .ok (some n) { s with caret.body := s.caret.body.eraseIdx s.caret.position } := by
  have hnext : hasNext.run s = .ok true s := by
    rw [← decide_eq_true (List.getElem?_eq_some_iff.1 h).1]
    rfl
  simp only [remove, removeAt, EStateM.run_bind, hnext, if_true, run_caret, h, run_rewriteBody,
    EStateM.run_pure]

theorem run_set_of_none (h : s.caret.body[s.caret.position]? = none) (insn : Instruction) :
    (set insn).run s = .ok none s := by
  have hpeek : peek.run s = .ok none s := by rw [← h]; rfl
  simp only [set, EStateM.run_bind, hpeek, EStateM.run_pure]

theorem run_set_of_some {n : Node} (h : s.caret.body[s.caret.position]? = some n) (insn : Instruction) :
    (set insn).run s = .ok (some n) { s with
      caret.body := s.caret.body.set s.caret.position (s.supply.node insn)
      supply := s.supply.advance 1 } := by
  have hpeek : peek.run s = .ok (some n) s := by rw [← h]; rfl
  simp only [set, EStateM.run_bind, hpeek, run_makeNode, run_caret, run_rewriteBody, EStateM.run_pure]

end Routine

/-! ### Registers on the machine -/

namespace RegisterPass

/-- The place of the registers of a pass. -/
def machine (p : RegisterPass σ) : Machine σ := ⟨p.registers, p.cursor.caret, p.supply, p.memory⟩

/-- Where a routine ends that starts in the place of a pass. -/
def settle (p : RegisterPass σ) : Except MatchError (α × RegisterPass σ) →
    EStateM.Result Fault (Machine σ) α
  | .ok (a, q) => .ok a q.machine
  | .error e => .error (.refused e) p.machine

variable {p : RegisterPass σ}

theorem machine_of_caret {c : Cursor} {x : Caret} (h : c.caret = x) (r : Registers σ) (s : Supply) (m : σ) :
    (⟨r, c, s, m⟩ : RegisterPass σ).machine = ⟨r, x, s, m⟩ := by rw [machine, h]

theorem getElem?_machine (p : RegisterPass σ) :
    p.machine.caret.body[p.machine.caret.position]? = p.cursor.next? :=
  p.cursor.getElem?_position

theorem seek_machine (i : ℕ) :
    (Routine.seek i).run p.machine = .ok () { p with cursor := p.cursor.seek i }.machine := by
  rw [machine_of_caret (p.cursor.caret_seek i)]
  rfl

theorem rewind_machine :
    Routine.rewind.run p.machine = .ok () { p with cursor := p.cursor.seek 0 }.machine := by
  rw [machine_of_caret (p.cursor.caret_seek 0), Nat.zero_min]
  rfl

theorem hasNext_machine : Routine.hasNext.run p.machine = .ok p.cursor.hasNext p.machine := by
  have h : decide (p.cursor.position < p.cursor.body.length) = p.cursor.hasNext := by
    rw [Bool.eq_iff_iff, decide_eq_true_iff, Cursor.position_lt_iff]
  rw [← h]
  rfl

theorem advance_machine :
    Routine.advance.run p.machine = .ok p.cursor.next? { p with cursor := p.cursor.advance 1 }.machine := by
  have hget := p.getElem?_machine
  cases h : p.cursor.next? with
  | none => rw [Routine.run_advance_of_none (hget.trans h), Cursor.advance_of_next?_eq_none h]
  | some n =>
    rw [Routine.run_advance_of_some (hget.trans h), machine_of_caret (Cursor.caret_advance h)]
    rfl

theorem advanceBy_machine (n : ℕ) (p : RegisterPass σ) :
    (Routine.advanceBy n).run p.machine = .ok () { p with cursor := p.cursor.advance n }.machine := by
  induction n generalizing p with
  | zero =>
    rw [Cursor.advance_zero]
    rfl
  | succ n ih =>
    rw [Routine.advanceBy, EStateM.run_bind, advance_machine, Nat.add_comm n, ← Cursor.advance_advance]
    exact ih _

theorem push_machine (insn : Instruction) :
    (Routine.push insn).run p.machine =
      .ok ⟨p.supply.issued⟩ { p with
        cursor := (p.cursor.push insn p.supply).1
        supply := (p.cursor.push insn p.supply).2 }.machine := by
  rw [machine_of_caret (p.cursor.caret_push insn p.supply)]
  rfl

theorem insert_machine (insn : Instruction) :
    (Routine.insert insn).run p.machine =
      .ok ⟨p.supply.issued⟩ { p with
        cursor := (p.cursor.insert insn p.supply).1
        supply := (p.cursor.insert insn p.supply).2 }.machine := by
  rw [Routine.run_insert p.cursor.position_le, machine_of_caret (p.cursor.caret_insert insn p.supply)]
  rfl

theorem remove_machine :
    Routine.remove.run p.machine = .ok p.cursor.next? { p with cursor := p.cursor.erase }.machine := by
  have hget := p.getElem?_machine
  cases h : p.cursor.next? with
  | none => rw [Routine.run_remove_of_none (hget.trans h), Cursor.erase_of_next?_eq_none h]
  | some n =>
    rw [Routine.run_remove_of_some (hget.trans h), machine_of_caret p.cursor.caret_erase]
    rfl

theorem set_machine (insn : Instruction) :
    (Routine.set insn).run p.machine = .ok p.cursor.next? { p with
      cursor := (p.cursor.set insn p.supply).1
      supply := (p.cursor.set insn p.supply).2 }.machine := by
  have hget := p.getElem?_machine
  cases h : p.cursor.next? with
  | none => rw [Routine.run_set_of_none (hget.trans h), Cursor.set_of_next?_eq_none h]
  | some n =>
    rw [Routine.run_set_of_some (hget.trans h), machine_of_caret (Cursor.caret_set h insn p.supply),
      Cursor.set_snd h]
    rfl

/-! ### Orders -/

theorem addStep_machine (t : Step σ) : (Routine.addStep t).run p.machine =
    p.settle ((p.registers.addStep t).map fun x => (x.1, { p with registers := x.2 })) := by
  rcases p with ⟨⟨token, steps, phase, start, captures, actions, trailing, removed⟩, c, s, m⟩
  cases phase <;> rfl

/-- A routine that begins with the check goes on in the same place, or is refused there. -/
theorem run_checkMatched_bind (f : Unit → Routine σ α) : (Routine.checkMatched >>= f).run p.machine =
    if p.registers.phase = .matched then (f ()).run p.machine
    else .error (.refused .notMatched) p.machine := by
  rcases p with ⟨⟨token, steps, phase, start, captures, actions, trailing, removed⟩, c, s, m⟩
  cases phase <;> rfl

theorem queue_machine (i : ℕ) (w : Rewrite) : (Routine.queue i w).run p.machine =
    p.settle ((p.registers.queue i w).map fun r => ((), { p with registers := r })) := by
  rw [Routine.queue, run_checkMatched_bind, Registers.queue, Registers.checkMatched]
  by_cases hphase : p.registers.phase = .matched
  · simp only [if_pos hphase, EStateM.run_bind, Routine.run_registers]
    by_cases hi : i < p.registers.actions.length
    · have hi' : i < p.machine.registers.actions.length := hi
      rw [if_pos hi, if_pos hi']
      rfl
    · have hi' : ¬ i < p.machine.registers.actions.length := hi
      rw [if_neg hi, if_neg hi']
      rfl
  · rw [if_neg hphase, if_neg hphase]
    rfl

theorem queueFor_machine (h : Handle) (w : Rewrite) : (Routine.queueFor h w).run p.machine =
    p.settle ((p.registers.queueFor h w).map fun r => ((), { p with registers := r })) := by
  rw [Routine.queueFor, EStateM.run_bind, Routine.run_registers, Registers.queueFor]
  have hregisters : p.machine.registers = p.registers := rfl
  simp only [hregisters]
  by_cases ht : h.token = p.registers.token
  · rw [if_neg (not_not.2 ht), if_neg (not_not.2 ht)]
    exact queue_machine h.index w
  · rw [if_pos ht, if_pos ht, run_checkMatched_bind, Registers.checkMatched]
    split <;> rfl

theorem queueRemoveAll_machine : Routine.queueRemoveAll.run p.machine =
    p.settle (p.registers.queueRemoveAll.map fun r => ((), { p with registers := r })) := by
  rw [Routine.queueRemoveAll, run_checkMatched_bind, Registers.queueRemoveAll, Registers.checkMatched]
  split <;> rfl

/-! ### Scans -/

theorem run_beginScan_bind (f : Unit → Routine σ α) : (Routine.beginScan >>= f).run p.machine =
    match p.registers.beginScan with
    | .ok r => (f ()).run { p with registers := r }.machine
    | .error e => .error (.refused e) p.machine := by
  rcases p with ⟨⟨token, _ | ⟨t, ts⟩, phase, start, captures, actions, trailing, removed⟩, c, s, m⟩
  · rfl
  · cases phase <;> rfl

theorem testSteps_machine (ts : List (Step σ)) (p : RegisterPass σ) :
    (Routine.testSteps ts).run p.machine = .ok (testSteps ts p).1 (testSteps ts p).2.machine := by
  induction ts generalizing p with
  | nil => rfl
  | cons t ts ih =>
    rw [Routine.testSteps, EStateM.run_bind, advance_machine, testSteps]
    cases hn : p.cursor.next? with
    | none =>
      simp only
      rw [Cursor.advance_of_next?_eq_none hn]
      rfl
    | some n =>
      simp only [EStateM.run_bind, Routine.run_test]
      have hmemory : { p with cursor := p.cursor.advance 1 }.machine.memory = p.memory := rfl
      rw [hmemory]
      cases hb : (t n p.memory).1
      · rfl
      · exact ih ⟨{ p.registers with captures := p.registers.captures ++ [n] }, p.cursor.advance 1, p.supply,
          (t n p.memory).2⟩

theorem attempt_machine (p : RegisterPass σ) :
    Routine.attempt.run p.machine = .ok p.attemptHere.1 p.attemptHere.2.machine := by
  let q : RegisterPass σ := { p with registers := { p.registers with captures := [] } }
  have hq : (Routine.testSteps p.registers.steps).run q.machine = _ := testSteps_machine _ q
  have hbegin : Routine.attempt.run p.machine =
      (do
        if ← Routine.testSteps p.registers.steps then do
          Routine.update fun r => { r with start := p.cursor.position }
          return true
        else return false : Routine σ Bool).run q.machine := rfl
  rw [hbegin, EStateM.run_bind, hq, attemptHere]
  rcases testSteps p.registers.steps q with ⟨_ | _, r⟩
  · rfl
  · rfl

/-- An attempt leaves the body alone, and the next one begins a node further on. -/
theorem seek_attemptHere (p : RegisterPass σ) :
    p.attemptHere.2.cursor.seek (p.cursor.position + 1) = p.cursor.advance 1 := by
  rw [attemptHere_eq]
  exact p.cursor.seek_advance _ 1

/-- With a round for each node and one for the end, the attempts come to an end. -/
theorem attemptOnward_machine {n : ℕ} (hn : p.cursor.after.length < n) :
    (Routine.attemptOnward n).run p.machine =
      .ok (p.attemptOnward n).1 (p.attemptOnward n).2.machine := by
  induction n generalizing p with
  | zero => exact absurd hn (Nat.not_lt_zero _)
  | succ n ih =>
    have hplace : p.machine.caret.position = p.cursor.position := rfl
    rw [Routine.attemptOnward, EStateM.run_bind, Routine.run_caret]
    simp only [EStateM.run_bind, hasNext_machine, hplace, attemptOnward]
    cases hnext : p.cursor.hasNext
    · rfl
    · have hless : (p.cursor.advance 1).after.length < n := by
        have hpos : p.cursor.after ≠ [] := by simpa [Cursor.hasNext] using hnext
        have := List.length_pos_iff.2 hpos
        simp only [Cursor.advance, List.length_drop]
        omega
      rw [← p.seek_attemptHere] at hless
      simp only [if_true, EStateM.run_bind, attempt_machine]
      rcases hq : p.attemptHere with ⟨_ | _, q⟩
      all_goals rw [hq] at hless
      · simp only [Bool.false_eq_true, if_false, EStateM.run_bind, seek_machine]
        exact ih (p := { q with cursor := q.cursor.seek (p.cursor.position + 1) }) hless
      · rfl

theorem scan_machine {x : Routine σ Bool} {f : RegisterPass σ → Bool × RegisterPass σ}
    (hx : ∀ r : Registers σ, x.run { p with registers := r }.machine =
      .ok (f { p with registers := r }).1 (f { p with registers := r }).2.machine) :
    (do
      Routine.beginScan
      let matched ← x
      Routine.endScan matched
      return matched : Routine σ Bool).run p.machine = p.settle (p.scan f) := by
  rw [run_beginScan_bind, scan]
  cases p.registers.beginScan with
  | error e => rfl
  | ok r =>
    simp only [EStateM.run_bind, hx]
    rfl

theorem matchHere_machine : Routine.matchHere.run p.machine = p.settle p.matchHere :=
  scan_machine fun r => attempt_machine { p with registers := r }

theorem find_machine : Routine.find.run p.machine = p.settle p.find := by
  refine scan_machine (x := do
    let c ← Routine.caret
    Routine.attemptOnward (c.body.length - c.position + 1)) fun r => ?_
  let q : RegisterPass σ := { p with registers := r }
  have hrounds : q.machine.caret.body.length - q.machine.caret.position = q.cursor.after.length :=
    q.cursor.length_sub_position
  rw [EStateM.run_bind, Routine.run_caret]
  simp only [q] at hrounds
  simp only [hrounds]
  exact attemptOnward_machine (Nat.lt_succ_self _)

/-! ### Commits -/

theorem checkPosition_machine (stop : ℕ) : (Routine.checkPosition stop).run p.machine =
    if p.cursor.position ≠ stop then .error (.refused (.cursorMoved stop p.cursor.position)) p.machine
    else .ok () p.machine := by
  have hplace : p.machine.caret.position = p.cursor.position := rfl
  rw [Routine.checkPosition, EStateM.run_bind, Routine.run_caret]
  simp only [hplace]
  split <;> rfl

theorem checkCaptures_machine (start offset : ℕ) (captures : Body) :
    (Routine.checkCaptures start offset captures).run p.machine =
      match (captures.zipIdx offset).findSome? fun (n, offset) =>
        let found := (p.cursor.body[start + offset]?).map (·.id)
        if found = some n.id then none else some (n.id, found) with
      | some (expected, found) => .error (.refused (.captureMismatch expected found)) p.machine
      | none => .ok () p.machine := by
  induction captures generalizing offset with
  | nil => rfl
  | cons n ns ih =>
    have hbody : p.machine.caret.body = p.cursor.body := rfl
    rw [Routine.checkCaptures, EStateM.run_bind, Routine.run_caret, List.zipIdx_cons, List.findSome?_cons]
    simp only [hbody]
    by_cases hfound : (p.cursor.body[start + offset]?).map (·.id) = some n.id
    · rw [if_pos hfound, if_pos hfound]
      exact ih (offset + 1)
    · rw [if_neg hfound, if_neg hfound]
      rfl

theorem takeAction_machine (step : ℕ) : (Routine.takeAction step).run p.machine =
    .ok (p.registers.actions[step]?).join
      { p with registers := { p.registers with actions := p.registers.actions.set step none } }.machine :=
  rfl

theorem rewriteOnward_succ_machine (n step : ℕ) (changed : Bool) (removed : ℕ) {a : Option Rewrite}
    (ha : (p.registers.actions[step]?).join = a) :
    (Routine.rewriteOnward (n + 1) step changed removed).run p.machine =
      (Routine.rewriteOnward n (step + 1) (changed || a.isSome)
        (removed + if a == some .remove then 1 else 0)).run
        { p with
          registers := { p.registers with actions := p.registers.actions.set step none }
          cursor := (perform a p.cursor p.supply).1
          supply := (perform a p.cursor p.supply).2 }.machine := by
  rw [Routine.rewriteOnward, EStateM.run_bind, takeAction_machine, ha]
  rcases a with _ | ⟨insn⟩ | _
  · simp only [EStateM.run_bind, advance_machine, Option.isSome_none, Bool.or_false]
    rfl
  · simp only [EStateM.run_bind, set_machine, advance_machine, Option.isSome_some, Bool.or_true]
    rfl
  · simp only [EStateM.run_bind, remove_machine, Option.isSome_some, Bool.or_true]
    rfl

/-- Actions are taken one by one, and the ones before are gone already. -/
theorem rewriteOnward_machine (done todo : List (Option Rewrite)) (changed : Bool) (removed : ℕ)
    (hp : p.registers.actions = done ++ todo) :
    (Routine.rewriteOnward todo.length done.length changed removed).run p.machine =
      .ok (changed || todo.any (·.isSome), removed + todo.countP (· == some .remove))
        { p with
          registers := { p.registers with actions := done ++ todo.map fun _ => none }
          cursor := (todo.foldl (fun (c, s) a => perform a c s) (p.cursor, p.supply)).1
          supply := (todo.foldl (fun (c, s) a => perform a c s) (p.cursor, p.supply)).2 }.machine := by
  induction todo generalizing p done changed removed with
  | nil =>
    rw [List.append_nil] at hp
    simp only [List.any_nil, Bool.or_false, List.countP_nil, List.map_nil, List.append_nil, ← hp]
    rfl
  | cons a todo ih =>
    have htaken : (p.registers.actions[done.length]?).join = a := by
      rw [hp, List.getElem?_append_right (Nat.le_refl _), Nat.sub_self]
      rfl
    have hleft : p.registers.actions.set done.length none = (done ++ [none]) ++ todo := by
      rw [hp, List.set_append_right _ _ (Nat.le_refl _), Nat.sub_self, List.append_assoc]
      rfl
    have hnext : done.length + 1 = (done ++ [none]).length := by simp
    rw [List.length_cons, rewriteOnward_succ_machine _ _ _ _ htaken, hleft, hnext, ih _ _ _ rfl]
    have hcount : ∀ i j, removed + i + j = removed + (j + i) := fun i j => by omega
    simp only [List.any_cons, List.countP_cons, List.map_cons, List.append_assoc, List.singleton_append,
      Bool.or_assoc, List.foldl_cons, hcount]

theorem insertAll_machine (l : List Instruction) (p : RegisterPass σ) :
    (Routine.insertAll l).run p.machine = .ok () { p with
      cursor := (l.foldl (fun (x : Cursor × Supply) insn => x.1.insert insn x.2) (p.cursor, p.supply)).1
      supply :=
        (l.foldl (fun (x : Cursor × Supply) insn => x.1.insert insn x.2) (p.cursor, p.supply)).2 }.machine := by
  induction l generalizing p with
  | nil => rfl
  | cons insn l ih =>
    rw [Routine.insertAll, EStateM.run_bind, insert_machine]
    exact ih _

theorem commit_machine : Routine.commit.run p.machine =
    let spanned := p.registers.actions.foldl (fun x a => perform a x.1 x.2)
      (p.cursor.seek p.registers.start, p.supply)
    let written := p.registers.trailing.foldl (fun x insn => x.1.insert insn x.2) spanned
    .ok (p.registers.actions.any (·.isSome) || !p.registers.trailing.isEmpty)
      (⟨{ p.registers with
          phase := .replaced
          actions := p.registers.actions.map fun _ => none
          trailing := []
          removed := p.registers.actions.countP (· == some .remove) },
        written.1, written.2, p.memory⟩ : RegisterPass σ).machine := by
  have hregisters : Routine.registers.run p.machine = .ok p.registers p.machine := rfl
  have hrewrite := rewriteOnward_machine (p := { p with cursor := p.cursor.seek p.registers.start }) []
    p.registers.actions false 0 rfl
  have htrailing : ∀ q : RegisterPass σ, Routine.takeTrailing.run q.machine =
      .ok q.registers.trailing { q with registers := { q.registers with trailing := [] } }.machine :=
    fun _ => rfl
  have hfinish : ∀ (q : RegisterPass σ) f, (Routine.update f).run q.machine =
      .ok () { q with registers := f q.registers }.machine := fun _ _ => rfl
  simp only [List.length_nil, Bool.false_or, Nat.zero_add, List.nil_append] at hrewrite
  simp only [Routine.commit, EStateM.run_bind, hregisters, seek_machine, hrewrite, htrailing,
    insertAll_machine, hfinish, EStateM.run_pure, Bool.or_comm]

theorem replace_machine : Routine.replace.run p.machine = p.settle p.replace := by
  have hregisters : Routine.registers.run p.machine = .ok p.registers p.machine := rfl
  rw [Routine.replace, run_checkMatched_bind, replace, Registers.checkMatched]
  by_cases hphase : p.registers.phase = .matched
  · simp only [if_pos hphase]
    rw [EStateM.run_bind, hregisters]
    simp only
    rw [EStateM.run_bind, checkPosition_machine]
    by_cases hstop : p.cursor.position = p.registers.start + p.registers.captures.length
    · have hcheck : (Routine.checkCaptures p.registers.start 0 p.registers.captures).run p.machine =
          match firstMismatch? p.registers.start p.registers.captures p.cursor.body with
          | some (expected, found) => .error (.refused (.captureMismatch expected found)) p.machine
          | none => .ok () p.machine := checkCaptures_machine _ 0 _
      rw [if_neg (not_not.2 hstop), if_neg (not_not.2 hstop)]
      simp only
      rw [EStateM.run_bind, hcheck]
      cases firstMismatch? p.registers.start p.registers.captures p.cursor.body with
      | some x => rfl
      | none => exact commit_machine
    · simp only [ne_eq, hstop, not_false_eq_true, if_true]
      rfl
  · rw [if_neg hphase, if_neg hphase]
    rfl

end RegisterPass

/-! ### Passes on the machine -/

namespace Pass
variable {p : Pass σ}

/-- The place of a pass. -/
def machine (p : Pass σ) : Machine σ := ⟨p.matcher.registers, p.cursor.caret, p.supply, p.memory⟩

/-- Where a routine ends that starts in the place of a pass. -/
def settle (p : Pass σ) : Except MatchError (α × Pass σ) → EStateM.Result Fault (Machine σ) α
  | .ok (a, q) => .ok a q.machine
  | .error e => .error (.refused e) p.machine

theorem settle_inRegisters (x : Except MatchError (α × Pass σ)) :
    p.inRegisters.settle (x.map fun y => (y.1, y.2.inRegisters)) = p.settle x := by
  cases x <;> rfl

/-- An operation on the matcher alone. -/
theorem settle_registers (x : Except MatchError (α × Matcher σ)) :
    p.inRegisters.settle ((x.map fun y => (y.1, y.2.registers)).map fun y =>
      (y.1, { p.inRegisters with registers := y.2 })) =
      p.settle (x.map fun y => (y.1, { p with matcher := y.2 })) := by
  cases x <;> rfl

theorem reset_machine : Routine.reset.run p.machine = .ok () p.reset.machine :=
  congrArg (fun r => EStateM.Result.ok () (Machine.mk r p.cursor.caret p.supply p.memory))
    Matcher.registers_reset

theorem addStep_machine (t : Step σ) : (Routine.addStep t).run p.machine =
    p.settle ((p.matcher.addStep t).map fun x => (x.1, { p with matcher := x.2 })) := by
  rw [← settle_registers, ← Matcher.registers_addStep]
  exact RegisterPass.addStep_machine (p := p.inRegisters) t

theorem matchHere_machine : Routine.matchHere.run p.machine = p.settle p.matchHere := by
  rw [← settle_inRegisters, ← matchHere_inRegisters]
  exact RegisterPass.matchHere_machine (p := p.inRegisters)

theorem find_machine : Routine.find.run p.machine = p.settle p.find := by
  rw [← settle_inRegisters, ← find_inRegisters]
  exact RegisterPass.find_machine (p := p.inRegisters)

theorem replace_machine : Routine.replace.run p.machine = p.settle p.replace := by
  rw [← settle_inRegisters, ← replace_inRegisters]
  exact RegisterPass.replace_machine (p := p.inRegisters)

section Answer
variable {q : Pass σ} {answer : Bool}

theorem run_matchHere (h : p.matchHere = .ok (answer, q)) :
    Routine.matchHere.run p.machine = .ok answer q.machine := by
  rw [matchHere_machine, h]
  rfl

theorem run_find (h : p.find = .ok (answer, q)) : Routine.find.run p.machine = .ok answer q.machine := by
  rw [find_machine, h]
  rfl

theorem run_replace (h : p.replace = .ok (answer, q)) :
    Routine.replace.run p.machine = .ok answer q.machine := by
  rw [replace_machine, h]
  rfl

end Answer

end Pass
end ClosedWorld
