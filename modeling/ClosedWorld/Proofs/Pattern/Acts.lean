import ClosedWorld.Proofs.Pattern.Identities
import ClosedWorld.Proofs.Pattern.Machine
import ClosedWorld.Proofs.Pattern.Phases

/-!
# Whatever is done on the machine

A machine is used act by act (`Act`): a matcher is told something or works on the body, the body is edited
through the cursor, and now and then there is another body or another matcher. A fault does not stop it,
the next act goes on from where the fault left the machine. Each act follows the pass (`act_machine`),
so the machine is always in the place of a pass (`run_machine`), and a place of a pass is within its body:
nothing is ever looked for out of range (`bounded_machine`).
-/

namespace ClosedWorld

variable {σ α : Type}

/-! ### Acts -/

/-- What is done with a matcher and a cursor. -/
inductive Act (σ : Type) where
  /-- A cursor at the start of the body. -/
  | rewind
  | peek
  | edit (e : Edit)
  /-- A cursor at the start of another body. Others may have taken identities and used the memory. -/
  | turnTo (b : Body) (s : Supply) (m : σ)
  /-- Another matcher, whatever it holds. -/
  | take (m : Matcher σ)
  | addStep (t : Step σ)
  | order (o : Order)
  | reset
  | matchHere
  | find
  | replace

namespace Routine

/-- A routine without its answer. -/
def silent (x : Routine σ α) : Routine σ Unit := do
  let _ ← x
  return

def edit : Edit → Routine σ Unit
  | .push insn => silent (push insn)
  | .insert insn => silent (insert insn)
  | .set insn => silent (set insn)
  | .erase => silent remove
  | .seek position => seek position
  | .advance n => advanceBy n

def give : Order → Routine σ Unit
  | .queue index w => queue index w
  | .queueFor h w => queueFor h w
  | .removeAll => queueRemoveAll
  | .insert insn => appendTrailing insn

def act : Act σ → Routine σ Unit
  | .rewind => rewind
  | .peek => silent peek
  | .edit e => edit e
  | .turnTo b supply memory => modify fun s => { s with caret := ⟨b, 0⟩, supply, memory }
  | .take m => update fun _ => m.registers
  | .addStep t => silent (addStep t)
  | .order o => give o
  | .reset => reset
  | .matchHere => silent matchHere
  | .find => silent find
  | .replace => silent replace

end Routine

namespace Machine

/-- The registers of a matcher and a cursor at the start of a body. -/
def ofBody (m : Matcher σ) (b : Body) (s : Supply) (memory : σ) : Machine σ :=
  ⟨m.registers, ⟨b, 0⟩, s, memory⟩

/-- The machine after an act, also after one that faults. -/
def after (s : Machine σ) (a : Act σ) : Machine σ :=
  match (Routine.act a).run s with
  | .ok _ t => t
  | .error _ t => t

def run (s : Machine σ) (acts : List (Act σ)) : Machine σ := acts.foldl after s

end Machine

namespace Pass

def act (p : Pass σ) : Act σ → Except MatchError (Pass σ)
  | .rewind => .ok { p with cursor := p.cursor.seek 0 }
  | .peek => .ok p
  | .edit e =>
    let (cursor, supply) := e.perform p.cursor p.supply
    .ok { p with cursor, supply }
  | .turnTo b supply memory => .ok { p with cursor := .ofBody b 0, supply, memory }
  | .take matcher => .ok { p with matcher }
  | .addStep t => (p.matcher.addStep t).map fun x => { p with matcher := x.2 }
  | .order o => (p.matcher.give o).map fun matcher => { p with matcher }
  | .reset => .ok p.reset
  | .matchHere => p.matchHere.map (·.2)
  | .find => p.find.map (·.2)
  | .replace => p.replace.map (·.2)

/-- The pass after an act. One that is refused changes nothing. -/
def after (p : Pass σ) (a : Act σ) : Pass σ :=
  match p.act a with
  | .ok q => q
  | .error _ => p

def run (p : Pass σ) (acts : List (Act σ)) : Pass σ := acts.foldl after p

end Pass

/-! ### Acts follow the pass -/

theorem found_of_firstMismatch {captures : List Capture} {b : Body} {expected : InsnId}
    {found : Option InsnId} (hlen : captures.length ≤ b.length)
    (h : firstMismatch captures b = some (expected, found)) : ∃ n ∈ b, found = some n.id := by
  induction captures generalizing b with
  | nil => cases h
  | cons x xs ih =>
    cases b with
    | nil => simp at hlen
    | cons n ns =>
      rw [firstMismatch] at h
      split at h
      · obtain ⟨k, hk, hfound⟩ := ih (Nat.le_of_succ_le_succ hlen) h
        exact ⟨k, List.mem_cons_of_mem n hk, hfound⟩
      · cases h
        exact ⟨n, List.mem_cons_self, rfl⟩

namespace Pass
variable {p : Pass σ}

theorem run_cons (a : Act σ) (acts : List (Act σ)) : p.run (a :: acts) = (p.after a).run acts := rfl

/-- Where an act ends that starts in the place of a pass. -/
def settleAct (p : Pass σ) (x : Except MatchError (Pass σ)) : EStateM.Result Fault (Machine σ) Unit :=
  p.settle (x.map ((), ·))

theorem run_silent {x : Routine σ α} {y : Except MatchError (α × Pass σ)}
    (h : x.run p.machine = p.settle y) : x.silent.run p.machine = p.settleAct (y.map (·.2)) := by
  rw [Routine.silent, EStateM.run_bind, h]
  cases y <;> rfl

theorem edit_machine (e : Edit) :
    (Routine.edit e).run p.machine = p.settleAct (p.act (.edit e)) := by
  cases e with
  | push insn => exact run_silent (y := .ok (_, _)) (RegisterPass.push_machine (p := p.inRegisters) insn)
  | insert insn => exact run_silent (y := .ok (_, _)) (RegisterPass.insert_machine (p := p.inRegisters) insn)
  | set insn => exact run_silent (y := .ok (_, _)) (RegisterPass.set_machine (p := p.inRegisters) insn)
  | erase => exact run_silent (y := .ok (_, _)) (RegisterPass.remove_machine (p := p.inRegisters))
  | seek position => exact RegisterPass.seek_machine (p := p.inRegisters) position
  | advance n => exact RegisterPass.advanceBy_machine n p.inRegisters

theorem give_machine (o : Order) : (Routine.give o).run p.machine =
    p.settleAct ((p.matcher.give o).map fun matcher => { p with matcher }) := by
  have hsettle : ∀ x : Except MatchError (Matcher σ), p.inRegisters.settle ((x.map Matcher.registers).map
      fun registers => ((), { p.inRegisters with registers })) =
      p.settleAct (x.map fun matcher => { p with matcher }) := by
    rintro (e | m) <;> rfl
  rw [← hsettle, ← Matcher.registers_give]
  cases o with
  | queue index w => exact RegisterPass.queue_machine (p := p.inRegisters) index w
  | queueFor h w => exact RegisterPass.queueFor_machine (p := p.inRegisters) h w
  | removeAll => exact RegisterPass.queueRemoveAll_machine (p := p.inRegisters)
  | insert insn => rfl

theorem act_machine (a : Act σ) : (Routine.act a).run p.machine = p.settleAct (p.act a) := by
  cases a with
  | rewind => exact RegisterPass.rewind_machine (p := p.inRegisters)
  | peek => exact run_silent (y := .ok (_, p)) rfl
  | edit e => exact edit_machine e
  | turnTo b supply memory => rfl
  | take m => rfl
  | addStep t =>
    refine (run_silent (addStep_machine t)).trans ?_
    rw [act]
    cases p.matcher.addStep t <;> rfl
  | order o => exact give_machine o
  | reset => exact reset_machine
  | matchHere => exact run_silent matchHere_machine
  | find => exact run_silent find_machine
  | replace => exact run_silent replace_machine

theorem exists_of_act_ok {a : Act σ} {t : Machine σ} (h : (Routine.act a).run p.machine = .ok () t) :
    ∃ q, p.act a = .ok q ∧ t = q.machine := by
  rw [act_machine] at h
  cases hx : p.act a with
  | error e => rw [hx] at h; cases h
  | ok q =>
    rw [hx] at h
    cases h
    exact ⟨q, rfl, rfl⟩

/-- An act that fails is refused before it has done anything. -/
theorem refused_of_act_error {a : Act σ} {f : Fault} {t : Machine σ}
    (h : (Routine.act a).run p.machine = .error f t) : (∃ e, f = .refused e) ∧ t = p.machine := by
  rw [act_machine] at h
  cases hx : p.act a with
  | ok q => rw [hx] at h; cases h
  | error e =>
    rw [hx] at h
    cases h
    exact ⟨⟨e, rfl⟩, rfl⟩

theorem after_machine (a : Act σ) : p.machine.after a = (p.after a).machine := by
  rw [Machine.after, act_machine, after]
  cases p.act a <;> rfl

/-- The machine is where the pass is, as long as it is used. -/
theorem run_machine (acts : List (Act σ)) : p.machine.run acts = (p.run acts).machine := by
  induction acts generalizing p with
  | nil => rfl
  | cons a acts ih =>
    rw [run_cons, ← ih, ← after_machine]
    rfl

/-- A commit looks for the captured nodes right before the cursor only, so it finds others at worst. -/
theorem found_of_replace {expected : InsnId} {found : Option InsnId}
    (h : p.replace = .error (.captureMismatch expected found)) :
    ∃ n ∈ p.cursor.body, found = some n.id := by
  unfold replace at h
  split at h
  · next start captures hs =>
    simp only at h
    split at h
    · cases h
    next hstop =>
      have hpos : p.cursor.position = start + captures.length := Decidable.not_not.1 hstop
      have hlen : captures.length ≤ (p.cursor.body.drop start).length := by
        have := p.cursor.position_le
        rw [List.length_drop]
        omega
      split at h
      · next hmismatch =>
        cases h
        obtain ⟨n, hn, hfound⟩ := found_of_firstMismatch hlen hmismatch
        exact ⟨n, List.mem_of_mem_drop hn, hfound⟩
      · cases h
  · cases h

end Pass

theorem Machine.exists_pass_run (m : Matcher σ) (b : Body) (s : Supply) (memory : σ)
    (acts : List (Act σ)) : ∃ p : Pass σ, (ofBody m b s memory).run acts = p.machine := by
  have hstart : (Pass.mk m (.ofBody b 0) s memory).machine = ofBody m b s memory := by
    simp [Pass.machine, ofBody, Cursor.caret, Cursor.ofBody, Cursor.body, Cursor.position]
  rw [← hstart, Pass.run_machine]
  exact ⟨_, rfl⟩

/-! ### Places within the body -/

namespace Machine

/-- What cannot go wrong on a machine. -/
structure Bounded (s : Machine σ) : Prop where
  position_le : s.caret.position ≤ s.caret.body.length
  /-- Whatever is done, it comes to an end or the matcher refuses it, and nothing is out of range. -/
  refused : ∀ (a : Act σ) f t, (Routine.act a).run s = .error f t → ∃ e, f = .refused e
  insert : ∀ insn, (Routine.insert insn).run s = .ok ⟨s.supply.issued⟩ { s with
    caret := ⟨s.caret.body.insertIdx s.caret.position (s.supply.node insn), s.caret.position + 1⟩
    supply := s.supply.advance 1 }
  seek : ∀ i, (Routine.seek i).run s =
    .ok () { s with caret := ⟨s.caret.body, min i s.caret.body.length⟩ }
  set_at_end : s.caret.position = s.caret.body.length → ∀ insn, (Routine.set insn).run s = .ok none s
  remove_at_end : s.caret.position = s.caret.body.length → Routine.remove.run s = .ok none s
  /-- A commit that finds a captured node missing finds another one in its place. -/
  mismatch : ∀ expected found t,
    Routine.replace.run s = .error (.refused (.captureMismatch expected found)) t →
      ∃ n ∈ s.caret.body, found = some n.id

theorem bounded_machine (p : Pass σ) : p.machine.Bounded where
  position_le := p.cursor.position_le
  refused a f t h := (Pass.refused_of_act_error h).1
  insert insn := Routine.run_insert p.cursor.position_le insn
  seek _ := rfl
  set_at_end h insn := Routine.run_set_of_none (List.getElem?_eq_none (Nat.le_of_eq h.symm)) insn
  remove_at_end h := Routine.run_remove_of_none (List.getElem?_eq_none (Nat.le_of_eq h.symm))
  mismatch expected found t h := by
    rw [p.replace_machine] at h
    cases hx : p.replace with
    | ok y => rw [hx] at h; cases h
    | error e =>
      rw [hx] at h
      cases h
      exact p.found_of_replace hx

/-- Whatever is done through cursors, with matchers that hold whatever they can hold, each cursor stays
within its body. -/
theorem bounded_of_run (m : Matcher σ) (b : Body) (s : Supply) (memory : σ) (acts : List (Act σ)) :
    ((ofBody m b s memory).run acts).Bounded := by
  obtain ⟨p, hp⟩ := exists_pass_run m b s memory acts
  rw [hp]
  exact bounded_machine p

end Machine
end ClosedWorld
