import ClosedWorld.Proofs.Pattern.Acts

/-!
# Acts that fail, and commits that are tried again

An act that fails leaves the machine as it was. A commit that is refused has taken none of what is queued,
so after any number of them the registers are still those of the first try (`Retried.exists_pass`). Where
the cursor is behind the captured nodes again, in this body or another, the commit writes what the
registers say, and nothing else has an influence on it (`run_replace_of_span`).
-/

namespace ClosedWorld

variable {σ : Type}

/-! ### What a commit makes of registers -/

namespace Registers

/-- What a commit puts in the place of the span, with identities from a supply. -/
def text (r : Registers σ) (s : Supply) : Body × Supply :=
  let (b, s) := rewritten (r.captures.zipWith Capture.mk r.actions) s
  let (inserted, s) := s.body r.trailing
  (b ++ inserted, s)

def committed (r : Registers σ) : Registers σ :=
  { r with
    phase := .replaced
    actions := r.actions.map fun _ => none
    trailing := []
    removed := r.actions.countP (· == some .remove) }

/-- Whether there is anything to commit. -/
def changes (r : Registers σ) : Bool := r.actions.any (·.isSome) || !r.trailing.isEmpty

/-- The machine after a commit of registers between some nodes. -/
def commit (r : Registers σ) (pre rest : Body) (s : Supply) (memory : σ) : Machine σ :=
  let (b, s) := r.text s
  ⟨r.committed, ⟨pre ++ b ++ rest, (pre ++ b).length⟩, s, memory⟩

end Registers

theorem instructions_rewritten (captures : List Capture) (s u : Supply) :
    (rewritten captures s).1.instructions = (rewritten captures u).1.instructions := by
  induction captures generalizing s u with
  | nil => rfl
  | cons x xs ih =>
    have hx : (x.rewritten s).1.instructions = (x.rewritten u).1.instructions := by
      rcases x with ⟨n, _ | ⟨insn⟩ | _⟩ <;> rfl
    simp only [rewritten_cons, Body.instructions, List.map_append] at hx ⊢
    exact congrArg₂ _ hx (ih _ _)

theorem Supply.instructions_body (s : Supply) (l : List Instruction) : (s.body l).1.instructions = l := by
  induction l generalizing s with
  | nil => rfl
  | cons insn l ih =>
    rw [supply_body_cons]
    exact congrArg (insn :: ·) (ih _)

theorem Registers.instructions_text (r : Registers σ) (s u : Supply) :
    (r.text s).1.instructions = (r.text u).1.instructions := by
  have hrewritten := instructions_rewritten (r.captures.zipWith Capture.mk r.actions) s u
  have hinserted : ∀ s : Supply, (s.body r.trailing).1.map (·.insn) = r.trailing := fun s =>
    s.instructions_body r.trailing
  simp only [text, Body.instructions, List.map_append, hinserted] at hrewritten ⊢
  exact congrArg (· ++ r.trailing) hrewritten

theorem Cursor.eq_of_caret {c : Cursor} {before after : Body}
    (h : c.caret = ⟨before ++ after, before.length⟩) : c = ⟨before, after⟩ := by
  obtain ⟨hbody, hpos⟩ := Caret.mk.inj h
  obtain ⟨hbefore, hafter⟩ := List.append_inj hbody hpos
  exact congrArg₂ Cursor.mk hbefore hafter

namespace Pass
variable {p : Pass σ} {start : ℕ} {captures : List Capture} {pre rest : Body}

theorem zipWith_registers (hs : p.matcher.state = .matched start captures) :
    p.matcher.registers.captures.zipWith Capture.mk p.matcher.registers.actions = captures := by
  simp only [Matcher.registers, hs]
  rw [List.zipWith_map, List.zipWith_self]
  exact List.map_id captures

theorem committed_machine (hs : p.matcher.state = .matched pre.length captures) :
    (p.committed pre captures rest).machine = p.matcher.registers.commit pre rest p.supply p.memory := by
  have hcommitted : p.matcher.registers.committed = (p.committed pre captures rest).matcher.registers := by
    simp only [Matcher.registers, hs, Registers.committed, committed, List.map_map, List.countP_map]
    rfl
  have htrailing : p.matcher.registers.trailing = p.matcher.trailing := by
    simp only [Matcher.registers, hs]
  simp only [Registers.commit, hcommitted, Registers.text, zipWith_registers hs, htrailing, machine, committed, Cursor.caret,
    Cursor.body, Cursor.position, List.append_assoc]

/-- Behind the captured nodes the commit is made, wherever they stand now and whatever is around them. -/
theorem run_replace_of_span (hphase : p.matcher.registers.phase = .matched)
    (hpre : pre.length = p.matcher.registers.start)
    (hcaret : p.cursor.caret = ⟨pre ++ p.matcher.registers.captures ++ rest,
      (pre ++ p.matcher.registers.captures).length⟩) :
    Routine.replace.run p.machine =
      .ok p.matcher.registers.changes (p.matcher.registers.commit pre rest p.supply p.memory) := by
  cases hs : p.matcher.state with
  | idle | exhausted | replaced => simp [Matcher.registers, hs] at hphase
  | matched start captures =>
    have hcursor := Cursor.eq_of_caret hcaret
    obtain rfl : pre.length = start := by simpa only [Matcher.registers, hs] using hpre
    have hchanges : p.matcher.registers.changes =
        (captures.any (·.rewrite?.isSome) || !p.matcher.trailing.isEmpty) := by
      simp only [Registers.changes, Matcher.registers, hs, List.any_map]
      rfl
    simp only [Matcher.registers_captures, Matcher.captured, hs] at hcursor
    rw [hchanges, ← committed_machine hs]
    exact run_replace (replace_of_span hs hcursor)

end Pass

/-! ### Trying again -/

/-- An act that the matcher has no part in. -/
def Act.Aside : Act σ → Prop
  | .rewind | .peek | .edit _ | .turnTo _ _ _ => True
  | _ => False

theorem Pass.matcher_of_aside {p q : Pass σ} {a : Act σ} (ha : a.Aside) (h : p.act a = .ok q) :
    q.matcher = p.matcher := by
  cases a with
  | rewind | peek | edit | turnTo => cases h; rfl
  | _ => cases ha

namespace Machine
variable {s t : Machine σ}

/-- A machine later on. In between bodies were worked on, and whatever the matcher was called for failed. -/
inductive Retried (s : Machine σ) : Machine σ → Prop
  | refl : Retried s s
  | aside {t u : Machine σ} {a : Act σ} (h : Retried s t) (ha : a.Aside)
    (hu : (Routine.act a).run t = .ok () u) : Retried s u
  | failed {t u : Machine σ} {a : Act σ} {f : Fault} (h : Retried s t)
    (hu : (Routine.act a).run t = .error f u) : Retried s u

theorem Retried.exists_pass {p : Pass σ} (h : p.machine.Retried t) :
    ∃ q : Pass σ, t = q.machine ∧ q.matcher = p.matcher := by
  induction h with
  | refl => exact ⟨p, rfl, rfl⟩
  | aside _ ha hu ih =>
    obtain ⟨q, rfl, hq⟩ := ih
    obtain ⟨r, hr, rfl⟩ := Pass.exists_of_act_ok hu
    exact ⟨r, rfl, (Pass.matcher_of_aside ha hr).trans hq⟩
  | failed _ hu ih =>
    obtain ⟨q, rfl, hq⟩ := ih
    exact ⟨q, (Pass.refused_of_act_error hu).2, hq⟩

/-- What failures do to a machine. -/
structure Unharmed (s : Machine σ) : Prop where
  /-- An act that fails has done nothing at all. -/
  failed : ∀ (a : Act σ) f t, (Routine.act a).run s = .error f t → t = s
  registers : ∀ t, s.Retried t → t.registers = s.registers
  /-- Behind the captured nodes the commit is made, the first time like any other. -/
  commit : s.registers.phase = .matched → ∀ t, s.Retried t → ∀ pre rest,
    pre.length = s.registers.start →
    t.caret = ⟨pre ++ s.registers.captures ++ rest, (pre ++ s.registers.captures).length⟩ →
    Routine.replace.run t = .ok s.registers.changes (s.registers.commit pre rest t.supply t.memory)
  /-- The supply only numbers what is written. -/
  text : ∀ u v, (s.registers.text u).1.instructions = (s.registers.text v).1.instructions

theorem unharmed_machine (p : Pass σ) : p.machine.Unharmed where
  failed a f t h := (Pass.refused_of_act_error h).2
  registers t h := by
    obtain ⟨q, rfl, hq⟩ := h.exists_pass
    exact congrArg Matcher.registers hq
  commit hphase t h pre rest hpre hcaret := by
    obtain ⟨q, rfl, hq⟩ := h.exists_pass
    have hregisters : p.machine.registers = q.matcher.registers := congrArg Matcher.registers hq.symm
    rw [hregisters] at hphase hpre hcaret ⊢
    exact Pass.run_replace_of_span hphase hpre hcaret
  text u v := p.matcher.registers.instructions_text u v

/-- Whatever was done before, a call that fails changes nothing, and a commit that was refused can be made
later. -/
theorem unharmed_of_run (m : Matcher σ) (b : Body) (s : Supply) (memory : σ) (acts : List (Act σ)) :
    ((ofBody m b s memory).run acts).Unharmed := by
  obtain ⟨p, hp⟩ := exists_pass_run m b s memory acts
  rw [hp]
  exact unharmed_machine p

example :
    ((Pass.overNestedPops .exhausted).machine.run
      [.rewind, .find, .order .removeAll, .edit (.seek 0), .replace, .edit (.seek 3), .replace]).caret =
      ⟨[⟨⟨0⟩, .plain .iconst0⟩, ⟨⟨4⟩, .plain .dup⟩, ⟨⟨3⟩, .plain .pop⟩], 2⟩ := by decide +kernel

end Machine
end ClosedWorld
