import ClosedWorld.Proofs.Pattern.Registers
import ClosedWorld.Proofs.Pattern.Rewriting
import Mathlib.Data.List.Forall2

/-!
# The phases of a matcher

What is called on a matcher and in which order is up to its user, and calls may fail. After each of them
the registers fit the phase (`Registers.Sound`): the one fact behind it is that a match has as many
captures as there are steps, and at least one (`Matcher.Fitting`). A scan that matches makes it so,
steps are added only where nothing is captured, and every other call keeps the captures or drops them. So
a handle reads and queues in the phases where it should. Several matchers are used side by side
(`Event`), each with a token of its own, and what one does with the handles of another is nothing.
-/

namespace ClosedWorld

variable {σ : Type}

/-! ### Calls -/

/-- A call on a matcher. Those that work on a body bring the cursor, the supply and the memory with which
they work, others each time. -/
inductive Call (σ : Type) where
  | addStep (s : Step σ)
  | order (o : Order)
  | reset
  | matchHere (c : Cursor) (s : Supply) (m : σ)
  | find (c : Cursor) (s : Supply) (m : σ)
  | replace (c : Cursor) (s : Supply) (m : σ)
  | removeAll (c : Cursor) (s : Supply) (m : σ)

namespace Matcher

/-- The matcher after a call. One that fails leaves it as it was. -/
def call (m : Matcher σ) : Call σ → Matcher σ
  | .addStep s => match m.addStep s with
    | .ok (_, m) => m
    | .error _ => m
  | .order o => m.obey o
  | .reset => m.reset
  | .matchHere c s memory => match (Pass.mk m c s memory).matchHere with
    | .ok (_, p) => p.matcher
    | .error _ => m
  | .find c s memory => match (Pass.mk m c s memory).find with
    | .ok (_, p) => p.matcher
    | .error _ => m
  | .replace c s memory => match (Pass.mk m c s memory).replace with
    | .ok (_, p) => p.matcher
    | .error _ => m
  | .removeAll c s memory => (Pass.mk m c s memory).removeAll.2.matcher

end Matcher

namespace Registers

def give (r : Registers σ) : Order → Except MatchError (Registers σ)
  | .queue index w => r.queue index w
  | .queueFor h w => r.queueFor h w
  | .removeAll => r.queueRemoveAll
  | .insert insn => .ok (r.appendTrailing insn)

def obey (r : Registers σ) (o : Order) : Registers σ :=
  match r.give o with
  | .ok r => r
  | .error _ => r

/-- The registers after a call. -/
def call (r : Registers σ) : Call σ → Registers σ
  | .addStep s => match r.addStep s with
    | .ok (_, r) => r
    | .error _ => r
  | .order o => r.obey o
  | .reset => r.reset
  | .matchHere c s memory => match (RegisterPass.mk r c s memory).matchHere with
    | .ok (_, p) => p.registers
    | .error _ => r
  | .find c s memory => match (RegisterPass.mk r c s memory).find with
    | .ok (_, p) => p.registers
    | .error _ => r
  | .replace c s memory => match (RegisterPass.mk r c s memory).replace with
    | .ok (_, p) => p.registers
    | .error _ => r
  | .removeAll c s memory => (RegisterPass.mk r c s memory).removeAll.2.registers

end Registers

namespace Matcher
variable {m m' m'' : Matcher σ}

theorem registers_give (o : Order) : m.registers.give o = (m.give o).map registers := by
  cases o with
  | queue i w => exact registers_queue i w
  | queueFor h w => exact registers_queueFor h w
  | removeAll => exact registers_queueRemoveAll
  | insert insn => exact congrArg Except.ok (registers_appendTrailing insn)

theorem registers_call (x : Call σ) : (m.call x).registers = m.registers.call x := by
  cases x with
  | addStep s =>
    simp only [call, Registers.call, registers_addStep]
    cases m.addStep s <;> rfl
  | order o =>
    simp only [call, obey, Registers.call, Registers.obey, registers_give]
    cases m.give o <;> rfl
  | reset => exact registers_reset.symm
  | matchHere c s memory =>
    have h := Pass.matchHere_inRegisters (p := ⟨m, c, s, memory⟩)
    simp only [Pass.inRegisters] at h
    simp only [call, Registers.call, h]
    cases (Pass.mk m c s memory).matchHere <;> rfl
  | find c s memory =>
    have h := Pass.find_inRegisters (p := ⟨m, c, s, memory⟩)
    simp only [Pass.inRegisters] at h
    simp only [call, Registers.call, h]
    cases (Pass.mk m c s memory).find <;> rfl
  | replace c s memory =>
    have h := Pass.replace_inRegisters (p := ⟨m, c, s, memory⟩)
    simp only [Pass.inRegisters] at h
    simp only [call, Registers.call, h]
    cases (Pass.mk m c s memory).replace <;> rfl
  | removeAll c s memory =>
    exact (congrArg (·.2.registers) (Pass.removeAll_inRegisters (p := ⟨m, c, s, memory⟩))).symm

/-! ### What every call keeps -/

/-- A match holds a capture for each step, and there are steps. -/
def Fitting (m : Matcher σ) : Prop :=
  match m.state with
  | .idle | .exhausted => True
  | .matched _ captures => captures.length = m.steps.length ∧ m.steps ≠ []
  | .replaced _ captured _ => captured.length = m.steps.length ∧ m.steps ≠ []

structure Later (m m' : Matcher σ) : Prop where
  token : m'.token = m.token
  steps_le : m.steps.length ≤ m'.steps.length
  fitting : m.Fitting → m'.Fitting

namespace Later

theorem refl (m : Matcher σ) : m.Later m := ⟨rfl, Nat.le_refl _, id⟩

theorem trans (h : m.Later m') (h' : m'.Later m'') : m.Later m'' :=
  ⟨h'.token.trans h.token, Nat.le_trans h.steps_le h'.steps_le, h'.fitting ∘ h.fitting⟩

theorem reset (m : Matcher σ) : m.Later m.reset := ⟨rfl, Nat.le_refl _, fun _ => trivial⟩

theorem addStep {s : Step σ} {h : Handle} (hm : m.addStep s = .ok (h, m')) : m.Later m' := by
  unfold Matcher.addStep at hm
  split at hm
  · next hs =>
    cases hm
    exact ⟨rfl, by simp, fun _ => by simp only [Fitting, hs]⟩
  · cases hm

/-- An order leaves the steps alone, and the captures in their places. -/
theorem give {o : Order} (h : m.give o = .ok m') : m.Later m' := by
  have hqueue : ∀ {i w}, m.queue i w = .ok m' → m.Later m' := by
    intro i w h
    unfold queue at h
    split at h
    · next hs =>
      split at h
      · cases h
        refine ⟨rfl, Nat.le_refl _, fun hm => ?_⟩
        simpa only [Fitting, hs, List.length_modify] using hm
      · cases h
    · cases h
  cases o with
  | queue i w => exact hqueue h
  | queueFor handle w =>
    simp only [Matcher.give, queueFor] at h
    split at h
    · exact hqueue h
    · split at h <;> cases h
  | removeAll =>
    simp only [Matcher.give, queueRemoveAll] at h
    split at h
    · next hs =>
      cases h
      refine ⟨rfl, Nat.le_refl _, fun hm => ?_⟩
      simpa only [Fitting, hs, List.length_map] using hm
    · cases h
  | insert insn =>
    cases h
    exact ⟨rfl, Nat.le_refl _, id⟩

theorem obey (m : Matcher σ) (o : Order) : m.Later (m.obey o) := by
  unfold Matcher.obey
  split
  · next h => exact give h
  · exact .refl m

/-- A scan captures a node for each step or nothing. Without steps it does not begin. -/
theorem afterScan (hf : m.scanFault? = none) {found? : Option (ℕ × Body)}
    (h : ∀ x, found? = some x → x.2.length = m.steps.length) : m.Later (m.afterScan found?) := by
  refine ⟨rfl, Nat.le_refl _, fun _ => ?_⟩
  cases found? with
  | none => trivial
  | some x =>
    have hne : m.steps ≠ [] := by
      intro hnil
      simp [scanFault?, hnil] at hf
    exact ⟨(List.length_map ..).trans (h x rfl), hne⟩

end Later
end Matcher

namespace Pass
variable {p q : Pass σ} {b : Bool}

theorem later_matchHere (h : p.matchHere = .ok (b, q)) : p.matcher.Later q.matcher := by
  unfold matchHere at h
  split at h
  · cases h
  · next hf =>
    cases h
    refine .afterScan hf fun x hx => ?_
    obtain ⟨captured, hc, rfl⟩ := Option.map_eq_some_iff.1 hx
    exact (length_le_of_attempt hc).1

theorem later_find (h : p.find = .ok (b, q)) : p.matcher.Later q.matcher := by
  unfold find at h
  split at h
  · cases h
  · next hf =>
    split at h
    · next skipped captured m hs =>
      cases h
      show p.matcher.Later (p.matcher.afterScan (some (p.cursor.position + skipped, captured)))
      refine .afterScan hf fun x hx => ?_
      cases hx
      exact (length_le_of_search (by rw [hs])).1
    · cases h
      show p.matcher.Later (p.matcher.afterScan none)
      exact .afterScan hf fun x hx => by cases hx

theorem later_replace (h : p.replace = .ok (b, q)) : p.matcher.Later q.matcher := by
  unfold replace at h
  split at h
  · next hs =>
    simp only at h
    split at h
    · cases h
    · split at h
      · cases h
      · cases h
        refine ⟨rfl, Nat.le_refl _, fun hm => ?_⟩
        simpa only [Matcher.Fitting, hs, List.length_map] using hm
  · cases h

theorem later_removeMatched (h : p.removeMatched = .ok (b, q)) : p.matcher.Later q.matcher := by
  obtain ⟨matcher, hqueue, hreplace⟩ := exists_queue_of_removeMatched h
  have hgive : p.matcher.give .removeAll = .ok matcher := hqueue
  exact (Matcher.Later.give hgive).trans (later_replace hreplace)

theorem later_removeOnward (p : Pass σ) (count : ℕ) :
    p.matcher.Later (p.removeOnward count).2.matcher := by
  fun_induction removeOnward p count with
  | case1 p count e h => exact .refl p.matcher
  | case2 p count q h => exact (later_find h).trans (.reset q.matcher)
  | case3 p count q h e h' => exact later_find h
  | case4 p count q h b r h' hremoved =>
    exact ((later_find h).trans (later_removeMatched h')).trans (.reset r.matcher)
  | case5 p count q h b r h' hremoved ih =>
    exact (((later_find h).trans (later_removeMatched h')).trans (.reset r.matcher)).trans ih

theorem later_removeAll (p : Pass σ) : p.matcher.Later p.removeAll.2.matcher :=
  (Matcher.Later.reset p.matcher).trans
    (later_removeOnward { p with matcher := p.matcher.reset, cursor := p.cursor.seek 0 } 0)

end Pass

namespace Matcher
variable {m : Matcher σ}

theorem Later.call (m : Matcher σ) (x : Call σ) : m.Later (m.call x) := by
  cases x with
  | addStep s =>
    simp only [Matcher.call]
    split
    · next h => exact addStep h
    · exact .refl m
  | order o => exact .obey m o
  | reset => exact .reset m
  | matchHere c s memory =>
    simp only [Matcher.call]
    split
    · next h => exact Pass.later_matchHere h
    · exact .refl m
  | find c s memory =>
    simp only [Matcher.call]
    split
    · next h => exact Pass.later_find h
    · exact .refl m
  | replace c s memory =>
    simp only [Matcher.call]
    split
    · next h => exact Pass.later_replace h
    · exact .refl m
  | removeAll c s memory => exact Pass.later_removeAll ⟨m, c, s, memory⟩

end Matcher

/-! ### Handles -/

namespace Registers
variable {r : Registers σ} {h : Handle}

/-- The registers hold a match. -/
def Met (r : Registers σ) : Prop := r.phase = .matched ∨ r.phase = .replaced

/-- The registers fit the phase. -/
structure Sound (r : Registers σ) : Prop where
  not_scanning : r.phase ≠ .scanning
  full : r.Met → r.captures.length = r.steps.length ∧ 1 ≤ r.captures.length ∧
    r.actions.length = r.steps.length
  empty : r.phase = .idle ∨ r.phase = .exhausted → r.captures = [] ∧ r.actions = [] ∧ r.span? = none
  done : r.phase = .replaced → ∀ a ∈ r.actions, a = none

/-- What a handle of the same matcher does. -/
structure Serves (r : Registers σ) (h : Handle) : Prop where
  token : h.token = r.token
  captured? : (r.captured? h).isSome ↔ r.Met
  /-- Queueing fails only where nothing is matched or all is committed. -/
  queueFor : ∀ w e, r.queueFor h w = .error e → e = .notMatched ∧ r.phase ≠ .matched

/-- What a handle of another matcher does. -/
structure Ignores (r : Registers σ) (h : Handle) : Prop where
  captured? : r.captured? h = none
  queueFor : ∀ w, ∃ e, r.queueFor h w = .error e
  call : ∀ w, r.call (.order (.queueFor h w)) = r

theorem Sound.idle_or_exhausted (hr : r.Sound) (h : ¬ r.Met) :
    r.phase = .idle ∨ r.phase = .exhausted := by
  have hs := hr.not_scanning
  cases hp : r.phase <;> simp_all [Met]

theorem Sound.serves (hr : r.Sound) (ht : h.token = r.token) (hi : h.index < r.steps.length) :
    r.Serves h where
  token := ht
  captured? := by
    have hsome : (r.captures[h.index]?).isSome ↔ h.index < r.captures.length := by simp
    rw [captured?, if_neg (not_not.2 ht), Option.isSome_map, hsome]
    by_cases hm : r.Met
    · rw [(hr.full hm).1]
      exact iff_of_true hi hm
    · rw [(hr.empty (hr.idle_or_exhausted hm)).1]
      exact iff_of_false (Nat.not_lt_zero _) hm
  queueFor w e he := by
    rw [queueFor, if_neg (not_not.2 ht), queue, checkMatched] at he
    by_cases hp : r.phase = .matched
    · have hlen : h.index < r.actions.length := (hr.full (.inl hp)).2.2 ▸ hi
      rw [if_pos hp, if_pos hlen] at he
      cases he
    · rw [if_neg hp] at he
      cases he
      exact ⟨rfl, hp⟩

theorem ignores_of_token (ht : h.token ≠ r.token) : r.Ignores h := by
  have hfail : ∀ w, ∃ e, r.queueFor h w = .error e := fun w => by
    rw [queueFor, if_pos ht, checkMatched]
    by_cases hp : r.phase = .matched
    · exact ⟨.unknownStep h.index, by rw [if_pos hp]; rfl⟩
    · exact ⟨.notMatched, by rw [if_neg hp]; rfl⟩
  refine ⟨if_pos ht, hfail, fun w => ?_⟩
  obtain ⟨e, he⟩ := hfail w
  simp only [call, obey, give, he]

end Registers

namespace Matcher
variable {m : Matcher σ} {h : Handle}

theorem Fitting.sound (hm : m.Fitting) : m.registers.Sound := by
  rcases m with ⟨token, steps, _ | _ | ⟨start, captures⟩ | ⟨start, captured, removed⟩, trailing⟩
  · refine ⟨(fun h => by cases h), ?_, fun _ => ⟨rfl, rfl, rfl⟩, (fun h => by cases h)⟩
    simp [registers, Registers.Met]
  · refine ⟨(fun h => by cases h), ?_, fun _ => ⟨rfl, rfl, rfl⟩, (fun h => by cases h)⟩
    simp [registers, Registers.Met]
  · obtain ⟨hlen, hne⟩ := hm
    have hpos := Nat.lt_of_lt_of_eq (List.length_pos_iff.2 hne) hlen.symm
    refine ⟨(fun h => by cases h), fun _ => ?_, ?_, (fun h => by cases h)⟩
    · simp only [registers, List.length_map]
      exact ⟨hlen, hpos, hlen⟩
    · simp [registers]
  · obtain ⟨hlen, hne⟩ := hm
    have hpos := Nat.lt_of_lt_of_eq (List.length_pos_iff.2 hne) hlen.symm
    refine ⟨(fun h => by cases h), fun _ => ?_, ?_, fun _ a ha => ?_⟩
    · simp only [registers, List.length_map]
      exact ⟨hlen, hpos, hlen⟩
    · simp [registers]
    · obtain ⟨_, -, rfl⟩ := List.mem_map.1 ha
      rfl

end Matcher

/-! ### Several matchers -/

/-- What happens to matchers side by side. -/
inductive Event (σ : Type) where
  | create (steps : List (Step σ))
  | call (place : ℕ) (x : Call σ)

namespace Registers

/-- The registers of all matchers after an event. A token is given once, as a place is. -/
def afterEvent (rs : List (Registers σ)) : Event σ → List (Registers σ)
  | .create steps => rs ++ [{ token := rs.length, steps }]
  | .call i x => rs.modify i (·.call x)

def run (es : List (Event σ)) : List (Registers σ) := es.foldl afterEvent []

end Registers

namespace Matcher
variable {ms : List (Matcher σ)} {es : List (Event σ)} {h : Handle} {i : ℕ}

def afterEvent (ms : List (Matcher σ)) : Event σ → List (Matcher σ)
  | .create steps => ms ++ [{ token := ms.length, steps }]
  | .call i x => ms.modify i (·.call x)

def run (es : List (Event σ)) : List (Matcher σ) := es.foldl afterEvent []

theorem run_append (es es' : List (Event σ)) : run (es ++ es') = es'.foldl afterEvent (run es) :=
  List.foldl_append

theorem getElem?_afterEvent_call (ms : List (Matcher σ)) (i j : ℕ) (x : Call σ) :
    (afterEvent ms (.call i x))[j]? = ms[j]?.map fun m => if i = j then m.call x else m :=
  List.getElem?_modify ..

theorem registers_afterEvent (ms : List (Matcher σ)) (e : Event σ) :
    Registers.afterEvent (ms.map registers) e = (afterEvent ms e).map registers := by
  cases e with
  | create steps =>
    simp only [Registers.afterEvent, afterEvent, List.map_append, List.length_map]
    rfl
  | call i x =>
    refine List.ext_getElem? fun j => ?_
    simp only [Registers.afterEvent, afterEvent, List.getElem?_map, List.getElem?_modify]
    by_cases hij : i = j
    · simp [hij, Function.comp_def, registers_call]
    · simp [hij]

theorem registers_run (es : List (Event σ)) : Registers.run es = (run es).map registers := by
  rw [Registers.run, run, ← List.foldl_hom _ registers_afterEvent, List.map_nil]

/-- Each matcher has its place for a token, and a match fits its steps. -/
def Placed (ms : List (Matcher σ)) : Prop :=
  ∀ (i : ℕ) (m : Matcher σ), ms[i]? = some m → m.token = i ∧ m.Fitting

/-- Each matcher is still in its place. -/
def LaterAll (ms ms' : List (Matcher σ)) : Prop :=
  ∀ (i : ℕ) (m : Matcher σ), ms[i]? = some m → ∃ m', ms'[i]? = some m' ∧ m.Later m'

theorem laterAll_afterEvent (ms : List (Matcher σ)) (e : Event σ) : LaterAll ms (afterEvent ms e) := by
  intro i m hm
  cases e with
  | create steps =>
    have hlt := (List.getElem?_eq_some_iff.1 hm).1
    exact ⟨m, (List.getElem?_append_left hlt).trans hm, .refl m⟩
  | call j x =>
    rw [getElem?_afterEvent_call, hm, Option.map_some]
    by_cases hji : j = i
    · exact ⟨m.call x, by rw [if_pos hji], .call m x⟩
    · exact ⟨m, by rw [if_neg hji], .refl m⟩

theorem laterAll_foldl (ms : List (Matcher σ)) (es : List (Event σ)) :
    LaterAll ms (es.foldl afterEvent ms) := by
  induction es generalizing ms with
  | nil => exact fun _ m hm => ⟨m, hm, .refl m⟩
  | cons e es ih =>
    intro i m hm
    obtain ⟨m', hm', hlater⟩ := laterAll_afterEvent ms e i m hm
    obtain ⟨m'', hm'', hlater'⟩ := ih (afterEvent ms e) i m' hm'
    exact ⟨m'', hm'', hlater.trans hlater'⟩

theorem placed_afterEvent (h : Placed ms) (e : Event σ) : Placed (afterEvent ms e) := by
  intro i m hm
  cases e with
  | create steps =>
    rcases Nat.lt_or_ge i ms.length with hlt | hle
    · rw [afterEvent, List.getElem?_append_left hlt] at hm
      exact h i m hm
    · rw [afterEvent, List.getElem?_append_right hle, List.getElem?_singleton] at hm
      split at hm
      · next hi =>
        cases hm
        exact ⟨Nat.le_antisymm hle (Nat.sub_eq_zero_iff_le.1 hi), trivial⟩
      · cases hm
  | call j x =>
    rw [getElem?_afterEvent_call] at hm
    obtain ⟨m', hm', rfl⟩ := Option.map_eq_some_iff.1 hm
    obtain ⟨ht, hfit⟩ := h i m' hm'
    split
    · have hlater := Later.call m' x
      exact ⟨hlater.token.trans ht, hlater.fitting hfit⟩
    · exact ⟨ht, hfit⟩

theorem placed_run (es : List (Event σ)) : Placed (run es) := by
  have hfoldl : ∀ ms : List (Matcher σ), Placed ms → Placed (es.foldl afterEvent ms) := by
    induction es with
    | nil => exact fun _ h => h
    | cons e es ih => exact fun ms h => ih _ (placed_afterEvent h e)
  exact hfoldl [] fun _ _ h => by cases h

/-- The handles that the matcher in a place gives on the way, when it is asked for one and when a step
is added. -/
inductive Issued : List (Event σ) → ℕ → Handle → Prop
  | handle? {es es' : List (Event σ)} {i k : ℕ} {m : Matcher σ} {h : Handle}
    (hm : (run es)[i]? = some m) (hk : m.handle? k = some h) : Issued (es ++ es') i h
  | addStep {es es' : List (Event σ)} {i : ℕ} {s : Step σ} {m m' : Matcher σ} {h : Handle}
    (hm : (run es)[i]? = some m) (hs : m.addStep s = .ok (h, m')) :
    Issued (es ++ .call i (.addStep s) :: es') i h

/-- The step of a handle is one of the matcher, then and later. -/
theorem Issued.index_lt (hi : Issued es i h) :
    ∃ m, (run es)[i]? = some m ∧ m.token = h.token ∧ h.index < m.steps.length := by
  cases hi with
  | @handle? es es' i k m h hm hk =>
    obtain ⟨m', hm', hlater⟩ := laterAll_foldl (run es) es' i m hm
    rw [Matcher.handle?] at hk
    split at hk
    · next hlt =>
      cases hk
      exact ⟨m', (run_append es es').symm ▸ hm', hlater.token, Nat.lt_of_lt_of_le hlt hlater.steps_le⟩
    · cases hk
  | @addStep es es' i s m m₁ h hm hs =>
    have hcall : m.call (.addStep s) = m₁ := by simp only [call, hs]
    have hm₁ : (afterEvent (run es) (.call i (.addStep s)))[i]? = some m₁ := by
      rw [getElem?_afterEvent_call, hm, Option.map_some, if_pos rfl, hcall]
    obtain ⟨m', hm', hlater⟩ := laterAll_foldl _ es' i m₁ hm₁
    refine ⟨m', (run_append es _).symm ▸ hm', ?_⟩
    unfold Matcher.addStep at hs
    split at hs
    · cases hs
      exact ⟨hlater.token, Nat.lt_of_lt_of_le (by simp) hlater.steps_le⟩
    · cases hs

/-! ### The result -/

/-- The registers are those of the matcher, and say what it says. -/
structure LiesIn (m : Matcher σ) (r : Registers σ) : Prop where
  registers : m.registers = r
  span? : m.span? = r.span?
  handle? : ∀ i, m.handle? i = r.handle? i
  captured? : ∀ h, m.captured? h = r.captured? h
  queueFor : ∀ h w, (m.queueFor h w).map Matcher.registers = r.queueFor h w

theorem liesIn_registers (m : Matcher σ) : m.LiesIn m.registers where
  registers := rfl
  span? := registers_span?.symm
  handle? i := (registers_handle? i).symm
  captured? h := (registers_captured? h).symm
  queueFor h w := (registers_queueFor h w).symm

/-- What holds of all matchers after some events. -/
structure Kept (es : List (Event σ)) : Prop where
  liesIn : List.Forall₂ LiesIn (run es) (Registers.run es)
  sound : ∀ r ∈ Registers.run es, r.Sound
  /-- The handles of a matcher do what they are for. -/
  serves : ∀ i h, Issued es i h → ∃ r, (Registers.run es)[i]? = some r ∧ r.Serves h
  /-- Those of the others do nothing. -/
  ignores : ∀ i j h r, Issued es j h → i ≠ j → (Registers.run es)[i]? = some r → r.Ignores h

/-- Whatever calls are made on whatever matchers, the registers of each fit its phase. The handles that
it gave on the way read and queue in the phases where they should, and those of other matchers do
nothing. -/
theorem sound_of_run (es : List (Event σ)) : Kept es := by
  have hr := registers_run es
  have hplace : ∀ (i : ℕ) (r : Registers σ), (Registers.run es)[i]? = some r →
      r.token = i ∧ r.Sound := fun i r hi => by
    rw [hr, List.getElem?_map] at hi
    obtain ⟨m, hm, rfl⟩ := Option.map_eq_some_iff.1 hi
    obtain ⟨ht, hfit⟩ := placed_run es i m hm
    exact ⟨registers_token.trans ht, hfit.sound⟩
  refine ⟨?_, fun r hmem => ?_, fun i h hi => ?_, fun i j h r hj hij hi => ?_⟩
  · rw [hr, List.forall₂_map_right_iff]
    exact List.forall₂_same.2 fun m _ => liesIn_registers m
  · obtain ⟨i, hi⟩ := List.mem_iff_getElem?.1 hmem
    exact (hplace i r hi).2
  · obtain ⟨m, hm, ht, hlt⟩ := hi.index_lt
    have hget : (Registers.run es)[i]? = some m.registers := by
      rw [hr, List.getElem?_map, hm]
      rfl
    refine ⟨m.registers, hget, (placed_run es i m hm).2.sound.serves ?_ ?_⟩
    · rw [registers_token, ht]
    · rw [registers_steps]
      exact hlt
  · obtain ⟨m, hm, ht, -⟩ := hj.index_lt
    refine Registers.ignores_of_token ?_
    rw [← ht, (placed_run es j m hm).1, (hplace i r hi).1]
    exact hij.symm

end Matcher
end ClosedWorld
