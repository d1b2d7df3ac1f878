import ClosedWorld.Pattern.Matcher

/-!
# Rewriting passes

A pass is a matcher at work on one body through a cursor. A scan moves the cursor, a commit rewrites
the matched span behind the cursor, and the sweep removes every match from left to right without
looking back.
-/

namespace ClosedWorld

structure Pass (σ : Type) where
  matcher : Matcher σ
  cursor : Cursor
  supply : Supply
  memory : σ

/-- The cursor past one captured instruction, rewritten as queued. -/
def Capture.commit (x : Capture) (c : Cursor) (s : Supply) : Cursor × Supply :=
  match x.rewrite? with
  | none => (c.advance 1, s)
  | some (.replace insn) =>
    let (c, s) := c.set insn s
    (c.advance 1, s)
  | some .remove => (c.erase, s)

/-- The first captured identity that is not found in its place, and what is found there. -/
def firstMismatch : List Capture → Body → Option (InsnId × Option InsnId)
  | [], _ => none
  | x :: xs, b =>
    let found := b.head?.map (·.id)
    if found = some x.node.id then firstMismatch xs b.tail else some (x.node.id, found)

namespace Pass
variable {σ : Type}

def reset (p : Pass σ) : Pass σ := { p with matcher := p.matcher.reset }

/-- The pass after a scan that skipped or tested `n` nodes. -/
def afterScan (p : Pass σ) (found? : Option (Nat × Body)) (n : Nat) (m : σ) : Bool × Pass σ :=
  (found?.isSome, { p with
    matcher := p.matcher.afterScan found?
    cursor := p.cursor.advance n
    memory := m })

/-- Matches the steps right at the cursor, which moves past every tested instruction. -/
def matchHere (p : Pass σ) : Except MatchError (Bool × Pass σ) :=
  match p.matcher.scanFault? with
  | some e => .error e
  | none =>
    let (a, m) := attempt p.matcher.steps p.cursor.after p.memory
    .ok (p.afterScan (a.captured?.map (p.cursor.position, ·)) a.tested m)

/-- Finds the first match at or after the cursor, which moves past the match or to the end. -/
def find (p : Pass σ) : Except MatchError (Bool × Pass σ) :=
  match p.matcher.scanFault? with
  | some e => .error e
  | none =>
    match search p.matcher.steps p.cursor.after p.memory with
    | (some (skipped, captured), m) =>
      .ok (p.afterScan (some (p.cursor.position + skipped, captured)) (skipped + captured.length) m)
    | (none, m) => .ok (p.afterScan none p.cursor.after.length m)

/-- Rewrites the captured instructions from `start` on, then inserts what is to follow them. -/
def rewriteSpan (p : Pass σ) (start : Nat) (captures : List Capture) : Cursor × Supply :=
  let spanned := captures.foldl (fun (c, s) x => x.commit c s) (p.cursor.seek start, p.supply)
  p.matcher.trailing.foldl (fun (c, s) insn => c.insert insn s) spanned

/-- Commits the queued rewrites. The cursor has to stand right after the matched span, and the span
has to hold what was captured. The answer is whether there was anything to commit. -/
def replace (p : Pass σ) : Except MatchError (Bool × Pass σ) :=
  match p.matcher.state with
  | .matched start captures =>
    let stop := start + captures.length
    if p.cursor.position ≠ stop then .error (.cursorMoved stop p.cursor.position)
    else match firstMismatch captures (p.cursor.body.drop start) with
      | some (expected, found) => .error (.captureMismatch expected found)
      | none =>
        let (cursor, supply) := p.rewriteSpan start captures
        let removed := captures.countP (·.rewrite? == some .remove)
        let matcher := { p.matcher with
          state := .replaced start (captures.map (·.node)) removed
          trailing := [] }
        .ok (captures.any (·.rewrite?.isSome) || !p.matcher.trailing.isEmpty,
          { p with matcher, cursor, supply })
  | _ => .error .notMatched

def removeMatched (p : Pass σ) : Except MatchError (Bool × Pass σ) := do
  let matcher ← p.matcher.queueRemoveAll
  { p with matcher }.replace

/-! ### What a pass has left to look at

A scan that matches leaves fewer nodes after the cursor, and a commit leaves those that it finds there, so
a loop that scans and commits comes to an end. -/

section After
variable {p q : Pass σ}

theorem length_after_lt_of_find (h : p.find = .ok (true, q)) :
    q.cursor.after.length < p.cursor.after.length := by
  unfold find at h
  split at h
  · cases h
  next hfault =>
    have hsteps : p.matcher.steps ≠ [] := by
      intro hnil
      simp [Matcher.scanFault?, hnil] at hfault
    have hpos := List.length_pos_iff.2 hsteps
    split at h
    · next skipped captured m hs =>
      cases h
      have := length_le_of_search (by rw [hs])
      simp only [Cursor.advance, List.length_drop]
      omega
    · cases h

theorem after_commit (x : Capture) (c : Cursor) (s : Supply) :
    (x.commit c s).1.after = c.after.tail := by
  rcases x with ⟨n, _ | ⟨insn⟩ | _⟩
  · simp [Capture.commit, Cursor.advance]
  · rcases c with ⟨before, _ | ⟨n', ns⟩⟩ <;> simp [Capture.commit, Cursor.set, Cursor.advance]
  · rfl

theorem after_foldl_commit (captures : List Capture) (c : Cursor) (s : Supply) :
    (captures.foldl (fun (c, s) x => x.commit c s) (c, s)).1.after = c.after.drop captures.length := by
  induction captures generalizing c s with
  | nil => rfl
  | cons x xs ih => rw [List.foldl_cons, ih, after_commit, List.drop_tail, List.length_cons]

theorem after_foldl_insert (l : List Instruction) (c : Cursor) (s : Supply) :
    (l.foldl (fun (c, s) insn => c.insert insn s) (c, s)).1.after = c.after := by
  induction l generalizing c s with
  | nil => rfl
  | cons insn l ih => rw [List.foldl_cons, ih]; rfl

theorem after_rewriteSpan (p : Pass σ) (start : Nat) (captures : List Capture) :
    (p.rewriteSpan start captures).1.after = p.cursor.body.drop (start + captures.length) := by
  rw [rewriteSpan, after_foldl_insert, after_foldl_commit, Cursor.seek, Cursor.ofBody, List.drop_drop]

theorem after_of_replace {changed : Bool} (h : p.replace = .ok (changed, q)) :
    q.cursor.after = p.cursor.after := by
  unfold replace at h
  split at h
  · next start captures _ =>
    simp only at h
    split at h
    · cases h
    next hstop =>
      split at h
      · cases h
      · cases h
        have hpos : p.cursor.before.length = start + captures.length := Decidable.not_not.1 hstop
        rw [after_rewriteSpan, ← hpos, Cursor.body, List.drop_left]
  · cases h

theorem after_of_removeMatched {changed : Bool} (h : p.removeMatched = .ok (changed, q)) :
    q.cursor.after = p.cursor.after := by
  unfold removeMatched at h
  cases hm : p.matcher.queueRemoveAll with
  | error e => rw [hm] at h; cases h
  | ok m => rw [hm] at h; exact after_of_replace (p := { p with matcher := m }) h

end After

/-- Removes every match from the cursor on, given the number of matches removed before. -/
def removeOnward (p : Pass σ) (count : Nat) : Except MatchError Nat × Pass σ :=
  match _hp : p.find with
  | .error e => (.error e, p)
  | .ok (false, q) => (.ok count, q.reset)
  | .ok (true, q) =>
    match _hq : q.removeMatched with
    | .error e => (.error e, q)
    | .ok (_, r) =>
      if r.matcher.removed = 0 then (.error .nothingRemoved, r.reset)
      else r.reset.removeOnward (count + 1)
termination_by p.cursor.after.length
decreasing_by
  have hafter := after_of_removeMatched _hq
  have hlt := length_after_lt_of_find _hp
  simpa only [reset, hafter] using hlt

/-- Removes every match in the body, from its start, and counts them. The matcher is reset first. -/
def removeAll (p : Pass σ) : Except MatchError Nat × Pass σ :=
  { p with matcher := p.matcher.reset, cursor := p.cursor.seek 0 }.removeOnward 0

end Pass

/-- Removes every run of instructions with opcodes in the given sets, one after the other. -/
def Body.sweep (sets : List OpcodeSet) (b : Body) : Except MatchError Nat × Body :=
  let steps : List (Step Unit) := sets.map .ofOpcodes
  let (r, p) := Pass.removeAll ⟨{ token := 0, steps }, .ofBody b 0, {}, ()⟩
  (r, p.cursor.body)

end ClosedWorld
