import ClosedWorld.Proofs.Pattern.Acts

/-!
# What a commit writes

Between two resets a matcher is asked for insertions, matches once at most, and is told then what is to
become of the captured nodes. Whatever else is done in between leaves no trace in it: it holds the last
rewrite for each step and all insertions in their order, or its rewrites have been committed already
(`matcher_run`, `trailing_run`). So a commit writes what the calls say, as long as the cursor and the body
are as the match left them (`commits_met`).
-/

namespace ClosedWorld

variable {σ : Type}

/-! ### Acts between two resets -/

namespace Act

/-- An act after which the matcher is still the one that was reset. -/
def Continues : Act σ → Prop
  | .reset | .take _ => False
  | _ => True

def order? : Act σ → Option Order
  | .order o => some o
  | _ => none

/-- What a matcher is told by some acts. -/
def orders (acts : List (Act σ)) : List Order := acts.filterMap order?

/-- What is to follow the span, after some acts. -/
def inserts (acts : List (Act σ)) : List Instruction := (orders acts).filterMap Order.insert?

theorem orders_append (acts acts' : List (Act σ)) : orders (acts ++ acts') = orders acts ++ orders acts' :=
  List.filterMap_append

theorem inserts_append (acts acts' : List (Act σ)) :
    inserts (acts ++ acts') = inserts acts ++ inserts acts' := by
  rw [inserts, orders_append, List.filterMap_append]
  rfl

end Act

namespace Order

theorem map_rewrite?_captures (token : ℕ) (orders : List Order) (span : Body) :
    (captures token orders span).map (·.rewrite?) =
      (List.range span.length).map fun step => last? token step orders := by
  rw [captures, List.mapIdx_eq_zipIdx_map, List.range_eq_range', ← List.zipIdx_map_snd, List.map_map,
    List.map_map]
  rfl

theorem countP_captures (token : ℕ) (orders : List Order) (span : Body) :
    (captures token orders span).countP (·.rewrite? == some .remove) =
      (List.range span.length).countP fun step => last? token step orders == some .remove := by
  have h := congrArg (List.countP (· == some .remove)) (map_rewrite?_captures token orders span)
  rwa [List.countP_map, List.countP_map] at h

theorem any_captures (token : ℕ) (orders : List Order) (span : Body) :
    (captures token orders span).any (·.rewrite?.isSome) = true ↔
      ∃ step < span.length, (last? token step orders).isSome := by
  have h := congrArg (List.any · (·.isSome)) (map_rewrite?_captures token orders span)
  simp only [List.any_map] at h
  have hany := Bool.eq_iff_iff.1 h
  simpa only [List.any_eq_true, List.mem_range, Function.comp_apply] using hany

end Order

namespace Matcher
variable {m m' : Matcher σ} {a : Act σ} {start : ℕ} {captures : List Capture}

/-- Its rewrites have been committed. -/
def Spent (m : Matcher σ) : Prop :=
  match m.state with
  | .replaced _ _ _ => True
  | .idle | .exhausted | .matched _ _ => False

/-- What an act can make of a matcher between two resets. -/
inductive Change (m : Matcher σ) : Act σ → Matcher σ → Prop
  | nothing {a : Act σ} (ha : a.order? = none) : Change m a m
  | order (o : Order) : Change m (.order o) (m.obey o)
  | addStep (t : Step σ) (steps : List (Step σ)) (hs : m.state = .idle) :
    Change m (.addStep t) { m with steps }
  | scan {a : Act σ} (ha : a.order? = none) (hs : m.state = .idle ∨ m.state = .exhausted)
    (found? : Option (ℕ × Body)) : Change m a (m.afterScan found?)
  | commit {m' : Matcher σ} (h : m'.Spent) : Change m .replace m'

theorem obeyAll_append (orders orders' : List Order) :
    m.obeyAll (orders ++ orders') = (m.obeyAll orders).obeyAll orders' :=
  List.foldl_append

theorem state_of_scanFault? (h : m.scanFault? = none) : m.state = .idle ∨ m.state = .exhausted := by
  unfold scanFault? at h
  split at h
  · cases h
  · split at h
    · next hs => exact .inl hs
    · next hs => exact .inr hs
    · cases h
    · cases h

/-- Without a match only what is to follow is noted. -/
theorem obey_unmatched (hm : ∀ start captures, m.state ≠ .matched start captures) (o : Order) :
    m.obey o = { m with trailing := m.trailing ++ o.insert?.toList } := by
  have hqueue : ∀ index r, m.queue index r = .error .notMatched := by
    intro index r
    unfold queue
    split
    · next hs => exact absurd hs (hm _ _)
    · rfl
  have hsame : { m with trailing := m.trailing ++ [] } = m := by rw [List.append_nil]
  cases o with
  | queue index r =>
    rw [obey, give, hqueue]
    exact hsame.symm
  | queueFor h r =>
    have hgive : m.queueFor h r = .error .notMatched := by
      unfold queueFor
      split
      · exact hqueue _ _
      · split
        · next hs => exact absurd hs (hm _ _)
        · rfl
    rw [obey, give, hgive]
    exact hsame.symm
  | removeAll =>
    have hgive : m.queueRemoveAll = .error .notMatched := by
      unfold queueRemoveAll
      split
      · next hs => exact absurd hs (hm _ _)
      · rfl
    rw [obey, give, hgive]
    exact hsame.symm
  | insert insn => rfl

/-- What is to follow is noted in every state. -/
theorem trailing_obey (o : Order) : (m.obey o).trailing = m.trailing ++ o.insert?.toList := by
  cases hs : m.state with
  | matched start captures => rw [obey_matched hs]
  | idle | exhausted | replaced => rw [obey_unmatched (by simp [hs])]

theorem spent_obey (h : m.Spent) (o : Order) : (m.obey o).Spent := by
  rw [obey_unmatched]
  · exact h
  · intro start captures hs
    simp only [Spent, hs] at h

namespace Change

theorem spent (hc : m.Change a m') (h : m.Spent) : m'.Spent := by
  cases hc with
  | nothing => exact h
  | order o => exact spent_obey h o
  | addStep t steps hs => simp only [Spent, hs] at h
  | scan ha hs found? => rcases hs with hs | hs <;> simp only [Spent, hs] at h
  | commit h => exact h

theorem trailing (hc : m.Change a m') : m'.Spent ∨ m'.trailing = m.trailing ++ Act.inserts [a] := by
  have hnone : a.order? = none → m.trailing = m.trailing ++ Act.inserts [a] := fun ha => by
    simp [Act.inserts, Act.orders, ha]
  cases hc with
  | nothing ha => exact .inr (hnone ha)
  | order o =>
    refine .inr ((trailing_obey o).trans ?_)
    cases ho : o.insert? <;> simp [Act.inserts, Act.orders, Act.order?, ho]
  | addStep t steps hs => exact .inr (hnone rfl)
  | scan ha hs found? => exact .inr (hnone ha)
  | commit h => exact .inl h

/-- In a match an act tells something, or commits, or changes nothing. -/
theorem matched (hc : m.Change a m') (hs : m.state = .matched start captures) :
    m'.Spent ∨ m' = m.obeyAll (Act.orders [a]) := by
  have hnone : a.order? = none → m = m.obeyAll (Act.orders [a]) := fun ha => by
    simp [Act.orders, ha, obeyAll]
  cases hc with
  | nothing ha => exact .inr (hnone ha)
  | order o => exact .inr rfl
  | addStep t steps hidle => rw [hs] at hidle; cases hidle
  | scan ha hscan found? => rcases hscan with h | h <;> cases hs.symm.trans h
  | commit h => exact .inl h

end Change
end Matcher

namespace Pass
variable {p q : Pass σ} {a : Act σ}

theorem spent_of_replace {changed : Bool} (h : p.replace = .ok (changed, q)) : q.matcher.Spent := by
  unfold replace at h
  split at h
  · simp only at h
    split at h
    · cases h
    · split at h
      · cases h
      · cases h
        trivial
  · cases h

theorem change_after (ha : a.Continues) : p.matcher.Change a (p.after a).matcher := by
  cases a with
  | rewind | peek | turnTo => exact .nothing rfl
  | edit e => exact .nothing rfl
  | reset | take => cases ha
  | addStep t =>
    rw [after, act, Matcher.addStep]
    split
    · next h =>
      split at h
      · next hs =>
        cases h
        exact .addStep t _ hs
      · cases h
    · exact .nothing rfl
  | order o =>
    have hobey : (p.after (.order o)).matcher = p.matcher.obey o := by
      rw [after, act, Matcher.obey]
      cases p.matcher.give o <;> rfl
    rw [hobey]
    exact .order o
  | matchHere =>
    rw [after, act, matchHere]
    cases hf : p.matcher.scanFault? with
    | some e => exact .nothing rfl
    | none => exact .scan rfl (Matcher.state_of_scanFault? hf) _
  | find =>
    rw [after, act, find]
    cases hf : p.matcher.scanFault? with
    | some e => exact .nothing rfl
    | none =>
      have hs := Matcher.state_of_scanFault? hf
      rcases search p.matcher.steps p.cursor.after p.memory with ⟨_ | ⟨skipped, captured⟩, m⟩
      · exact .scan (a := .find) rfl hs none
      · exact .scan (a := .find) rfl hs (some (p.cursor.position + skipped, captured))
  | replace =>
    rw [after, act]
    cases hr : p.replace with
    | error e => exact .nothing rfl
    | ok y => exact .commit (spent_of_replace hr)

theorem spent_run {acts : List (Act σ)} (ha : ∀ a ∈ acts, a.Continues) (h : p.matcher.Spent) :
    (p.run acts).matcher.Spent := by
  induction acts generalizing p with
  | nil => exact h
  | cons a acts ih =>
    obtain ⟨ha, hacts⟩ := List.forall_mem_cons.1 ha
    exact ih (p := p.after a) hacts ((change_after ha).spent h)

/-- The insertions that were asked for, until the commit. -/
theorem trailing_run {acts : List (Act σ)} (ha : ∀ a ∈ acts, a.Continues) :
    (p.run acts).matcher.Spent ∨
      (p.run acts).matcher.trailing = p.matcher.trailing ++ Act.inserts acts := by
  induction acts generalizing p with
  | nil => exact .inr (List.append_nil _).symm
  | cons a acts ih =>
    obtain ⟨ha, hacts⟩ := List.forall_mem_cons.1 ha
    have hinserts : Act.inserts (a :: acts) = Act.inserts [a] ++ Act.inserts acts :=
      Act.inserts_append [a] acts
    rw [run_cons]
    rcases (change_after (p := p) ha).trailing with h | h
    · exact .inl (spent_run hacts h)
    · rw [hinserts, ← List.append_assoc, ← h]
      exact ih hacts

/-- What the matcher was told since the match, until the commit. -/
theorem matcher_run {acts : List (Act σ)} {start : ℕ} {captures : List Capture}
    (ha : ∀ a ∈ acts, a.Continues) (hs : p.matcher.state = .matched start captures) :
    (p.run acts).matcher.Spent ∨ (p.run acts).matcher = p.matcher.obeyAll (Act.orders acts) := by
  induction acts generalizing p captures with
  | nil => exact .inr rfl
  | cons a acts ih =>
    obtain ⟨ha, hacts⟩ := List.forall_mem_cons.1 ha
    have horders : Act.orders (a :: acts) = Act.orders [a] ++ Act.orders acts :=
      Act.orders_append [a] acts
    rw [run_cons]
    rcases (change_after (p := p) ha).matched hs with h | h
    · exact .inl (spent_run hacts h)
    · rw [horders, Matcher.obeyAll_append, ← h]
      exact ih hacts (congrArg Matcher.state (h.trans (Matcher.obeyAll_matched _ hs)))

/-! ### The commit of a match -/

theorem met_of_matchHere (h : p.matchHere = .ok (true, q)) : ∃ span rest m,
    span.length = p.matcher.steps.length ∧ p.matcher.scanFault? = none ∧
      q = { p with memory := m }.met [] span rest := by
  cases hf : p.matcher.scanFault? with
  | some e => simp [matchHere, hf] at h
  | none =>
    rcases ha : attempt p.matcher.steps p.cursor.after p.memory with ⟨⟨_ | span, tested⟩, m⟩
    · rw [matchHere_of_attempt_none hf ha] at h
      cases h
    · have hspan : (attempt p.matcher.steps p.cursor.after p.memory).1.captured? = some span := by rw [ha]
      obtain ⟨rest, hrest⟩ := exists_append_of_attempt hspan
      obtain rfl : tested = span.length := by simpa only [ha] using tested_of_attempt hspan
      have hq := h.symm.trans (matchHere_of_attempt_some hf hrest ha)
      exact ⟨span, rest, m, (length_le_of_attempt hspan).1, rfl, (Prod.mk.inj (Except.ok.inj hq)).2⟩

theorem met_of_scan (h : p.matchHere = .ok (true, q) ∨ p.find = .ok (true, q)) : ∃ skipped span rest m,
    span.length = p.matcher.steps.length ∧ p.matcher.scanFault? = none ∧
      q = { p with memory := m }.met skipped span rest := by
  rcases h with h | h
  · exact ⟨[], met_of_matchHere h⟩
  · obtain ⟨skipped, span, rest, m, hlen, -, hq⟩ := met_of_find h
    refine ⟨skipped, span, rest, m, hlen, ?_, hq⟩
    unfold find at h
    split at h
    · cases h
    · assumption

/-- What comes of the commit of a match, by what the matcher was told in it and what is to follow. -/
structure Commits (p : Pass σ) (orders : List Order) (inserts : List Instruction) (pre span rest : Body)
    (changed : Bool) (q : Pass σ) : Prop where
  replace : p.replace = .ok (changed, q)
  machine : Routine.replace.run p.machine = .ok changed q.machine
  /-- The cursor is right behind the captured nodes, one for each step. -/
  behind : p.cursor = ⟨pre ++ span, rest⟩
  captured : p.matcher.captured = span
  steps : span.length = p.matcher.steps.length
  matched : p.matcher.span? = some (pre.length, pre.length + span.length)
  /-- Each captured node is kept, overwritten or removed by the last rewrite for its step. Then come the
  insertions, and then the cursor. -/
  written :
    let b := rewritten (Order.captures p.matcher.token orders span) p.supply
    q.cursor = ⟨pre ++ b.1 ++ (b.2.body inserts).1, rest⟩
  fresh : ∀ n ∈ q.cursor.body, n ∈ p.cursor.body ∨ p.supply.issued ≤ n.id.val
  removed : q.matcher.removed =
    (List.range span.length).countP fun step => Order.last? p.matcher.token step orders == some .remove
  changed : changed = true ↔
    (∃ step < span.length, (Order.last? p.matcher.token step orders).isSome) ∨ inserts ≠ []
  state : q.matcher.state = .replaced pre.length span q.matcher.removed

theorem commits_met (skipped span rest : Body) (hsteps : span.length = p.matcher.steps.length)
    (orders : List Order) {r : Pass σ} (hm : r.matcher = (p.met skipped span rest).matcher.obeyAll orders)
    (hc : r.cursor = (p.met skipped span rest).cursor) :
    ∃ changed q, r.Commits orders (p.matcher.trailing ++ orders.filterMap Order.insert?)
      (p.cursor.before ++ skipped) span rest changed q := by
  let pre := p.cursor.before ++ skipped
  let captures := Order.captures p.matcher.token orders span
  have hnodes : captures.map (·.node) = span := Order.map_node_captures orders span
  rw [obeyAll_met] at hm
  have hs : r.matcher.state = .matched pre.length captures := by rw [hm]
  have hcursor : r.cursor = ⟨pre ++ captures.map (·.node), rest⟩ := by rw [hc, hnodes]; rfl
  have hreplace := replace_of_span hs hcursor
  have htoken : r.matcher.token = p.matcher.token := by rw [hm]
  have hcaptured : r.matcher.captured = span := by rw [Matcher.captured, hs]; exact hnodes
  refine ⟨_, _, hreplace, run_replace hreplace, hc, hcaptured, ?_, ?_, ?_, ?_, ?_, ?_, ?_⟩
  · rw [hm, hsteps]
  · rw [Matcher.span?, hs, hcaptured]
  · rw [htoken]
    simp only [committed, hm]
    rfl
  · exact fun n hn => (revises_committed hs hcursor).body.id_eq_or_le hn
  · rw [htoken]
    exact Order.countP_captures _ _ _
  · rw [htoken, Bool.or_eq_true, Order.any_captures, hm]
    simp
  · simp only [committed, Matcher.removed, hnodes]
    rfl

/-- A commit after whatever was done since the last reset, if there was a match, it is not committed yet,
and body and cursor are as the match left them. -/
theorem replace_of_match (p : Pass σ) {before after : List (Act σ)} {q : Pass σ}
    (hbefore : ∀ a ∈ before, a.Continues) (hafter : ∀ a ∈ after, a.Continues)
    (hscan : (p.reset.run before).matchHere = .ok (true, q) ∨ (p.reset.run before).find = .ok (true, q))
    {start : ℕ} {captures : List Capture}
    (hstate : (q.run after).matcher.state = .matched start captures)
    (hcursor : (q.run after).cursor = q.cursor) :
    ∃ pre span rest changed r, (q.run after).Commits (Act.orders after) (Act.inserts (before ++ after))
      pre span rest changed r := by
  obtain ⟨skipped, span, rest, m, hlen, hf, rfl⟩ := met_of_scan hscan
  let s : Pass σ := { p.reset.run before with memory := m }
  have hinserts : s.matcher.trailing = Act.inserts before := by
    rcases trailing_run (p := p.reset) hbefore with h | h
    · rcases Matcher.state_of_scanFault? hf with hs | hs <;> simp only [Matcher.Spent, hs] at h
    · exact h
  rcases matcher_run (p := s.met skipped span rest) hafter rfl with h | h
  · simp only [Matcher.Spent, s, hstate] at h
  · rw [Act.inserts_append, ← hinserts]
    exact ⟨_, span, rest, commits_met (p := s) skipped span rest hlen (Act.orders after) h hcursor⟩

/-- Something is to follow, and a removal is asked for too early. -/
def beforeMatch : List (Act Unit) :=
  [.rewind, .order (.insert (.plain .nop)), .order (.queue 0 .remove)]

/-- The second step is asked for twice, with the cursor elsewhere in between. -/
def sinceMatch : List (Act Unit) :=
  [.order (.queue 1 .remove), .edit (.seek 0), .find, .replace, .order (.queue 1 (.replace (.plain .dup))),
    .order (.insert (.plain .pop)), .edit (.seek 3)]

theorem replace_of_match_nested :
    let p := overNestedPops .exhausted
    let q := (p.reset.run beforeMatch).met (nestedPops.take 1) ((nestedPops.drop 1).take 2)
      (nestedPops.drop 3)
    (∀ a ∈ beforeMatch, a.Continues) ∧ (∀ a ∈ sinceMatch, a.Continues) ∧
      ((p.reset.run beforeMatch).matchHere = .ok (true, q) ∨
        (p.reset.run beforeMatch).find = .ok (true, q)) ∧
      (∃ captures, (q.run sinceMatch).matcher.state = .matched 1 captures) ∧
      (q.run sinceMatch).cursor = q.cursor ∧
      ∃ pre span rest changed r, (q.run sinceMatch).Commits (Act.orders sinceMatch)
        (Act.inserts (beforeMatch ++ sinceMatch)) pre span rest changed r :=
  have hbefore : ∀ a ∈ beforeMatch, a.Continues := by simp [beforeMatch, Act.Continues]
  have hsince : ∀ a ∈ sinceMatch, a.Continues := by simp [sinceMatch, Act.Continues]
  ⟨hbefore, hsince, .inr rfl, ⟨_, rfl⟩, rfl,
    replace_of_match (overNestedPops .exhausted) hbefore hsince (.inr rfl) rfl rfl⟩

example :
    ((overNestedPops .idle).run (beforeMatch ++ .find :: sinceMatch ++ [.replace])).cursor.body.instructions =
      [.plain .iconst0, .plain .iconst0, .plain .dup, .plain .dup, .plain .nop, .plain .pop, .plain .pop] := by
  decide +kernel

end Pass
end ClosedWorld
