import ClosedWorld.Proofs.Pattern.Round

/-!
# A rewriting loop never looks at its own output

The loop scans, gives the matcher orders for the match, commits and resets, until there is no match. The
orders can differ from match to match, and what counts of them is what was queued last for each step and
all that is to follow (`Matcher.obeyAll_matched`). A commit leaves the cursor behind what it wrote, so
every scan looks at a tail of the body as it was: the loop captures the matches of the greedy cut, and
puts in their place what was ordered (`rewriteOnward_eq`).
-/

namespace ClosedWorld

/-! ### Orders -/

/-- What can be asked of a matcher that has matched. -/
inductive Order where
  | queue (index : Nat) (r : Rewrite)
  | queueFor (h : Handle) (r : Rewrite)
  | removeAll
  | insert (insn : Instruction)
deriving DecidableEq

namespace Order

/-- The rewrite that an order queues for a step of the matcher with a token. -/
def rewrite? (token step : Nat) : Order → Option Rewrite
  | queue index r => if index = step then some r else none
  | queueFor h r => if h.token = token ∧ h.index = step then some r else none
  | removeAll => some .remove
  | insert _ => none

def insert? : Order → Option Instruction
  | insert insn => some insn
  | _ => none

def note (token : Nat) (o : Order) (step : Nat) (x : Capture) : Capture :=
  { x with rewrite? := (o.rewrite? token step).or x.rewrite? }

/-- The rewrite that is queued for a step last. -/
def last? (token step : Nat) (orders : List Order) : Option Rewrite :=
  orders.reverse.findSome? (rewrite? token step)

/-- The nodes of a match with what is to become of each of them. -/
def captures (token : Nat) (orders : List Order) (span : Body) : List Capture :=
  span.mapIdx fun step n => ⟨n, last? token step orders⟩

variable {token step : Nat}

theorem last?_cons (o : Order) (orders : List Order) :
    last? token step (o :: orders) = (last? token step orders).or (o.rewrite? token step) := by
  simp [last?, List.findSome?_append]

theorem mapIdx_note_of_none {o : Order} {captures : List Capture}
    (h : ∀ step < captures.length, o.rewrite? token step = none) :
    captures.mapIdx (o.note token) = captures := by
  refine List.ext_getElem (by simp) fun i _ hi => ?_
  rw [List.getElem_mapIdx, note, h i hi, Option.none_or]

theorem map_node_captures (orders : List Order) (span : Body) :
    (captures token orders span).map (·.node) = span := by
  refine List.ext_getElem? fun i => ?_
  simp [captures, List.getElem?_mapIdx, Function.comp_def]

end Order

namespace Matcher
variable {σ : Type}

def give (m : Matcher σ) : Order → Except MatchError (Matcher σ)
  | .queue index r => m.queue index r
  | .queueFor h r => m.queueFor h r
  | .removeAll => m.queueRemoveAll
  | .insert insn => .ok (m.appendTrailing insn)

/-- The matcher after an order. One that fails changes nothing. -/
def obey (m : Matcher σ) (o : Order) : Matcher σ :=
  match m.give o with
  | .ok m => m
  | .error _ => m

def obeyAll (m : Matcher σ) (orders : List Order) : Matcher σ := orders.foldl obey m

variable {m : Matcher σ} {start : Nat} {captures : List Capture}

theorem eq_of_state (hm : m.state = .matched start captures) :
    { m with state := .matched start captures } = m := by
  rw [← hm]

/-- An order for a step that the matcher does not have is noted nowhere. -/
theorem obey_queue (hm : m.state = .matched start captures) (index : Nat) (r : Rewrite) :
    m.obey (.queue index r) =
      { m with state := .matched start (captures.mapIdx ((Order.queue index r).note m.token)) } := by
  by_cases h : index < captures.length
  · have hnoted : captures.mapIdx ((Order.queue index r).note m.token) =
        captures.modify index fun c => { c with rewrite? := some r } := by
      refine List.mapIdx_eq_iff.2 fun i => ?_
      rw [List.getElem?_modify, Option.map_eq_map]
      refine congrArg (captures[i]?.map ·) (funext fun x => ?_)
      by_cases hi : index = i <;> simp [Order.note, Order.rewrite?, hi]
    rw [hnoted]
    simp only [obey, give, queue, hm, if_pos h]
  · have hnone : ∀ step < captures.length, (Order.queue index r).rewrite? m.token step = none :=
      fun step hstep => if_neg (by omega)
    rw [Order.mapIdx_note_of_none hnone, eq_of_state hm]
    simp only [obey, give, queue, hm, if_neg h]

theorem obey_matched (hm : m.state = .matched start captures) (o : Order) :
    m.obey o = { m with
      state := .matched start (captures.mapIdx (o.note m.token))
      trailing := m.trailing ++ o.insert?.toList } := by
  cases o with
  | queue index r => simpa [Order.insert?] using obey_queue hm index r
  | queueFor h r =>
    by_cases ht : h.token = m.token
    · have hsame : (Order.queueFor h r).note m.token = (Order.queue h.index r).note m.token := by
        funext step x
        simp [Order.note, Order.rewrite?, ht]
      have hgive : m.obey (.queueFor h r) = m.obey (.queue h.index r) := by
        simp only [obey, give, queueFor, if_pos ht]
      simpa [hgive, hsame, Order.insert?] using obey_queue hm h.index r
    · have hnone : ∀ step < captures.length, (Order.queueFor h r).rewrite? m.token step = none :=
        fun step _ => if_neg fun hi => ht hi.1
      rw [Order.mapIdx_note_of_none hnone]
      simp [obey, give, queueFor, ht, hm, Order.insert?, eq_of_state hm]
  | removeAll =>
    have hnoted : captures.mapIdx (Order.removeAll.note m.token) =
        captures.map fun c => { c with rewrite? := some .remove } :=
      List.mapIdx_eq_iff.2 fun i => by
        rw [List.getElem?_map]
        rfl
    rw [hnoted]
    simp [obey, give, queueRemoveAll, hm, Order.insert?]
  | insert insn =>
    rw [Order.mapIdx_note_of_none fun _ _ => rfl, ← hm]
    rfl

theorem obeyAll_matched (orders : List Order) (hm : m.state = .matched start captures) :
    m.obeyAll orders = { m with
      state := .matched start (captures.mapIdx fun step x =>
        { x with rewrite? := (Order.last? m.token step orders).or x.rewrite? })
      trailing := m.trailing ++ orders.filterMap Order.insert? } := by
  induction orders generalizing m captures with
  | nil =>
    have hsame : (captures.mapIdx fun step x =>
        { x with rewrite? := (Order.last? m.token step []).or x.rewrite? }) = captures :=
      List.mapIdx_eq_iff.2 fun i => by simp [Order.last?]
    rw [hsame, ← hm, List.filterMap_nil, List.append_nil]
    rfl
  | cons o orders ih =>
    have h : m.obeyAll (o :: orders) = (m.obey o).obeyAll orders := rfl
    rw [h, obey_matched hm, ih rfl, List.mapIdx_mapIdx]
    have htrailing : o.insert?.toList ++ orders.filterMap Order.insert? =
        (o :: orders).filterMap Order.insert? := by
      cases ho : o.insert? <;> simp [ho]
    simp only [List.append_assoc, htrailing, Order.last?_cons, Function.comp_def, Order.note,
      Option.or_assoc]

end Matcher

/-! ### The loop -/

namespace Pass
variable {σ : Type} {p q r : Pass σ} {tests : List (Node → Bool)}

def obeyAll (p : Pass σ) (orders : List Order) : Pass σ :=
  { p with matcher := p.matcher.obeyAll orders }

/-- Rewrites every match from the cursor on, the `i`-th one as planned for its number and its nodes. The
answer is what was captured, match by match. -/
def rewriteOnward (plan : Nat → Body → List Order) (i : Nat) (p : Pass σ) :
    Except MatchError (List Body) × Pass σ :=
  match _hp : p.find with
  | .error e => (.error e, p)
  | .ok (false, q) => (.ok [], q)
  | .ok (true, q) =>
    match _hq : (q.obeyAll (plan i q.matcher.captured)).replace with
    | .error e => (.error e, q)
    | .ok (_, r) =>
      let (spans, s) := r.reset.rewriteOnward plan (i + 1)
      (spans.map (q.matcher.captured :: ·), s)
termination_by p.cursor.after.length
decreasing_by
  have hafter := after_of_replace _hq
  have hlt := length_after_lt_of_find _hp
  simpa only [reset, hafter, obeyAll] using hlt

/-- Rewrites every match in the body, from its start. -/
def rewriteAll (plan : Nat → Body → List Order) (p : Pass σ) : Except MatchError (List Body) × Pass σ :=
  { p with cursor := p.cursor.seek 0 }.rewriteOnward plan 0

/-- A body put together from its pieces, with each match rewritten as planned and followed by what is
to be inserted behind it. The matches are numbered from `i` on, and something may be waiting to be
inserted behind the first. -/
def substituted (token : Nat) (plan : Nat → Body → List Order) :
    Nat → List Instruction → List Piece → Supply → Body × Supply
  | _, _, [], s => ([], s)
  | i, waiting, .kept n :: ps, s =>
    let (b, s) := substituted token plan i waiting ps s
    (n :: b, s)
  | i, waiting, .matched span :: ps, s =>
    let orders := plan i span
    let (b, s) := rewritten (Order.captures token orders span) s
    let (inserted, s) := s.body (waiting ++ orders.filterMap Order.insert?)
    let (rest, s) := substituted token plan (i + 1) [] ps s
    (b ++ inserted ++ rest, s)

theorem rewriteOnward_of_miss (plan : Nat → Body → List Order) (i : Nat)
    (h : p.find = .ok (false, q)) : p.rewriteOnward plan i = (.ok [], q) := by
  rw [rewriteOnward]
  split <;> simp_all

theorem rewriteOnward_of_match {changed : Bool} (plan : Nat → Body → List Order) (i : Nat)
    (h : p.find = .ok (true, q))
    (hr : (q.obeyAll (plan i q.matcher.captured)).replace = .ok (changed, r)) :
    p.rewriteOnward plan i =
      ((r.reset.rewriteOnward plan (i + 1)).1.map (q.matcher.captured :: ·),
        (r.reset.rewriteOnward plan (i + 1)).2) := by
  rw [rewriteOnward]
  split
  · simp_all
  · simp_all
  · next q' h' =>
    obtain rfl : q = q' := by simpa using h.symm.trans h'
    split <;> simp_all

theorem substituted_kept (token : Nat) (plan : Nat → Body → List Order) (i : Nat) (skipped : Body)
    (waiting : List Instruction) (ps : List Piece) (s : Supply) :
    substituted token plan i waiting (skipped.map .kept ++ ps) s =
      (skipped ++ (substituted token plan i waiting ps s).1, (substituted token plan i waiting ps s).2) := by
  induction skipped with
  | nil => rfl
  | cons n ns ih =>
    simp only [List.map_cons, List.cons_append, substituted, ih]

/-- The pass after a match was rewritten as ordered. -/
def obeyed (p : Pass σ) (skipped span rest : Body) (orders : List Order) : Pass σ :=
  let (b, s) := rewritten (Order.captures p.matcher.token orders span) p.supply
  let (inserted, s) := s.body (p.matcher.trailing ++ orders.filterMap Order.insert?)
  { p with
    matcher := p.matcher.reset
    cursor := ⟨p.cursor.before ++ skipped ++ b ++ inserted, rest⟩
    supply := s }

theorem obeyAll_met (skipped span rest : Body) (orders : List Order) :
    (p.met skipped span rest).matcher.obeyAll orders = { p.matcher with
      state := .matched (p.cursor.before ++ skipped).length (Order.captures p.matcher.token orders span)
      trailing := p.matcher.trailing ++ orders.filterMap Order.insert? } := by
  have hcaptures : ((span.map ({ node := · }) : List Capture).mapIdx fun step x =>
      { x with rewrite? := (Order.last? p.matcher.token step orders).or x.rewrite? }) =
      Order.captures p.matcher.token orders span := by
    refine List.mapIdx_eq_iff.2 fun j => ?_
    simp [Order.captures, List.getElem?_mapIdx, Function.comp_def]
  refine (Matcher.obeyAll_matched orders rfl).trans ?_
  rw [← hcaptures]
  rfl

/-- No commit of the loop fails, and the next round starts behind what it wrote. -/
theorem replace_obeyAll_met (skipped span rest : Body) (orders : List Order) :
    ∃ changed r, ((p.met skipped span rest).obeyAll orders).replace = .ok (changed, r) ∧
      r.reset = p.obeyed skipped span rest orders := by
  let m : Matcher σ := { p.matcher with
    state := .matched (p.cursor.before ++ skipped).length (Order.captures p.matcher.token orders span)
    trailing := p.matcher.trailing ++ orders.filterMap Order.insert? }
  obtain ⟨changed, hreplace⟩ : ∃ changed, { p.met skipped span rest with matcher := m }.replace =
      .ok (changed, { p with matcher := m }.committed (p.cursor.before ++ skipped)
        (Order.captures p.matcher.token orders span) rest) :=
    replace_met rfl (Order.map_node_captures orders span)
  have hobey : (p.met skipped span rest).matcher.obeyAll orders = m := obeyAll_met skipped span rest orders
  rw [← hobey] at hreplace
  refine ⟨changed, _, hreplace, ?_⟩
  rw [hobey]
  rfl

/-- The rest of the loop, by the pieces of what lies after the cursor. -/
theorem rewriteOnward_eq (hsteps : p.matcher.steps = tests.map .ofTest) (hne : tests ≠ [])
    (hf : p.matcher.scanFault? = none) (plan : Nat → Body → List Order) (i : Nat) :
    let written :=
      substituted p.matcher.token plan i p.matcher.trailing (p.cursor.after.pieces tests) p.supply
    (p.rewriteOnward plan i).1 = .ok (p.cursor.after.spans tests) ∧
      (p.rewriteOnward plan i).2.cursor = ⟨p.cursor.before ++ written.1, []⟩ ∧
      (p.rewriteOnward plan i).2.supply = written.2 := by
  induction hn : p.cursor.after.length using Nat.strongRecOn generalizing p i with
  | _ k ih =>
    rcases find_cases hsteps hne hf with ⟨h, hpieces⟩ | ⟨skipped, span, rest, ha, h, hpieces⟩
    · have hwritten := substituted_kept p.matcher.token plan i p.cursor.after p.matcher.trailing []
        p.supply
      rw [List.append_nil] at hwritten
      rw [rewriteOnward_of_miss plan i h, Body.spans_of_kept hpieces, hpieces, hwritten]
      refine ⟨rfl, ?_, rfl⟩
      simp [missed, substituted, Cursor.body]
    · have hspans := Body.spans_of_matched hpieces
      have hcaptured : (p.met skipped span rest).matcher.captured = span := by
        simp [met, Matcher.captured, Function.comp_def]
      obtain ⟨changed, r, hr, hreset⟩ := replace_obeyAll_met (p := p) skipped span rest (plan i span)
      have hlt : rest.length < p.cursor.after.length := length_after_lt_of_find h
      -- whatever was written for the match lies before the cursor, and `rest` is as it was
      let q := p.obeyed skipped span rest (plan i span)
      have hready : q.matcher.scanFault? = none := by
        simp [q, obeyed, Matcher.reset, Matcher.scanFault?, hsteps, hne]
      obtain ⟨hcaptures, hcursor, hsupply⟩ := ih _ (hn ▸ hlt) (p := q) hsteps hready (i + 1) rfl
      have hmatch := rewriteOnward_of_match plan i h (by rw [hcaptured]; exact hr)
      rw [hmatch, hreset, hspans, hpieces, substituted_kept, hcaptured]
      refine ⟨?_, ?_, hsupply⟩
      · rw [hcaptures]
        rfl
      · rw [hcursor]
        simp only [q, obeyed, substituted, List.append_assoc]
        rfl

/-! ### The result -/

/-- What a rewriting loop captures in a pass, and what it leaves. -/
structure Rewritten (p : Pass σ) (tests : List (Node → Bool)) (plan : Nat → Body → List Order)
    (r : Except MatchError (List Body)) (q : Pass σ) : Prop where
  /-- No scan and no commit fails, and the captures are the matches of the greedy cut. -/
  captured : r = .ok (p.cursor.body.spans tests)
  /-- The pieces of the cut are those of the body as it was. -/
  pieces : (p.cursor.body.pieces tests).flatMap Piece.nodes = p.cursor.body
  fits : ∀ span ∈ p.cursor.body.spans tests, span.length = tests.length ∧ Body.fits tests span
  body : q.cursor.body = (substituted p.matcher.token plan 0 p.matcher.trailing
    (p.cursor.body.pieces tests) p.supply).1
  supply : q.supply = (substituted p.matcher.token plan 0 p.matcher.trailing
    (p.cursor.body.pieces tests) p.supply).2
  done : q.cursor.after = []

theorem rewritten_of_ready (p : Pass σ) (hsteps : p.matcher.steps = tests.map .ofTest)
    (hne : tests ≠ []) (hf : p.matcher.scanFault? = none) (plan : Nat → Body → List Order) :
    p.Rewritten tests plan (p.rewriteAll plan).1 (p.rewriteAll plan).2 := by
  let s : Pass σ := { p with cursor := p.cursor.seek 0 }
  obtain ⟨hcaptured, hcursor, hsupply⟩ := rewriteOnward_eq (p := s) hsteps hne hf plan 0
  refine ⟨hcaptured, Body.flatMap_nodes_pieces hne _, Body.fits_of_mem_spans hne _, ?_, hsupply, ?_⟩
  · rw [rewriteAll, hcursor, Cursor.body, List.append_nil]
    rfl
  · rw [rewriteAll, hcursor]

/-- With pure steps, a rewriting loop captures the matches of the body as it was and puts in the place of
each what was planned for it, even where that matches the steps again. It can begin with a matcher that
holds no match, and with any matcher after a reset. -/
theorem rewriteAll_substitutes (p : Pass σ) (hsteps : p.matcher.steps = tests.map .ofTest)
    (hne : tests ≠ []) (plan : Nat → Body → List Order) :
    (p.matcher.state = .idle ∨ p.matcher.state = .exhausted →
      p.Rewritten tests plan (p.rewriteAll plan).1 (p.rewriteAll plan).2) ∧
      p.reset.Rewritten tests plan (p.reset.rewriteAll plan).1 (p.reset.rewriteAll plan).2 := by
  constructor
  · intro hstate
    have hf : p.matcher.scanFault? = none := by
      rcases hstate with h | h <;> simp [Matcher.scanFault?, hsteps, hne, h]
    exact rewritten_of_ready p hsteps hne hf plan
  · have hf : p.reset.matcher.scanFault? = none := by
      simp [reset, Matcher.reset, Matcher.scanFault?, hsteps, hne]
    exact rewritten_of_ready p.reset hsteps hne hf plan

/-- Each match is followed by another constant and its pop. -/
def repeated : Nat → Body → List Order :=
  fun i _ => [.removeAll, .queue i (.replace (.plain .nop)), .insert (.plain .iconst0),
    .insert (.plain .pop)]

theorem rewriteAll_substitutes_nested :
    let p := overNestedPops .exhausted
    p.matcher.steps = poppedConstant.map .ofTest ∧ poppedConstant ≠ [] ∧
      p.matcher.state = .exhausted ∧
      (p.matcher.state = .idle ∨ p.matcher.state = .exhausted →
        p.Rewritten poppedConstant repeated (p.rewriteAll repeated).1 (p.rewriteAll repeated).2) ∧
      p.reset.Rewritten poppedConstant repeated (p.reset.rewriteAll repeated).1
        (p.reset.rewriteAll repeated).2 :=
  ⟨rfl, by decide, rfl, rewriteAll_substitutes _ rfl (by decide) repeated⟩

example : (substituted 0 repeated 0 [] (nestedPops.pieces poppedConstant) ⟨4⟩).1.instructions =
    [.plain .iconst0, .plain .nop, .plain .iconst0, .plain .pop, .plain .pop] := by decide +kernel

end Pass
end ClosedWorld
