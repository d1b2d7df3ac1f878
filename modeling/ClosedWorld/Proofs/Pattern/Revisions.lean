import ClosedWorld.Proofs.Pattern.Registers

/-!
# Revisions of a body

Whatever an edit or a commit makes of a body, nodes that stay keep their order, and a node that was not
there before has one of the next identities of the supply (`Body.Revised`): the one for a given
instruction is the supply's for its place among those that are put in. So a revision leaves the identities
of a body distinct, as long as they were given out before (`Revised.nodup`).

Scans and sweeps put nothing in. A commit compares identities, so it is the span that was captured that it
rewrites, if there is no other node with one of these identities (`Pass.committed_of_replace`).
-/

namespace ClosedWorld

/-! ### Nodes that stay and nodes that are new -/

/-- A body made of another by taking nodes out and putting instructions in, in their order, each with the
next identity. -/
inductive Body.Revised : Supply → Body → List Instruction → Body → Prop
  | nil {s : Supply} : Revised s [] [] []
  | keep {s : Supply} {b b' : Body} {l : List Instruction} (n : Node) (h : Revised s b l b') :
    Revised s (n :: b) l (n :: b')
  | drop {s : Supply} {b b' : Body} {l : List Instruction} (n : Node) (h : Revised s b l b') :
    Revised s (n :: b) l b'
  | add {s : Supply} {b b' : Body} {l : List Instruction} (insn : Instruction)
    (h : Revised (s.advance 1) b l b') : Revised s b (insn :: l) (s.node insn :: b')

namespace Body.Revised
variable {s : Supply} {b b' c c' : Body} {l k : List Instruction}

theorem of_sublist (s : Supply) (h : b'.Sublist b) : Revised s b [] b' := by
  induction h with
  | slnil => exact .nil
  | cons n _ ih => exact .drop n ih
  | cons_cons n _ ih => exact .keep n ih

theorem refl (s : Supply) (b : Body) : Revised s b [] b := of_sublist s (List.Sublist.refl b)

theorem body (s : Supply) (l : List Instruction) : Revised s [] l (s.body l).1 := by
  induction l generalizing s with
  | nil => exact .nil
  | cons insn l ih =>
    rw [supply_body_cons]
    exact .add insn (ih _)

theorem append (h : Revised s b l b') (h' : Revised (s.advance l.length) c k c') :
    Revised s (b ++ c) (l ++ k) (b' ++ c') := by
  induction h with
  | nil => exact h'
  | keep n _ ih => exact .keep n (ih h')
  | drop n _ ih => exact .drop n (ih h')
  | @add s b b' l insn h ih =>
    refine .add insn (ih ?_)
    have hadvance : (s.advance 1).advance l.length = s.advance (insn :: l).length := by
      simp [Supply.advance, Nat.add_assoc, Nat.add_comm 1]
    rwa [hadvance]

/-- Instructions that are put in the place of some nodes. -/
theorem splice (s : Supply) (pre old rest : Body) (l : List Instruction) :
    Revised s (pre ++ old ++ rest) l (pre ++ (s.body l).1 ++ rest) := by
  have hold : Revised s (pre ++ old) [] pre := of_sublist s (List.sublist_append_left pre old)
  have hspan : Revised s (pre ++ old) l (pre ++ (s.body l).1) := by
    have h := hold.append (body s l)
    rwa [List.append_nil] at h
  have h := hspan.append (refl _ rest)
  rwa [List.append_nil] at h

theorem mem (h : Revised s b l b') {n : Node} (hn : n ∈ b') :
    n ∈ b ∨ ∃ i, n.id.val = s.issued + i ∧ l[i]? = some n.insn := by
  induction h with
  | nil => exact .inl hn
  | keep m _ ih =>
    rcases List.mem_cons.1 hn with rfl | hn
    · exact .inl List.mem_cons_self
    · exact (ih hn).imp_left (List.mem_cons_of_mem m)
  | drop m _ ih => exact (ih hn).imp_left (List.mem_cons_of_mem m)
  | add insn _ ih =>
    rcases List.mem_cons.1 hn with rfl | hn
    · exact .inr ⟨0, rfl, rfl⟩
    · refine (ih hn).imp_right ?_
      rintro ⟨i, hi, hl⟩
      refine ⟨i + 1, hi.trans ?_, hl⟩
      simp only [Supply.advance, Nat.add_assoc, Nat.add_comm 1]

theorem id_eq_or_le (h : Revised s b l b') {n : Node} (hn : n ∈ b') : n ∈ b ∨ s.issued ≤ n.id.val := by
  refine (h.mem hn).imp_right ?_
  rintro ⟨i, hi, -⟩
  omega

/-- The identities that are put in are new, and there is none of them twice. -/
theorem nodup (h : Revised s b l b') (hb : (b.map (·.id)).Nodup) (hs : ∀ n ∈ b, n.id.val < s.issued) :
    (b'.map (·.id)).Nodup := by
  induction h with
  | nil => exact hb
  | @keep s b b' l n h ih =>
    obtain ⟨hn, hb⟩ := List.nodup_cons.1 hb
    have hbelow := hs n List.mem_cons_self
    refine List.nodup_cons.2 ⟨fun hmem => ?_, ih hb fun m hm => hs m (List.mem_cons_of_mem n hm)⟩
    obtain ⟨m, hm, hid⟩ := List.mem_map.1 hmem
    rcases h.id_eq_or_le hm with hm | hle
    · exact hn (List.mem_map.2 ⟨m, hm, hid⟩)
    · rw [hid] at hle
      exact Nat.not_lt_of_le hle hbelow
  | drop n _ ih => exact ih (List.nodup_cons.1 hb).2 fun m hm => hs m (List.mem_cons_of_mem n hm)
  | @add s b b' l insn h ih =>
    have hadvance : ∀ n ∈ b, n.id.val < (s.advance 1).issued := fun n hn =>
      Nat.lt_succ_of_lt (hs n hn)
    refine List.nodup_cons.2 ⟨fun hmem => ?_, ih hb hadvance⟩
    obtain ⟨m, hm, hid⟩ := List.mem_map.1 hmem
    have hval : m.id.val = s.issued := congrArg InsnId.val hid
    rcases h.id_eq_or_le hm with hm | hle
    · have := hs m hm
      omega
    · exact absurd hle (by rw [hval]; exact Nat.not_succ_le_self _)

end Body.Revised

/-! ### Looking an identity up -/

namespace Body
variable {b : Body}

/-- An identity stands where its instruction stands and nowhere else. -/
theorem position?_eq_some_iff (hb : (b.map (·.id)).Nodup) {id : InsnId} {i : Nat} :
    b.position? id = some i ↔ b[i]?.map (·.id) = some id := by
  rw [position?, List.findIdx?_eq_some_iff_getElem]
  constructor
  · rintro ⟨hi, hid, -⟩
    rw [List.getElem?_eq_getElem hi, Option.map_some, eq_of_beq hid]
  · intro h
    obtain ⟨n, hn, rfl⟩ := Option.map_eq_some_iff.1 h
    obtain ⟨hi, rfl⟩ := List.getElem?_eq_some_iff.1 hn
    refine ⟨hi, beq_self_eq_true _, fun j hj heq => ?_⟩
    have hinj := (List.pairwise_iff_getElem.1 hb) j i (by simp; omega) (by simpa using hi) hj
    exact hinj (by simpa using eq_of_beq heq)

theorem following?_of_getElem? (hb : (b.map (·.id)).Nodup) {i : Nat} {n : Node} (hn : b[i]? = some n) :
    b.following? n.id = b[i + 1]?.map (·.id) := by
  have hpos : b.position? n.id = some i := (position?_eq_some_iff hb).2 (congrArg (Option.map _) hn)
  rw [following?, hpos]
  cases h : b[i + 1]? <;> simp [h]

end Body

/-! ### Commits -/

theorem Supply.advance_advance (s : Supply) (i j : Nat) : (s.advance i).advance j = s.advance (i + j) :=
  congrArg mk (Nat.add_assoc ..)

/-- The instruction that a commit puts in the place of a captured node. -/
def Capture.replacement? (x : Capture) : Option Instruction :=
  match x.rewrite? with
  | some (.replace insn) => some insn
  | _ => none

theorem Capture.revised_rewritten (x : Capture) (s : Supply) :
    Body.Revised s [x.node] x.replacement?.toList (x.rewritten s).1 ∧
      (x.rewritten s).2 = s.advance x.replacement?.toList.length := by
  rcases x with ⟨n, _ | ⟨insn⟩ | _⟩
  · exact ⟨.refl s [n], rfl⟩
  · exact ⟨.add insn (.drop n .nil), rfl⟩
  · exact ⟨.drop n .nil, rfl⟩

theorem revised_rewritten (captures : List Capture) (s : Supply) :
    Body.Revised s (captures.map (·.node)) (captures.filterMap Capture.replacement?)
        (rewritten captures s).1 ∧
      (rewritten captures s).2 = s.advance (captures.filterMap Capture.replacement?).length := by
  induction captures generalizing s with
  | nil => exact ⟨.nil, rfl⟩
  | cons x xs ih =>
    obtain ⟨hx, hs⟩ := x.revised_rewritten s
    obtain ⟨hxs, hss⟩ := ih (x.rewritten s).2
    have hsplit : (x :: xs).filterMap Capture.replacement? =
        x.replacement?.toList ++ xs.filterMap Capture.replacement? := by
      cases h : x.replacement? <;> simp [h]
    rw [rewritten_cons, hsplit]
    refine ⟨hx.append (hs ▸ hxs), ?_⟩
    rw [hss, hs, Supply.advance_advance, List.length_append]

/-- What a commit would put in, in the order in which it does. -/
def Matcher.queued {σ : Type} (m : Matcher σ) : List Instruction :=
  match m.state with
  | .matched _ captures => captures.filterMap Capture.replacement? ++ m.trailing
  | _ => []

/-- Captured nodes are in their places if their identities are and no others have these identities. -/
theorem held_of_firstMismatch {captures : List Capture} {b : Body} (h : firstMismatch captures b = none)
    (hid : ∀ x ∈ captures, ∀ n ∈ b, x.node.id = n.id → x.node = n) :
    ∃ rest, b = captures.map (·.node) ++ rest := by
  induction captures generalizing b with
  | nil => exact ⟨b, rfl⟩
  | cons x xs ih =>
    rw [firstMismatch] at h
    split at h
    · next hhead =>
      obtain ⟨n, hn, hxn⟩ := Option.map_eq_some_iff.1 hhead
      obtain ⟨b, rfl⟩ := List.head?_eq_some_iff.1 hn
      have hx : x.node = n := hid x List.mem_cons_self n List.mem_cons_self hxn.symm
      have hxs : ∀ y ∈ xs, ∀ m ∈ b, y.node.id = m.id → y.node = m := fun y hy m hm =>
        hid y (List.mem_cons_of_mem x hy) m (List.mem_cons_of_mem n hm)
      obtain ⟨rest, rfl⟩ := ih h hxs
      exact ⟨rest, by rw [List.map_cons, hx]; rfl⟩
    · cases h

theorem Cursor.body_seek (c : Cursor) (position : Nat) : (c.seek position).body = c.body :=
  List.take_append_drop position c.body

/-! ### Passes -/

namespace Pass
variable {σ : Type} {p q r : Pass σ} {changed : Bool}

/-- A pass later on, with what was put into its body in between. -/
structure Revises (p : Pass σ) (l : List Instruction) (q : Pass σ) : Prop where
  body : Body.Revised p.supply p.cursor.body l q.cursor.body
  supply : q.supply = p.supply.advance l.length
  captured : ∀ n ∈ q.matcher.captured, n ∈ p.matcher.captured ∨ n ∈ p.cursor.body

/-- A pass later on, without anything new in its body. -/
structure Reduces (p q : Pass σ) : Prop where
  body : q.cursor.body.Sublist p.cursor.body
  supply : q.supply = p.supply
  captured : ∀ n ∈ q.matcher.captured, n ∈ p.matcher.captured ∨ n ∈ p.cursor.body

namespace Reduces

theorem revises (h : p.Reduces q) : p.Revises [] q := ⟨.of_sublist _ h.body, h.supply, h.captured⟩

theorem refl (p : Pass σ) : p.Reduces p := ⟨List.Sublist.refl _, rfl, fun _ => .inl⟩

theorem trans (h : p.Reduces q) (h' : q.Reduces r) : p.Reduces r where
  body := h'.body.trans h.body
  supply := h'.supply.trans h.supply
  captured n hn := by
    rcases h'.captured n hn with hq | hq
    · exact h.captured n hq
    · exact .inr (h.body.subset hq)

theorem reset (p : Pass σ) : p.Reduces p.reset := ⟨List.Sublist.refl _, rfl, fun _ hn => by cases hn⟩

/-- A scan captures what it looks at, and moves the cursor. -/
theorem afterScan (p : Pass σ) {found? : Option (Nat × Body)} (n : Nat) (m : σ)
    (h : ∀ x, found? = some x → ∀ n ∈ x.2, n ∈ p.cursor.after) :
    p.Reduces (p.afterScan found? n m).2 where
  body := by
    have hbody : (p.afterScan found? n m).2.cursor.body = p.cursor.body := p.cursor.body_advance n
    rw [hbody]
  supply := rfl
  captured k hk := by
    refine .inr (List.mem_append_right _ ?_)
    cases found? with
    | none => cases hk
    | some x =>
      simp only [Pass.afterScan, Matcher.afterScan, Matcher.captured, List.map_map] at hk
      exact h x rfl k (by simpa using hk)

theorem of_matchHere (h : p.matchHere = .ok (changed, q)) : p.Reduces q := by
  unfold matchHere at h
  split at h
  · cases h
  · cases h
    refine afterScan p _ _ fun x hx n hn => ?_
    obtain ⟨captured, hc, rfl⟩ := Option.map_eq_some_iff.1 hx
    obtain ⟨rest, hrest⟩ := exists_append_of_attempt hc
    exact hrest ▸ List.mem_append_left _ hn

theorem of_find (h : p.find = .ok (changed, q)) : p.Reduces q := by
  unfold find at h
  split at h
  · cases h
  · split at h
    · next skipped captured m hs =>
      cases h
      refine afterScan p _ _ fun x hx n hn => ?_
      cases hx
      obtain ⟨before, rest, hafter, -⟩ := exists_append_of_search (congrArg (·.1) hs)
      rw [hafter]
      exact List.mem_append_left _ (List.mem_append_right _ hn)
    · cases h
      exact afterScan p _ _ fun x hx => by cases hx

/-- The removal of a match puts nothing in if nothing is to follow it. -/
theorem of_round (ht : p.matcher.trailing = []) (h : p.find = .ok (true, q))
    (hr : q.removeMatched = .ok (changed, r)) : p.Reduces r.reset := by
  have hfind := of_find h
  obtain ⟨skipped, span, rest, m, -, -, rfl⟩ := met_of_find h
  obtain ⟨_, r', hr', -, hreset⟩ := removeMatched_met (p := { p with memory := m }) ht skipped span rest
  obtain rfl : r' = r := (Prod.mk.inj (Except.ok.inj (hr'.symm.trans hr))).2
  refine hfind.trans ⟨?_, ?_, fun n hn => by cases hn⟩
  · have hspan : (p.cursor.before ++ skipped ++ rest).Sublist (p.cursor.before ++ skipped ++ span ++ rest) :=
      (List.sublist_append_left _ span).append_right rest
    rwa [hreset]
  · rw [hreset]
    rfl

theorem removeOnward (ht : p.matcher.trailing = []) (count : Nat) :
    p.Reduces (p.removeOnward count).2 := by
  fun_induction Pass.removeOnward p count with
  | case1 p count e h => exact .refl p
  | case2 p count q h => exact (of_find h).trans (.reset q)
  | case3 p count q h e h' => exact of_find h
  | case4 p count q h b r h' hremoved => exact of_round ht h h'
  | case5 p count q h b r h' hremoved ih => exact (of_round ht h h').trans (ih rfl)

end Reduces

/-- The removal of all matches puts nothing in, wherever the cursor is left. -/
theorem reduces_removeAll (p : Pass σ) (position : Nat) :
    p.Reduces { p.removeAll.2 with cursor := p.removeAll.2.cursor.seek position } := by
  let s : Pass σ := { p with matcher := p.matcher.reset, cursor := p.cursor.seek 0 }
  have hs : p.Reduces s := ⟨by rw [p.cursor.body_seek], rfl, fun n hn => by cases hn⟩
  have hall : p.Reduces p.removeAll.2 := hs.trans (.removeOnward rfl 0)
  exact hall.trans ⟨by rw [p.removeAll.2.cursor.body_seek], rfl, fun n => .inl⟩

/-! ### Commits -/

/-- A commit is made where the captured nodes are, if there is no other node with one of their
identities. -/
theorem committed_of_replace (h : p.replace = .ok (changed, q))
    (hid : ∀ m ∈ p.matcher.captured, ∀ n ∈ p.cursor.body, m.id = n.id → m = n) :
    ∃ pre captures rest, p.matcher.state = .matched pre.length captures ∧
      p.cursor = ⟨pre ++ captures.map (·.node), rest⟩ ∧ q = p.committed pre captures rest := by
  have hreplace := h
  unfold replace at h
  split at h
  · next start captures hs =>
    simp only at h
    split at h
    · cases h
    next hstop =>
      split at h
      · cases h
      next hmatch =>
        have hcaptured : p.matcher.captured = captures.map (·.node) := by rw [Matcher.captured, hs]
        have hnodes : ∀ x ∈ captures, ∀ n ∈ p.cursor.body.drop start, x.node.id = n.id → x.node = n :=
          fun x hx n hn => hid _ (hcaptured ▸ List.mem_map_of_mem hx) n (List.mem_of_mem_drop hn)
        obtain ⟨rest, hrest⟩ := held_of_firstMismatch hmatch hnodes
        have hpos : p.cursor.before.length = start + captures.length := Decidable.not_not.1 hstop
        have hpre : (p.cursor.body.take start).length = start := by
          rw [List.length_take, Cursor.body, List.length_append]
          omega
        have hbody : p.cursor.before ++ p.cursor.after =
            (p.cursor.body.take start ++ captures.map (·.node)) ++ rest := by
          rw [List.append_assoc, ← hrest, List.take_append_drop, Cursor.body]
        obtain ⟨hbefore, hafter⟩ := List.append_inj hbody (by simp only [List.length_append,
          List.length_map, hpre, hpos])
        have hstate : p.matcher.state = .matched (p.cursor.body.take start).length captures := by
          rw [hpre, hs]
        have hcursor : p.cursor = ⟨p.cursor.body.take start ++ captures.map (·.node), rest⟩ :=
          congrArg₂ Cursor.mk hbefore hafter
        have hq := hreplace.symm.trans (replace_of_span hstate hcursor)
        exact ⟨_, captures, rest, hstate, hcursor, (Prod.mk.inj (Except.ok.inj hq)).2⟩
  · cases h

theorem revises_committed {pre rest : Body} {captures : List Capture}
    (hs : p.matcher.state = .matched pre.length captures)
    (hc : p.cursor = ⟨pre ++ captures.map (·.node), rest⟩) :
    p.Revises p.matcher.queued (p.committed pre captures rest) := by
  obtain ⟨hrewritten, hsupply⟩ := revised_rewritten captures p.supply
  have hqueued : p.matcher.queued = captures.filterMap Capture.replacement? ++ p.matcher.trailing := by
    rw [Matcher.queued, hs]
  have hcaptured : p.matcher.captured = captures.map (·.node) := by rw [Matcher.captured, hs]
  refine ⟨?_, ?_, fun n hn => .inl (hcaptured ▸ hn)⟩
  · rw [hqueued, hc]
    have hinserted := Body.Revised.body (rewritten captures p.supply).2 p.matcher.trailing
    rw [hsupply] at hinserted
    have hwritten := ((Body.Revised.refl p.supply pre).append hrewritten).append
      (hinserted.append (.refl _ rest))
    simpa [Cursor.body, committed, hsupply] using hwritten
  · rw [hqueued, List.length_append, ← Supply.advance_advance, ← hsupply]
    rfl

end Pass
end ClosedWorld
