import ClosedWorld.Proofs.Pattern.Revisions
import ClosedWorld.Proofs.Pattern.Rewriting
import ClosedWorld.Workbench
import Mathlib.Data.List.Induction

/-!
# What an identity stands for

On a workbench bodies are made, copied and edited side by side, and matchers look at any of them. Every
task revises the bodies (`Workbench.revises_apply`): a new node has the next identity, and what a matcher
captures is a node of a body. So there is one log of instructions, in the order in which they were put
in, and whatever is seen anywhere on the way stands in the log at the number of its identity (`Logged`).
That makes the instruction a function of the identity, in bodies, copies and captures alike.
-/

namespace ClosedWorld

/-! ### Edits -/

/-- What is done to a body through a cursor. -/
inductive Edit where
  | push (insn : Instruction)
  | insert (insn : Instruction)
  | set (insn : Instruction)
  | erase
  | seek (position : Nat)
  | advance (n : Nat)
deriving DecidableEq

namespace Edit

def perform : Edit → Cursor → Supply → Cursor × Supply
  | push insn, c, s => c.push insn s
  | insert insn, c, s => c.insert insn s
  | set insn, c, s => c.set insn s
  | erase, c, s => (c.erase, s)
  | seek position, c, s => (c.seek position, s)
  | advance n, c, s => (c.advance n, s)

/-- The instructions that an edit puts in. At the end there is nothing to overwrite. -/
def entered (c : Cursor) : Edit → List Instruction
  | push insn | insert insn => [insn]
  | set insn => if c.hasNext then [insn] else []
  | erase | seek _ | advance _ => []

theorem perform_snd (e : Edit) (c : Cursor) (s : Supply) :
    (e.perform c s).2 = s.advance (e.entered c).length := by
  cases e with
  | set insn => rcases c with ⟨before, _ | ⟨n, ns⟩⟩ <;> rfl
  | _ => rfl

theorem revised_perform (e : Edit) (c : Cursor) (s : Supply) :
    Body.Revised s c.body (e.entered c) (e.perform c s).1.body := by
  have hnode : ∀ insn, (s.body [insn]).1 = [s.node insn] := fun insn => rfl
  rcases c with ⟨before, after⟩
  cases e with
  | push insn =>
    have h := Body.Revised.splice s (before ++ after) [] [] [insn]
    simpa [hnode, perform, Cursor.push, Cursor.body, entered] using h
  | insert insn =>
    have h := Body.Revised.splice s before [] after [insn]
    simpa [hnode, perform, Cursor.insert, Cursor.body, entered] using h
  | set insn =>
    cases after with
    | nil => exact .refl s _
    | cons n rest =>
      have h := Body.Revised.splice s before [n] rest [insn]
      simpa [hnode, perform, Cursor.set, Cursor.body, entered, Cursor.hasNext] using h
  | erase => exact .of_sublist s ((List.tail_sublist after).append_left before)
  | seek position =>
    have hbody := Cursor.body_seek ⟨before, after⟩ position
    exact .of_sublist s (hbody ▸ List.Sublist.refl _)
  | advance n =>
    have hbody := Cursor.body_advance ⟨before, after⟩ n
    exact .of_sublist s (hbody ▸ List.Sublist.refl _)

end Edit

/-! ### Tasks -/

/-- What happens on a workbench, to bodies and matchers by their places. -/
inductive Task where
  | newBody (l : List Instruction)
  | copyBody (i : Nat)
  | edit (i : Nat) (e : Edit)
  | newMatcher (steps : List (Step Probe))
  | addStep (j : Nat) (s : Step Probe)
  | order (j : Nat) (o : Order)
  | reset (j : Nat)
  | matchHere (j i : Nat)
  | find (j i : Nat)
  | replace (j i : Nat)
  | sweep (j i : Nat)
  /-- What tests remember changes on its own. -/
  | remember (m : Probe)

namespace Workbench

/-- The workbench after a task. One that fails changes nothing but what a sweep did until then. -/
def apply (w : Workbench) : Task → Workbench
  | .newBody l => (w.newBody l).2
  | .copyBody i => (w.copyBody i).elim w (·.2)
  | .edit i e => (w.edit i e.perform).getD w
  | .newMatcher steps => (w.newMatcher steps).2
  | .addStep j s => (w.configure j (·.addStep s)).elim w (·.2)
  | .order j o => (w.configure j fun m => (m.give o).map ((), ·)).elim w (·.2)
  | .reset j => (w.configure j fun m => .ok ((), m.reset)).elim w (·.2)
  | .matchHere j i => (w.work j i Pass.matchHere).elim w (·.2)
  | .find j i => (w.work j i Pass.find).elim w (·.2)
  | .replace j i => (w.work j i Pass.replace).elim w (·.2)
  | .sweep j i => (w.sweep j i).elim w (·.2)
  | .remember m => { w with probe := m }

def run (es : List Task) : Workbench := es.foldl apply {}

theorem run_append_singleton (es : List Task) (e : Task) : run (es ++ [e]) = (run es).apply e := by
  rw [run, List.foldl_append]
  rfl

/-- The body in a place, with nothing in it if there is none. -/
def bodyAt (w : Workbench) (i : Nat) : Body := (w.bodies[i]?).elim [] Cursor.body

def captured (w : Workbench) : Body := w.matchers.flatMap (·.captured)

/-- All nodes of bodies and all that are captured. -/
def nodes (w : Workbench) : Body := w.bodies.flatMap (·.body) ++ w.captured

end Workbench

namespace Task

/-- The instructions that a task puts in, in their order. -/
def entered (w : Workbench) : Task → List Instruction
  | newBody l => l
  | edit i e => (w.bodies[i]?).elim [] e.entered
  | replace j i => (w.pass? j i).elim [] fun p => if p.replace.isOk then p.matcher.queued else []
  | _ => []

/-- The place of the body that a task works on. -/
def place (w : Workbench) : Task → Nat
  | edit i _ | matchHere _ i | find _ i | replace _ i | sweep _ i => i
  | _ => w.bodies.length

/-- The body that the one in a place was before the task. A copy was the body that is copied, and a new
one was empty. -/
def origin (w : Workbench) (e : Task) (i : Nat) : Body :=
  match e with
  | copyBody k => if i = w.bodies.length then w.bodyAt k else w.bodyAt i
  | _ => w.bodyAt i

end Task

/-! ### Every task revises the bodies -/

namespace Workbench
variable {w w' : Workbench} {i j : Nat}

/-- A workbench later on, with instructions put into the body in a place and only there. -/
structure Revises (w : Workbench) (origin : Nat → Body) (place : Nat) (l : List Instruction)
    (w' : Workbench) : Prop where
  supply : w'.supply = w.supply.advance l.length
  body : ∀ i c, w'.bodies[i]? = some c →
    Body.Revised w.supply (origin i) (if i = place then l else []) c.body
  captured : ∀ n ∈ w'.captured, n ∈ w.nodes

theorem bodyAt_of_getElem? {c : Cursor} (h : w.bodies[i]? = some c) : w.bodyAt i = c.body := by
  rw [bodyAt, h]
  rfl

theorem mem_nodes_of_captured {n : Node} (h : n ∈ w.captured) : n ∈ w.nodes := List.mem_append_right _ h

theorem mem_nodes_of_body {c : Cursor} (hc : w.bodies[i]? = some c) {n : Node} (h : n ∈ c.body) :
    n ∈ w.nodes :=
  List.mem_append_left _ (List.mem_flatMap.2 ⟨c, List.mem_of_getElem? hc, h⟩)

namespace Revises

/-- Only matchers and what tests remember are different, and nothing else is captured. -/
theorem of_bodies_eq {origin : Nat → Body} (horigin : ∀ i < w.bodies.length, origin i = w.bodyAt i)
    (place : Nat) (hs : w'.supply = w.supply) (hb : w'.bodies = w.bodies)
    (hc : ∀ n ∈ w'.captured, n ∈ w.nodes) : w.Revises origin place [] w' where
  supply := hs
  body i c hi := by
    rw [hb] at hi
    rw [ite_self, horigin i (List.getElem?_eq_some_iff.1 hi).1, bodyAt_of_getElem? hi]
    exact .refl _ _
  captured := hc

theorem refl (w : Workbench) (place : Nat) : w.Revises w.bodyAt place [] w :=
  of_bodies_eq (fun _ _ => rfl) place rfl rfl fun _ => mem_nodes_of_captured

/-- A matcher is configured without capturing anything. -/
theorem configure {α : Type} {f : Matcher Probe → Except MatchError (α × Matcher Probe)}
    (hf : ∀ m a m', f m = .ok (a, m') → ∀ n ∈ m'.captured, n ∈ m.captured) (place j : Nat) :
    w.Revises w.bodyAt place [] ((w.configure j f).elim w (·.2)) := by
  unfold Workbench.configure
  cases hm : w.matchers[j]? with
  | none => exact .refl w place
  | some m =>
    cases hok : f m with
    | error e => simpa [hok] using refl w place
    | ok x =>
      simp only [Option.bind_eq_bind, Option.bind_some, hok]
      refine of_bodies_eq (fun _ _ => rfl) place rfl rfl fun n hn => mem_nodes_of_captured ?_
      obtain ⟨m', hm', hn⟩ := List.mem_flatMap.1 hn
      rcases List.mem_or_eq_of_mem_set hm' with hm' | rfl
      · exact List.mem_flatMap.2 ⟨m', hm', hn⟩
      · exact List.mem_flatMap.2 ⟨m, List.mem_of_getElem? hm, hf m x.1 x.2 hok n hn⟩

/-- The body in one place is revised. -/
theorem set {c d : Cursor} {l : List Instruction} (hc : w.bodies[i]? = some c)
    (hs : w'.supply = w.supply.advance l.length) (hb : w'.bodies = w.bodies.set i d)
    (h : Body.Revised w.supply c.body l d.body) (hcaptured : ∀ n ∈ w'.captured, n ∈ w.nodes) :
    w.Revises w.bodyAt i l w' where
  supply := hs
  body k e he := by
    rw [hb, List.getElem?_set] at he
    by_cases hk : i = k
    · subst hk
      rw [if_pos rfl, if_pos (List.getElem?_eq_some_iff.1 hc).1] at he
      cases he
      rwa [if_pos rfl, bodyAt_of_getElem? hc]
    · rw [if_neg hk] at he
      rw [if_neg (Ne.symm hk), bodyAt_of_getElem? he]
      exact .refl _ _
  captured := hcaptured

/-- A body is added, made of another one or of new instructions. -/
theorem append {origin : Nat → Body} {c : Cursor} {l : List Instruction}
    (horigin : ∀ i < w.bodies.length, origin i = w.bodyAt i)
    (h : Body.Revised w.supply (origin w.bodies.length) l c.body) :
    w.Revises origin w.bodies.length l
      { w with bodies := w.bodies ++ [c], supply := w.supply.advance l.length } where
  supply := rfl
  body i d hd := by
    rcases Nat.lt_or_ge i w.bodies.length with hi | hi
    · rw [List.getElem?_append_left hi] at hd
      rw [if_neg (Nat.ne_of_lt hi), horigin i hi, bodyAt_of_getElem? hd]
      exact .refl _ _
    · rw [List.getElem?_append_right hi, List.getElem?_singleton] at hd
      split at hd
      · next hsub =>
        cases hd
        obtain rfl : i = w.bodies.length := Nat.le_antisymm (Nat.sub_eq_zero_iff_le.1 hsub) hi
        rwa [if_pos rfl]
      · cases hd
  captured _ hn := mem_nodes_of_captured (w := w) hn

end Revises

/-! ### Passes on a workbench -/

theorem pass?_eq_some_iff {p : Pass Probe} : w.pass? j i = some p ↔
    ∃ m c, w.matchers[j]? = some m ∧ w.bodies[i]? = some c ∧ p = ⟨m, c, w.supply, w.probe⟩ := by
  unfold pass?
  cases w.matchers[j]? <;> cases w.bodies[i]? <;> simp [eq_comm]

theorem captured_of_pass? {p : Pass Probe} (hp : w.pass? j i = some p) :
    ∀ n ∈ p.matcher.captured, n ∈ w.captured := by
  obtain ⟨m, c, hm, -, rfl⟩ := pass?_eq_some_iff.1 hp
  exact fun n hn => List.mem_flatMap.2 ⟨m, List.mem_of_getElem? hm, hn⟩

theorem body_of_pass? {p : Pass Probe} (hp : w.pass? j i = some p) :
    ∀ n ∈ p.cursor.body, n ∈ w.nodes := by
  obtain ⟨m, c, -, hc, rfl⟩ := pass?_eq_some_iff.1 hp
  exact fun n => mem_nodes_of_body hc

namespace Revises
variable {l : List Instruction}

theorem putPass {p q : Pass Probe} (hp : w.pass? j i = some p) (h : p.Revises l q) :
    w.Revises w.bodyAt i l (w.putPass j i q) := by
  have hnodes : ∀ n ∈ q.matcher.captured, n ∈ w.nodes := fun n hn =>
    (h.captured n hn).elim (fun hn => mem_nodes_of_captured (captured_of_pass? hp n hn))
      (body_of_pass? hp n)
  obtain ⟨m, c, -, hc, rfl⟩ := pass?_eq_some_iff.1 hp
  refine set hc h.supply rfl h.body fun n hn => ?_
  obtain ⟨m', hm', hn⟩ := List.mem_flatMap.1 hn
  rcases List.mem_or_eq_of_mem_set hm' with hm' | rfl
  · exact mem_nodes_of_captured (List.mem_flatMap.2 ⟨m', hm', hn⟩)
  · exact hnodes n hn

/-- Work that is not done puts nothing in. -/
theorem work {f : Pass Probe → Except MatchError (Bool × Pass Probe)}
    (hnone : w.pass? j i = none → l = [])
    (herror : ∀ p e, w.pass? j i = some p → f p = .error e → l = [])
    (hok : ∀ p b q, w.pass? j i = some p → f p = .ok (b, q) → p.Revises l q) :
    w.Revises w.bodyAt i l ((w.work j i f).elim w (·.2)) := by
  unfold Workbench.work
  cases hp : w.pass? j i with
  | none =>
    obtain rfl := hnone hp
    exact .refl w i
  | some p =>
    simp only [Option.bind_eq_bind, Option.bind_some]
    cases hf : f p with
    | error e =>
      obtain rfl := herror p e hp hf
      exact .refl w i
    | ok x => exact putPass hp (hok p x.1 x.2 hp hf)

/-- A scan puts nothing in. -/
theorem scan {f : Pass Probe → Except MatchError (Bool × Pass Probe)}
    (hf : ∀ p b q, f p = .ok (b, q) → p.Reduces q) :
    w.Revises w.bodyAt i [] ((w.work j i f).elim w (·.2)) :=
  work (fun _ => rfl) (fun _ _ _ _ => rfl) fun p b q _ h => (hf p b q h).revises

end Revises
end Workbench

namespace Matcher
variable {σ : Type} {m m' : Matcher σ}

theorem captured_of_addStep {s : Step σ} {h : Handle} (hm : m.addStep s = .ok (h, m')) :
    m'.captured = m.captured := by
  unfold addStep at hm
  split at hm
  · cases hm
    rfl
  · cases hm

/-- An order changes what is to become of the captured nodes, not the nodes. -/
theorem captured_obey (m : Matcher σ) (o : Order) : (m.obey o).captured = m.captured := by
  cases hs : m.state with
  | matched start captures =>
    rw [obey_matched hs, captured, captured, hs]
    refine List.ext_getElem? fun i => ?_
    simp [List.getElem?_mapIdx, Function.comp_def, Order.note]
  | _ =>
    have hstate : (m.obey o).state = m.state := by
      cases o <;> simp [obey, give, queue, queueFor, queueRemoveAll, appendTrailing, hs]
    rw [captured, captured, hstate]

theorem captured_of_give {o : Order} (h : m.give o = .ok m') : m'.captured = m.captured := by
  have hobey : m.obey o = m' := by simp only [obey, h]
  rw [← hobey, captured_obey]

end Matcher

namespace Workbench
variable {w : Workbench}

/-- If an identity belongs to one node only, every task puts its instructions in with the next
identities and leaves the other nodes as they are. -/
theorem revises_apply (hid : ∀ m ∈ w.nodes, ∀ n ∈ w.nodes, m.id = n.id → m = n) (e : Task) :
    w.Revises (e.origin w) (e.place w) (e.entered w) (w.apply e) := by
  have hlast : w.bodyAt w.bodies.length = [] := by simp [bodyAt]
  cases e with
  | newBody l =>
    refine .append (fun _ _ => rfl) ?_
    have horigin : (Task.newBody l).origin w w.bodies.length = [] := hlast
    rw [horigin]
    exact .body w.supply l
  | copyBody k =>
    have horigin : ∀ i < w.bodies.length, (Task.copyBody k).origin w i = w.bodyAt i := fun i hi =>
      if_neg (Nat.ne_of_lt hi)
    cases hk : w.bodies[k]? with
    | none =>
      simp only [apply, copyBody, hk]
      exact .of_bodies_eq horigin _ rfl rfl fun _ => mem_nodes_of_captured
    | some c =>
      simp only [apply, copyBody, hk]
      refine .append horigin ?_
      have hcopied : (Task.copyBody k).origin w w.bodies.length = c.body :=
        (if_pos rfl).trans (bodyAt_of_getElem? hk)
      rw [hcopied, c.body_seek]
      exact .refl _ _
  | edit i e =>
    cases hi : w.bodies[i]? with
    | none =>
      simp only [apply, edit, Task.entered, hi]
      exact .refl w i
    | some c =>
      simp only [apply, edit, Task.entered, hi]
      exact .set hi (e.perform_snd c w.supply) rfl (e.revised_perform c w.supply) fun _ hn =>
        mem_nodes_of_captured (w := w) hn
  | newMatcher steps =>
    refine .of_bodies_eq (fun _ _ => rfl) _ rfl rfl fun n hn => mem_nodes_of_captured ?_
    simpa [apply, newMatcher, captured, Matcher.captured] using hn
  | addStep j s => exact .configure (fun m a m' h n hn => Matcher.captured_of_addStep h ▸ hn) _ j
  | order j o =>
    refine .configure (fun m a m' h n hn => ?_) _ j
    cases hg : m.give o with
    | error e =>
      rw [hg] at h
      cases h
    | ok m'' =>
      rw [hg] at h
      cases h
      exact Matcher.captured_of_give hg ▸ hn
  | reset j => exact .configure (fun m a m' h n hn => by cases h; cases hn) _ j
  | matchHere j i => exact .scan fun p b q => .of_matchHere
  | find j i => exact .scan fun p b q => .of_find
  | replace j i =>
    refine .work (j := j) (i := i) (fun hp => ?_) (fun p e hp he => ?_) fun p b q hp hq => ?_
    · simp only [Task.entered, hp, Option.elim]
    · simp only [Task.entered, hp, Option.elim, he]
      rfl
    · have hqueued : (Task.replace j i).entered w = p.matcher.queued := by
        simp only [Task.entered, hp, Option.elim, hq]
        rfl
      obtain ⟨pre, captures, rest, hs, hc, rfl⟩ := Pass.committed_of_replace hq fun m hm n hn =>
        hid m (mem_nodes_of_captured (captured_of_pass? hp m hm)) n (body_of_pass? hp n hn)
      rw [hqueued]
      exact Pass.revises_committed hs hc
  | sweep j i =>
    simp only [apply, sweep]
    cases hp : w.pass? j i with
    | none => exact .refl w i
    | some p => exact .putPass hp (p.reduces_removeAll _).revises
  | remember m => exact .of_bodies_eq (fun _ _ => rfl) _ rfl rfl fun _ hn =>
      mem_nodes_of_captured (w := w) hn

/-! ### The log -/

variable {es : List Task} {log : List Instruction}

/-- The node was in a body or captured at some time on the way. -/
def Seen (es : List Task) (n : Node) : Prop := ∃ k, n ∈ (run (es.take k)).nodes

theorem seen_of_mem {n : Node} (h : n ∈ (run es).nodes) : Seen es n :=
  ⟨es.length, by rwa [List.take_length]⟩

theorem seen_append_singleton {e : Task} {n : Node} (h : Seen (es ++ [e]) n) :
    Seen es n ∨ n ∈ ((run es).apply e).nodes := by
  obtain ⟨k, hk⟩ := h
  rcases Nat.lt_or_ge es.length k with hlt | hle
  · rw [List.take_of_length_le (by simp; omega), run_append_singleton] at hk
    exact .inr hk
  · rw [List.take_append_of_le_length hle] at hk
    exact .inl ⟨k, hk⟩

/-- A log of all that was put in. What is seen stands in it at the number of its identity. -/
structure Logged (es : List Task) (log : List Instruction) : Prop where
  issued : (run es).supply.issued = log.length
  seen : ∀ n, Seen es n → log[n.id.val]? = some n.insn
  nodup : ∀ c ∈ (run es).bodies, (c.body.map (·.id)).Nodup

/-- What a body was made of stood in a body before. -/
theorem origin_eq (w : Workbench) (e : Task) (i : Nat) :
    e.origin w i = [] ∨ ∃ (k : Nat) (c : Cursor), w.bodies[k]? = some c ∧ e.origin w i = c.body := by
  have hbody : ∀ k, w.bodyAt k = [] ∨
      ∃ (k' : Nat) (c : Cursor), w.bodies[k']? = some c ∧ w.bodyAt k = c.body := fun k => by
    cases hk : w.bodies[k]? with
    | none => exact .inl (by rw [bodyAt, hk]; rfl)
    | some c => exact .inr ⟨k, c, hk, bodyAt_of_getElem? hk⟩
  cases e with
  | copyBody k =>
    by_cases hi : i = w.bodies.length
    · have ho : (Task.copyBody k).origin w i = w.bodyAt k := if_pos hi
      rw [ho]
      exact hbody k
    · have ho : (Task.copyBody k).origin w i = w.bodyAt i := if_neg hi
      rw [ho]
      exact hbody i
  | _ => exact hbody i

namespace Logged

theorem lt (h : Logged es log) {n : Node} (hn : Seen es n) : n.id.val < (run es).supply.issued := by
  rw [h.issued]
  exact (List.getElem?_eq_some_iff.1 (h.seen n hn)).1

theorem eq_of_id_eq (h : Logged es log) {m n : Node} (hm : Seen es m) (hn : Seen es n)
    (hid : m.id = n.id) : m = n := by
  have hinsn := (h.seen m hm).symm.trans (hid ▸ h.seen n hn)
  rcases m with ⟨id, insn⟩
  rcases n with ⟨id', insn'⟩
  obtain rfl : id = id' := hid
  obtain rfl : insn = insn' := Option.some.inj hinsn
  rfl

theorem revises (h : Logged es log) (e : Task) : (run es).Revises (e.origin (run es))
    (e.place (run es)) (e.entered (run es)) ((run es).apply e) :=
  revises_apply (fun _ hm _ hn => h.eq_of_id_eq (seen_of_mem hm) (seen_of_mem hn)) e

theorem seen_of_origin {e : Task} {i : Nat} {n : Node} (hn : n ∈ e.origin (run es) i) : Seen es n := by
  rcases origin_eq (run es) e i with h | ⟨k, c, hc, h⟩
  · rw [h] at hn
    cases hn
  · rw [h] at hn
    exact seen_of_mem (mem_nodes_of_body hc hn)

/-- A task continues the log with what it puts in. -/
theorem step (h : Logged es log) (e : Task) : Logged (es ++ [e]) (log ++ e.entered (run es)) where
  issued := by
    rw [run_append_singleton, (h.revises e).supply, List.length_append, ← h.issued]
    rfl
  seen n hn := by
    have hold : Seen es n → (log ++ e.entered (run es))[n.id.val]? = some n.insn := fun hn => by
      have hlog := h.seen n hn
      rwa [List.getElem?_append_left (List.getElem?_eq_some_iff.1 hlog).1]
    rcases seen_append_singleton hn with hn | hn
    · exact hold hn
    rcases List.mem_append.1 hn with hn | hn
    · obtain ⟨c, hc, hn⟩ := List.mem_flatMap.1 hn
      obtain ⟨i, hi⟩ := List.mem_iff_getElem?.1 hc
      rcases ((h.revises e).body i c hi).mem hn with hn | ⟨k, hk, hl⟩
      · exact hold (seen_of_origin hn)
      · -- new nodes continue the log where it ends
        rw [hk, h.issued, List.getElem?_append_right (Nat.le_add_right _ k), Nat.add_sub_cancel_left]
        split at hl
        · exact hl
        · cases hl
    · exact hold (seen_of_mem ((h.revises e).captured n hn))
  nodup c hc := by
    rw [run_append_singleton] at hc
    obtain ⟨i, hi⟩ := List.mem_iff_getElem?.1 hc
    refine ((h.revises e).body i c hi).nodup ?_ fun n hn => h.lt (seen_of_origin hn)
    rcases origin_eq (run es) e i with ho | ⟨k, d, hd, ho⟩
    · rw [ho]
      exact List.nodup_nil
    · rw [ho]
      exact h.nodup d (List.mem_of_getElem? hd)

end Logged

theorem exists_logged (es : List Task) : ∃ log, Logged es log := by
  induction es using List.reverseRecOn with
  | nil =>
    refine ⟨[], rfl, fun n hn => ?_, fun c hc => by cases hc⟩
    obtain ⟨k, hn⟩ := hn
    rw [List.take_nil] at hn
    cases hn
  | append_singleton es e ih =>
    obtain ⟨log, h⟩ := ih
    exact ⟨_, h.step e⟩

/-! ### The result -/

/-- What holds of the identities on a workbench after some tasks. -/
structure Identified (es : List Task) : Prop where
  nodup : ∀ c ∈ (run es).bodies, (c.body.map (·.id)).Nodup
  /-- An identity names one instruction, in all bodies, copies and captures that there were. -/
  unique : ∀ m n, Seen es m → Seen es n → m.id = n.id → m = n
  /-- Whatever is done next, each body is made of what it was and of the instructions that are put in,
  which get the next identities. -/
  revises : ∀ e, (run es).Revises (e.origin (run es)) (e.place (run es)) (e.entered (run es))
    ((run es).apply e)
  /-- The next identities were never seen before. -/
  lt_issued : ∀ n, Seen es n → n.id.val < (run es).supply.issued
  fresh : ∀ e i c, ((run es).apply e).bodies[i]? = some c →
    ∀ n ∈ c.body, n ∈ e.origin (run es) i ∨ ∀ m, Seen es m → m.id ≠ n.id
  position : ∀ c ∈ (run es).bodies, ∀ id i,
    c.body.position? id = some i ↔ c.body[i]?.map (·.id) = some id
  following : ∀ c ∈ (run es).bodies, ∀ i n, c.body[i]? = some n →
    c.body.following? n.id = c.body[i + 1]?.map (·.id)
  /-- A commit that is accepted rewrites the captured nodes, in the place where they stand. -/
  committed : ∀ j i p changed q, (run es).pass? j i = some p → p.replace = .ok (changed, q) →
    ∃ pre captures rest, p.matcher.state = .matched pre.length captures ∧
      p.cursor = ⟨pre ++ captures.map (·.node), rest⟩ ∧ q = p.committed pre captures rest

/-- However bodies are made, copied, edited and rewritten, identities are given out once each, stay with
their instructions and are found where these are. -/
theorem identified_of_run (es : List Task) : Identified es := by
  obtain ⟨log, h⟩ := exists_logged es
  refine ⟨h.nodup, fun m n => h.eq_of_id_eq, h.revises, fun n => h.lt, fun e i c hi n hn => ?_,
    fun c hc id i => Body.position?_eq_some_iff (h.nodup c hc),
    fun c hc i n => Body.following?_of_getElem? (h.nodup c hc), fun j i p changed q hp hq => ?_⟩
  · refine (((h.revises e).body i c hi).id_eq_or_le hn).imp_right fun hle m hm hid => ?_
    have hlt := h.lt hm
    rw [hid] at hlt
    exact Nat.not_lt_of_le hle hlt
  · refine Pass.committed_of_replace hq fun m hm n hn => ?_
    exact h.eq_of_id_eq (seen_of_mem (mem_nodes_of_captured (captured_of_pass? hp m hm)))
      (seen_of_mem (body_of_pass? hp n hn))

/-- A copy shares identities until it is edited. -/
example : (run [.newBody [.plain .nop, .plain .nop], .copyBody 0, .edit 1 (.set (.plain .nop)),
    .edit 0 (.push (.plain .pop))]).bodies.map (·.body.map (·.id.val)) = [[0, 1, 3], [2, 1]] := by
  decide +kernel

end Workbench
end ClosedWorld
