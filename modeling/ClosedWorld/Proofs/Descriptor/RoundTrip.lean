import Mathlib.Data.List.TakeWhile
import ClosedWorld.Descriptor.Format

/-!
# Reading undoes printing

A reader passes over a text if the text stands next and the reader moves behind it (`Passes`). Each read
of a descriptor succeeds with a value exactly if the reader passes over what the value prints as
(`Undoes`), and what follows plays no part: a class name ends at the only `;` that it prints, brackets
end where an element starts, and no field type starts like the end of a list of parameters or like
`void`. Reads in a row pass over the texts in a row (`Passes.append_iff`), so each composite read follows
from its parts.
-/

namespace ClosedWorld

theorem utf8Length_append (cs ds : List Char) :
    utf8Length (cs ++ ds) = utf8Length cs + utf8Length ds := by
  induction cs with
  | nil => simp [utf8Length]
  | cons c cs ih => simp [utf8Length, ih, Nat.add_assoc]

/-! ### Class names -/

theorem mem_intercalate {c sep : Char} {l : List (List Char)} (h : c ∈ [sep].intercalate l) :
    c = sep ∨ ∃ s ∈ l, c ∈ s := by
  induction l with
  | nil => simp at h
  | cons s l ih =>
    cases l with
    | nil => exact .inr ⟨s, by simp, by simpa using h⟩
    | cons t l =>
      rw [List.intercalate_cons_cons] at h
      rcases List.mem_append.1 h with h | h
      · rcases List.mem_append.1 h with h | h
        · exact .inr ⟨s, by simp, h⟩
        · exact .inl (by simpa using h)
      · obtain rfl | ⟨u, hu, hc⟩ := ih h
        · exact .inl rfl
        · exact .inr ⟨u, List.mem_cons_of_mem _ hu, hc⟩

theorem not_isSeparator_of_segmentFault? {cs : List Char} (h : segmentFault? cs = none) {c : Char}
    (hc : c ∈ cs) : isSeparator c = false := by
  unfold segmentFault? at h
  split at h
  · cases h
  split at h
  · cases h
  · next hfind => simpa using List.find?_eq_none.1 hfind c hc

theorem classNameFault?_eq_none_iff {cs : List Char} :
    classNameFault? cs = none ↔ ∀ s ∈ cs.splitOn '/', segmentFault? s = none := by
  unfold classNameFault?
  split
  · next h =>
    -- the empty text is a single segment, and that is empty
    rw [List.isEmpty_iff.1 h]
    exact iff_of_false (fun h => nomatch h) fun h => nomatch h [] (by simp)
  · rw [Option.map_eq_none_iff, List.findSome?_eq_none_iff]

namespace ClassName

/-- A slash is the only separator that a class name can have. -/
theorem eq_slash_of_isSeparator (n : ClassName) {c : Char} (hmem : c ∈ n.text.toList)
    (hc : isSeparator c = true) : c = '/' := by
  have hvalid := classNameFault?_eq_none_iff.1 n.valid
  have hjoin : ['/'].intercalate (n.text.toList.splitOn '/') = n.text.toList :=
    List.intercalate_splitOn '/'
  rw [← hjoin] at hmem
  rcases mem_intercalate hmem with h | ⟨s, hs, hmem⟩
  · exact h
  · have := not_isSeparator_of_segmentFault? (hvalid s hs) hmem
    cases hc.symm.trans this

theorem semicolon_not_mem (n : ClassName) : ';' ∉ n.text.toList := by
  intro hmem
  cases n.eq_slash_of_isSeparator hmem rfl

theorem ofString_eq_ok_iff {s : String} {n : ClassName} : ofString s = .ok n ↔ n.text = s := by
  unfold ofString
  split
  · exact ⟨fun h => Except.ok.inj h ▸ rfl, fun h => by subst h; rfl⟩
  · next e he =>
    refine ⟨fun h => (nomatch h), ?_⟩
    rintro rfl
    rw [n.valid] at he
    cases he

end ClassName

/-! ### Types -/

theorem Element.exists_render (e : Element) :
    ∃ c cs, e.render = c :: cs ∧ c ≠ '[' ∧ c ≠ ')' ∧ c ≠ 'V' := by
  cases e with
  | base b => exact ⟨b.letter, [], rfl, by cases b <;> decide⟩
  | object n => exact ⟨'L', n.text.toList ++ [';'], rfl, by decide⟩

theorem FieldType.exists_render (t : FieldType) :
    ∃ c cs, t.render = c :: cs ∧ c ≠ ')' ∧ c ≠ 'V' := by
  obtain ⟨e, n⟩ := t
  cases n with
  | zero =>
    obtain ⟨c, cs, hrender, -, hc⟩ := e.exists_render
    exact ⟨c, cs, by simpa [render] using hrender, hc⟩
  | succ n => exact ⟨'[', List.replicate n '[' ++ e.render, rfl, by decide⟩

theorem RefType.eq_object_or_array (t : RefType) :
    (∃ n, t = object n) ∨ ∃ e extra, t = array e extra := by
  obtain ⟨⟨e, n⟩, href⟩ := t
  cases n with
  | succ extra => exact .inr ⟨e, extra, rfl⟩
  | zero =>
    cases e with
    | object n => exact .inl ⟨n, rfl⟩
    | base b => cases href

theorem RefType.exists_render (t : RefType) :
    ∃ c cs, t.render = c :: cs ∧ (c = 'L' ∨ c = '[') := by
  obtain ⟨name, rfl⟩ | ⟨e, extra, rfl⟩ := t.eq_object_or_array
  · exact ⟨'L', name.text.toList ++ [';'], rfl, .inl rfl⟩
  · exact ⟨'[', List.replicate extra '[' ++ e.render, rfl, .inr rfl⟩

/-! ### Passing over a text -/

namespace Reader

structure Passes (r : Reader) (cs : List Char) (r' : Reader) : Prop where
  rest : r.rest = cs ++ r'.rest
  offset : r'.offset = r.offset + utf8Length cs

namespace Passes
variable {r r' r'' : Reader} {cs ds : List Char} {c : Char}

theorem nil_iff : r.Passes [] r' ↔ r = r' := by
  constructor
  · rintro ⟨hrest, hoffset⟩
    cases r
    cases r'
    simp_all [utf8Length]
  · rintro rfl
    exact ⟨rfl, rfl⟩

/-- The rest is determined by the text. -/
theorem iff_drop : r.Passes cs r' ↔ cs <+: r.rest ∧ r.drop cs.length = r' := by
  obtain ⟨rest, offset⟩ := r
  constructor
  · rintro ⟨rfl, hoffset⟩
    refine ⟨List.prefix_append _ _, ?_⟩
    rw [drop, List.drop_left, List.take_left, ← hoffset]
  · rintro ⟨⟨after, rfl⟩, rfl⟩
    exact ⟨by simp [drop], by simp [drop]⟩

theorem append_iff : r.Passes (cs ++ ds) r'' ↔ ∃ r', r.Passes cs r' ∧ r'.Passes ds r'' := by
  constructor
  · rintro ⟨hrest, hoffset⟩
    refine ⟨⟨ds ++ r''.rest, r.offset + utf8Length cs⟩, ⟨?_, rfl⟩, ⟨rfl, ?_⟩⟩
    · rw [hrest, List.append_assoc]
    · rw [hoffset, utf8Length_append, Nat.add_assoc]
  · rintro ⟨r', ⟨hrest, hoffset⟩, ⟨hrest', hoffset'⟩⟩
    refine ⟨?_, ?_⟩
    · rw [hrest, hrest', List.append_assoc]
    · rw [hoffset', hoffset, utf8Length_append, Nat.add_assoc]

theorem head? (h : r.Passes (c :: cs) r') : r.rest.head? = some c := by
  rw [h.rest]
  rfl

theorem singleton_iff : r.Passes [c] r' ↔ r.rest.head? = some c ∧ r.drop 1 = r' := by
  rw [iff_drop, List.length_singleton]
  refine and_congr_left fun _ => ?_
  cases r.rest with
  | nil => simp
  | cons d ds => simp [eq_comm]

end Passes
end Reader

/-- A read succeeds with a value exactly where the text of the value stands. -/
def Read.Undoes {α : Type} (p : Read α) (render : α → List Char) : Prop :=
  ∀ a r r', p r = (.ok a, r') ↔ r.Passes (render a) r'

namespace Reader
open Read

/-! ### Reading characters and class names -/

theorem expect_undoes (c : Char) : (expect c).Undoes fun _ => [c] := by
  intro _ r r'
  rw [Passes.singleton_iff]
  unfold expect
  split
  · next hr => simp [hr]
  · next d ds hr =>
    rw [hr, List.head?_cons]
    by_cases hd : d = c <;> simp [hd]

theorem ofLetter?_eq_some_iff {c : Char} {b : BaseType} :
    BaseType.ofLetter? c = some b ↔ c = b.letter := by
  unfold BaseType.ofLetter?
  constructor
  · intro h
    have hletter := List.find?_some h
    simpa using (of_decide_eq_true hletter).symm
  · rintro rfl
    cases b <;> rfl

theorem baseType_undoes : baseType.Undoes BaseType.render := by
  intro b r r'
  refine Iff.trans ?_ Passes.singleton_iff.symm
  have hbind : r.rest.head?.bind BaseType.ofLetter? = some b ↔ r.rest.head? = some b.letter := by
    rw [Option.bind_eq_some_iff]
    simp only [ofLetter?_eq_some_iff, exists_eq_right]
  rw [← hbind]
  unfold baseType
  split
  · next b' hb => simp [hb]
  · next hb => simp [hb]

theorem takeWhile_ne_semicolon {name after : List Char} (h : ';' ∉ name) :
    (name ++ ';' :: after).takeWhile (· != ';') = name := by
  have hname : ∀ c ∈ name, (c != ';') = true := fun c hc => bne_iff_ne.2 fun e => h (e ▸ hc)
  rw [List.takeWhile_append_of_pos hname]
  simp

theorem mapError_eq_ok_iff {ε ε' α : Type} {f : ε → ε'} {x : Except ε α} {a : α} :
    x.mapError f = .ok a ↔ x = .ok a := by
  cases x <;> simp [Except.mapError]

theorem nameToSemicolon_of_split {name after : List Char} {r : Reader} (h : ';' ∉ name)
    (hr : r.rest = name ++ ';' :: after) : nameToSemicolon r =
      ((ClassName.ofString (String.ofList name)).mapError (.className r.offset),
        r.drop (name.length + 1)) := by
  have hlen : name.length ≠ r.rest.length := by
    rw [hr, List.length_append, List.length_cons]
    omega
  simp only [nameToSemicolon, hr, takeWhile_ne_semicolon h]
  rw [← hr, if_neg hlen]

theorem nameToSemicolon_of_not_mem {r : Reader} (h : ';' ∉ r.rest) :
    nameToSemicolon r = (.error (.unexpectedEnd (r.offset + utf8Length r.rest)), r) := by
  have hall : r.rest.takeWhile (· != ';') = r.rest :=
    List.takeWhile_eq_self_iff.2 fun c hc => bne_iff_ne.2 fun e => h (e ▸ hc)
  simp only [nameToSemicolon, hall, ↓reduceIte]

theorem nameToSemicolon_undoes : nameToSemicolon.Undoes fun n => n.text.toList ++ [';'] := by
  intro n r r'
  refine Iff.trans ?_ Passes.iff_drop.symm
  by_cases hmem : ';' ∈ r.rest
  · obtain ⟨name, after, hr, hname⟩ := List.eq_append_cons_of_mem hmem
    have hstands : n.text.toList ++ [';'] <+: r.rest ↔ n.text.toList = name := by
      constructor
      · rintro ⟨after', hafter⟩
        rw [← takeWhile_ne_semicolon hname, ← hr, ← hafter, List.append_assoc, List.singleton_append,
          takeWhile_ne_semicolon n.semicolon_not_mem]
      · rintro rfl
        exact ⟨after, by rw [hr, List.append_assoc, List.singleton_append]⟩
    have hofString : (ClassName.ofString (String.ofList name)).mapError
        (DescriptorError.className r.offset) = .ok n ↔ n.text.toList = name := by
      rw [mapError_eq_ok_iff, ClassName.ofString_eq_ok_iff, ← String.toList_inj, String.toList_ofList]
    rw [nameToSemicolon_of_split hname hr, hstands, Prod.mk.injEq, hofString]
    refine and_congr_right fun htext => ?_
    rw [List.length_append, List.length_singleton, htext]
  · rw [nameToSemicolon_of_not_mem hmem]
    refine ⟨fun h => (nomatch h), ?_⟩
    rintro ⟨hstands, -⟩
    exact absurd (hstands.subset (by simp)) hmem

theorem undoes_after_expect {α : Type} {p : Read α} {render : α → List Char} (hp : p.Undoes render)
    (c : Char) : (expect c >>= fun _ => p).Undoes fun a => c :: render a := by
  intro a r r''
  show _ ↔ r.Passes ([c] ++ render a) r''
  refine bind_eq_ok_iff.trans (Iff.trans ?_ Passes.append_iff.symm)
  constructor
  · rintro ⟨_, r', hc, ha⟩
    exact ⟨r', (expect_undoes c () r r').1 hc, (hp a r' r'').1 ha⟩
  · rintro ⟨r', hc, ha⟩
    exact ⟨(), r', (expect_undoes c () r r').2 hc, (hp a r' r'').2 ha⟩

theorem className_undoes : className.Undoes ClassName.render :=
  undoes_after_expect nameToSemicolon_undoes 'L'

/-! ### Reading types -/

theorem element_undoes : element.Undoes Element.render := by
  intro e r r'
  unfold element
  split
  · next hhead =>
    refine map_eq_ok_iff.trans ?_
    cases e with
    | object n => simpa [Element.render] using className_undoes n r r'
    | base b =>
      constructor
      · rintro ⟨_, _, h⟩
        cases h
      · intro h
        have hletter : some 'L' = some b.letter := hhead.symm.trans h.head?
        cases b <;> cases hletter
  · next hhead =>
    refine map_eq_ok_iff.trans ?_
    cases e with
    | base b => simpa [Element.render] using baseType_undoes b r r'
    | object n =>
      constructor
      · rintro ⟨_, _, h⟩
        cases h
      · intro h
        exact absurd h.head? hhead

theorem exists_brackets (cs : List Char) :
    ∃ n after, cs = List.replicate n '[' ++ after ∧ after.head? ≠ some '[' := by
  induction cs with
  | nil => exact ⟨0, [], rfl, by simp⟩
  | cons c cs ih =>
    by_cases hc : c = '['
    · obtain ⟨n, after, rfl, hafter⟩ := ih
      exact ⟨n + 1, after, by rw [hc, List.replicate_succ, List.cons_append], hafter⟩
    · exact ⟨0, c :: cs, rfl, by simpa using hc⟩

theorem brackets_of_split {n : Nat} {after : List Char} {r : Reader}
    (hr : r.rest = List.replicate n '[' ++ after) (hafter : after.head? ≠ some '[') :
    brackets r = (.ok n, r.drop n) := by
  have hnone : after.takeWhile (· == '[') = [] := by
    cases after with
    | nil => rfl
    | cons c cs => exact List.takeWhile_cons_of_neg (by simpa using hafter)
  have htake : r.rest.takeWhile (· == '[') = List.replicate n '[' := by
    rw [hr, List.takeWhile_append_of_pos (by simp), hnone, List.append_nil]
  simp only [brackets, htake, List.length_replicate]

theorem brackets_of_head {r : Reader} (h : r.rest.head? ≠ some '[') : brackets r = (.ok 0, r) :=
  brackets_of_split (n := 0) rfl h

theorem brackets_eq_ok_iff {n : Nat} {r r' : Reader} : brackets r = (.ok n, r') ↔
    r.Passes (List.replicate n '[') r' ∧ r'.rest.head? ≠ some '[' := by
  rw [Passes.iff_drop, List.length_replicate]
  constructor
  · intro h
    obtain ⟨m, after, hr, hafter⟩ := exists_brackets r.rest
    rw [brackets_of_split hr hafter] at h
    cases h
    refine ⟨⟨⟨after, hr.symm⟩, rfl⟩, ?_⟩
    rwa [drop, hr, List.drop_left' List.length_replicate]
  · rintro ⟨⟨⟨after, hr⟩, rfl⟩, hhead⟩
    rw [drop, ← hr, List.drop_left' List.length_replicate] at hhead
    exact brackets_of_split hr.symm hhead

theorem fieldType_undoes : fieldType.Undoes FieldType.render := by
  intro t r r''
  refine Iff.trans ?_ Passes.append_iff.symm
  constructor
  · intro h
    obtain ⟨n, r₁, hn, h⟩ := bind_eq_ok_iff.1 h
    obtain ⟨e, r₂, he, h⟩ := bind_eq_ok_iff.1 h
    cases h
    exact ⟨r₁, (brackets_eq_ok_iff.1 hn).1, (element_undoes e r₁ r'').1 he⟩
  · rintro ⟨r₁, hn, he⟩
    obtain ⟨c, cs, hrender, hc, -⟩ := t.element.exists_render
    have hhead : r₁.rest.head? = some c := (hrender ▸ he).head?
    refine bind_eq_ok_iff.2 ⟨t.dimensions, r₁, brackets_eq_ok_iff.2 ⟨hn, ?_⟩, ?_⟩
    · simpa [hhead] using hc
    · exact bind_eq_ok_iff.2 ⟨t.element, r'', (element_undoes t.element r₁ r'').2 he, rfl⟩

/-- A reference type is read just where a field type is: a bracket opens an array for both, and without
one only a class is left. -/
theorem refType_undoes : refType.Undoes RefType.render := by
  intro t r r'
  refine Iff.trans ?_ (fieldType_undoes t.type r r')
  unfold refType
  split
  · next hhead =>
    constructor
    · intro h
      obtain ⟨n, r₁, hn, h⟩ := bind_eq_ok_iff.1 h
      obtain ⟨e, r₂, he, h⟩ := bind_eq_ok_iff.1 h
      cases h
      cases n with
      | zero =>
        obtain ⟨hpasses, hnot⟩ := brackets_eq_ok_iff.1 hn
        exact absurd (Passes.nil_iff.1 hpasses ▸ hhead) hnot
      | succ extra =>
        exact bind_eq_ok_iff.2 ⟨extra + 1, r₁, hn, bind_eq_ok_iff.2 ⟨e, r', he, rfl⟩⟩
    · intro h
      obtain ⟨n, r₁, hn, h'⟩ := bind_eq_ok_iff.1 h
      obtain ⟨e, r₂, he, h'⟩ := bind_eq_ok_iff.1 h'
      refine bind_eq_ok_iff.2 ⟨n, r₁, hn, bind_eq_ok_iff.2 ⟨e, r₂, he, ?_⟩⟩
      obtain ⟨name, rfl⟩ | ⟨e', extra, rfl⟩ := t.eq_object_or_array
      · have := ((fieldType_undoes _ r r').1 h).head?
        cases hhead.symm.trans this
      · cases h'
        rfl
  · next hhead =>
    refine map_eq_ok_iff.trans ?_
    constructor
    · rintro ⟨n, hn, rfl⟩
      exact (fieldType_undoes _ r r').2 ((className_undoes n r r').1 hn)
    · intro h
      have hpasses := (fieldType_undoes _ r r').1 h
      obtain ⟨n, rfl⟩ | ⟨e, extra, rfl⟩ := t.eq_object_or_array
      · exact ⟨n, (className_undoes n r r').2 hpasses, rfl⟩
      · exact absurd hpasses.head? hhead

/-! ### Reading methods -/

theorem head?_of_fieldType {t : FieldType} {r r' : Reader} (h : fieldType r = (.ok t, r')) :
    ∃ c, r.rest.head? = some c ∧ c ≠ ')' ∧ c ≠ 'V' := by
  obtain ⟨c, cs, hrender, hc⟩ := t.exists_render
  have hpasses := (fieldType_undoes t r r').1 h
  rw [hrender] at hpasses
  exact ⟨c, hpasses.head?, hc⟩

theorem parameters_nil_iff {r r' : Reader} :
    parameters r = (.ok [], r') ↔ r.Passes [')'] r' := by
  refine Iff.trans ?_ Passes.singleton_iff.symm
  unfold parameters
  split
  · next h => simp [h]
  · next h => simp [h]
  · next c hc h =>
    have hne : r.rest.head? ≠ some ')' := by
      rw [h]
      exact fun e => hc (Option.some.inj e)
    refine iff_of_false ?_ fun hpasses => hne hpasses.1
    intro hnil
    split at hnil
    · cases hnil
    · next t r₁ ht =>
      revert hnil
      rcases parameters r₁ with ⟨e | ts, r₂⟩
      · intro hnil
        cases hnil
      · intro hnil
        cases hnil

theorem parameters_cons_iff {t : FieldType} {ts : List FieldType} {r r'' : Reader} :
    parameters r = (.ok (t :: ts), r'') ↔
      ∃ r', fieldType r = (.ok t, r') ∧ parameters r' = (.ok ts, r'') := by
  constructor
  · intro h
    unfold parameters at h
    split at h
    · cases h
    · cases h
    split at h
    · cases h
    · next u r₁ hu =>
      revert h
      rcases hts : parameters r₁ with ⟨_ | us, r₂⟩
      · intro h
        cases h
      · intro h
        cases h
        exact ⟨r₁, hu, hts⟩
  · rintro ⟨r', ht, hts⟩
    obtain ⟨c, hhead, hc, -⟩ := head?_of_fieldType ht
    unfold parameters
    split
    · next h => cases h.symm.trans hhead
    · next h => exact absurd (Option.some.inj (h.symm.trans hhead)).symm hc
    split
    · next e r₁ he => cases he.symm.trans ht
    · next u r₁ hu =>
      cases hu.symm.trans ht
      simp only [hts]
      rfl

theorem parameters_undoes :
    parameters.Undoes fun ts => ts.flatMap FieldType.render ++ [')'] := by
  intro ts
  induction ts with
  | nil => exact fun _ _ => parameters_nil_iff
  | cons t ts ih =>
    intro r r''
    refine parameters_cons_iff.trans ?_
    show _ ↔ r.Passes ((t :: ts).flatMap FieldType.render ++ [')']) r''
    rw [List.flatMap_cons, List.append_assoc, Passes.append_iff]
    exact exists_congr fun r' => and_congr (fieldType_undoes t r r') (ih r' r'')

theorem returnType_undoes : returnType.Undoes MethodDescriptor.renderReturn := by
  intro t? r r'
  unfold returnType
  split
  · next hhead =>
    cases t? with
    | none => simp [MethodDescriptor.renderReturn, Passes.singleton_iff, hhead]
    | some t =>
      refine iff_of_false (fun h => nomatch h) fun h => ?_
      obtain ⟨c, hc, -, hne⟩ := head?_of_fieldType ((fieldType_undoes t r r').2 h)
      exact hne (Option.some.inj (hc.symm.trans hhead))
  · next hhead =>
    refine map_eq_ok_iff.trans ?_
    cases t? with
    | none =>
      refine iff_of_false ?_ fun h => hhead h.head?
      rintro ⟨_, _, h⟩
      cases h
    | some t => simpa [MethodDescriptor.renderReturn] using fieldType_undoes t r r'

theorem methodDescriptor_undoes : methodDescriptor.Undoes MethodDescriptor.render := by
  refine undoes_after_expect (fun d r r'' => ?_) '('
  rw [List.append_cons]
  refine bind_eq_ok_iff.trans (Iff.trans ?_ Passes.append_iff.symm)
  constructor
  · rintro ⟨ts, r', hts, h⟩
    obtain ⟨t?, _, ht, h⟩ := bind_eq_ok_iff.1 h
    cases h
    exact ⟨r', (parameters_undoes ts r r').1 hts, (returnType_undoes t? r' r'').1 ht⟩
  · rintro ⟨r', hts, ht⟩
    refine ⟨d.parameters, r', (parameters_undoes d.parameters r r').2 hts, ?_⟩
    exact bind_eq_ok_iff.2 ⟨d.returnType?, r'', (returnType_undoes d.returnType? r' r'').2 ht, rfl⟩

end Reader

open Read Reader in
theorem DescriptorKind.read_undoes (k : DescriptorKind) :
    (Descriptor.read : Read k.Value).Undoes Descriptor.render := by
  cases k with
  | base => exact baseType_undoes
  | classRef => exact className_undoes
  | ref => exact refType_undoes
  | field => exact fieldType_undoes
  | method => exact methodDescriptor_undoes

theorem Read.Undoes.whole_eq_ok_iff {α : Type} {p : Read α} {render : α → List Char}
    (hp : p.Undoes render) {s : String} {a : α} : p.whole s = .ok a ↔ s = String.ofList (render a) := by
  have hs : s = String.ofList (render a) ↔ s.toList = render a ++ [] := by
    rw [List.append_nil, ← String.toList_inj, String.toList_ofList]
  rw [hs]
  unfold whole
  constructor
  · intro h
    split at h
    · cases h
    · next b r hb =>
      split at h
      · next hend =>
        cases h
        rw [← List.isEmpty_iff.1 hend]
        exact ((hp a _ r).1 hb).rest
      · cases h
  · intro h
    have hread := (hp a (Reader.ofString s) ⟨[], utf8Length (render a)⟩).2 ⟨h, by simp [Reader.ofString]⟩
    rw [hread]
    rfl

/-- Reading undoes printing and nothing else: from any place in a text, a read gives the value exactly
if what the value prints as stands there, and then stops behind it, whatever follows. A whole text has
the value exactly if it is what the value prints as, and where a printed value ends is determined by
the text. -/
theorem DescriptorKind.read_iff_renders (k : DescriptorKind) (t : k.Value) :
    (∀ (before rest : List Char) (r' : Reader),
      (Descriptor.read : Read k.Value) ⟨rest, utf8Length before⟩ = (.ok t, r') ↔
        ∃ after, rest = Descriptor.render t ++ after ∧
          r' = ⟨after, utf8Length (before ++ Descriptor.render t)⟩) ∧
    (∀ s : String, Descriptor.parse s = .ok t ↔ s = Descriptor.toString t) ∧
    ∀ (t' : k.Value) (after after' : List Char),
      Descriptor.render t ++ after = Descriptor.render t' ++ after' ↔ t = t' ∧ after = after' := by
  have hread := k.read_undoes
  refine ⟨fun before rest r' => ?_, fun s => hread.whole_eq_ok_iff, fun t' after after' => ?_⟩
  · refine (hread t _ r').trans ?_
    rw [utf8Length_append]
    constructor
    · rintro ⟨hrest, hoffset⟩
      exact ⟨r'.rest, hrest, by rw [← hoffset]⟩
    · rintro ⟨after, hrest, rfl⟩
      exact ⟨hrest, rfl⟩
  · constructor
    · intro h
      have ht := (hread t ⟨Descriptor.render t ++ after, 0⟩ ⟨after, _⟩).2 ⟨rfl, rfl⟩
      have ht' := (hread t' ⟨Descriptor.render t ++ after, 0⟩ ⟨after', _⟩).2 ⟨h, rfl⟩
      cases ht.symm.trans ht'
      exact ⟨rfl, rfl⟩
    · rintro ⟨rfl, rfl⟩
      rfl

end ClosedWorld
