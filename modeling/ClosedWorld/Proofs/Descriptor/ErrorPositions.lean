import ClosedWorld.Proofs.Descriptor.RoundTrip
import Mathlib.Computability.Language

/-!
# Where reading breaks off

An unexpected character is reported at the place where texts of the kind that is read could still go on, but
none of them with this character (`BreaksOff`). Texts that were read to their end are no different: as none
is the start of another, what breaks off behind them breaks off as a whole (`BreaksOff.mul_left`). So each
read blames the right place if its parts do (`Read.Locates`), and the error for a whole text can be checked
against the texts that are accepted (`DescriptorError.Explains`).
-/

namespace ClosedWorld

/-! ### Texts that break off -/

/-- Some text starts with what stands before, but none has the character next, whatever comes behind. -/
structure BreaksOff (l : Language Char) (before : List Char) (found : Char) : Prop where
  viable : ∃ text ∈ l, before <+: text
  dead : ∀ text ∈ l, ∀ more, ¬ before ++ [found] <+: text ++ more

namespace BreaksOff
variable {l m : Language Char} {before text : List Char} {c found : Char}

theorem head?_of_prefix_cons (h : before ++ [found] <+: c :: text) : (before ++ [found]).head? = some c := by
  obtain ⟨more, hmore⟩ := h
  have hhead := congrArg List.head? hmore
  cases before <;> simpa using hhead

theorem of_head (hl : ∃ text, text ∈ l) (h : ∀ text ∈ l, ∃ c cs, text = c :: cs ∧ c ≠ found) :
    BreaksOff l [] found where
  viable := by
    obtain ⟨text, ht⟩ := hl
    exact ⟨text, ht, List.nil_prefix⟩
  dead text ht more hprefix := by
    obtain ⟨c, cs, rfl, hne⟩ := h text ht
    have hhead : ([] ++ [found]).head? = some c := head?_of_prefix_cons hprefix
    exact hne (Option.some.inj hhead).symm

/-- More texts make no difference if they start in another way. -/
theorem mono (h : BreaksOff l before found) (hlm : ∀ text ∈ l, text ∈ m)
    (hm : ∀ text ∈ m, text ∈ l ∨ ∃ c cs, text = c :: cs ∧ (before ++ [found]).head? ≠ some c) :
    BreaksOff m before found where
  viable := by
    obtain ⟨text, ht, hprefix⟩ := h.viable
    exact ⟨text, hlm text ht, hprefix⟩
  dead text ht more hprefix := by
    rcases hm text ht with ht | ⟨c, cs, rfl, hne⟩
    · exact h.dead text ht more hprefix
    · exact hne (head?_of_prefix_cons hprefix)

theorem mul_right (h : BreaksOff l before found) (hm : ∃ text, text ∈ m) :
    BreaksOff (l * m) before found where
  viable := by
    obtain ⟨text, ht, hprefix⟩ := h.viable
    obtain ⟨text', ht'⟩ := hm
    exact ⟨text ++ text', Language.append_mem_mul ht ht', hprefix.trans (List.prefix_append _ _)⟩
  dead text ht more hprefix := by
    obtain ⟨t, htl, t', -, rfl⟩ := Language.mem_mul.1 ht
    rw [List.append_assoc] at hprefix
    exact h.dead t htl (t' ++ more) hprefix

/-- No text is the start of another, so it is known where a text ended. -/
theorem mul_left (h : BreaksOff m before found) (ht : text ∈ l)
    (hfree : ∀ text' ∈ l, ∀ more more', text ++ more = text' ++ more' → more = more') :
    BreaksOff (l * m) (text ++ before) found where
  viable := by
    obtain ⟨text', ht', hprefix⟩ := h.viable
    exact ⟨text ++ text', Language.append_mem_mul ht ht', (List.prefix_append_right_inj text).2 hprefix⟩
  dead whole hwhole more hprefix := by
    obtain ⟨t, htl, t', ht', rfl⟩ := Language.mem_mul.1 hwhole
    obtain ⟨rest, hrest⟩ := hprefix
    rw [List.append_assoc, List.append_assoc, List.append_assoc] at hrest
    have hbehind := hfree t htl _ _ hrest
    exact h.dead t' ht' more ⟨rest, by rw [← hbehind, List.append_assoc]⟩

end BreaksOff

/-! ### Errors and the text ahead -/

/-- What an error says about the text ahead of a reader where one of some texts was due. -/
def Reader.Blames (r : Reader) (l : Language Char) : DescriptorError → Prop
  | .unexpectedEnd offset => offset = r.offset + utf8Length r.rest
  | .unexpected found offset => ∃ before r', r.Passes before r' ∧ r'.rest.head? = some found ∧
      r'.offset = offset ∧ BreaksOff l before found
  | .className offset cause => ∃ before name after r', r.Passes (before ++ ['L']) r' ∧
      r'.rest = name ++ ';' :: after ∧ ';' ∉ name ∧ r'.offset = offset ∧
      ClassName.ofString (String.ofList name) = .error cause

namespace Reader
variable {r r' : Reader} {l m : Language Char} {cs : List Char} {e : DescriptorError}

/-- An error behind a part of the text is an error for the text with that part. -/
theorem Blames.after (hp : r.Passes cs r') (h : r'.Blames l e)
    (hb : ∀ before found, (before ++ [found]).head? = r'.rest.head? → BreaksOff l before found →
      BreaksOff m (cs ++ before) found) : r.Blames m e := by
  cases e with
  | unexpectedEnd offset =>
    show offset = r.offset + utf8Length r.rest
    rw [hp.rest, utf8Length_append, ← Nat.add_assoc, ← hp.offset]
    exact h
  | unexpected found offset =>
    obtain ⟨before, r'', hbefore, hfound, hoffset, hbreaks⟩ := h
    refine ⟨cs ++ before, r'', Passes.append_iff.2 ⟨r', hp, hbefore⟩, hfound, hoffset, ?_⟩
    refine hb before found ?_ hbreaks
    rw [hbefore.rest, List.head?_append, List.head?_append, hfound]
    rfl
  | className offset cause =>
    obtain ⟨before, name, after, r'', hbefore, hrest⟩ := h
    refine ⟨cs ++ before, name, after, r'', ?_, hrest⟩
    rw [List.append_assoc]
    exact Passes.append_iff.2 ⟨r', hp, hbefore⟩

theorem Blames.mono (h : r.Blames l e) (hlm : ∀ text ∈ l, text ∈ m)
    (hm : ∀ text ∈ m, text ∈ l ∨ ∃ c cs, text = c :: cs ∧ r.rest.head? ≠ some c) : r.Blames m e :=
  h.after (Passes.nil_iff.2 rfl) fun _ _ hhead hbreaks => hbreaks.mono hlm (hhead ▸ hm)

theorem Blames.mul_right (h : r.Blames l e) (hm : ∃ text, text ∈ m) : r.Blames (l * m) e :=
  h.after (Passes.nil_iff.2 rfl) fun _ _ _ hbreaks => hbreaks.mul_right hm

theorem blames_unexpected (hl : ∃ text, text ∈ l)
    (h : ∀ text ∈ l, ∃ c cs, text = c :: cs ∧ r.rest.head? ≠ some c) : r.Blames l r.unexpected := by
  unfold unexpected
  split
  · next hr =>
    show r.offset = r.offset + utf8Length r.rest
    rw [hr]
    rfl
  · next found ds hr =>
    refine ⟨[], r, Passes.nil_iff.2 rfl, by rw [hr]; rfl, rfl, .of_head hl fun text ht => ?_⟩
    obtain ⟨c, cs, htext, hne⟩ := h text ht
    exact ⟨c, cs, htext, fun e => hne (by rw [hr, e]; rfl)⟩

end Reader

/-- What the values of a type print as. -/
def texts {α : Type} (render : α → List Char) : Language Char := Set.range render

namespace Read
variable {α β : Type} {p : Read α} {f : α → Read β} {render : α → List Char} {l m : Language Char}

theorem mem_texts (render : α → List Char) (a : α) : render a ∈ texts render := ⟨a, rfl⟩

/-- Each error of a read blames the text in front of it. -/
def Locates (p : Read α) (l : Language Char) : Prop :=
  ∀ r e r', p r = (.error e, r') → r.Blames l e

theorem bind_eq_error_iff {r r'' : Reader} {e : DescriptorError} :
    (p >>= f) r = (.error e, r'') ↔
      p r = (.error e, r'') ∨ ∃ a r', p r = (.ok a, r') ∧ f a r' = (.error e, r'') := by
  rw [bind_apply]
  rcases p r with ⟨_ | a, r'⟩
  · simp
  · simp

theorem map_eq_error_iff {g : α → β} {r r' : Reader} {e : DescriptorError} :
    (g <$> p) r = (.error e, r') ↔ p r = (.error e, r') := by
  rw [map_apply]
  rcases p r with ⟨_ | a, r''⟩
  · simp [Except.map]
  · simp [Except.map]

theorem Locates.map (hp : p.Locates l) (g : α → β) : (g <$> p).Locates l :=
  fun r e r' h => hp r e r' (map_eq_error_iff.1 h)

/-- What a text was printed from is known, and so is where it ends. -/
theorem Undoes.append_inj (hp : p.Undoes render) {a a' : α} {more more' : List Char}
    (h : render a ++ more = render a' ++ more') : a = a' ∧ more = more' := by
  have ha := (hp a ⟨render a ++ more, 0⟩ ⟨more, _⟩).2 ⟨rfl, rfl⟩
  have ha' := (hp a' ⟨render a ++ more, 0⟩ ⟨more', _⟩).2 ⟨h, rfl⟩
  cases ha.symm.trans ha'
  exact ⟨rfl, rfl⟩

theorem Undoes.blames_behind (hp : p.Undoes render) {a : α} {r r' : Reader} {e : DescriptorError}
    (ha : p r = (.ok a, r')) (h : r'.Blames m e) : r.Blames (texts render * m) e := by
  refine h.after ((hp a r r').1 ha) fun before found _ hbreaks => hbreaks.mul_left (mem_texts render a) ?_
  rintro _ ⟨a', rfl⟩ more more' happend
  exact (hp.append_inj happend).2

theorem Locates.bind (hp : p.Locates (texts render)) (hu : p.Undoes render)
    (hf : ∀ a, (f a).Locates m) (hm : ∃ text, text ∈ m) : (p >>= f).Locates (texts render * m) := by
  intro r e r'' h
  rcases bind_eq_error_iff.1 h with h | ⟨a, r', ha, h⟩
  · exact (hp r e r'' h).mul_right hm
  · exact hu.blames_behind ha (hf a r' e r'' h)

end Read

/-! ### The reads -/

namespace Reader
open Read
variable {r r' r'' : Reader} {e : DescriptorError}

theorem expect_eq_error {c : Char} (h : expect c r = (.error e, r')) :
    e = r.unexpected ∧ r.rest.head? ≠ some c := by
  unfold expect at h
  split at h
  · next hr =>
    cases h
    exact ⟨rfl, by simp [hr]⟩
  · next d ds hr =>
    obtain ⟨h, -⟩ := Prod.mk.inj h
    split at h
    · cases h
    · next hne =>
      cases h
      exact ⟨rfl, by simpa [hr] using hne⟩

theorem expect_locates (c : Char) : (expect c).Locates (texts fun _ : Unit => [c]) := by
  intro r e r' h
  obtain ⟨rfl, hhead⟩ := expect_eq_error h
  refine blames_unexpected ⟨[c], mem_texts _ ()⟩ ?_
  rintro _ ⟨_, rfl⟩
  exact ⟨c, [], rfl, hhead⟩

theorem baseType_locates : baseType.Locates (texts BaseType.render) := by
  intro r e r' h
  unfold baseType at h
  split at h
  · cases h
  · next hnone =>
    cases h
    refine blames_unexpected ⟨_, mem_texts _ .int⟩ ?_
    rintro _ ⟨b, rfl⟩
    refine ⟨b.letter, [], rfl, fun hhead => ?_⟩
    rw [hhead, Option.bind_some, ofLetter?_eq_some_iff.2 rfl] at hnone
    cases hnone

theorem className_locates : className.Locates (texts ClassName.render) := by
  intro r e r'' h
  rcases bind_eq_error_iff.1 h with h | ⟨_, r', hL, h⟩
  · obtain ⟨rfl, hhead⟩ := expect_eq_error h
    refine blames_unexpected ⟨_, mem_texts _ .object⟩ ?_
    rintro _ ⟨n, rfl⟩
    exact ⟨'L', n.text.toList ++ [';'], rfl, hhead⟩
  · have hp : r.Passes ['L'] r' := (expect_undoes 'L' () r r').1 hL
    by_cases hmem : ';' ∈ r'.rest
    · obtain ⟨name, after, hrest, hname⟩ := List.eq_append_cons_of_mem hmem
      rw [nameToSemicolon_of_split hname hrest] at h
      obtain ⟨h, -⟩ := Prod.mk.inj h
      cases hcause : ClassName.ofString (String.ofList name) with
      | ok n =>
        rw [hcause] at h
        cases h
      | error cause =>
        rw [hcause] at h
        cases h
        exact ⟨[], name, after, r', hp, hrest, hname, rfl, hcause⟩
    · rw [nameToSemicolon_of_not_mem hmem] at h
      obtain ⟨h, -⟩ := Prod.mk.inj h
      cases h
      show r'.offset + utf8Length r'.rest = r.offset + utf8Length r.rest
      rw [hp.rest, utf8Length_append, hp.offset, Nat.add_assoc]

theorem element_locates : element.Locates (texts Element.render) := by
  intro r e r' h
  unfold element at h
  split at h
  · next hhead =>
    refine (className_locates.map Element.object r e r' h).mono ?_ ?_
    · rintro _ ⟨n, rfl⟩
      exact mem_texts Element.render (.object n)
    · rintro _ ⟨x, rfl⟩
      cases x with
      | object n => exact .inl (mem_texts _ n)
      | base b => exact .inr ⟨b.letter, [], rfl, by rw [hhead]; cases b <;> decide⟩
  · next hhead =>
    refine (baseType_locates.map Element.base r e r' h).mono ?_ ?_
    · rintro _ ⟨b, rfl⟩
      exact mem_texts Element.render (.base b)
    · rintro _ ⟨x, rfl⟩
      cases x with
      | base b => exact .inl (mem_texts _ b)
      | object n => exact .inr ⟨'L', n.text.toList ++ [';'], rfl, hhead⟩

/-- Behind all brackets an element is due, for whatever has as many brackets. -/
theorem blames_behind_brackets {n : ℕ} {l : Language Char} (hn : brackets r = (.ok n, r'))
    (h : element r' = (.error e, r'')) (hin : ∀ x : Element, List.replicate n '[' ++ x.render ∈ l)
    (hout : ∀ text ∈ l, text ∈ texts FieldType.render) : r.Blames l e := by
  obtain ⟨hp, hnot⟩ := brackets_eq_ok_iff.1 hn
  refine (element_locates r' e r'' h).after hp fun before found hhead hbreaks => ⟨?_, ?_⟩
  · obtain ⟨_, ⟨x, rfl⟩, hprefix⟩ := hbreaks.viable
    exact ⟨_, hin x, (List.prefix_append_right_inj _).2 hprefix⟩
  · intro text ht more hprefix
    obtain ⟨⟨x, k⟩, rfl⟩ := hout text ht
    simp only [FieldType.render, List.append_assoc] at hprefix
    obtain ⟨c, cs, hrender, hc, -⟩ := x.exists_render
    rcases Nat.lt_trichotomy n k with hlt | rfl | hlt
    · -- the text goes on with a bracket
      obtain ⟨j, rfl⟩ := Nat.exists_eq_add_of_lt hlt
      rw [Nat.add_assoc, List.replicate_add, List.append_assoc, List.prefix_append_right_inj,
        List.replicate_succ, List.cons_append] at hprefix
      exact hnot (hhead ▸ BreaksOff.head?_of_prefix_cons hprefix)
    · exact hbreaks.dead _ (mem_texts _ x) more ((List.prefix_append_right_inj _).1 hprefix)
    · -- the text has its element where a bracket was read
      obtain ⟨j, rfl⟩ := Nat.exists_eq_add_of_lt hlt
      rw [Nat.add_assoc, List.replicate_add, List.append_assoc, List.prefix_append_right_inj,
        List.replicate_succ, List.cons_append, hrender, List.cons_append, List.cons_prefix_cons] at hprefix
      exact hc hprefix.1.symm

theorem fieldType_locates : fieldType.Locates (texts FieldType.render) := by
  intro r e r'' h
  rcases bind_eq_error_iff.1 h with h | ⟨n, r', hn, hbind⟩
  · cases h
  rcases bind_eq_error_iff.1 hbind with he | ⟨x, _, -, hpure⟩
  · exact blames_behind_brackets hn he (fun x => mem_texts FieldType.render ⟨x, n⟩) fun _ ht => ht
  · cases hpure

theorem refType_locates : refType.Locates (texts RefType.render) := by
  intro r e r'' h
  unfold refType at h
  split at h
  · next hhead =>
    rcases bind_eq_error_iff.1 h with h | ⟨n, r', hn, hbind⟩
    · cases h
    rcases bind_eq_error_iff.1 hbind with he | ⟨x, _, -, hpure⟩
    · cases n with
      | zero =>
        obtain ⟨hp, hnot⟩ := brackets_eq_ok_iff.1 hn
        exact absurd (Passes.nil_iff.1 hp ▸ hhead) hnot
      | succ extra =>
        refine blames_behind_brackets hn he (fun x => mem_texts RefType.render (.array x extra)) ?_
        rintro _ ⟨t, rfl⟩
        exact mem_texts FieldType.render t.type
    · cases hpure
  · next hhead =>
    refine (className_locates.map RefType.object r e r'' h).mono ?_ ?_
    · rintro _ ⟨n, rfl⟩
      exact mem_texts RefType.render (.object n)
    · rintro _ ⟨t, rfl⟩
      obtain ⟨n, rfl⟩ | ⟨x, extra, rfl⟩ := t.eq_object_or_array
      · exact .inl (mem_texts _ n)
      · exact .inr ⟨'[', List.replicate extra '[' ++ x.render, rfl, hhead⟩

/-! ### Reading methods -/

/-- The parameters of a method up to the closing parenthesis. -/
def renderParameters (ts : List FieldType) : List Char := ts.flatMap FieldType.render ++ [')']

theorem parameters_eq_error (h : parameters r = (.error e, r'')) : (e = r.unexpected ∧ r.rest = []) ∨
    r.rest.head? ≠ some ')' ∧ (fieldType r = (.error e, r'') ∨
      ∃ t r', fieldType r = (.ok t, r') ∧ parameters r' = (.error e, r'')) := by
  unfold parameters at h
  split at h
  · next hr =>
    cases h
    exact .inl ⟨rfl, List.head?_eq_none_iff.1 hr⟩
  · cases h
  · next c hc hr =>
    refine .inr ⟨fun hhead => hc (Option.some.inj (hr.symm.trans hhead)), ?_⟩
    split at h
    · next he =>
      cases h
      exact .inl he
    · next t r' ht =>
      refine .inr ⟨t, r', ht, ?_⟩
      revert h
      rcases parameters r' with ⟨_ | ts, r₂⟩
      · intro h
        cases h
        rfl
      · intro h
        cases h

theorem parameters_locates : parameters.Locates (texts renderParameters) := by
  intro r e r'' h
  induction hn : r.rest.length using Nat.strong_induction_on generalizing r with
  | h n ih =>
  rcases parameters_eq_error h with ⟨rfl, hr⟩ | ⟨hhead, hfield⟩
  · refine blames_unexpected ⟨_, mem_texts renderParameters []⟩ ?_
    rintro _ ⟨ts, rfl⟩
    have hne : renderParameters ts ≠ [] := by simp [renderParameters]
    obtain ⟨c, cs, hcs⟩ := List.exists_cons_of_ne_nil hne
    exact ⟨c, cs, hcs, by simp [hr]⟩
  · have hseq : r.Blames (texts FieldType.render * texts renderParameters) e := by
      rcases hfield with herror | ⟨t, r', ht, herror⟩
      · exact (fieldType_locates r e r'' herror).mul_right ⟨_, mem_texts renderParameters []⟩
      · subst hn
        exact fieldType_undoes.blames_behind ht (ih _ (fieldType_length_lt ht) r' herror rfl)
    refine hseq.mono ?_ ?_
    · intro text ht
      obtain ⟨_, ⟨t, rfl⟩, _, ⟨ts, rfl⟩, rfl⟩ := Language.mem_mul.1 ht
      exact ⟨t :: ts, by simp [renderParameters]⟩
    · rintro _ ⟨ts, rfl⟩
      cases ts with
      | nil => exact .inr ⟨')', [], rfl, hhead⟩
      | cons t ts =>
        refine .inl (Language.mem_mul.2 ⟨_, mem_texts _ t, _, mem_texts _ ts, ?_⟩)
        simp [renderParameters]

theorem returnType_locates : returnType.Locates (texts MethodDescriptor.renderReturn) := by
  intro r e r' h
  unfold returnType at h
  split at h
  · cases h
  · next hhead =>
    refine (fieldType_locates.map some r e r' h).mono ?_ ?_
    · rintro _ ⟨t, rfl⟩
      exact mem_texts MethodDescriptor.renderReturn (some t)
    · rintro _ ⟨t?, rfl⟩
      cases t? with
      | none => exact .inr ⟨'V', [], rfl, hhead⟩
      | some t => exact .inl (mem_texts _ t)

theorem texts_methodDescriptor : texts MethodDescriptor.render =
    texts (fun _ : Unit => ['(']) * (texts renderParameters * texts MethodDescriptor.renderReturn) := by
  refine Set.ext fun text => ⟨?_, ?_⟩
  · rintro ⟨d, rfl⟩
    refine Language.mem_mul.2 ⟨_, mem_texts _ (), _,
      Language.append_mem_mul (mem_texts _ d.parameters) (mem_texts _ d.returnType?), ?_⟩
    simp [MethodDescriptor.render, renderParameters]
  · intro ht
    obtain ⟨_, ⟨_, rfl⟩, _, hbehind, rfl⟩ := Language.mem_mul.1 ht
    obtain ⟨_, ⟨ts, rfl⟩, _, ⟨t?, rfl⟩, rfl⟩ := Language.mem_mul.1 hbehind
    exact ⟨⟨ts, t?⟩, by simp [MethodDescriptor.render, renderParameters]⟩

theorem methodDescriptor_locates : methodDescriptor.Locates (texts MethodDescriptor.render) := by
  rw [texts_methodDescriptor]
  refine (expect_locates '(').bind (expect_undoes '(') (fun _ => ?_)
    ⟨_, Language.append_mem_mul (mem_texts _ []) (mem_texts _ none)⟩
  refine parameters_locates.bind parameters_undoes (fun ts => ?_) ⟨_, mem_texts _ none⟩
  exact returnType_locates.map (MethodDescriptor.mk ts)

end Reader

open Reader in
theorem DescriptorKind.read_locates (k : DescriptorKind) :
    (Descriptor.read : Read k.Value).Locates (texts (Descriptor.render : k.Value → List Char)) := by
  cases k with
  | base => exact baseType_locates
  | classRef => exact className_locates
  | ref => exact refType_locates
  | field => exact fieldType_locates
  | method => exact methodDescriptor_locates

/-! ### Whole texts -/

theorem utf8ByteSize_ofList (cs : List Char) : (String.ofList cs).utf8ByteSize = utf8Length cs := by
  induction cs with
  | nil => rfl
  | cons c cs ih => simp [utf8Length, ih]

/-- What an error says about a whole text that is not accepted. -/
def DescriptorError.Explains (accepts : String → Prop) (s : String) : DescriptorError → Prop
  /- The text ends too early. -/
  | .unexpectedEnd offset => offset = s.utf8ByteSize
  /- Accepted texts can start like the text up to the offset, but not with the character found there. -/
  | .unexpected found offset => ∃ before after : String,
      s = before ++ String.singleton found ++ after ∧ before.utf8ByteSize = offset ∧
      (∃ more, accepts (before ++ more)) ∧ ∀ more, ¬ accepts (before ++ String.singleton found ++ more)
  /- Between an L and the semicolon that is next there is no class name. -/
  | .className offset cause => ∃ before name after : String,
      s = before ++ "L" ++ name ++ ";" ++ after ∧ (before ++ "L").utf8ByteSize = offset ∧
      ';' ∉ name.toList ∧ ClassName.ofString name = .error cause

namespace DescriptorError
variable {accepts : String → Prop} {l : Language Char} {s : String} {e : DescriptorError}

theorem explains_unexpected (hl : ∀ u, accepts u ↔ u.toList ∈ l) {before after : List Char} {found : Char}
    (hs : s.toList = before ++ found :: after) (hviable : ∃ text ∈ l, before <+: text)
    (hdead : ∀ text ∈ l, ¬ before ++ [found] <+: text) :
    (unexpected found (utf8Length before)).Explains accepts s := by
  refine ⟨String.ofList before, String.ofList after, ?_, utf8ByteSize_ofList before, ?_, fun more hmore => ?_⟩
  · rw [← String.toList_inj, hs]
    simp
  · obtain ⟨_, ht, more, rfl⟩ := hviable
    exact ⟨String.ofList more, (hl _).2 (by simpa using ht)⟩
  · refine hdead _ ((hl _).1 hmore) ⟨more.toList, ?_⟩
    simp

theorem explains_of_blames (hl : ∀ u, accepts u ↔ u.toList ∈ l)
    (h : (Reader.ofString s).Blames l e) : e.Explains accepts s := by
  cases e with
  | unexpectedEnd offset =>
    obtain rfl : offset = 0 + utf8Length s.toList := h
    show 0 + utf8Length s.toList = s.utf8ByteSize
    rw [Nat.zero_add, ← utf8ByteSize_ofList, String.ofList_toList]
  | unexpected found offset =>
    obtain ⟨before, r', ⟨hrest, hoffset⟩, hfound, rfl, hbreaks⟩ := h
    obtain ⟨after, hr'⟩ := List.head?_eq_some_iff.1 hfound
    rw [hoffset]
    show (unexpected found (0 + utf8Length before)).Explains accepts s
    rw [Nat.zero_add]
    refine explains_unexpected hl (hr' ▸ hrest) hbreaks.viable fun text ht hprefix => ?_
    exact hbreaks.dead text ht [] (by rwa [List.append_nil])
  | className offset cause =>
    obtain ⟨before, name, after, r', ⟨hrest, hoffset⟩, hr', hname, rfl, hcause⟩ := h
    refine ⟨String.ofList before, String.ofList name, String.ofList after, ?_, ?_, by simpa using hname, hcause⟩
    · have hs : s.toList = before ++ ['L'] ++ (name ++ ';' :: after) := hr' ▸ hrest
      rw [← String.toList_inj, hs]
      simp
    · have hL : String.ofList before ++ "L" = String.ofList (before ++ ['L']) := by
        rw [← String.toList_inj]
        simp
      rw [hL, utf8ByteSize_ofList, hoffset]
      exact (Nat.zero_add _).symm

end DescriptorError

namespace Read
variable {α : Type} {p : Read α} {render : α → List Char} {s : String} {e : DescriptorError}

/-- What is left over behind a value breaks off, as no value prints as more than that. -/
theorem Locates.whole_explains (hp : p.Locates (texts render)) (hu : p.Undoes render)
    (h : p.whole s = .error e) : e.Explains (fun u => ∃ a, p.whole u = .ok a) s := by
  have haccepts : ∀ u : String, (∃ a, p.whole u = .ok a) ↔ u.toList ∈ texts render := fun u =>
    exists_congr fun a => by
      rw [hu.whole_eq_ok_iff, ← String.toList_inj, String.toList_ofList, eq_comm]
  unfold whole at h
  split at h
  · next e' r' he =>
    cases h
    exact DescriptorError.explains_of_blames haccepts (hp _ _ _ he)
  · next a r' ha =>
    split at h
    · cases h
    · next hne =>
      obtain ⟨c, cs, hrest⟩ := List.exists_cons_of_ne_nil (fun hnil => hne (List.isEmpty_iff.2 hnil))
      have hpasses := (hu a _ r').1 ha
      have hunexpected : r'.unexpected = .unexpected c (utf8Length (render a)) := by
        have hoffset : r'.offset = 0 + utf8Length (render a) := hpasses.offset
        rw [Reader.unexpected, hrest, hoffset, Nat.zero_add]
      rw [hunexpected] at h
      cases h
      refine DescriptorError.explains_unexpected haccepts (hrest ▸ hpasses.rest)
        ⟨_, mem_texts render a, List.prefix_refl _⟩ ?_
      rintro _ ⟨a', rfl⟩ ⟨more, hmore⟩
      have happend : render a ++ c :: more = render a' ++ [] := by
        rw [List.append_nil, ← hmore, List.append_assoc]
        rfl
      exact absurd (hu.append_inj happend).2 (List.cons_ne_nil _ _)

end Read

/-! ### The result -/

namespace DescriptorKind

def Accepts (k : DescriptorKind) (s : String) : Prop := ∃ t : k.Value, Descriptor.parse s = .ok t

/-- The error for a text that is no descriptor of a kind points at the first place where no descriptor of
that kind can go on like the text, at the end of the text or at a malformed class name. -/
theorem parse_error_explains (k : DescriptorKind) {s : String} {e : DescriptorError}
    (h : (Descriptor.parse s : Except DescriptorError k.Value) = .error e) : e.Explains k.Accepts s :=
  k.read_locates.whole_explains k.read_undoes h

/-- A character of two bytes stands before the one that is reported. -/
theorem parse_error_explains_array :
    (Descriptor.parse "(Ljava/é;[Q)V" : Except DescriptorError DescriptorKind.method.Value) =
        .error (.unexpected 'Q' 11) ∧
      (DescriptorError.unexpected 'Q' 11).Explains method.Accepts "(Ljava/é;[Q)V" :=
  have h : (Descriptor.parse "(Ljava/é;[Q)V" : Except DescriptorError MethodDescriptor) =
    .error (.unexpected 'Q' 11) := by decide +kernel
  ⟨h, parse_error_explains method h⟩

end DescriptorKind
end ClosedWorld
