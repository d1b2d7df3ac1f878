import ClosedWorld.Descriptor.Scanner
import ClosedWorld.Proofs.Descriptor.ErrorPositions

/-!
# Scans never leave the boundaries of characters

Every read moves its reader over some text, also when it fails (`Read.Advances`), so a reader stands where
a part of the text ends (`Reader.Within`), and there the text can be cut. From such a place a scan by
offsets does what the read does: it gives the same value or error and moves by the same number of bytes
(`Scan.Follows`). A round of a loop takes a character at least, so rounds for all characters are enough.
-/

namespace ClosedWorld

/-! ### Cutting a text -/

theorem splitAtByte?_append (cs ds : List Char) :
    splitAtByte? (utf8Length cs) (cs ++ ds) = some (cs, ds) := by
  induction cs with
  | nil => cases ds <;> rfl
  | cons c cs ih =>
    have hpos := c.utf8Size_pos
    obtain ⟨n, hn⟩ : ∃ n, utf8Length (c :: cs) = n + 1 :=
      Nat.exists_eq_add_one_of_ne_zero (by rw [utf8Length]; omega)
    have hle : c.utf8Size ≤ n + 1 := by rw [← hn, utf8Length]; omega
    have hrest : n + 1 - c.utf8Size = utf8Length cs := by rw [← hn, utf8Length]; omega
    rw [hn, List.cons_append, splitAtByte?, if_pos hle, hrest, ih]
    rfl

theorem findByte?_of_not_mem {c : Char} {cs : List Char} (h : c ∉ cs) : findByte? c cs = none := by
  induction cs with
  | nil => rfl
  | cons d ds ih =>
    obtain ⟨hd, hds⟩ := not_or.1 (mt List.mem_cons.2 h)
    rw [findByte?, if_neg (Ne.symm hd), ih hds]
    rfl

theorem findByte?_of_split {c : Char} {before after : List Char} (h : c ∉ before) :
    findByte? c (before ++ c :: after) = some (utf8Length before) := by
  induction before with
  | nil => simp [findByte?, utf8Length]
  | cons d ds ih =>
    obtain ⟨hd, hds⟩ := not_or.1 (mt List.mem_cons.2 h)
    rw [List.cons_append, findByte?, if_neg (Ne.symm hd), ih hds]
    rfl

/-! ### Readers within a text -/

namespace Reader
variable {r r' : Reader} {cs : List Char} {s : String}

/-- The reader has passed over a part of the text, and the rest of the text lies ahead. -/
def Within (r : Reader) (s : String) : Prop := ∃ cs, (ofString s).Passes cs r

theorem passes_nil (r : Reader) : r.Passes [] r := Passes.nil_iff.2 rfl

theorem passes_take (r : Reader) (n : Nat) : r.Passes (r.rest.take n) (r.drop n) :=
  ⟨(List.take_append_drop n r.rest).symm, rfl⟩

theorem drop_drop (r : Reader) (m n : Nat) : (r.drop m).drop n = r.drop (m + n) := by
  simp only [drop, List.drop_drop, List.take_add, utf8Length_append, Nat.add_assoc]

theorem within_ofString (s : String) : (ofString s).Within s := ⟨[], passes_nil _⟩

theorem Within.passes (hw : r.Within s) (hp : r.Passes cs r') : r'.Within s := by
  obtain ⟨before, hbefore⟩ := hw
  exact ⟨before ++ cs, Passes.append_iff.2 ⟨r, hbefore, hp⟩⟩

theorem Within.split (hw : r.Within s) :
    ∃ before, s.toList = before ++ r.rest ∧ r.offset = utf8Length before := by
  obtain ⟨before, hrest, hoffset⟩ := hw
  exact ⟨before, hrest, by rw [hoffset]; exact Nat.zero_add _⟩

theorem Within.length_le (hw : r.Within s) : r.rest.length ≤ s.length := by
  obtain ⟨before, hs, -⟩ := hw.split
  rw [← String.length_toList, hs, List.length_append]
  omega

/-! ### Reads by what lies ahead -/

theorem fieldType_of_brackets {n : Nat} (h : brackets r = (.ok n, r')) :
    fieldType r = ((FieldType.mk · n) <$> element) r' := by
  rw [fieldType, Read.bind_apply, h]
  rfl

theorem fieldType_of_class (h : r.rest.head? = some 'L') :
    fieldType r = (RefType.type <$> refType) r := by
  have hnone : r.rest.head? ≠ some '[' := by simp [h]
  have helement : element r = (Element.object <$> className) r := if_pos h
  have href : refType r = (RefType.object <$> className) r := if_neg hnone
  rw [fieldType_of_brackets (brackets_of_head hnone), Read.map_apply, Read.map_apply, helement, href,
    Read.map_apply, Read.map_apply]
  rcases className r with ⟨_ | _, _⟩ <;> rfl

theorem exists_brackets_of_array (h : r.rest.head? = some '[') :
    ∃ extra r', brackets r = (.ok (extra + 1), r') := by
  rcases hn : brackets r with ⟨e | n, r'⟩
  · cases hn
  cases n with
  | zero =>
    obtain ⟨hpasses, hnot⟩ := brackets_eq_ok_iff.1 hn
    exact absurd (Passes.nil_iff.1 hpasses ▸ h) hnot
  | succ extra => exact ⟨extra, r', rfl⟩

theorem refType_of_array (h : r.rest.head? = some '[') : refType r = (do
    let n ← brackets
    let e ← element
    pure (RefType.array e (n - 1)) : Read RefType) r := if_pos h

theorem fieldType_of_array (h : r.rest.head? = some '[') :
    fieldType r = (RefType.type <$> refType) r := by
  obtain ⟨extra, r', hn⟩ := exists_brackets_of_array h
  have href : refType r = ((RefType.array · extra) <$> element) r' := by
    rw [refType_of_array h, Read.bind_apply, hn]
    rfl
  rw [fieldType_of_brackets hn, Read.map_apply, Read.map_apply, href, Read.map_apply]
  rcases element r' with ⟨_ | _, _⟩ <;> rfl

theorem fieldType_of_base (hclass : r.rest.head? ≠ some 'L') (harray : r.rest.head? ≠ some '[') :
    fieldType r = (FieldType.base <$> baseType) r := by
  have helement : element r = (Element.base <$> baseType) r := if_neg hclass
  rw [fieldType_of_brackets (brackets_of_head harray), Read.map_apply, helement, Read.map_apply,
    Read.map_apply]
  rcases baseType r with ⟨_ | _, _⟩ <;> rfl

theorem parameters_of_close (h : r.rest.head? = some ')') :
    parameters r = ((fun _ => []) <$> expect ')') r := by
  have hpasses : parameters r = (.ok [], r.drop 1) :=
    parameters_nil_iff.2 (Passes.singleton_iff.2 ⟨h, rfl⟩)
  have hexpect : expect ')' r = (.ok (), r.drop 1) :=
    (expect_undoes ')' () r _).2 (Passes.singleton_iff.2 ⟨h, rfl⟩)
  rw [hpasses, Read.map_apply, hexpect]
  rfl

theorem parameters_of_end (h : r.rest.head? = none) : parameters r = (.error r.unexpected, r) := by
  unfold parameters
  simp only [h]

theorem parameters_of_type {c : Char} (h : r.rest.head? = some c) (hc : c ≠ ')') :
    parameters r = (fieldType >>= fun t => (t :: ·) <$> parameters) r := by
  rw [Read.bind_apply]
  conv_lhs => unfold parameters
  split
  · next hend => cases h.symm.trans hend
  · next hclose => exact absurd (Option.some.inj (h.symm.trans hclose)) hc
  split
  · next ht => rw [ht]
  · next t r' ht =>
    have hmap := Read.map_apply (t :: ·) parameters r'
    simp only [ht, hmap]

end Reader

/-! ### Reads only go on -/

/-- A read leaves the reader behind some text, whatever its answer. -/
def Read.Advances {α : Type} (p : Read α) : Prop := ∀ r : Reader, ∃ cs, r.Passes cs (p r).2

namespace Read.Advances
open Reader
variable {α β : Type} {p : Read α} {f : α → Read β} {r r' : Reader} {s : String}
  {x : Except DescriptorError α}

theorem within (hp : p.Advances) (hw : r.Within s) (h : p r = (x, r')) : r'.Within s := by
  obtain ⟨cs, hcs⟩ := hp r
  rw [h] at hcs
  exact hw.passes hcs

theorem offset_le (hp : p.Advances) (r : Reader) : r.offset ≤ (p r).2.offset := by
  obtain ⟨cs, -, hoffset⟩ := hp r
  omega

theorem length_le (hp : p.Advances) (h : p r = (x, r')) : r'.rest.length ≤ r.rest.length := by
  obtain ⟨cs, hrest, -⟩ := hp r
  rw [hrest, h, List.length_append]
  show r'.rest.length ≤ cs.length + r'.rest.length
  omega

theorem pure (a : α) : (Pure.pure a : Read α).Advances := fun r => ⟨[], r.passes_nil⟩

theorem bind (hp : p.Advances) (hf : ∀ a, (f a).Advances) : (p >>= f).Advances := by
  intro r
  rw [bind_apply]
  obtain ⟨cs, hcs⟩ := hp r
  rcases hpr : p r with ⟨e | a, r'⟩
  · exact ⟨cs, by simpa only [hpr] using hcs⟩
  · rw [hpr] at hcs
    obtain ⟨ds, hds⟩ := hf a r'
    exact ⟨cs ++ ds, Passes.append_iff.2 ⟨r', hcs, hds⟩⟩

theorem map (hp : p.Advances) (g : α → β) : (g <$> p).Advances := by
  intro r
  rw [map_apply]
  exact hp r

end Read.Advances

namespace Reader
open Read

theorem expect_advances (c : Char) : (expect c).Advances := by
  intro r
  unfold expect
  split
  · exact ⟨[], passes_nil r⟩
  · exact ⟨_, passes_take r 1⟩

theorem baseType_advances : baseType.Advances := by
  intro r
  unfold baseType
  split
  · exact ⟨_, passes_take r 1⟩
  · exact ⟨[], passes_nil r⟩

theorem nameToSemicolon_advances : nameToSemicolon.Advances := by
  intro r
  simp only [nameToSemicolon]
  split
  · exact ⟨[], passes_nil r⟩
  · exact ⟨_, passes_take r _⟩

theorem className_advances : className.Advances :=
  (expect_advances 'L').bind fun _ => nameToSemicolon_advances

theorem brackets_advances : brackets.Advances := fun r => ⟨_, passes_take r _⟩

theorem element_advances : element.Advances := by
  intro r
  unfold element
  split
  · exact className_advances.map _ r
  · exact baseType_advances.map _ r

theorem fieldType_advances : fieldType.Advances :=
  brackets_advances.bind fun _ => element_advances.bind fun _ => .pure _

theorem refType_advances : refType.Advances := by
  intro r
  unfold refType
  split
  · exact (brackets_advances.bind fun _ => element_advances.bind fun _ => .pure _) r
  · exact className_advances.map _ r

theorem parameters_advances : parameters.Advances := by
  intro r
  fun_induction parameters r with
  | case1 r h => exact ⟨[], passes_nil r⟩
  | case2 r h => exact ⟨_, passes_take r 1⟩
  | case3 r c hc hne e r' he =>
    obtain ⟨cs, hcs⟩ := fieldType_advances r
    rw [he] at hcs
    exact ⟨cs, hcs⟩
  | case4 r c hc hne t r' ht ts r'' hts ih =>
    obtain ⟨cs, hcs⟩ := fieldType_advances r
    rw [ht] at hcs
    obtain ⟨ds, hds⟩ := ih
    rw [hts] at hds
    exact ⟨cs ++ ds, Passes.append_iff.2 ⟨r', hcs, hds⟩⟩

theorem returnType_advances : returnType.Advances := by
  intro r
  unfold returnType
  split
  · exact ⟨_, passes_take r 1⟩
  · exact fieldType_advances.map _ r

theorem methodDescriptor_advances : methodDescriptor.Advances :=
  (expect_advances '(').bind fun _ => parameters_advances.bind fun _ =>
    returnType_advances.bind fun _ => .pure _

end Reader

open Reader in
theorem DescriptorKind.read_advances (k : DescriptorKind) :
    (Descriptor.read : Read k.Value).Advances := by
  cases k with
  | base => exact baseType_advances
  | classRef => exact className_advances
  | ref => exact refType_advances
  | field => exact fieldType_advances
  | method => exact methodDescriptor_advances

/-! ### Scans that do what reads do -/

namespace Scan
open Scanner Reader
variable {α β : Type} {q : Scan α} {p p' : Read α} {r r' : Reader} {s : String} {rounds : Nat}

/-- From the place of a reader the scan ends as the read does, and behind as many bytes. -/
def Follows (q : Scan α) (p : Read α) (s : String) (r : Reader) : Prop :=
  q.run ⟨s, r.offset⟩ =
    match p r with
    | (.ok a, r') => .ok a ⟨s, r'.offset⟩
    | (.error e, r') => .error (.error e) ⟨s, r'.offset⟩

namespace Follows

theorem congr (hp : p r = p' r) (hq : q.Follows p' s r) : q.Follows p s r := by
  unfold Follows at hq ⊢
  rw [hq, hp]

theorem pure (a : α) : (Pure.pure a : Scan α).Follows (Pure.pure a) s r := rfl

theorem bind {f : α → Scan β} {g : α → Read β} (hq : q.Follows p s r)
    (hf : ∀ a r', p r = (.ok a, r') → (f a).Follows (g a) s r') :
    (q >>= f).Follows (p >>= g) s r := by
  unfold Follows at hq ⊢
  rw [EStateM.run_bind, Read.bind_apply, hq]
  rcases hp : p r with ⟨e | a, r'⟩
  · rfl
  · exact hf a r' hp

theorem map (hq : q.Follows p s r) (f : α → β) : (do return f (← q) : Scan β).Follows (f <$> p) s r :=
  hq.bind fun a _ _ => .pure (f a)

end Follows

/-! ### Looking and moving -/

theorem run_offset (c : Scanner) : offset.run c = .ok c.offset c := rfl

theorem run_skip (c : Scanner) (n : Nat) :
    (skip n).run c = .ok () { c with offset := c.offset + n } := rfl

theorem run_ahead (hw : r.Within s) : ahead.run ⟨s, r.offset⟩ = .ok r.rest ⟨s, r.offset⟩ := by
  obtain ⟨before, hs, hoffset⟩ := hw.split
  have hcut : (⟨s, r.offset⟩ : Scanner).sliceFrom? r.offset = some r.rest := by
    rw [sliceFrom?, hs, hoffset, splitAtByte?_append]
    rfl
  simp only [ahead, EStateM.run_bind, EStateM.run_get, hcut, EStateM.run_pure]

theorem run_peek (hw : r.Within s) : peek.run ⟨s, r.offset⟩ = .ok r.rest.head? ⟨s, r.offset⟩ := by
  simp only [peek, EStateM.run_bind, run_ahead hw, EStateM.run_pure]

theorem Follows.of_peek {f : Option Char → Scan α} (hw : r.Within s)
    (hf : (f r.rest.head?).Follows p s r) : (peek >>= f).Follows p s r := by
  unfold Follows at hf ⊢
  rw [EStateM.run_bind, run_peek hw]
  exact hf

theorem run_bump {c : Char} (hw : r.Within s) (hc : r.rest.head? = some c) :
    bump.run ⟨s, r.offset⟩ = .ok c ⟨s, (r.drop 1).offset⟩ := by
  obtain ⟨cs, hr⟩ := List.head?_eq_some_iff.1 hc
  have hoffset : (r.drop 1).offset = r.offset + c.utf8Size := by
    rw [drop, hr]
    rfl
  simp only [bump, EStateM.run_bind, run_peek hw, hc, hoffset]
  rfl

theorem run_bump_of_end (hw : r.Within s) (hr : r.rest = []) :
    bump.run ⟨s, r.offset⟩ = .error (.error (.unexpectedEnd r.offset)) ⟨s, r.offset⟩ := by
  simp only [bump, EStateM.run_bind, run_peek hw, hr, List.head?_nil]
  rfl

theorem run_unexpected (hw : r.Within s) :
    (unexpected : Scan α).run ⟨s, r.offset⟩ = .error (.error r.unexpected) ⟨s, r.offset⟩ := by
  simp only [unexpected, EStateM.run_bind, run_peek hw, Reader.unexpected]
  cases r.rest <;> rfl

theorem expect_follows (c : Char) (hw : r.Within s) : (expect c).Follows (Reader.expect c) s r := by
  unfold Follows
  cases hr : r.rest with
  | nil =>
    have hbump := run_bump_of_end hw hr
    have hread : Reader.expect c r = (.error (.unexpectedEnd r.offset), r) := by
      simp only [Reader.expect, hr, Reader.unexpected]
    simp only [expect, EStateM.run_bind, run_offset, hbump, hread]
  | cons d ds =>
    have hbump := run_bump hw (List.head?_eq_some_iff.2 ⟨ds, hr⟩)
    have hread : Reader.expect c r =
        (if d = c then .ok () else .error (.unexpected d r.offset), r.drop 1) := by
      simp only [Reader.expect, hr, Reader.unexpected]
    simp only [expect, EStateM.run_bind, run_offset, hbump, hread]
    by_cases hd : d = c
    · simp only [hd, if_true]
      rfl
    · simp only [hd, if_false]
      rfl

theorem baseType_follows (hw : r.Within s) : baseType.Follows Reader.baseType s r := by
  refine .of_peek hw ?_
  unfold Follows
  cases hb : r.rest.head?.bind BaseType.ofLetter? with
  | none =>
    have hread : Reader.baseType r = (.error r.unexpected, r) := by simp only [Reader.baseType, hb]
    rw [hread]
    exact run_unexpected hw
  | some b =>
    obtain ⟨c, hc, -⟩ := Option.bind_eq_some_iff.1 hb
    have hread : Reader.baseType r = (.ok b, r.drop 1) := by simp only [Reader.baseType, hb]
    simp only [hread, EStateM.run_bind, run_bump hw hc]
    rfl

/-! ### Class names -/

theorem run_between {before name after : List Char} (hs : s.toList = before ++ (name ++ after))
    (n : Nat) : (between (utf8Length before) (utf8Length before + utf8Length name)).run ⟨s, n⟩ =
      .ok name ⟨s, n⟩ := by
  have hcut : (⟨s, n⟩ : Scanner).slice? (utf8Length before) (utf8Length before + utf8Length name) =
      some name := by
    rw [slice?, if_pos (Nat.le_add_right _ _), sliceFrom?, hs, splitAtByte?_append,
      Nat.add_sub_cancel_left]
    simp only [Option.map_some, Option.bind_some, splitAtByte?_append]
  simp only [between, EStateM.run_bind, EStateM.run_get, hcut, EStateM.run_pure]

theorem nameToSemicolon_follows (hw : r.Within s) :
    nameToSemicolon.Follows Reader.nameToSemicolon s r := by
  obtain ⟨before, hs, hoffset⟩ := hw.split
  unfold Follows
  by_cases hmem : ';' ∈ r.rest
  · obtain ⟨name, after, hr, hname⟩ := List.eq_append_cons_of_mem hmem
    have hbehind : (r.drop (name.length + 1)).offset = r.offset + (utf8Length name + 1) := by
      have htake : r.rest.take (name.length + 1) = name ++ [';'] := by
        rw [hr, List.append_cons, List.take_left' (by simp)]
      rw [drop, htake, utf8Length_append]
      rfl
    have hfind : findByte? ';' r.rest = some (utf8Length name) := by
      rw [hr]
      exact findByte?_of_split hname
    have hcut := run_between (hr ▸ hs) (r.offset + (utf8Length name + 1))
    rw [← hoffset] at hcut
    rw [nameToSemicolon_of_split hname hr]
    simp only [nameToSemicolon, EStateM.run_bind, run_offset, run_ahead hw, hfind, run_skip, hcut]
    cases ClassName.ofString (String.ofList name) with
    | ok n =>
      simp only [Except.mapError, hbehind]
      rfl
    | error e =>
      simp only [Except.mapError, hbehind]
      rfl
  · have hend : s.utf8ByteSize = r.offset + utf8Length r.rest := by
      rw [hoffset, ← utf8Length_append, ← hs, ← utf8ByteSize_ofList, String.ofList_toList]
    rw [nameToSemicolon_of_not_mem hmem]
    simp only [nameToSemicolon, EStateM.run_bind, run_offset, run_ahead hw,
      findByte?_of_not_mem hmem, ← hend]
    rfl

theorem className_follows (hw : r.Within s) : className.Follows Reader.className s r := by
  refine (expect_follows 'L' hw).bind fun _ r' hr' => ?_
  exact nameToSemicolon_follows ((expect_advances 'L').within hw hr')

/-! ### Types -/

theorem run_brackets {n : Nat} {after : List Char} (hw : r.Within s)
    (hr : r.rest = List.replicate n '[' ++ after) (hafter : after.head? ≠ some '[')
    (hn : n < rounds) :
    (brackets rounds).run ⟨s, r.offset⟩ = .ok n ⟨s, (r.drop n).offset⟩ := by
  induction n generalizing r rounds with
  | zero =>
    obtain ⟨rounds, rfl⟩ := Nat.exists_eq_succ_of_ne_zero (Nat.ne_of_gt hn)
    have hhead : r.rest.head? ≠ some '[' := by
      rw [hr]
      exact hafter
    simp only [brackets, EStateM.run_bind, run_peek hw, if_neg hhead]
    rfl
  | succ n ih =>
    obtain ⟨rounds, rfl⟩ := Nat.exists_eq_succ_of_ne_zero (Nat.ne_of_gt (Nat.zero_lt_of_lt hn))
    have hhead : r.rest.head? = some '[' := by
      rw [hr]
      rfl
    have hrest : (r.drop 1).rest = List.replicate n '[' ++ after := by
      rw [drop, hr]
      rfl
    have hloop := ih (hw.passes (r.passes_take 1)) hrest (Nat.lt_of_succ_lt_succ hn)
    rw [drop_drop, Nat.add_comm 1 n] at hloop
    simp only [brackets, EStateM.run_bind, run_peek hw, if_pos hhead, run_bump hw hhead, hloop]
    rfl

theorem brackets_follows (hw : r.Within s) (hrounds : r.rest.length < rounds) :
    (brackets rounds).Follows Reader.brackets s r := by
  obtain ⟨n, after, hr, hafter⟩ := exists_brackets r.rest
  have hn : n < rounds := by
    rw [hr, List.length_append, List.length_replicate] at hrounds
    omega
  unfold Follows
  rw [brackets_of_split hr hafter]
  exact run_brackets hw hr hafter hn

theorem element_follows (hw : r.Within s) : element.Follows Reader.element s r := by
  refine .of_peek hw ?_
  by_cases hhead : r.rest.head? = some 'L'
  · have hread : Reader.element r = (Element.object <$> Reader.className) r := if_pos hhead
    rw [if_pos hhead]
    exact ((className_follows hw).map _).congr hread
  · have hread : Reader.element r = (Element.base <$> Reader.baseType) r := if_neg hhead
    rw [if_neg hhead]
    exact ((baseType_follows hw).map _).congr hread

theorem refType_follows (hw : r.Within s) (hrounds : r.rest.length < rounds) :
    (refType rounds).Follows Reader.refType s r := by
  refine .of_peek hw ?_
  by_cases hhead : r.rest.head? = some '['
  · rw [if_pos hhead]
    refine .congr (refType_of_array hhead) ((brackets_follows hw hrounds).bind fun n r' hn => ?_)
    obtain ⟨extra, r₁, hsome⟩ := exists_brackets_of_array hhead
    cases hn.symm.trans hsome
    exact (element_follows (brackets_advances.within hw hn)).map _
  · have hread : Reader.refType r = (RefType.object <$> Reader.className) r := if_neg hhead
    rw [if_neg hhead]
    exact ((className_follows hw).map _).congr hread

theorem fieldType_follows (hw : r.Within s) (hrounds : r.rest.length < rounds) :
    (fieldType rounds).Follows Reader.fieldType s r := by
  refine .of_peek hw ?_
  have href := (refType_follows hw hrounds).map RefType.type
  by_cases hclass : r.rest.head? = some 'L'
  · rw [if_pos (.inl hclass)]
    exact href.congr (fieldType_of_class hclass)
  by_cases harray : r.rest.head? = some '['
  · rw [if_pos (.inr harray)]
    exact href.congr (fieldType_of_array harray)
  · rw [if_neg (not_or.2 ⟨hclass, harray⟩)]
    exact ((baseType_follows hw).map _).congr (fieldType_of_base hclass harray)

/-! ### Methods -/

/-- A field type among the parameters takes a character at least. -/
theorem parameters_follows {left : Nat} (hw : r.Within s) (hrounds : r.rest.length < rounds)
    (hleft : r.rest.length < left) :
    (do
      let ts ← parameters rounds left
      expect ')'
      return ts : Scan (List FieldType)).Follows Reader.parameters s r := by
  induction left generalizing r with
  | zero => omega
  | succ left ih =>
    rw [parameters, bind_assoc]
    refine .of_peek hw ?_
    match hhead : r.rest.head? with
    | none =>
      unfold Follows
      rw [parameters_of_end hhead]
      simp only [EStateM.run_bind, run_unexpected hw]
    | some c =>
      by_cases hc : c = ')'
      · subst hc
        exact ((expect_follows ')' hw).map _).congr (parameters_of_close hhead)
      · refine .congr (parameters_of_type hhead hc) ?_
        simp only [bind_assoc, pure_bind]
        refine (fieldType_follows hw hrounds).bind fun t r' ht => ?_
        have hw' := fieldType_advances.within hw ht
        have hlt := fieldType_length_lt ht
        have hloop := (ih hw' (by omega) (by omega)).map (t :: ·)
        simpa only [bind_assoc, pure_bind] using hloop

theorem returnType_follows (hw : r.Within s) (hrounds : r.rest.length < rounds) :
    (returnType rounds).Follows Reader.returnType s r := by
  refine .of_peek hw ?_
  by_cases hhead : r.rest.head? = some 'V'
  · have hread : Reader.returnType r = (.ok none, r.drop 1) := if_pos hhead
    unfold Follows
    rw [if_pos hhead, hread]
    simp only [EStateM.run_bind, run_bump hw hhead]
    rfl
  · have hread : Reader.returnType r = (some <$> Reader.fieldType) r := if_neg hhead
    rw [if_neg hhead]
    exact ((fieldType_follows hw hrounds).map _).congr hread

theorem methodDescriptor_follows (hw : r.Within s) (hrounds : r.rest.length < rounds) :
    (methodDescriptor rounds).Follows Reader.methodDescriptor s r := by
  refine (expect_follows '(' hw).bind fun _ r₁ hr₁ => ?_
  have hw₁ := (expect_advances '(').within hw hr₁
  have hle₁ := (expect_advances '(').length_le hr₁
  have hreturn : ∀ ts r₂, Reader.parameters r₁ = (.ok ts, r₂) →
      (do return MethodDescriptor.mk ts (← returnType rounds) : Scan MethodDescriptor).Follows
        (MethodDescriptor.mk ts <$> Reader.returnType) s r₂ := by
    intro ts r₂ hr₂
    have hle₂ := parameters_advances.length_le hr₂
    exact (returnType_follows (parameters_advances.within hw₁ hr₂) (by omega)).map _
  have hrounds₁ : r₁.rest.length < rounds := by omega
  have hmethod := (parameters_follows hw₁ hrounds₁ hrounds₁).bind hreturn
  simp only [bind_assoc, pure_bind] at hmethod
  exact hmethod

end Scan

namespace DescriptorKind
variable {r : Reader} {s : String} {rounds : Nat}

theorem scan_follows (k : DescriptorKind) (hw : r.Within s) (hrounds : r.rest.length < rounds) :
    (k.scan rounds).Follows (Descriptor.read : Read k.Value) s r := by
  cases k with
  | base => exact Scan.baseType_follows hw
  | classRef => exact Scan.className_follows hw
  | ref => exact Scan.refType_follows hw hrounds
  | field => exact Scan.fieldType_follows hw hrounds
  | method => exact Scan.methodDescriptor_follows hw hrounds

theorem scanOn_eq (k : DescriptorKind) (hw : r.Within s) (hrounds : r.rest.length < rounds) :
    k.scanOn rounds ⟨s, r.offset⟩ = .ok ⟨s, ((Descriptor.read : Read k.Value) r).2.offset⟩ := by
  have hscan := k.scan_follows hw hrounds
  unfold Scan.Follows at hscan
  rw [scanOn, hscan]
  rcases (Descriptor.read : Read k.Value) r with ⟨_ | _, _⟩ <;> rfl

theorem readAll_within (l : List DescriptorKind) (hw : r.Within s) : (readAll l r).Within s := by
  induction l generalizing r with
  | nil => exact hw
  | cons k l ih => exact ih (k.read_advances.within hw rfl)

/-- Scans in a row reach the places that the reads in a row reach, through errors as well. -/
theorem scanAll_eq (l : List DescriptorKind) (hw : r.Within s) (hrounds : r.rest.length < rounds) :
    scanAll rounds l ⟨s, r.offset⟩ = .ok ⟨s, (readAll l r).offset⟩ := by
  induction l generalizing r with
  | nil => rfl
  | cons k l ih =>
    have hle := k.read_advances.length_le (r := r) rfl
    rw [scanAll, List.foldlM_cons, k.scanOn_eq hw hrounds]
    exact ih (k.read_advances.within hw rfl) (Nat.lt_of_le_of_lt hle hrounds)

/-! ### The result -/

/-- What holds where a reader of a text stands, and of every scan that starts there. -/
structure Stands (s : String) (rounds : Nat) (r : Reader) : Prop where
  boundary : String.Pos.Raw.IsValid s ⟨r.offset⟩
  le_end : r.offset ≤ s.utf8ByteSize
  ahead : ∃ before, s = before ++ String.ofList r.rest ∧ before.utf8ByteSize = r.offset
  /-- The scan is done within the rounds, with a value or an error. -/
  follows : ∀ k : DescriptorKind, (k.scan rounds).Follows (Descriptor.read : Read k.Value) s r
  offset_le : ∀ k : DescriptorKind, r.offset ≤ ((Descriptor.read : Read k.Value) r).2.offset

theorem stands (hw : r.Within s) (hrounds : r.rest.length < rounds) : Stands s rounds r := by
  obtain ⟨before, hs, hoffset⟩ := hw.split
  have hcut : s = String.ofList before ++ String.ofList r.rest := by
    rw [← String.ofList_append, ← hs, String.ofList_toList]
  have hbytes : (String.ofList before).utf8ByteSize = r.offset := by
    rw [utf8ByteSize_ofList, hoffset]
  refine ⟨?_, ?_, ⟨_, hcut, hbytes⟩, fun k => k.scan_follows hw hrounds, fun k =>
    k.read_advances.offset_le r⟩
  · refine String.Pos.Raw.isValid_iff_exists_append.2 ⟨_, _, hcut, ?_⟩
    rw [← hbytes]
    rfl
  · rw [hcut, String.utf8ByteSize_append, hbytes]
    omega

/-- Whatever kinds of descriptors are read in a row from a text, and whether or not the reads succeed,
each scan ends without a fault, between two characters of the text and no earlier than it started. -/
theorem scanAll_stands (s : String) (l : List DescriptorKind) {rounds : Nat}
    (hrounds : s.length < rounds) :
    scanAll rounds l ⟨s, 0⟩ = .ok ⟨s, (readAll l (.ofString s)).offset⟩ ∧
      Stands s rounds (readAll l (.ofString s)) := by
  have hw := Reader.within_ofString s
  have hle := (readAll_within l hw).length_le
  refine ⟨scanAll_eq l hw ?_, stands (readAll_within l hw) (by omega)⟩
  show s.toList.length < rounds
  rwa [String.length_toList]

/-- The second read fails on what it looks at, the third on what it has consumed. -/
theorem scanAll_stands_birds :
    let s := "Lé;鳥[I"
    let l := [classRef, base, classRef, ref]
    (s.length < 8 ∧ (readAll (l.take 2) (.ofString s)).offset = 4 ∧
      (readAll (l.take 3) (.ofString s)).offset = 7) ∧
      scanAll 8 l ⟨s, 0⟩ = .ok ⟨s, (readAll l (.ofString s)).offset⟩ ∧
      Stands s 8 (readAll l (.ofString s)) :=
  ⟨⟨by decide, by decide +kernel, by decide +kernel⟩, scanAll_stands "Lé;鳥[I" _ (by decide)⟩

end DescriptorKind
end ClosedWorld
