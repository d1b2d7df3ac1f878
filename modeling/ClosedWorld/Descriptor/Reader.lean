import ClosedWorld.Descriptor.Basic

/-!
# Reading descriptors

A reader holds the rest of a text and the offset reached in it, in UTF-8 bytes. A read answers with a
value or an error and leaves the reader where it stopped, also after an error, so that reading can
go on. Where a fixed character is due, a wrong one is consumed; where a primitive type is due, it is
only looked at.
-/

namespace ClosedWorld

/-- Why a text is not a descriptor. Offsets count UTF-8 bytes from the start of the text. -/
inductive DescriptorError where
  | unexpectedEnd (offset : Nat)
  | unexpected (found : Char) (offset : Nat)
  | className (offset : Nat) (cause : NameError)
deriving DecidableEq, Repr

def DescriptorError.message : DescriptorError → String
  | .unexpectedEnd offset => s!"unexpected end of input at offset {offset}"
  | .unexpected found offset => s!"unexpected '{found}' at offset {offset}"
  | .className offset cause => s!"malformed class name at offset {offset}: " ++ cause.message

def utf8Length : List Char → Nat
  | [] => 0
  | c :: cs => c.utf8Size + utf8Length cs

/-- A position in a text: what is left of it, and the offset reached. -/
structure Reader where
  rest : List Char
  offset : Nat := 0
deriving DecidableEq, Repr

/-- A step of reading: a value or an error, and the reader where it stopped. -/
def Read (α : Type) : Type := Reader → Except DescriptorError α × Reader

namespace Read

instance : Monad Read where
  pure a r := (.ok a, r)
  bind p f r :=
    match p r with
    | (.ok a, r') => f a r'
    | (.error e, r') => (.error e, r')

variable {α β : Type}

theorem bind_apply (p : Read α) (f : α → Read β) (r : Reader) :
    (p >>= f) r = match p r with
      | (.ok a, r') => f a r'
      | (.error e, r') => (.error e, r') := rfl

theorem map_apply (f : α → β) (p : Read α) (r : Reader) :
    (f <$> p) r = ((p r).1.map f, (p r).2) := by
  change (p >>= fun a => pure (f a)) r = _
  rw [bind_apply]
  rcases p r with ⟨_ | _, _⟩ <;> rfl

theorem bind_eq_ok_iff {p : Read α} {f : α → Read β} {r r'' : Reader} {b : β} :
    (p >>= f) r = (.ok b, r'') ↔ ∃ a r', p r = (.ok a, r') ∧ f a r' = (.ok b, r'') := by
  rw [bind_apply]
  rcases p r with ⟨_ | a, r'⟩
  · simp
  · exact ⟨fun h => ⟨a, r', rfl, h⟩, by rintro ⟨_, _, ⟨⟩, h⟩; exact h⟩

theorem map_eq_ok_iff {f : α → β} {p : Read α} {r r' : Reader} {b : β} :
    (f <$> p) r = (.ok b, r') ↔ ∃ a, p r = (.ok a, r') ∧ f a = b := by
  rw [map_apply]
  rcases p r with ⟨_ | a, r''⟩
  · simp [Except.map]
  · constructor
    · rintro ⟨⟩
      exact ⟨a, rfl, rfl⟩
    · rintro ⟨_, ⟨⟩, rfl⟩
      rfl

end Read

namespace Reader

def ofString (s : String) : Reader := ⟨s.toList, 0⟩

def drop (r : Reader) (n : Nat) : Reader :=
  ⟨r.rest.drop n, r.offset + utf8Length (r.rest.take n)⟩

def unexpected (r : Reader) : DescriptorError :=
  match r.rest with
  | [] => .unexpectedEnd r.offset
  | c :: _ => .unexpected c r.offset

/-- Consumes the next character, which has to be `c`. -/
def expect (c : Char) : Read Unit := fun r =>
  match r.rest with
  | [] => (.error r.unexpected, r)
  | d :: _ => (if d = c then .ok () else .error r.unexpected, r.drop 1)

def baseType : Read BaseType := fun r =>
  match r.rest.head?.bind BaseType.ofLetter? with
  | some b => (.ok b, r.drop 1)
  | none => (.error r.unexpected, r)

/-- Reads up to the next `;` and past it, whether or not a class name stands before it. -/
def nameToSemicolon : Read ClassName := fun r =>
  let name := r.rest.takeWhile (· != ';')
  if name.length = r.rest.length then
    (.error (.unexpectedEnd (r.offset + utf8Length r.rest)), r)
  else
    ((ClassName.ofString (String.ofList name)).mapError (.className r.offset),
      r.drop (name.length + 1))

def className : Read ClassName := do
  expect 'L'
  nameToSemicolon

/-- Consumes every `[` that stands next and counts them. -/
def brackets : Read Nat := fun r =>
  let n := (r.rest.takeWhile (· == '[')).length
  (.ok n, r.drop n)

def element : Read Element := fun r =>
  if r.rest.head? = some 'L' then (Element.object <$> className) r
  else (Element.base <$> baseType) r

def fieldType : Read FieldType := do
  let n ← brackets
  let e ← element
  pure ⟨e, n⟩

/-- A text that does not start with `[` has to be a class. -/
def refType : Read RefType := fun r =>
  if r.rest.head? = some '[' then
    (do
      let n ← brackets
      let e ← element
      pure (RefType.array e (n - 1)) : Read RefType) r
  else (RefType.object <$> className) r

/-! ### Progress

A value is never read from nothing, which bounds the loop over the parameters of a method. -/

theorem length_drop (r : Reader) (n : Nat) : (r.drop n).rest.length = r.rest.length - n := by
  simp [drop]

theorem baseType_length_lt {r r' : Reader} {b : BaseType} (h : baseType r = (.ok b, r')) :
    r'.rest.length < r.rest.length := by
  unfold baseType at h
  split at h
  · rename_i b' hb
    obtain ⟨-, rfl⟩ := Prod.mk.inj h
    rw [length_drop]
    cases hr : r.rest with
    | nil => simp [hr] at hb
    | cons c cs => simp
  · simp at h

theorem expect_length_lt {c : Char} {r r' : Reader} (h : expect c r = (.ok (), r')) :
    r'.rest.length < r.rest.length := by
  unfold expect at h
  split at h
  · simp at h
  · rename_i d ds hr
    obtain ⟨-, rfl⟩ := Prod.mk.inj h
    simp [length_drop, hr]

theorem nameToSemicolon_length_le {r r' : Reader} {n : ClassName}
    (h : nameToSemicolon r = (.ok n, r')) : r'.rest.length ≤ r.rest.length := by
  simp only [nameToSemicolon] at h
  split at h
  · simp at h
  · obtain ⟨-, rfl⟩ := Prod.mk.inj h
    simp [length_drop]

theorem className_length_lt {r r' : Reader} {n : ClassName} (h : className r = (.ok n, r')) :
    r'.rest.length < r.rest.length := by
  obtain ⟨_, r₁, h₁, h₂⟩ := Read.bind_eq_ok_iff.mp h
  have := expect_length_lt h₁
  have := nameToSemicolon_length_le h₂
  omega

theorem element_length_lt {r r' : Reader} {e : Element} (h : element r = (.ok e, r')) :
    r'.rest.length < r.rest.length := by
  unfold element at h
  split at h
  · obtain ⟨n, hn, -⟩ := Read.map_eq_ok_iff.mp h
    exact className_length_lt hn
  · obtain ⟨b, hb, -⟩ := Read.map_eq_ok_iff.mp h
    exact baseType_length_lt hb

theorem fieldType_length_lt {r r' : Reader} {t : FieldType} (h : fieldType r = (.ok t, r')) :
    r'.rest.length < r.rest.length := by
  obtain ⟨n, r₁, h₁, h⟩ := Read.bind_eq_ok_iff.mp h
  obtain ⟨e, r₂, h₂, h⟩ := Read.bind_eq_ok_iff.mp h
  obtain ⟨-, rfl⟩ := Prod.mk.inj h
  obtain ⟨-, rfl⟩ := Prod.mk.inj h₁
  have := element_length_lt h₂
  rw [length_drop] at this
  omega

/-- Reads field types up to the closing parenthesis and past it. -/
def parameters : Read (List FieldType) := fun r =>
  match r.rest.head? with
  | none => (.error r.unexpected, r)
  | some ')' => (.ok [], r.drop 1)
  | some _ =>
    match _h : fieldType r with
    | (.error e, r') => (.error e, r')
    | (.ok t, r') =>
      let (ts, r'') := parameters r'
      (ts.map (t :: ·), r'')
termination_by r => r.rest.length
decreasing_by exact fieldType_length_lt _h

/-- Reads `V` as no type at all. -/
def returnType : Read (Option FieldType) := fun r =>
  if r.rest.head? = some 'V' then (.ok none, r.drop 1)
  else (some <$> fieldType) r

def methodDescriptor : Read MethodDescriptor := do
  expect '('
  let ps ← parameters
  let t ← returnType
  pure ⟨ps, t⟩

end Reader

/-- The value of a text that is one descriptor and nothing more. -/
def Read.whole {α : Type} (p : Read α) (s : String) : Except DescriptorError α :=
  match p (Reader.ofString s) with
  | (.error e, _) => .error e
  | (.ok a, r) => if r.rest.isEmpty then .ok a else .error r.unexpected

end ClosedWorld
