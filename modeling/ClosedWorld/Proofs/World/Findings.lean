import ClosedWorld.Proofs.Graph.Edges
import ClosedWorld.Proofs.World.WellFormed
import ClosedWorld.World.Index

/-!
# What indexing finds

Each kind of reference has a reading of single instructions: the method that it calls, the field that it
reads or writes, the class that it refers to, the string that it loads. What is read off the finding for
an instruction is what the instruction is read as, so along the walk nothing is lost, doubled or moved
(`filterMap_findings`). Recording the findings one by one fills each relation with what is read off them
for it (`foldl_record`).
-/

namespace ClosedWorld

/-! ### Readings of an instruction -/

def Instruction.string? : Instruction → Option String
  | .ldc (.string value) => some value
  | _ => none

/-- The class that an instruction names as a type; of an array, its element class. -/
def Instruction.typeName? : Instruction → Option ClassName
  | .new name => some name
  | .aNewArray type | .checkCast type | .instanceOf type | .multiANewArray type _ => type.className?
  | _ => none

namespace Resolver

def callee? (r : Resolver) : Instruction → Option MethodId
  | .invoke _ ref => (r.methodOf? ref).map (·.member.id)
  | _ => none

def readField? (r : Resolver) : Instruction → Option FieldId
  | .field .getField ref | .field .getStatic ref => (r.fieldOf? ref).map (·.member.id)
  | _ => none

def writtenField? (r : Resolver) : Instruction → Option FieldId
  | .field .putField ref | .field .putStatic ref => (r.fieldOf? ref).map (·.member.id)
  | _ => none

/-- The class that declares the member that an instruction refers to. -/
def memberOwner? (r : Resolver) : Instruction → Option ClassId
  | .invoke _ ref => (r.methodOf? ref).map (·.owner)
  | .field _ ref => (r.fieldOf? ref).map (·.owner)
  | _ => none

/-- The registered class that an instruction names as a type, if types are indexed. -/
def namedClass? (r : Resolver) (i : Instruction) : Option ClassId :=
  if r.world.settings.types then i.typeName?.bind r.world.lookup? else none

/-- The class that an instruction refers to, through a member or as a type. -/
def classOf? (r : Resolver) (i : Instruction) : Option ClassId := r.memberOwner? i <|> r.namedClass? i

def instructionFinding? (r : Resolver) (owner : ClassId) (m : MethodId) (i : Instruction) :
    Option Finding :=
  i.mention?.bind (r.finding? owner m)

section Readings
variable (r : Resolver) (owner : ClassId) (m : MethodId) (i : Instruction)

/-- What is read off the finding for a mention, if nothing is read off what was skipped. -/
theorem bind_finding? {ε : Type} (π : Finding → Option ε) (hs : π .skipped = none) (x : Mention) :
    (r.finding? owner m x).bind π =
      match x with
      | .call ref => (r.methodOf? ref).bind fun t => π (.call m t.member.id t.owner)
      | .read ref => (r.fieldOf? ref).bind fun t => π (.read m t.member.id t.owner)
      | .write ref => (r.fieldOf? ref).bind fun t => π (.write m t.member.id t.owner)
      | .type name =>
        if r.world.settings.types then (r.world.lookup? name).bind fun c => π (.type m c) else none
      | .string value => if r.world.settings.strings then π (.string owner value) else none := by
  cases x with
  | call ref => cases h : r.methodOf? ref <;> simp [finding?, h, hs]
  | read ref => cases h : r.fieldOf? ref <;> simp [finding?, h, hs]
  | write ref => cases h : r.fieldOf? ref <;> simp [finding?, h, hs]
  | type name =>
    by_cases ht : r.world.settings.types
    · cases h : r.world.lookup? name <;> simp [finding?, ht, h, hs]
    · simp [finding?, ht]
  | string value => by_cases ht : r.world.settings.strings <;> simp [finding?, ht]

theorem call?_instructionFinding :
    (r.instructionFinding? owner m i).bind Finding.call? = (r.callee? i).map (m, ·) := by
  rw [instructionFinding?, Option.bind_assoc]
  simp only [bind_finding? r owner m Finding.call? rfl]
  cases i with
  | invoke mode ref =>
    cases h : r.methodOf? ref <;> simp [Instruction.mention?, callee?, h, Finding.call?]
  | field access ref =>
    cases access <;> simp [Instruction.mention?, callee?, Finding.call?, FieldAccess.isWrite]
  | ldc value => cases value <;> simp [Instruction.mention?, callee?, Finding.call?]
  | _ => simp [Instruction.mention?, callee?, Finding.call?]

theorem read?_instructionFinding :
    (r.instructionFinding? owner m i).bind Finding.read? = (r.readField? i).map (m, ·) := by
  rw [instructionFinding?, Option.bind_assoc]
  simp only [bind_finding? r owner m Finding.read? rfl]
  cases i with
  | field access ref =>
    cases access <;> cases h : r.fieldOf? ref <;>
      simp [Instruction.mention?, readField?, h, Finding.read?, FieldAccess.isWrite]
  | ldc value => cases value <;> simp [Instruction.mention?, readField?, Finding.read?]
  | _ => simp [Instruction.mention?, readField?, Finding.read?]

theorem write?_instructionFinding :
    (r.instructionFinding? owner m i).bind Finding.write? = (r.writtenField? i).map (m, ·) := by
  rw [instructionFinding?, Option.bind_assoc]
  simp only [bind_finding? r owner m Finding.write? rfl]
  cases i with
  | field access ref =>
    cases access <;> cases h : r.fieldOf? ref <;>
      simp [Instruction.mention?, writtenField?, h, Finding.write?, FieldAccess.isWrite]
  | ldc value => cases value <;> simp [Instruction.mention?, writtenField?, Finding.write?]
  | _ => simp [Instruction.mention?, writtenField?, Finding.write?]

/-- An instruction that refers to no member and loads no string mentions what it names as a type. -/
theorem namedClass?_finding {i : Instruction} (hm : i.mention? = i.typeName?.map .type) :
    (r.instructionFinding? owner m i).bind Finding.type? = (r.namedClass? i).map (m, ·) := by
  rw [instructionFinding?, hm, Option.bind_assoc, namedClass?]
  cases i.typeName? with
  | none => simp
  | some name =>
    by_cases ht : r.world.settings.types
    · cases h : r.world.lookup? name <;> simp [finding?, ht, h, Finding.type?]
    · simp [finding?, ht]

theorem type?_instructionFinding :
    (r.instructionFinding? owner m i).bind Finding.type? = (r.classOf? i).map (m, ·) := by
  cases i with
  | invoke mode ref =>
    cases h : r.methodOf? ref <;>
      simp [instructionFinding?, Instruction.mention?, finding?, classOf?, memberOwner?,
        namedClass?, Instruction.typeName?, h, Finding.type?]
  | field access ref =>
    cases access <;> cases h : r.fieldOf? ref <;>
      simp [instructionFinding?, Instruction.mention?, finding?, classOf?, memberOwner?,
        namedClass?, Instruction.typeName?, h, Finding.type?, FieldAccess.isWrite]
  | ldc value =>
    cases value with
    | string s =>
      by_cases hs : r.world.settings.strings <;>
        simp [instructionFinding?, Instruction.mention?, finding?, classOf?, memberOwner?,
          namedClass?, Instruction.typeName?, hs, Finding.type?]
    | _ => exact namedClass?_finding r owner m rfl
  | _ => exact namedClass?_finding r owner m rfl

theorem string?_instructionFinding :
    (r.instructionFinding? owner m i).bind Finding.string? =
      if r.world.settings.strings then i.string?.map (owner, ·) else none := by
  rw [instructionFinding?, Option.bind_assoc]
  simp only [bind_finding? r owner m Finding.string? rfl]
  cases i with
  | field access ref =>
    cases access <;> simp [Instruction.mention?, Instruction.string?, Finding.string?,
      FieldAccess.isWrite]
  | ldc value => cases value <;> simp [Instruction.mention?, Instruction.string?, Finding.string?]
  | _ => simp [Instruction.mention?, Instruction.string?, Finding.string?]

theorem fieldType?_instructionFinding :
    (r.instructionFinding? owner m i).bind Finding.fieldType? = none := by
  rw [instructionFinding?, Option.bind_assoc]
  simp only [bind_finding? r owner m Finding.fieldType? rfl]
  cases i.mention? with
  | none => rfl
  | some x => cases x <;> simp [Finding.fieldType?]

end Readings

/-! ### The walk -/

theorem bodyFindings_eq (r : Resolver) (owner : ClassId) (m : MethodEntry) :
    r.bodyFindings owner m =
      m.decl.body.instructions.filterMap (r.instructionFinding? owner m.id) := by
  rw [bodyFindings, List.filterMap_filterMap, Body.instructions, List.filterMap_map]
  rfl

/-- What is read off the findings, if the types of fields are not read. -/
theorem filterMap_findings {ε : Type} (r : Resolver) {π : Finding → Option ε}
    (hπ : ∀ f c, π (.fieldType f c) = none) :
    r.findings.filterMap π = r.world.methods.flatMap fun x =>
      x.2.decl.body.instructions.filterMap fun i =>
        (r.instructionFinding? x.1.id x.2.id i).bind π := by
  have hfields : ∀ c : ClassEntry, (c.fields.filterMap r.fieldFinding?).filterMap π = [] := by
    intro c
    refine List.eq_nil_iff_forall_not_mem.2 fun e he => ?_
    obtain ⟨x, hx, he⟩ := List.mem_filterMap.1 he
    obtain ⟨f, -, hf⟩ := List.mem_filterMap.1 hx
    obtain ⟨t, -, rfl⟩ := Option.map_eq_some_iff.1 hf
    rw [hπ] at he
    cases he
  have hclass : ∀ c : ClassEntry, (r.classFindings c).filterMap π =
      c.methods.flatMap fun m => m.decl.body.instructions.filterMap fun i =>
        (r.instructionFinding? c.id m.id i).bind π := by
    intro c
    have hif : (if r.world.settings.fieldTypes then c.fields.filterMap r.fieldFinding?
        else []).filterMap π = [] := by
      split
      · exact hfields c
      · rfl
    rw [classFindings, List.filterMap_append, hif, List.append_nil, List.filterMap_flatMap]
    simp only [bodyFindings_eq, List.filterMap_filterMap]
  rw [findings, List.filterMap_flatMap, World.methods, List.flatMap_assoc]
  simp only [hclass, List.flatMap_map]

/-- The bodies say nothing about the types of fields. -/
theorem filterMap_fieldType?_findings (r : Resolver) :
    r.findings.filterMap Finding.fieldType? =
      if r.world.settings.fieldTypes then
        r.world.fields.filterMap fun x => (r.world.typeClass? x.2).map (x.2.id, ·)
      else [] := by
  have hbodies : ∀ c : ClassEntry,
      (c.methods.flatMap (r.bodyFindings c.id)).filterMap Finding.fieldType? = [] := by
    intro c
    simp only [List.filterMap_flatMap, bodyFindings_eq, List.filterMap_filterMap,
      fieldType?_instructionFinding]
    simp
  have hfield : ∀ f : FieldEntry, (r.fieldFinding? f).bind Finding.fieldType? =
      (r.world.typeClass? f).map (f.id, ·) := by
    intro f
    rw [fieldFinding?]
    cases r.world.typeClass? f <;> rfl
  simp only [findings, classFindings, List.filterMap_flatMap, List.filterMap_append, hbodies,
    List.nil_append]
  split
  · simp only [List.filterMap_filterMap, hfield, World.fields, List.filterMap_flatMap,
      List.filterMap_map]
    rfl
  · simp

end Resolver

/-! ### What is recorded -/

namespace References

/-- What is recorded in one place is what is read off the findings for it, one by one. -/
theorem foldl_record {σ ε : Type} {π : References → σ} {read : Finding → Option ε}
    {add : σ → ε → σ} (h : ∀ r x, π (r.record x) = (read x).elim (π r) (add (π r)))
    (l : List Finding) (r : References) :
    π (l.foldl record r) = (l.filterMap read).foldl add (π r) := by
  induction l generalizing r with
  | nil => rfl
  | cons x l ih =>
    rw [List.foldl_cons, ih, h]
    cases hx : read x <;> simp [hx]

variable (l : List Finding)

theorem calls_ofFindings : (ofFindings l).calls = .ofList (l.filterMap Finding.call?) :=
  foldl_record (fun _ x => by cases x <;> rfl) l {}

theorem reads_ofFindings : (ofFindings l).reads = .ofList (l.filterMap Finding.read?) :=
  foldl_record (fun _ x => by cases x <;> rfl) l {}

theorem writes_ofFindings : (ofFindings l).writes = .ofList (l.filterMap Finding.write?) :=
  foldl_record (fun _ x => by cases x <;> rfl) l {}

theorem types_ofFindings : (ofFindings l).types = .ofList (l.filterMap Finding.type?) :=
  foldl_record (fun _ x => by cases x <;> rfl) l {}

theorem foldl_append_singleton {α : Type} (l : List α) :
    l.foldl (fun s x => s ++ [x]) [] = l := by
  rw [← List.flatMap_eq_foldl (f := fun x => [x]), List.flatMap_singleton']

theorem strings_ofFindings : (ofFindings l).strings = l.filterMap Finding.string? := by
  have h : (ofFindings l).strings =
      (l.filterMap Finding.string?).foldl (fun s x => s ++ [x]) [] :=
    foldl_record (fun _ x => by cases x <;> rfl) l {}
  rw [h, foldl_append_singleton]

theorem fieldTypes_ofFindings : (ofFindings l).fieldTypes = l.filterMap Finding.fieldType? := by
  have h : (ofFindings l).fieldTypes =
      (l.filterMap Finding.fieldType?).foldl (fun s x => s ++ [x]) [] :=
    foldl_record (fun _ x => by cases x <;> rfl) l {}
  rw [h, foldl_append_singleton]

end References
end ClosedWorld
