import ClosedWorld.Proofs.Descriptor.ErrorPositions
import ClosedWorld.Proofs.World.Moves

/-!
# What the identifier of a method tells

The identifier of a method is the name of its class, a dot, its own name and its descriptor. No name has a
dot, so the identifier tells the class. Nothing stands between the name and the descriptor however, and
parentheses may stand in names. A further one in a descriptor stands in the name of a class
(`MethodDescriptor.cuts_of_render`), and there another descriptor can start, behind a longer name
(`MethodDecl.Swallows`). Apart from that the identifier tells the name and the descriptor.
-/

namespace ClosedWorld

/-! ### Where a character stands -/

theorem split_append {α : Type} {c : α} {as bs before after : List α}
    (h : as ++ bs = before ++ c :: after) :
    (∃ more, as = before ++ c :: more) ∨ ∃ front, before = as ++ front ∧ bs = front ++ c :: after := by
  rcases List.append_eq_append_iff.1 h with ⟨front, hbefore, hbs⟩ | ⟨more, has, hafter⟩
  · exact .inr ⟨front, hbefore, hbs⟩
  cases more with
  | nil => exact .inr ⟨[], by rw [has, List.append_nil, List.append_nil], hafter.symm⟩
  | cons d more =>
    obtain ⟨rfl, -⟩ := List.cons.inj hafter
    exact .inl ⟨more, has⟩

theorem append_cons_inj_of_not_mem {α : Type} {c : α} {as as' bs bs' : List α} (h : c ∉ as)
    (h' : c ∉ as') (happend : as ++ c :: bs = as' ++ c :: bs') : as = as' ∧ bs = bs' := by
  rcases split_append happend with ⟨more, rfl⟩ | ⟨front, rfl, hbs⟩
  · exact absurd (by simp) h
  cases front with
  | nil => exact ⟨by simp, (List.cons.inj hbs).2⟩
  | cons d front =>
    obtain ⟨rfl, -⟩ := List.cons.inj hbs
    exact absurd (by simp) h'

theorem ClassName.ext {n n' : ClassName} (h : n.text = n'.text) : n = n' := by
  cases n
  cases n'
  cases h
  rfl

theorem MemberName.ext {n n' : MemberName} (h : n.text = n'.text) : n = n' := by
  cases n
  cases n'
  cases h
  rfl

theorem ClassName.dot_not_mem (n : ClassName) : '.' ∉ n.text.toList := by
  intro hmem
  cases n.eq_slash_of_isSeparator hmem rfl

/-! ### Parentheses within descriptors -/

/-- The text ends within the class name as a descriptor has it, before an opening parenthesis. -/
def ClassName.Cuts (n : ClassName) (before : List Char) : Prop :=
  ∃ front u v, before = front ++ 'L' :: u ∧ n.text.toList = u ++ '(' :: v

theorem ClassName.Cuts.append_left {n : ClassName} {before : List Char} (h : n.Cuts before)
    (cs : List Char) : n.Cuts (cs ++ before) := by
  obtain ⟨front, u, v, rfl, hn⟩ := h
  exact ⟨cs ++ front, u, v, (List.append_assoc _ _ _).symm, hn⟩

theorem ClassName.cuts_of_render {n : ClassName} {before after : List Char}
    (h : n.render = before ++ '(' :: after) : n.Cuts before := by
  have hname : ['L'] ++ (n.text.toList ++ [';']) = before ++ '(' :: after := h
  rcases split_append hname with ⟨more, hopen⟩ | ⟨u, hbefore, hbehind⟩
  · have hmem : '(' ∈ ['L'] := hopen ▸ by simp
    simp at hmem
  rcases split_append hbehind with ⟨v, hv⟩ | ⟨front, -, hend⟩
  · exact ⟨[], u, v, hbefore, hv⟩
  · have hmem : '(' ∈ [';'] := hend ▸ by simp
    simp at hmem

namespace FieldType

theorem cuts_of_render {t : FieldType} {before after : List Char}
    (h : t.render = before ++ '(' :: after) : ∃ n, t.className? = some n ∧ n.Cuts before := by
  obtain ⟨e, dimensions⟩ := t
  rcases split_append h with ⟨more, hbrackets⟩ | ⟨front, rfl, helement⟩
  · have hmem : '(' ∈ List.replicate dimensions '[' := hbrackets ▸ by simp
    cases List.eq_of_mem_replicate hmem
  cases e with
  | object n => exact ⟨n, rfl, (ClassName.cuts_of_render helement).append_left _⟩
  | base b =>
    have hletter : [b.letter] = front ++ '(' :: after := helement
    have hmem : '(' ∈ [b.letter] := hletter ▸ by simp
    cases b <;> simp [BaseType.letter] at hmem

theorem cuts_of_flatMap_render {ts : List FieldType} {before after : List Char}
    (h : ts.flatMap render = before ++ '(' :: after) :
    ∃ n ∈ ts.filterMap className?, n.Cuts before := by
  induction ts generalizing before with
  | nil => cases before <;> cases h
  | cons t ts ih =>
    rw [List.flatMap_cons] at h
    rcases split_append h with ⟨more, ht⟩ | ⟨front, rfl, hts⟩
    · obtain ⟨n, hn, hcuts⟩ := cuts_of_render ht
      exact ⟨n, List.mem_filterMap.2 ⟨t, List.mem_cons_self, hn⟩, hcuts⟩
    · obtain ⟨n, hn, hcuts⟩ := ih hts
      obtain ⟨u, hu, hun⟩ := List.mem_filterMap.1 hn
      exact ⟨n, List.mem_filterMap.2 ⟨u, List.mem_cons_of_mem _ hu, hun⟩, hcuts.append_left _⟩

end FieldType

namespace MethodDescriptor

/-- The classes that a descriptor mentions, those of the parameters first. -/
def classNames (d : MethodDescriptor) : List ClassName :=
  (d.parameters ++ d.returnType?.toList).filterMap FieldType.className?

/-- Behind the first parenthesis only the name of a class can open one. -/
theorem cuts_of_render {d : MethodDescriptor} {before after : List Char}
    (h : d.render = '(' :: before ++ '(' :: after) : ∃ n ∈ d.classNames, n.Cuts before := by
  obtain ⟨-, h⟩ := List.cons.inj h
  rw [classNames, List.filterMap_append]
  rcases split_append h with ⟨more, hparameters⟩ | ⟨front, rfl, hclose⟩
  · obtain ⟨n, hn, hcuts⟩ := FieldType.cuts_of_flatMap_render hparameters
    exact ⟨n, List.mem_append_left _ hn, hcuts⟩
  have hbehind : [')'] ++ renderReturn d.returnType? = front ++ '(' :: after := hclose
  rcases split_append hbehind with ⟨more, hmore⟩ | ⟨front, rfl, hreturn⟩
  · have hmem : '(' ∈ [')'] := hmore ▸ by simp
    simp at hmem
  cases ht : d.returnType? with
  | none =>
    rw [ht] at hreturn
    have hvoid : ['V'] = front ++ '(' :: after := hreturn
    have hmem : '(' ∈ ['V'] := hvoid ▸ by simp
    simp at hmem
  | some t =>
    rw [ht] at hreturn
    obtain ⟨n, hn, hcuts⟩ := FieldType.cuts_of_render hreturn
    refine ⟨n, List.mem_append_right _ ?_, (hcuts.append_left _).append_left _⟩
    exact List.mem_filterMap.2 ⟨t, by simp, hn⟩

end MethodDescriptor

namespace MethodDecl
variable {m m' : MethodDecl}

/-! ### Names and descriptors -/

theorem toList_identifier (owner : ClassName) (m : MethodDecl) : (m.identifier owner).toList =
    owner.text.toList ++ '.' :: (m.name.text.toList ++ m.descriptor.render) := by
  simp [identifier, Descriptor.toString, Descriptor.render]

/-- The name of `m'` is that of `m` with the start of its descriptor, which breaks off within the name of a
class. What is left of the descriptor is the descriptor of `m'`. -/
def Swallows (m' m : MethodDecl) : Prop :=
  ∃ n ∈ m.descriptor.classNames, ∃ before, n.Cuts before ∧
    m'.name.text.toList = m.name.text.toList ++ '(' :: before ∧
      m.descriptor.render = '(' :: before ++ m'.descriptor.render

/-- Two methods have the same name and descriptor, or the name of one swallows a part of the descriptor of
the other. -/
def Coincides (m m' : MethodDecl) : Prop :=
  (m.name = m'.name ∧ m.descriptor = m'.descriptor) ∨ m'.Swallows m ∨ m.Swallows m'

theorem Swallows.append_eq (h : m'.Swallows m) :
    m.name.text.toList ++ m.descriptor.render = m'.name.text.toList ++ m'.descriptor.render := by
  obtain ⟨n, -, before, -, hname, hrender⟩ := h
  rw [hname, hrender, List.append_assoc]

/-- The longer name goes on with a start of the other descriptor, if it goes on. -/
theorem eq_or_swallows_of_append {more : List Char}
    (hname : m'.name.text.toList = m.name.text.toList ++ more)
    (hrender : m.descriptor.render = more ++ m'.descriptor.render) :
    (m.name = m'.name ∧ m.descriptor = m'.descriptor) ∨ m'.Swallows m := by
  cases more with
  | nil =>
    rw [List.append_nil, String.toList_inj] at hname
    refine .inl ⟨MemberName.ext hname.symm, ?_⟩
    have happend : m.descriptor.render ++ [] = m'.descriptor.render ++ [] := by
      rw [hrender, List.nil_append]
    exact (Reader.methodDescriptor_undoes.append_inj happend).1
  | cons c before =>
    obtain rfl : '(' = c := (List.cons.inj hrender).1
    obtain ⟨n, hn, hcuts⟩ := MethodDescriptor.cuts_of_render hrender
    exact .inr ⟨n, hn, before, hcuts, hname, hrender⟩

theorem append_eq_iff_coincides :
    m.name.text.toList ++ m.descriptor.render = m'.name.text.toList ++ m'.descriptor.render ↔
      m.Coincides m' := by
  constructor
  · intro h
    rcases List.append_eq_append_iff.1 h with ⟨more, hname, hrender⟩ | ⟨more, hname, hrender⟩
    · exact (eq_or_swallows_of_append hname hrender).imp id .inl
    · refine (eq_or_swallows_of_append hname hrender).imp ?_ .inr
      exact fun ⟨hnames, hdescriptors⟩ => ⟨hnames.symm, hdescriptors.symm⟩
  · rintro (⟨hname, hdescriptor⟩ | h | h)
    · rw [hname, hdescriptor]
    · exact h.append_eq
    · exact h.append_eq.symm

theorem identifier_eq_iff {o o' : ClassName} :
    m.identifier o = m'.identifier o' ↔ o = o' ∧ m.Coincides m' := by
  rw [← String.toList_inj, toList_identifier, toList_identifier, ← append_eq_iff_coincides]
  constructor
  · intro h
    obtain ⟨howner, hrest⟩ := append_cons_inj_of_not_mem o.dot_not_mem o'.dot_not_mem h
    exact ⟨ClassName.ext (String.toList_inj.1 howner), hrest⟩
  · rintro ⟨rfl, h⟩
    rw [h]

theorem Swallows.mem_name (h : m'.Swallows m) : '(' ∈ m'.name.text.toList := by
  obtain ⟨n, -, before, -, hname, -⟩ := h
  rw [hname]
  simp

theorem Swallows.exists_class (h : m'.Swallows m) :
    ∃ n ∈ m.descriptor.classNames, '(' ∈ n.text.toList := by
  obtain ⟨n, hn, -, ⟨-, u, v, -, htext⟩, -, -⟩ := h
  refine ⟨n, hn, ?_⟩
  rw [htext]
  simp

/-- Without parentheses in names nothing is swallowed, be it in those of the methods or in those of the
classes. -/
theorem Coincides.eq_of_plain (h : m.Coincides m')
    (hplain : ('(' ∉ m.name.text.toList ∧ '(' ∉ m'.name.text.toList) ∨
      ∀ n ∈ m.descriptor.classNames ++ m'.descriptor.classNames, '(' ∉ n.text.toList) :
    m.name = m'.name ∧ m.descriptor = m'.descriptor := by
  rcases h with h | h | h
  · exact h
  · rcases hplain with ⟨-, hname⟩ | hclasses
    · exact absurd h.mem_name hname
    · obtain ⟨n, hn, hmem⟩ := h.exists_class
      exact absurd hmem (hclasses n (List.mem_append_left _ hn))
  · rcases hplain with ⟨hname, -⟩ | hclasses
    · exact absurd h.mem_name hname
    · obtain ⟨n, hn, hmem⟩ := h.exists_class
      exact absurd hmem (hclasses n (List.mem_append_right _ hn))

end MethodDecl

/-! ### A stall -/

namespace World

def sell : MethodDecl :=
  let crate : ClassName := ⟨"crate(Lapple", by decide +kernel⟩
  ⟨⟨"sell", by decide +kernel⟩, ⟨[.object crate], none⟩, .ofList [.accPublic], []⟩

def sellCrate : MethodDecl :=
  let apple : ClassName := ⟨"apple", by decide +kernel⟩
  ⟨⟨"sell(Lcrate", by decide +kernel⟩, ⟨[.object apple], none⟩, .ofList [.accPublic], []⟩

/-- A stall that sells something in a crate, or a crate of something. -/
def stall : ClassDecl where
  name := ⟨"Stall", by decide +kernel⟩
  super? := some .object
  flags := .ofList [.accPublic]
  methods := [sell, sellCrate]

def ofStall : World := (World.empty {}).run [.register stall]

theorem reachable_ofStall : ofStall.Reachable := ⟨{}, _, rfl⟩

/-! ### The result -/

/-- What the identifiers of methods tell of the methods, on any class and in a world. -/
structure Tells (w : World) : Prop where
  iff_coincides : ∀ (o o' : ClassName) (m m' : MethodDecl),
    m.identifier o = m'.identifier o' ↔ o = o' ∧ m.Coincides m'
  eq_of_plain_names : ∀ m m' : MethodDecl, m.Coincides m' → '(' ∉ m.name.text.toList →
    '(' ∉ m'.name.text.toList → m.name = m'.name ∧ m.descriptor = m'.descriptor
  eq_of_plain_classes : ∀ m m' : MethodDecl, m.Coincides m' →
    (∀ n ∈ m.descriptor.classNames ++ m'.descriptor.classNames, '(' ∉ n.text.toList) →
      m.name = m'.name ∧ m.descriptor = m'.descriptor
  /-- In a world the class is told, and not just its name. -/
  methods : ∀ x ∈ w.methods, ∀ y ∈ w.methods,
    x.2.decl.identifier x.1.name = y.2.decl.identifier y.1.name ↔
      x.1 = y.1 ∧ x.2.decl.Coincides y.2.decl

theorem identifiers_tell {w : World} (h : w.Reachable) : w.Tells where
  iff_coincides _ _ _ _ := MethodDecl.identifier_eq_iff
  eq_of_plain_names _ _ hm hname hname' := hm.eq_of_plain (.inl ⟨hname, hname'⟩)
  eq_of_plain_classes _ _ hm hclasses := hm.eq_of_plain (.inr hclasses)
  methods x hx y hy := by
    have hnames : x.1.name = y.1.name ↔ x.1 = y.1 := by
      refine ⟨fun hname => ?_, fun he => congrArg (·.name) he⟩
      exact List.inj_on_of_nodup_map h.wellFormed.names (mem_methods.1 hx).1 (mem_methods.1 hy).1 hname
    rw [MethodDecl.identifier_eq_iff, hnames]

theorem identifiers_tell_stall :
    (ofStall.Reachable ∧ sellCrate.Swallows sell) ∧ ofStall.Tells := by
  have hcuts : (⟨"crate(Lapple", by decide +kernel⟩ : ClassName).Cuts "Lcrate".toList :=
    ⟨[], "crate".toList, "Lapple".toList, by decide +kernel, by decide +kernel⟩
  have hswallows : sellCrate.Swallows sell :=
    ⟨_, List.mem_cons_self, _, hcuts, by decide +kernel, by decide +kernel⟩
  exact ⟨⟨reachable_ofStall, hswallows⟩, identifiers_tell reachable_ofStall⟩

/-- Two methods of one class that have neither the name nor the descriptor in common have the same
identifier. -/
theorem identifiers_collide : ofStall.Reachable ∧ ∃ x ∈ ofStall.methods, ∃ y ∈ ofStall.methods,
    x.2.decl.identifier x.1.name = "Stall.sell(Lcrate(Lapple;)V" ∧
      y.2.decl.identifier y.1.name = "Stall.sell(Lcrate(Lapple;)V" ∧
      x.2.decl.name ≠ y.2.decl.name ∧ x.2.decl.descriptor ≠ y.2.decl.descriptor := by
  refine ⟨reachable_ofStall, ?_⟩
  decide +kernel

end World
end ClosedWorld
