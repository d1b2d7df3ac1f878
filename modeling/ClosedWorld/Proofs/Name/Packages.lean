import ClosedWorld.Proofs.Descriptor.RoundTrip

/-!
# Packages and simple names

A class name is checked from its first slash on, segment by segment, and is taken apart at its last one.
The two agree since a text with a slash is a class name exactly if the texts on both sides of the slash are
(`classNameFault?_append_iff`), whichever slash it is; behind the last one only a single segment is left.
-/

namespace ClosedWorld

section
variable {sep : Char} {cs front simple : List Char}

/-! ### The last occurrence of a character -/

theorem splitAtLast?_eq_none_iff : splitAtLast? sep cs = none ↔ sep ∉ cs := by
  induction cs with
  | nil => simp [splitAtLast?]
  | cons c cs ih =>
    rw [splitAtLast?, List.mem_cons, not_or]
    rcases h : splitAtLast? sep cs with _ | ⟨before, behind⟩
    · simp [ih.1 h, eq_comm]
    · have : sep ∈ cs := by
        by_contra hmem
        rw [ih.2 hmem] at h
        cases h
      simp [this]

theorem splitAtLast?_append (h : sep ∉ simple) :
    splitAtLast? sep (front ++ sep :: simple) = some (front, simple) := by
  induction front with
  | nil => simp [splitAtLast?, splitAtLast?_eq_none_iff.2 h]
  | cons c front ih => rw [List.cons_append, splitAtLast?, ih]

theorem splitAtLast?_eq_some_iff :
    splitAtLast? sep cs = some (front, simple) ↔ cs = front ++ sep :: simple ∧ sep ∉ simple := by
  constructor
  · intro h
    induction cs generalizing front with
    | nil => cases h
    | cons c cs ih =>
      rw [splitAtLast?] at h
      split at h
      · next before behind hsplit =>
        cases h
        obtain ⟨rfl, hmem⟩ := ih hsplit
        exact ⟨rfl, hmem⟩
      · next hnone =>
        split at h
        · next hc =>
          cases h
          exact ⟨by rw [hc]; rfl, splitAtLast?_eq_none_iff.1 hnone⟩
        · cases h
  · rintro ⟨rfl, h⟩
    exact splitAtLast?_append h

/-! ### Segments -/

theorem slash_not_mem_of_segmentFault? (h : segmentFault? cs = none) : '/' ∉ cs :=
  fun hmem => nomatch (not_isSeparator_of_segmentFault? h hmem)

theorem splitOn_of_not_mem (h : sep ∉ cs) : cs.splitOn sep = [cs] :=
  List.splitOnP_eq_singleton fun _ hc => beq_eq_false_iff_ne.2 fun e => h (e ▸ hc)

theorem classNameFault?_of_not_mem (h : '/' ∉ cs) :
    classNameFault? cs = none ↔ segmentFault? cs = none := by
  rw [classNameFault?_eq_none_iff, splitOn_of_not_mem h, List.forall_mem_singleton]

/-- What stands before a slash and what stands behind it are checked each like a name of its own. -/
theorem classNameFault?_append_iff : classNameFault? (front ++ '/' :: simple) = none ↔
    classNameFault? front = none ∧ classNameFault? simple = none := by
  simp only [classNameFault?_eq_none_iff]
  have hsplit : (front ++ '/' :: simple).splitOn '/' = front.splitOn '/' ++ simple.splitOn '/' :=
    List.splitOnP_append_cons front simple (beq_self_eq_true '/')
  rw [hsplit, List.forall_mem_append]

end

/-! ### Names -/

theorem exists_className_iff {s : String} :
    (∃ n, ClassName.ofString s = .ok n) ↔ classNameFault? s.toList = none := by
  constructor
  · rintro ⟨n, hn⟩
    rw [← ClassName.ofString_eq_ok_iff.1 hn]
    exact n.valid
  · intro h
    exact ⟨⟨s, h⟩, ClassName.ofString_eq_ok_iff.2 rfl⟩

theorem exists_memberName_iff {s : String} :
    (∃ u, MemberName.ofString s = .ok u) ↔ segmentFault? s.toList = none := by
  unfold MemberName.ofString
  split
  · next h => simp [h]
  · next e h => simp [h]

theorem eq_append_slash_iff {s front simple : String} :
    s = front ++ "/" ++ simple ↔ s.toList = front.toList ++ '/' :: simple.toList := by
  rw [← String.toList_inj, String.toList_append, String.toList_append, List.append_assoc]
  rfl

namespace MemberName

theorem slash_not_mem (u : MemberName) : '/' ∉ u.text.toList :=
  slash_not_mem_of_segmentFault? u.valid

end MemberName

namespace ClassName
variable {front simple : String}

theorem package?_eq_none_iff (n : ClassName) : n.package? = none ↔ '/' ∉ n.text.toList := by
  rw [package?, Option.map_eq_none_iff, splitAtLast?_eq_none_iff]

theorem simpleName_of_package?_eq_none {n : ClassName} (h : n.package? = none) :
    n.simpleName = n.text := by
  rw [package?, Option.map_eq_none_iff] at h
  rw [simpleName, h]

theorem text_of_package?_eq_some {n : ClassName} (h : n.package? = some front) :
    n.text = front ++ "/" ++ n.simpleName ∧ '/' ∉ n.simpleName.toList := by
  obtain ⟨⟨before, behind⟩, hsplit, rfl⟩ := Option.map_eq_some_iff.1 h
  obtain ⟨htext, hbehind⟩ := splitAtLast?_eq_some_iff.1 hsplit
  rw [simpleName, hsplit, eq_append_slash_iff, String.toList_ofList, String.toList_ofList]
  exact ⟨htext, hbehind⟩

theorem package?_of_text {n : ClassName} (htext : n.text = front ++ "/" ++ simple)
    (h : '/' ∉ simple.toList) : n.package? = some front ∧ n.simpleName = simple := by
  have hsplit := splitAtLast?_eq_some_iff.2 ⟨eq_append_slash_iff.1 htext, h⟩
  rw [package?, simpleName, hsplit]
  exact ⟨congrArg some String.ofList_toList, String.ofList_toList⟩

/-- Both parts of a name with a package are names. -/
theorem parts_valid {n : ClassName} (h : n.package? = some front) :
    classNameFault? front.toList = none ∧ segmentFault? n.simpleName.toList = none := by
  obtain ⟨htext, hsimple⟩ := text_of_package?_eq_some h
  have hvalid := n.valid
  rw [eq_append_slash_iff.1 htext, classNameFault?_append_iff] at hvalid
  exact ⟨hvalid.1, (classNameFault?_of_not_mem hsimple).1 hvalid.2⟩

theorem simpleName_valid (n : ClassName) : segmentFault? n.simpleName.toList = none := by
  rcases h : n.package? with _ | front
  · rw [simpleName_of_package?_eq_none h]
    exact (classNameFault?_of_not_mem (n.package?_eq_none_iff.1 h)).1 n.valid
  · exact (parts_valid h).2

/-- A text is a class name exactly if it is one segment or a class name, a slash and one segment. -/
theorem exists_ofString_iff (s : String) : (∃ n, ofString s = .ok n) ↔
    (∃ u, MemberName.ofString s = .ok u) ∨
      ∃ (p : ClassName) (u : MemberName), s = p.text ++ "/" ++ u.text := by
  constructor
  · rintro ⟨n, hn⟩
    obtain rfl := ofString_eq_ok_iff.1 hn
    rcases h : n.package? with _ | front
    · left
      rw [exists_memberName_iff, ← simpleName_of_package?_eq_none h]
      exact n.simpleName_valid
    · right
      exact ⟨⟨front, (parts_valid h).1⟩, ⟨n.simpleName, n.simpleName_valid⟩,
        (text_of_package?_eq_some h).1⟩
  · rw [exists_className_iff, exists_memberName_iff]
    rintro (h | ⟨p, u, hs⟩)
    · exact (classNameFault?_of_not_mem (slash_not_mem_of_segmentFault? h)).2 h
    · rw [eq_append_slash_iff.1 hs, classNameFault?_append_iff]
      exact ⟨p.valid, (classNameFault?_of_not_mem u.slash_not_mem).2 u.valid⟩

/-- A text is a class name exactly if it is one segment, or a class name and one segment with a slash
between them. The simple name is always one segment. A name without a slash has no package and is its own
simple name; any other name is its package, a class name again, a slash and its simple name, and it is put
together from a text, a slash and one segment in no other way. -/
theorem package_and_simpleName :
    (∀ s : String, (∃ n, ofString s = .ok n) ↔
      (∃ u, MemberName.ofString s = .ok u) ∨
        ∃ (p : ClassName) (u : MemberName), s = p.text ++ "/" ++ u.text) ∧
    (∀ n : ClassName, (∃ u, MemberName.ofString n.simpleName = .ok u) ∧
      (n.package? = none ↔ '/' ∉ n.text.toList) ∧
      match n.package? with
      | none => n.simpleName = n.text
      | some front => (∃ p, ofString front = .ok p) ∧ n.text = front ++ "/" ++ n.simpleName) ∧
    ∀ (n : ClassName) (front : String) (u : MemberName),
      n.text = front ++ "/" ++ u.text ↔ n.package? = some front ∧ n.simpleName = u.text := by
  refine ⟨exists_ofString_iff, fun n => ⟨exists_memberName_iff.2 n.simpleName_valid,
    n.package?_eq_none_iff, ?_⟩, fun n front u => ⟨fun h => package?_of_text h u.slash_not_mem, ?_⟩⟩
  · split
    · next h => exact simpleName_of_package?_eq_none h
    · next front h =>
      exact ⟨exists_className_iff.2 (parts_valid h).1, (text_of_package?_eq_some h).1⟩
  · rintro ⟨hfront, hsimple⟩
    rw [← hsimple]
    exact (text_of_package?_eq_some hfront).1

end ClassName
end ClosedWorld
