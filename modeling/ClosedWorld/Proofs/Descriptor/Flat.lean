import ClosedWorld.Descriptor.Flat
import ClosedWorld.Proofs.Descriptor.RoundTrip

/-!
# Counting dimensions in words

A stored type stands for the type with the same element and its dimensions as a number (`plain`). To nest
an array, to print it and to read it are the same for both as long as the counts fit a word: each succeeds
on words exactly if the number that is due fits (`array?_eq_some_iff`, `render?_eq_some_iff`,
`refType_eq_ok_iff`). The rest is known of numbers.
-/

namespace ClosedWorld

/-! ### Words as numbers -/

namespace Word
variable {w v : UInt64}

theorem next?_eq_some_iff : next? w = some v ↔ v.toNat = w.toNat + 1 := by
  have hv : v.toNat < UInt64.size := v.toNat_lt
  unfold next?
  split
  · next h =>
    have hadd : (w + 1).toNat = w.toNat + 1 := by
      rw [UInt64.toNat_add]
      exact Nat.mod_eq_of_lt h
    rw [Option.some.injEq, ← UInt64.toNat_inj, hadd]
    exact eq_comm
  · next h =>
    refine iff_of_false (fun h => nomatch h) ?_
    omega

theorem prev?_eq_some_iff : prev? w = some v ↔ w.toNat = v.toNat + 1 := by
  unfold prev?
  split
  · next h =>
    rw [h]
    exact iff_of_false (fun h => nomatch h) fun h => nomatch h
  · next h =>
    have hpos : 1 ≤ w.toNat := Nat.one_le_iff_ne_zero.2 fun e => h (UInt64.toNat_inj.1 e)
    have hsub : (w - 1).toNat = w.toNat - 1 :=
      UInt64.toNat_sub_of_le w 1 (UInt64.le_iff_toNat_le.2 hpos)
    rw [Option.some.injEq, ← UInt64.toNat_inj, hsub]
    omega

theorem size_pos : 0 < UInt64.size := by decide

theorem exists_toNat_eq {k : Nat} (h : k < UInt64.size) : ∃ w : UInt64, w.toNat = k :=
  ⟨UInt64.ofNat k, UInt64.toNat_ofNat_of_lt' h⟩

end Word

/-! ### Elements and arrays -/

/-- The type without dimensions. -/
def FlatType.single : Element → FlatType
  | .base b => base b
  | .object name => ref (.object name)

theorem FlatRef.eq_object_or_array (u : FlatRef) :
    (∃ name, u = object name) ∨ ∃ extra e, u = array extra e := by
  cases u with
  | object name => exact .inl ⟨name, rfl⟩
  | objectArray a => exact .inr ⟨a.extra, .object a.element, rfl⟩
  | baseArray a => exact .inr ⟨a.extra, .base a.element, rfl⟩

theorem FlatType.eq_single_or_array (t : FlatType) :
    (∃ e, t = single e) ∨ ∃ extra e, t = ref (.array extra e) := by
  cases t with
  | base b => exact .inl ⟨.base b, rfl⟩
  | ref u =>
    obtain ⟨name, rfl⟩ | ⟨extra, e, rfl⟩ := u.eq_object_or_array
    · exact .inl ⟨.object name, rfl⟩
    · exact .inr ⟨extra, e, rfl⟩

section
variable (extra : UInt64) (e : Element)

theorem FlatType.plain_single : (FlatType.single e).plain = ⟨e, 0⟩ := by
  cases e <;> rfl

theorem FlatRef.plain_array : (FlatRef.array extra e).plain = .array e extra.toNat := by
  cases e <;> rfl

theorem FlatRef.plain_type_array : (FlatRef.array extra e).plain.type = ⟨e, extra.toNat + 1⟩ := by
  cases e <;> rfl

theorem FlatType.plain_array : (FlatType.ref (.array extra e)).plain = ⟨e, extra.toNat + 1⟩ :=
  FlatRef.plain_type_array extra e

theorem FlatRef.array?_single : FlatRef.array? (.single e) = some (.array 0 e) := by
  cases e <;> rfl

theorem FlatRef.array?_array : FlatRef.array? (.ref (.array extra e)) =
    (Word.next? extra).map (FlatRef.array · e) := by
  cases e <;> exact Option.map_map ..

theorem FlatRef.render?_array : (FlatRef.array extra e).render? =
    (Word.next? extra).map fun n => List.replicate n.toNat '[' ++ e.render := by
  cases e <;> rfl

theorem FlatRef.dimensions?_array : (FlatRef.array extra e).dimensions? = Word.next? extra := by
  cases e <;> rfl

end

/-! ### Dimensions as a number -/

theorem FlatType.plain_inj {t t' : FlatType} : t.plain = t'.plain ↔ t = t' := by
  refine ⟨fun h => ?_, fun h => by rw [h]⟩
  obtain ⟨e, rfl⟩ | ⟨extra, e, rfl⟩ := t.eq_single_or_array <;>
    obtain ⟨e', rfl⟩ | ⟨extra', e', rfl⟩ := t'.eq_single_or_array <;>
    simp only [plain_single, plain_array, FieldType.mk.injEq] at h
  · rw [h.1]
  · cases h.2
  · cases h.2
  · rw [h.1, UInt64.toNat_inj.1 (Nat.succ_inj.1 h.2)]

/-- Every type whose dimensions beyond the first fit a word is stored as something. -/
theorem FlatType.exists_plain {t : FieldType} (h : t.dimensions ≤ UInt64.size) :
    ∃ t' : FlatType, t'.plain = t := by
  obtain ⟨e, _ | n⟩ := t
  · exact ⟨single e, plain_single e⟩
  · obtain ⟨extra, rfl⟩ := Word.exists_toNat_eq h
    exact ⟨ref (.array extra e), plain_array extra e⟩

theorem FlatType.plain_dimensions_le (t : FlatType) : t.plain.dimensions ≤ UInt64.size := by
  obtain ⟨e, rfl⟩ | ⟨extra, e, rfl⟩ := t.eq_single_or_array
  · rw [plain_single]
    exact Nat.zero_le _
  · rw [plain_array]
    exact extra.toNat_lt

namespace FlatRef
variable {t : FlatType} {u v : FlatRef} {cs : List Char} {d : UInt64}

theorem plain_type_inj : u.plain.type = v.plain.type ↔ u = v :=
  (show (FlatType.ref u).plain = (FlatType.ref v).plain ↔ _ from FlatType.plain_inj).trans
    (Iff.of_eq (FlatType.ref.injEq u v))

theorem array?_eq_some_iff : array? t = some u ↔ u.plain.type = t.plain.array := by
  obtain ⟨e, rfl⟩ | ⟨extra, e, rfl⟩ := t.eq_single_or_array
  · have hone : (FlatType.single e).plain.array = (array 0 e).plain.type := by
      rw [FlatType.plain_single, plain_type_array]
      rfl
    rw [array?_single, hone, plain_type_inj, Option.some.injEq, eq_comm]
  · rw [array?_array, Option.map_eq_some_iff, FlatType.plain_array]
    constructor
    · rintro ⟨extra', hnext, rfl⟩
      rw [plain_type_array, Word.next?_eq_some_iff.1 hnext]
      rfl
    · intro h
      obtain ⟨name, rfl⟩ | ⟨extra', e', rfl⟩ := u.eq_object_or_array
      · cases congrArg FieldType.dimensions h
      · rw [plain_type_array, FieldType.array, FieldType.mk.injEq] at h
        exact ⟨extra', Word.next?_eq_some_iff.2 (Nat.succ_inj.1 h.2), by rw [h.1]⟩

theorem render?_eq_some_iff :
    u.render? = some cs ↔ cs = u.plain.render ∧ u.plain.dimensions < UInt64.size := by
  obtain ⟨name, rfl⟩ | ⟨extra, e, rfl⟩ := u.eq_object_or_array
  · simp [render?, plain, RefType.render, RefType.object, RefType.dimensions, FieldType.render,
      FieldType.object, Element.render, eq_comm]
  · rw [render?_array, Option.map_eq_some_iff, RefType.render, RefType.dimensions, plain_type_array]
    constructor
    · rintro ⟨n, hnext, rfl⟩
      rw [← Word.next?_eq_some_iff.1 hnext]
      exact ⟨rfl, n.toNat_lt⟩
    · rintro ⟨rfl, hsize⟩
      obtain ⟨n, hn⟩ := Word.exists_toNat_eq hsize
      exact ⟨n, Word.next?_eq_some_iff.2 hn, by rw [hn]; rfl⟩

theorem dimensions?_eq_some_iff : u.dimensions? = some d ↔ d.toNat = u.plain.dimensions := by
  obtain ⟨name, rfl⟩ | ⟨extra, e, rfl⟩ := u.eq_object_or_array
  · rw [dimensions?, Option.some.injEq, ← UInt64.toNat_inj, eq_comm]
    rfl
  · rw [dimensions?_array, Word.next?_eq_some_iff, RefType.dimensions, plain_type_array]

theorem className?_eq (u : FlatRef) : u.className? = u.plain.className? := by
  cases u <;> rfl

end FlatRef

namespace FlatType
variable {t v : FlatType} {cs : List Char} {d : UInt64} {n : Nat}

theorem array?_eq_some_iff : t.array? = some v ↔ v.plain = t.plain.array := by
  rw [array?, Option.map_eq_some_iff]
  constructor
  · rintro ⟨u, hu, rfl⟩
    exact FlatRef.array?_eq_some_iff.1 hu
  · intro h
    cases v with
    | base b => cases congrArg FieldType.dimensions h
    | ref u => exact ⟨u, FlatRef.array?_eq_some_iff.2 h, rfl⟩

theorem arrays?_eq_some_iff : t.arrays? n = some v ↔ v.plain = t.plain.arrays n := by
  induction n generalizing v with
  | zero => exact (Option.some_inj.trans eq_comm).trans plain_inj.symm
  | succ n ih =>
    rw [arrays?, Option.bind_eq_some_iff]
    constructor
    · rintro ⟨w, hw, hv⟩
      rw [array?_eq_some_iff.1 hv, ih.1 hw]
      rfl
    · intro h
      -- an array of one dimension less has a shorter count, so it is stored as well
      have hle := v.plain_dimensions_le
      rw [h] at hle
      obtain ⟨w, hw⟩ := exists_plain (t := t.plain.arrays n) (Nat.le_of_succ_le hle)
      exact ⟨w, ih.2 hw, array?_eq_some_iff.2 (by rw [h, hw]; rfl)⟩

theorem render?_eq_some_iff :
    t.render? = some cs ↔ cs = t.plain.render ∧ t.plain.dimensions < UInt64.size := by
  cases t with
  | ref u => exact FlatRef.render?_eq_some_iff
  | base b =>
    simp [render?, plain, FieldType.base, FieldType.render, Element.render, eq_comm]

theorem dimensions?_eq_some_iff : t.dimensions? = some d ↔ d.toNat = t.plain.dimensions := by
  cases t with
  | ref u => exact FlatRef.dimensions?_eq_some_iff
  | base b =>
    rw [dimensions?, Option.some.injEq, ← UInt64.toNat_inj, eq_comm]
    rfl

theorem className?_eq (t : FlatType) : t.className? = t.plain.className? := by
  cases t with
  | ref u => exact u.className?_eq
  | base b => rfl

end FlatType

/-! ### Reading in words -/

namespace Reader
variable {r r' : Reader} {n : Nat}

theorem brackets_of_head_iff (h : r.rest.head? = some '[') : brackets r = (.ok n, r') ↔
    ∃ m, n = m + 1 ∧ brackets (r.drop 1) = (.ok m, r') := by
  simp only [brackets_eq_ok_iff]
  constructor
  · rintro ⟨hpasses, hnot⟩
    cases n with
    | zero => exact absurd (Passes.nil_iff.1 hpasses ▸ h) hnot
    | succ m =>
      rw [List.replicate_succ, ← List.singleton_append, Passes.append_iff] at hpasses
      obtain ⟨r₁, hone, hrest⟩ := hpasses
      obtain ⟨-, rfl⟩ := Passes.singleton_iff.1 hone
      exact ⟨m, rfl, hrest, hnot⟩
  · rintro ⟨m, rfl, hpasses, hnot⟩
    rw [List.replicate_succ, ← List.singleton_append, Passes.append_iff]
    exact ⟨⟨r.drop 1, Passes.singleton_iff.2 ⟨h, rfl⟩, hpasses⟩, hnot⟩

theorem refType_of_head_iff {t : RefType} (h : r.rest.head? = some '[') : refType r = (.ok t, r') ↔
    ∃ extra r₁ e, brackets r = (.ok (extra + 1), r₁) ∧ element r₁ = (.ok e, r') ∧
      .array e extra = t := by
  rw [refType, if_pos h, Read.bind_eq_ok_iff]
  constructor
  · rintro ⟨n, r₁, hn, hrest⟩
    obtain ⟨e, r₂, he, hrest⟩ := Read.bind_eq_ok_iff.1 hrest
    obtain ⟨extra, rfl, -⟩ := (brackets_of_head_iff h).1 hn
    cases hrest
    exact ⟨extra, r₁, e, hn, he, rfl⟩
  · rintro ⟨extra, r₁, e, hn, he, rfl⟩
    exact ⟨extra + 1, r₁, hn, Read.bind_eq_ok_iff.2 ⟨e, r', he, rfl⟩⟩

end Reader

namespace WordRead
variable {α β : Type} {r r' r'' : Reader}

theorem ofRead_eq_ok_iff {p : Read α} {a : α} : ofRead p r = .ok a r' ↔ p r = (.ok a, r') := by
  unfold ofRead
  split
  · next b r₁ h => rw [h]; simp
  · next e r₁ h => rw [h]; simp

theorem ofOption_eq_ok_iff {a? : Option α} {a : α} :
    ofOption a? r = .ok a r' ↔ a? = some a ∧ r = r' := by
  cases a? with
  | none => exact iff_of_false (fun h => nomatch h) fun h => nomatch h.1
  | some b =>
    rw [Option.some.injEq]
    constructor
    · rintro ⟨⟩
      exact ⟨rfl, rfl⟩
    · rintro ⟨rfl, rfl⟩
      rfl

theorem bind_eq_ok_iff {p : WordRead α} {f : α → WordRead β} {b : β} :
    (p >>= f) r = .ok b r'' ↔ ∃ a r', p r = .ok a r' ∧ f a r' = .ok b r'' := by
  show EStateM.bind p f r = _ ↔ _
  unfold EStateM.bind
  rcases p r with ⟨a, r₁⟩ | ⟨e, r₁⟩
  · exact ⟨fun h => ⟨a, r₁, rfl, h⟩, by rintro ⟨_, _, ⟨⟩, h⟩; exact h⟩
  · simp

theorem map_eq_ok_iff {p : WordRead α} {f : α → β} {b : β} :
    (f <$> p) r = .ok b r' ↔ ∃ a, p r = .ok a r' ∧ f a = b := by
  show EStateM.map f p r = _ ↔ _
  unfold EStateM.map
  rcases p r with ⟨a, r₁⟩ | ⟨e, r₁⟩
  · constructor
    · rintro ⟨⟩
      exact ⟨a, rfl, rfl⟩
    · rintro ⟨_, ⟨⟩, rfl⟩
      rfl
  · simp

/-- The loop adds what stands next to what it has counted, if a word holds the sum. -/
theorem brackets_eq_ok_iff {counted w : UInt64} : brackets counted r = .ok w r' ↔
    ∃ n, Reader.brackets r = (.ok n, r') ∧ w.toNat = counted.toNat + n := by
  fun_induction brackets counted r with
  | case1 counted r hhead hnext =>
    refine iff_of_false (fun h => nomatch h) ?_
    rintro ⟨n, hn, hw⟩
    obtain ⟨m, rfl, -⟩ := (Reader.brackets_of_head_iff hhead).1 hn
    have hlt : counted.toNat + 1 < UInt64.size := by
      have := w.toNat_lt
      change counted.toNat + 1 < 2 ^ 64
      omega
    obtain ⟨v, hv⟩ := Word.exists_toNat_eq hlt
    cases hnext.symm.trans (Word.next?_eq_some_iff.2 hv)
  | case2 counted r hhead v hnext ih =>
    rw [ih, Word.next?_eq_some_iff.1 hnext]
    simp only [Reader.brackets_of_head_iff hhead]
    constructor
    · rintro ⟨m, hm, hw⟩
      exact ⟨m + 1, ⟨m, rfl, hm⟩, by omega⟩
    · rintro ⟨_, ⟨m, rfl, hm⟩, hw⟩
      exact ⟨m, hm, by omega⟩
  | case3 counted r hhead =>
    rw [Reader.brackets_of_head hhead]
    constructor
    · rintro ⟨⟩
      exact ⟨0, rfl, rfl⟩
    · rintro ⟨_, ⟨⟩, hw⟩
      rw [UInt64.toNat_inj.1 hw]

theorem arrayType_eq_ok_iff {u : FlatRef} : arrayType r = .ok u r' ↔
    ∃ (extra : UInt64) (r₁ : Reader) (e : Element), Reader.brackets r = (.ok (extra.toNat + 1), r₁) ∧
      extra.toNat + 1 < UInt64.size ∧ Reader.element r₁ = (.ok e, r') ∧ .array extra e = u := by
  constructor
  · intro h
    obtain ⟨n, r₁, hn, h⟩ := bind_eq_ok_iff.1 h
    obtain ⟨extra, r₂, hextra, h⟩ := bind_eq_ok_iff.1 h
    obtain ⟨hprev, rfl⟩ := ofOption_eq_ok_iff.1 hextra
    obtain ⟨e, r₃, he, h⟩ := bind_eq_ok_iff.1 h
    obtain ⟨k, hk, hcount⟩ := brackets_eq_ok_iff.1 hn
    cases h
    have hn' : n.toNat = extra.toNat + 1 := Word.prev?_eq_some_iff.1 hprev
    have hk' : k = extra.toNat + 1 := by
      rw [← hn', hcount]
      exact (Nat.zero_add k).symm
    exact ⟨extra, r₁, e, hk' ▸ hk, hn' ▸ n.toNat_lt, ofRead_eq_ok_iff.1 he, rfl⟩
  · rintro ⟨extra, r₁, e, hk, hfits, he, rfl⟩
    obtain ⟨n, hn⟩ := Word.exists_toNat_eq hfits
    refine bind_eq_ok_iff.2 ⟨n, r₁, brackets_eq_ok_iff.2 ⟨_, hk, ?_⟩, bind_eq_ok_iff.2
      ⟨extra, r₁, ofOption_eq_ok_iff.2 ⟨Word.prev?_eq_some_iff.2 hn, rfl⟩, bind_eq_ok_iff.2
        ⟨e, r', ofRead_eq_ok_iff.2 he, rfl⟩⟩⟩
    rw [hn]
    exact (Nat.zero_add _).symm

theorem refType_eq_ok_iff {u : FlatRef} : refType r = .ok u r' ↔
    Reader.refType r = (.ok u.plain, r') ∧ u.plain.dimensions < UInt64.size := by
  by_cases hhead : r.rest.head? = some '['
  · rw [refType, if_pos hhead, arrayType_eq_ok_iff, Reader.refType_of_head_iff hhead]
    constructor
    · rintro ⟨extra, r₁, e, hbrackets, hfits, he, rfl⟩
      rw [FlatRef.plain_array]
      exact ⟨⟨extra.toNat, r₁, e, hbrackets, he, rfl⟩, hfits⟩
    · rintro ⟨⟨k, r₁, e, hbrackets, he, hplain⟩, hfits⟩
      rw [← hplain] at hfits
      obtain ⟨extra, rfl⟩ := Word.exists_toNat_eq (Nat.lt_of_succ_lt hfits)
      refine ⟨extra, r₁, e, hbrackets, hfits, he, FlatRef.plain_type_inj.1 ?_⟩
      rw [FlatRef.plain_array, hplain]
  · rw [refType, if_neg hhead, Reader.refType, if_neg hhead, map_eq_ok_iff, Read.map_eq_ok_iff]
    simp only [ofRead_eq_ok_iff]
    constructor
    · rintro ⟨name, hname, rfl⟩
      exact ⟨⟨name, hname, rfl⟩, Word.size_pos⟩
    · rintro ⟨⟨name, hname, hplain⟩, -⟩
      refine ⟨name, hname, FlatRef.plain_type_inj.1 ?_⟩
      rw [← hplain]
      rfl

theorem fieldType_eq_ok_iff {t : FlatType} : fieldType r = .ok t r' ↔
    Reader.fieldType r = (.ok t.plain, r') ∧ t.plain.dimensions < UInt64.size := by
  rw [Reader.fieldType_undoes t.plain r r']
  unfold fieldType
  split
  · next hhead =>
    rw [map_eq_ok_iff]
    cases t with
    | ref u =>
      simp only [FlatType.ref.injEq, exists_eq_right, refType_eq_ok_iff]
      exact and_congr_left fun _ => Reader.refType_undoes u.plain r r'
    | base b =>
      refine iff_of_false (fun h => ?_) fun h => ?_
      · obtain ⟨u, -, hu⟩ := h
        cases hu
      · have hletter : r.rest.head? = some b.letter := Reader.Passes.head? h.1
        rw [hletter] at hhead
        cases b <;> simp [BaseType.letter] at hhead
  · next hhead =>
    rw [map_eq_ok_iff]
    simp only [ofRead_eq_ok_iff]
    cases t with
    | ref u =>
      refine iff_of_false (fun h => ?_) fun h => hhead ?_
      · obtain ⟨b, -, hb⟩ := h
        cases hb
      · obtain ⟨c, cs, hrender, hc⟩ := u.plain.exists_render
        have hpasses : r.Passes (c :: cs) r' := hrender ▸ h.1
        rw [hpasses.head?]
        exact hc.imp (congrArg some) (congrArg some)
    | base b =>
      simp only [FlatType.base.injEq, exists_eq_right, Reader.baseType_undoes b r r']
      exact (and_iff_left Word.size_pos).symm

/-- Reading whole texts agrees where reading at a place does. -/
theorem whole_eq_ok_iff {p : WordRead α} {q : Read β} {plain : α → β} {fits : α → Prop}
    (h : ∀ a r r', p r = .ok a r' ↔ q r = (.ok (plain a), r') ∧ fits a) (s : String) (a : α) :
    p.whole s = .ok a ↔ q.whole s = .ok (plain a) ∧ fits a := by
  rw [whole, Read.whole]
  constructor
  · intro hp
    split at hp
    · cases hp
    · next b r hb =>
      obtain ⟨hq, hfits⟩ := (h b _ r).1 hb
      split at hp
      · next hend =>
        cases hp
        rw [hq]
        exact ⟨if_pos hend, hfits⟩
      · cases hp
  · rintro ⟨hq, hfits⟩
    split at hq
    · cases hq
    · next b r hb =>
      split at hq
      · next hend =>
        cases hq
        rw [(h a _ r).2 ⟨hb, hfits⟩]
        exact if_pos hend
      · cases hq

end WordRead

theorem FlatRef.parse_eq_ok_iff {s : String} {u : FlatRef} :
    parse s = .ok u ↔ u.render? = some s.toList := by
  rw [parse, WordRead.whole_eq_ok_iff fun _ _ _ => WordRead.refType_eq_ok_iff,
    Reader.refType_undoes.whole_eq_ok_iff, render?_eq_some_iff, ← String.toList_inj,
    String.toList_ofList]

theorem FlatType.parse_eq_ok_iff {s : String} {t : FlatType} :
    parse s = .ok t ↔ t.render? = some s.toList := by
  rw [parse, WordRead.whole_eq_ok_iff fun _ _ _ => WordRead.fieldType_eq_ok_iff,
    Reader.fieldType_undoes.whole_eq_ok_iff, render?_eq_some_iff, ← String.toList_inj,
    String.toList_ofList]

/-! ### Nesting arrays -/

namespace FieldType

theorem arrays_eq (t : FieldType) (n : Nat) : t.arrays n = ⟨t.element, n + t.dimensions⟩ := by
  induction n with
  | zero => rw [Nat.zero_add]; rfl
  | succ n ih =>
    show (t.arrays n).array = _
    rw [ih, Nat.add_right_comm]
    rfl

theorem render_arrays (t : FieldType) (n : Nat) :
    (t.arrays n).render = List.replicate n '[' ++ t.render := by
  rw [arrays_eq, render, render, ← List.append_assoc, List.replicate_append_replicate]

theorem slots_of_pos {t : FieldType} (h : 0 < t.dimensions) : t.slots = 1 := by
  obtain ⟨e, _ | n⟩ := t
  · cases h
  · cases e <;> rfl

end FieldType

namespace FlatType

theorem slots_eq (t : FlatType) : t.slots = t.plain.slots := by
  obtain ⟨e, rfl⟩ | ⟨extra, e, rfl⟩ := t.eq_single_or_array
  · cases e <;> rfl
  · rw [plain_array, FieldType.slots_of_pos (Nat.succ_pos _)]
    rfl

/-- Nesting a type `n` times leads to a reference type whenever a word holds all dimensions. -/
theorem exists_arrays? {t : FlatType} {n : Nat} (hn : 1 ≤ n)
    (hfits : n + t.plain.dimensions < UInt64.size) :
    ∃ u : FlatRef, t.arrays? n = some (ref u) ∧ u.plain.type = t.plain.arrays n := by
  have hdim : (t.plain.arrays n).dimensions = n + t.plain.dimensions :=
    congrArg FieldType.dimensions (FieldType.arrays_eq _ n)
  obtain ⟨v, hv⟩ := exists_plain (t := t.plain.arrays n) (by omega)
  cases v with
  | ref u => exact ⟨u, arrays?_eq_some_iff.2 hv, hv⟩
  | base b =>
    have hzero := congrArg FieldType.dimensions hv
    rw [hdim] at hzero
    change 0 = n + t.plain.dimensions at hzero
    omega

/-- A reference type that prints with a bracket is the array of the type that the rest denotes. -/
theorem exists_array?_of_render? {u : FlatRef} {cs : List Char} (h : u.render? = some ('[' :: cs)) :
    ∃ t, parse (String.ofList cs) = .ok t ∧ FlatRef.array? t = some u := by
  obtain ⟨hrender, hfits⟩ := FlatRef.render?_eq_some_iff.1 h
  obtain ⟨name, rfl⟩ | ⟨extra, e, rfl⟩ := u.eq_object_or_array
  · cases hrender
  · rw [RefType.render, FlatRef.plain_type_array] at hrender
    rw [RefType.dimensions, FlatRef.plain_type_array] at hfits
    obtain ⟨t, ht⟩ := exists_plain (t := ⟨e, extra.toNat⟩) (Nat.le_of_succ_le (Nat.le_of_lt hfits))
    refine ⟨t, parse_eq_ok_iff.2 (render?_eq_some_iff.2 ⟨?_, ?_⟩), FlatRef.array?_eq_some_iff.2 ?_⟩
    · rw [String.toList_ofList, ht]
      exact (List.cons.inj hrender).2
    · rw [ht]
      exact Nat.lt_of_succ_lt hfits
    · rw [FlatRef.plain_type_array, ht]
      rfl

/-- What comes of nesting a type `n` times, if it has `d` dimensions itself. -/
structure Nests (t : FlatType) (n : Nat) (d : UInt64) (u : FlatRef) : Prop where
  arrays : t.arrays? n = some (ref u)
  /-- It prints with `n` brackets in front, and both readers take this text back. -/
  text : ∃ cs, t.render? = some cs ∧ u.render? = some (List.replicate n '[' ++ cs) ∧
    parse (String.ofList (List.replicate n '[' ++ cs)) = .ok (ref u) ∧
    FlatRef.parse (String.ofList (List.replicate n '[' ++ cs)) = .ok u
  dimensions : ∃ total, u.dimensions? = some total ∧ total.toNat = n + d.toNat
  slots : (ref u).slots = 1
  className : (ref u).className? = t.className?
  /-- It stands for the type that is nested without words. -/
  plain : u.plain.type = t.plain.arrays n

/-- Nesting a type gives a reference type with all that is due, as long as a word holds all of its
dimensions. Conversely, a reference type that prints with a bracket in front is the array of the type that
is read from the rest. -/
theorem arrays?_prints_brackets :
    (∀ (t : FlatType) (n : Nat) (d : UInt64), t.dimensions? = some d → 1 ≤ n →
      n + d.toNat < UInt64.size → ∃ u, t.Nests n d u) ∧
    ∀ (u : FlatRef) (cs : List Char), u.render? = some ('[' :: cs) →
      ∃ t, parse (String.ofList cs) = .ok t ∧ FlatRef.array? t = some u ∧ t.array? = some (ref u) := by
  refine ⟨fun t n d hd hn hfits => ?_, fun u cs h => ?_⟩
  · rw [dimensions?_eq_some_iff.1 hd] at hfits
    obtain ⟨u, harrays, hplain⟩ := exists_arrays? hn hfits
    have hdim : u.plain.dimensions = n + t.plain.dimensions := by
      rw [RefType.dimensions, hplain, FieldType.arrays_eq]
    have hrender : t.render? = some t.plain.render :=
      render?_eq_some_iff.2 ⟨rfl, Nat.lt_of_le_of_lt (Nat.le_add_left _ n) hfits⟩
    have hrender' : u.render? = some (List.replicate n '[' ++ t.plain.render) := by
      rw [FlatRef.render?_eq_some_iff, hdim, RefType.render, hplain, FieldType.render_arrays]
      exact ⟨rfl, hfits⟩
    have htext : u.render? =
        some (String.ofList (List.replicate n '[' ++ t.plain.render)).toList := by
      rw [hrender', String.toList_ofList]
    obtain ⟨total, htotal⟩ := Word.exists_toNat_eq hfits
    refine ⟨u, harrays, ⟨_, hrender, hrender', parse_eq_ok_iff.2 htext,
      FlatRef.parse_eq_ok_iff.2 htext⟩, ⟨total, ?_, ?_⟩, ?_, ?_, hplain⟩
    · rw [FlatRef.dimensions?_eq_some_iff, htotal, hdim]
    · rw [htotal, dimensions?_eq_some_iff.1 hd]
    · rw [slots_eq]
      exact FieldType.slots_of_pos (by change 0 < u.plain.dimensions; omega)
    · rw [className?_eq, className?_eq, FlatType.plain, hplain, FieldType.arrays_eq]
      rfl
  · obtain ⟨t, hparse, harray⟩ := exists_array?_of_render? h
    exact ⟨t, hparse, harray, by rw [array?, harray]; rfl⟩

theorem arrays?_prints_brackets_wrens :
    let wren : ClassName := ⟨"birds/Wren", by decide +kernel⟩
    let t : FlatType := ref (.objectArray ⟨1, wren⟩)
    let u : FlatRef := .objectArray ⟨4, wren⟩
    (t.dimensions? = some 2 ∧ u.render? = some ('[' :: "[[[[Lbirds/Wren;".toList)) ∧
      (∃ u, t.Nests 3 2 u) ∧
      ∃ t, parse (String.ofList "[[[[Lbirds/Wren;".toList) = .ok t ∧ FlatRef.array? t = some u ∧
        t.array? = some (ref u) :=
  ⟨⟨by decide, by decide +kernel⟩,
    arrays?_prints_brackets.1 _ 3 2 (by decide) (by decide) (by decide),
    arrays?_prints_brackets.2 _ _ (by decide +kernel)⟩

end FlatType
end ClosedWorld
