import Presign.Der.Value
import Presign.Proofs.Der.Element

/-!
# Values that are written and read

The elements of a sequence are read back as they are, and those of a set in
ascending order.  An object identifier is read back if its content tells it.  An
integer is read back as a content with a clear sign bit and the same number.
-/

namespace Presign.Der

theorem length_le_flatten {es : List Octets} {e : Octets} (he : e ∈ es) :
    e.length ≤ es.flatten.length := (List.sublist_flatten_of_mem he).length_le

theorem readElements_eq_ok_iff {tag : UInt8} {name : String} {bs : Octets} {es : List Octets} :
    readElements tag name bs = .ok es
      ↔ ∃ inner, content tag name bs = .ok inner ∧ elements? inner = some es := by
  rw [readElements, Except.bind_eq_ok]
  refine exists_congr fun inner => and_congr_right fun _ => ?_
  cases elements? inner with
  | none => simp
  | some es' => simp

/-- Elements are read if they are all that follows the tag and its length, and are cut
at their ends. -/
theorem readElements_eq_ok_iff_isLength {tag : UInt8} {name : String} {bs : Octets}
    {es : List Octets} :
    readElements tag name bs = .ok es
      ↔ tag % 32 ≠ 31 ∧ ∃ front, IsLength front es.flatten.length ∧
        bs = tag :: (front ++ es.flatten) ∧ elements? es.flatten = some es := by
  rw [readElements_eq_ok_iff]
  constructor
  · rintro ⟨inner, hcontent, hes⟩
    obtain rfl := flatten_of_elements? hes
    obtain ⟨htag, front, hfront, hbs⟩ := content_eq_ok_iff.mp hcontent
    exact ⟨htag, front, hfront, hbs, hes⟩
  · rintro ⟨htag, front, hfront, hbs, hes⟩
    exact ⟨_, content_eq_ok_iff.mpr ⟨htag, front, hfront, hbs⟩, hes⟩

/-- The elements inside of an element are read back. -/
theorem readElements_element {tag : UInt8} {es : List Octets} (htag : tag % 32 ≠ 31)
    (h : ∀ e ∈ es, IsElement e) (hsize : es.flatten.length < 2 ^ 32) (name : String) :
    readElements tag name (element tag es.flatten) = .ok es :=
  readElements_eq_ok_iff.mpr ⟨_, content_element htag hsize name, elements?_flatten h⟩

/-- The elements inside of an element are read if they have less than `2 ^ 32` octets together,
and otherwise nothing is read. -/
theorem readElements_element_iff {tag : UInt8} {es fs : List Octets} {name : String}
    (htag : tag % 32 ≠ 31) (h : ∀ e ∈ es, IsWhole e) :
    readElements tag name (element tag es.flatten) = .ok fs
      ↔ es.flatten.length < 2 ^ 32 ∧ fs = es := by
  have hread (hsize : es.flatten.length < 2 ^ 32) :
      readElements tag name (element tag es.flatten) = .ok es :=
    readElements_element htag
      (fun e he => (h e he).isElement (Nat.lt_of_le_of_lt (length_le_flatten he) hsize)) hsize name
  constructor
  · intro hfs
    obtain ⟨inner, hcontent, -⟩ := readElements_eq_ok_iff.mp hfs
    have hsize := ((content_element_iff htag).mp hcontent).1
    rw [hread hsize, Except.ok.injEq] at hfs
    exact ⟨hsize, hfs.symm⟩
  · rintro ⟨hsize, rfl⟩
    exact hread hsize

theorem readSequence_sequence {es : List Octets} (h : ∀ e ∈ es, IsElement e)
    (hsize : (sequence es).length < 2 ^ 32) (name : String) :
    readSequence name (sequence es) = .ok es :=
  readElements_element (by decide) h (Nat.lt_trans (length_lt_element _ _) hsize) name

theorem readSet_setOf {es : List Octets} (h : ∀ e ∈ es, IsElement e)
    (hsize : (setOf es).length < 2 ^ 32) (name : String) :
    readSet name (setOf es) = .ok (es.mergeSort Octets.le) :=
  readElements_element (by decide) (fun e he => h e (List.mem_mergeSort.mp he))
    (Nat.lt_trans (length_lt_element _ _) hsize) name

theorem isElement_sequence {es : List Octets} (hsize : (sequence es).length < 2 ^ 32) :
    IsElement (sequence es) :=
  isElement_element (by decide) (Nat.lt_trans (length_lt_element _ _) hsize)

theorem isElement_setOf {es : List Octets} (hsize : (setOf es).length < 2 ^ 32) :
    IsElement (setOf es) :=
  isElement_element (by decide) (Nat.lt_trans (length_lt_element _ _) hsize)

/-- What is inside of a sequence is shorter than the sequence. -/
theorem length_lt_sequence {es : List Octets} {e : Octets} (he : e ∈ es) :
    e.length < (sequence es).length :=
  Nat.lt_of_le_of_lt (length_le_flatten he) (length_lt_element _ _)

theorem length_lt_setOf {es : List Octets} {e : Octets} (he : e ∈ es) :
    e.length < (setOf es).length :=
  Nat.lt_of_le_of_lt (length_le_flatten (List.mem_mergeSort.mpr he)) (length_lt_element _ _)

/-- The order of its elements does not matter for the size of a set. -/
theorem length_setOf (es : List Octets) :
    (setOf es).length = (element Tag.set es.flatten).length := by
  have hperm := (List.mergeSort_perm es Octets.le).flatten.length_eq
  rw [setOf, length_element, length_element, hperm]

theorem length_retag (tag : UInt8) (bs : Octets) : (retag tag bs).length = bs.length := by
  cases bs <;> rfl

theorem isElement_null : IsElement null := ⟨Tag.null, [], by decide, by decide, rfl⟩

theorem isElement_oid {o : Oid} (hsize : (oid o).length < 2 ^ 32) : IsElement (oid o) :=
  isElement_element (by decide) (Nat.lt_trans (length_lt_element _ _) hsize)

theorem readOid_eq_ok_iff {name : String} {bs : Octets} {o : Oid} :
    readOid name bs = .ok o
      ↔ ∃ inner, content Tag.oid name bs = .ok inner ∧ Oid.ofContent? inner = some o := by
  rw [readOid, Except.bind_eq_ok]
  refine exists_congr fun inner => and_congr_right fun _ => ?_
  cases Oid.ofContent? inner with
  | none => simp
  | some o' => simp

theorem readOid_oid_iff {o o' : Oid} (hsize : (oid o).length < 2 ^ 32) (name : String) :
    readOid name (oid o) = .ok o' ↔ Oid.ofContent? o.content = some o' := by
  have hcontent := Nat.lt_trans (length_lt_element Tag.oid o.content) hsize
  rw [readOid_eq_ok_iff, oid, content_element (by decide) hcontent name]
  simp only [Except.ok.injEq, exists_eq_left']

/-- An object identifier that is cut and read has the shortest length. -/
theorem exists_element_of_readOid {bs e : Octets} {es : List Octets} {name : String} {o : Oid}
    (h : elements? bs = some es) (he : e ∈ es) (hread : readOid name e = .ok o) :
    ∃ inner, inner.length < 2 ^ 32 ∧ e = element Tag.oid inner ∧ Oid.ofContent? inner = some o := by
  obtain ⟨inner, hcontent, ho⟩ := readOid_eq_ok_iff.mp hread
  obtain ⟨-, front, hfront, -⟩ := content_eq_ok_iff.mp hcontent
  exact ⟨inner, hfront.lt, eq_element_of_mem_elements? h he hcontent, ho⟩

/-! ## Integers -/

theorem isElement_unsigned {magnitude : Octets} (hsize : (unsigned magnitude).length < 2 ^ 32) :
    IsElement (unsigned magnitude) :=
  isElement_element (by decide) (Nat.lt_trans (length_lt_element _ _) hsize)

theorem unsignedContent_ne_nil (magnitude : Octets) : unsignedContent magnitude ≠ [] := by
  cases h : magnitude.significant with
  | nil => simp [unsignedContent, h]
  | cons b bs =>
      simp only [unsignedContent, h]
      split <;> simp

theorem length_unsignedContent_le (magnitude : Octets) :
    (unsignedContent magnitude).length ≤ magnitude.length + 1 := by
  have hle : magnitude.significant.length ≤ magnitude.length :=
    (List.dropWhile_sublist _).length_le
  cases h : magnitude.significant with
  | nil => simp [unsignedContent, h]
  | cons b bs =>
      rw [h, List.length_cons] at hle
      simp only [unsignedContent, h]
      split <;> simp only [List.length_cons] <;> omega

/-- The sign bit is clear. -/
theorem headD_unsignedContent_lt (magnitude : Octets) :
    (unsignedContent magnitude).headD 0 < 128 := by
  cases h : magnitude.significant with
  | nil => simp [unsignedContent, h]
  | cons b bs =>
      simp only [unsignedContent, h]
      split
      next => simp
      next hb => simpa using hb

theorem toNat_unsignedContent (magnitude : Octets) :
    (unsignedContent magnitude).toNat = magnitude.toNat := by
  rw [← Octets.toNat_significant magnitude]
  cases h : magnitude.significant with
  | nil => simp [unsignedContent, h, Octets.toNat]
  | cons b bs =>
      simp only [unsignedContent, h]
      split
      next => exact Octets.toNat_zero_cons _
      next => rfl

theorem readInteger_eq_ok_iff {name : String} {bs inner : Octets} :
    readInteger name bs = .ok inner ↔ content Tag.integer name bs = .ok inner ∧ inner ≠ [] := by
  rw [readInteger, Except.bind_eq_ok]
  constructor
  · rintro ⟨inner', hcontent, h⟩
    split at h
    next => cases h
    next hne =>
      cases h
      exact ⟨hcontent, by simpa using hne⟩
  · rintro ⟨hcontent, hne⟩
    exact ⟨inner, hcontent, if_neg (by simpa using hne)⟩

theorem readInteger_unsigned {magnitude : Octets} (hsize : (unsigned magnitude).length < 2 ^ 32)
    (name : String) : readInteger name (unsigned magnitude) = .ok (unsignedContent magnitude) :=
  readInteger_eq_ok_iff.mpr ⟨content_element (by decide)
    (Nat.lt_trans (length_lt_element _ _) hsize) name, unsignedContent_ne_nil magnitude⟩

/-- A content with a clear sign bit is the shortest one for its number, behind
zeros. -/
theorem clear_sign_iff {inner : Octets} {n : Nat} :
    inner ≠ [] ∧ inner.headD 0 < 128 ∧ inner.toNat = n
      ↔ ∃ zeros, inner = List.replicate zeros 0 ++ unsignedContent (Octets.ofNat n) := by
  constructor
  · rintro ⟨hne, hsign, rfl⟩
    obtain ⟨zeros, hzeros⟩ := Octets.exists_eq_zeros_append inner
    have hshortest : (Octets.ofNat inner.toNat).significant = inner.significant := by
      rw [Octets.significant_eq_ofNat, Octets.toNat_ofNat, Octets.significant_eq_ofNat]
    cases hsignificant : inner.significant with
    | nil =>
        rw [hsignificant, List.append_nil] at hzeros
        cases zeros with
        | zero => exact absurd hzeros hne
        | succ zeros =>
            refine ⟨zeros, ?_⟩
            rw [unsignedContent, hshortest, hsignificant, hzeros, List.replicate_succ']
    | cons b bs =>
        rw [hsignificant] at hzeros
        by_cases hb : b ≥ 128
        · cases zeros with
          | zero =>
              rw [hzeros] at hsign
              exact absurd hsign (UInt8.not_lt.mpr hb)
          | succ zeros =>
              refine ⟨zeros, ?_⟩
              rw [unsignedContent, hshortest, hsignificant]
              dsimp only
              rw [if_pos hb, hzeros, List.replicate_succ', List.append_assoc]
              rfl
        · refine ⟨zeros, ?_⟩
          rw [unsignedContent, hshortest, hsignificant]
          dsimp only
          rw [if_neg hb]
          exact hzeros
  · rintro ⟨zeros, rfl⟩
    refine ⟨?_, ?_, ?_⟩
    · exact List.append_ne_nil_of_right_ne_nil _ (unsignedContent_ne_nil _)
    · cases zeros with
      | zero => exact headD_unsignedContent_lt _
      | succ zeros => exact (by decide : (0 : UInt8) < 128)
    · rw [Octets.toNat_zeros_append, toNat_unsignedContent, Octets.toNat_ofNat]

end Presign.Der
