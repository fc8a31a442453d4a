import Presign.Der.Element
import Presign.Proofs.Except
import Presign.Proofs.Octets

/-!
# Elements that are written and read

An element with the shortest length is read back by both readers, if its content
has less than `2 ^ 32` octets and its tag fits one octet (`IsElement`).

The other direction is about the two readers together.  `elements?` cuts as many
octets as the shortest length would need, so an element that it cuts, and that
`content` reads to its end, has the shortest length
(`eq_element_of_mem_elements?`).
-/

namespace Presign.Der

open Octets

/-! ## Lengths -/

/-- Octets in which a length is written: one octet, or up to four digits behind an
octet that counts them. -/
inductive IsLength : Octets → Nat → Prop
  | short {b : UInt8} (h : b < 128) : IsLength [b] b.toNat
  | long {b : UInt8} {digits : Octets} (hdigits : digits ≠ []) (hmost : digits.length ≤ 4)
      (hcount : b.toNat = 128 + digits.length) : IsLength (b :: digits) digits.toNat

/-- The shortest form is a form. -/
theorem isLength_lengthOctets {n : Nat} (h : n < 2 ^ 32) : IsLength (lengthOctets n) n := by
  unfold lengthOctets
  split
  next hn =>
    have hfirst : (UInt8.ofNat n).toNat = n := by
      rw [UInt8.toNat_ofNat']
      omega
    have hshort := IsLength.short (UInt8.lt_iff_toNat_lt.mpr (hfirst.symm ▸ hn))
    rwa [hfirst] at hshort
  next hn =>
    have hsize : natSize n ≤ 4 := natSize_le h
    have hpos : natSize n ≠ 0 := by
      rw [natSize_of_ne (by omega)]
      omega
    have hfirst : (UInt8.ofNat (128 + natSize n)).toNat = 128 + natSize n := by
      rw [UInt8.toNat_ofNat']
      omega
    have hlong := IsLength.long (List.ne_nil_of_length_pos (Nat.pos_of_ne_zero hpos)) hsize hfirst
    rwa [toNat_ofNat] at hlong

/-- An octet that counts the digits behind it is not a length itself. -/
theorem not_lt_of_counts {b : UInt8} {count : Nat} (h : b.toNat = 128 + count) : ¬ b < 128 := by
  rw [UInt8.lt_iff_toNat_lt, h]
  exact Nat.not_lt.mpr (Nat.le_add_right 128 count)

namespace IsLength

variable {front : Octets} {n : Nat}

theorem lt (h : IsLength front n) : n < 2 ^ 32 := by
  cases h with
  | short hb => exact Nat.lt_trans (UInt8.lt_iff_toNat_lt.mp hb) (by decide)
  | @long _ digits _ hmost _ =>
      calc digits.toNat < 256 ^ digits.length := toNat_lt digits
        _ ≤ 256 ^ 4 := Nat.pow_le_pow_right (by decide) hmost

theorem readLength (h : IsLength front n) (rest : Octets) :
    readLength (front ++ rest) = .ok (n, rest) := by
  cases h with
  | short hb => rw [List.singleton_append, Der.readLength, if_pos hb]
  | @long b digits hdigits hmost hcount =>
      have hlt := not_lt_of_counts hcount
      have hpos := List.length_pos_iff.mpr hdigits
      rw [List.cons_append, Der.readLength, if_neg hlt, hcount, Nat.add_sub_cancel_left]
      dsimp only
      rw [List.length_append, if_neg (by omega), List.take_left' rfl, List.drop_left' rfl]

theorem peekLength? (h : IsLength front n) (rest : Octets) :
    peekLength? (front ++ rest) = some n := by
  cases h with
  | short hb => rw [List.singleton_append, Der.peekLength?, if_pos hb]
  | @long b digits hdigits hmost hcount =>
      have hlt := not_lt_of_counts hcount
      have hfill : digits.length - (digits.length + rest.length) = 0 := by omega
      rw [List.cons_append, Der.peekLength?, if_neg hlt, hcount, Nat.add_sub_cancel_left]
      dsimp only
      rw [if_pos (by omega), List.take_left' rfl, List.length_append, hfill, List.replicate_zero,
        List.append_nil]

/-- A form with as many octets as the shortest form is the shortest form. -/
theorem eq_lengthOctets (h : IsLength front n) (hsize : front.length = (lengthOctets n).length) :
    front = lengthOctets n := by
  cases h with
  | @short b hb =>
      have hlt : b.toNat < 128 := hb
      rw [lengthOctets, if_pos hlt, UInt8.ofNat_toNat]
  | @long b digits hdigits _ hcount =>
      have hpos := List.length_pos_iff.mpr hdigits
      rw [List.length_cons, lengthOctets] at hsize
      rw [lengthOctets]
      split at hsize
      next =>
        rw [List.length_singleton] at hsize
        omega
      next hlong =>
        rw [List.length_cons, Nat.add_right_cancel_iff] at hsize
        have hdigits : natSize digits.toNat = digits.length := hsize.symm
        rw [if_neg hlong, hdigits, ← hcount, UInt8.ofNat_toNat, ofNat_toNat hdigits]

end IsLength

/-- A length that is read is in front, in one of its forms. -/
theorem exists_isLength_of_readLength {bs rest : Octets} {n : Nat}
    (h : readLength bs = .ok (n, rest)) : ∃ front, IsLength front n ∧ bs = front ++ rest := by
  cases bs with
  | nil => cases h
  | cons b bs =>
      have hb := b.toNat_lt
      rw [readLength] at h
      split at h
      next hlt =>
        cases h
        exact ⟨[b], .short hlt, rfl⟩
      next hlt =>
        have hlong : ¬ b.toNat < 128 := hlt
        dsimp only at h
        split at h
        next => cases h
        next hsize =>
          rw [Except.ok.injEq, Prod.mk.injEq] at h
          obtain ⟨rfl, rfl⟩ := h
          have htake : (bs.take (b.toNat - 128)).length = b.toNat - 128 :=
            List.length_take_of_le (by omega)
          refine ⟨b :: bs.take (b.toNat - 128), .long ?_ (by omega) (by omega), ?_⟩
          · exact List.ne_nil_of_length_pos (by omega)
          · rw [List.cons_append, List.take_append_drop]

theorem length_lengthOctets_le {n : Nat} (h : n < 2 ^ 32) : (lengthOctets n).length ≤ 5 := by
  unfold lengthOctets
  split
  · rw [List.length_singleton]
    decide
  · have hsize : natSize n ≤ 4 := natSize_le h
    exact Nat.succ_le_succ hsize

/-- No form of a length is shorter than the shortest one. -/
theorem IsLength.length_lengthOctets_le {front : Octets} {n : Nat} (h : IsLength front n) :
    (lengthOctets n).length ≤ front.length := by
  cases h with
  | @short b hb =>
      have hlt : b.toNat < 128 := hb
      rw [lengthOctets, if_pos hlt, List.length_singleton]
      exact Nat.le_refl 1
  | @long _ digits _ _ _ =>
      have hsize : natSize digits.toNat ≤ digits.length := natSize_le (toNat_lt digits)
      unfold lengthOctets
      split
      · exact Nat.succ_le_succ (Nat.zero_le _)
      · exact Nat.succ_le_succ hsize

theorem length_lengthOctets_mono {m n : Nat} (h : m ≤ n) :
    (lengthOctets m).length ≤ (lengthOctets n).length := by
  unfold lengthOctets
  split
  next =>
    split
    · exact Nat.le_refl 1
    · exact Nat.succ_le_succ (Nat.zero_le _)
  next hm =>
    rw [if_neg (by omega)]
    exact Nat.succ_le_succ (natSize_mono h)

theorem peekSize?_of_peekLength? {bs : Octets} {n : Nat} (h : peekLength? bs = some n)
    (hn : n < 2 ^ 32) : peekSize? bs = some (1 + (lengthOctets n).length + n) := by
  have hlength := length_lengthOctets_le hn
  rw [peekSize?, h, Option.map_some, Nat.mod_eq_of_lt (by rw [UInt64.size]; omega)]

/-! ## Single elements -/

theorem length_element (tag : UInt8) (bs : Octets) :
    (element tag bs).length = 1 + (lengthOctets bs.length).length + bs.length := by
  rw [element, List.length_append, List.length_cons, Nat.add_comm 1]

theorem length_lt_element (tag : UInt8) (bs : Octets) : bs.length < (element tag bs).length := by
  rw [length_element]
  omega

/-- An element that is split off consists of its tag, its length, its content and
what follows. -/
theorem splitFault_eq_ok_iff {bs : Octets} {s : Split} :
    splitFault bs = .ok s
      ↔ s.tag % 32 ≠ 31 ∧ ∃ front, IsLength front s.content.length ∧
        bs = s.tag :: (front ++ (s.content ++ s.rest)) := by
  constructor
  · intro h
    cases bs with
    | nil => cases h
    | cons tag more =>
        rw [splitFault] at h
        split at h
        next => cases h
        next htag =>
          obtain ⟨⟨n, rest⟩, hlength, h⟩ := Except.bind_eq_ok.mp h
          dsimp only at h
          split at h
          next => cases h
          next hcount =>
            cases h
            obtain ⟨front, hfront, rfl⟩ := exists_isLength_of_readLength hlength
            refine ⟨htag, front, ?_, ?_⟩
            · rwa [List.length_take_of_le (Nat.not_lt.mp hcount)]
            · rw [List.take_append_drop]
  · rintro ⟨htag, front, hfront, rfl⟩
    rw [splitFault, if_neg htag, hfront.readLength, Except.bind_eq_ok]
    refine ⟨_, rfl, ?_⟩
    dsimp only
    rw [if_neg (by rw [List.length_append]; omega), List.take_left' rfl, List.drop_left' rfl]

/-- An element in front of other octets is split off. -/
theorem splitFault_element {tag : UInt8} {bs : Octets} (htag : tag % 32 ≠ 31)
    (hsize : bs.length < 2 ^ 32) (rest : Octets) :
    splitFault (element tag bs ++ rest) = .ok ⟨tag, bs, rest⟩ :=
  splitFault_eq_ok_iff.mpr ⟨htag, _, isLength_lengthOctets hsize, by simp [element]⟩

/-- A content is read if nothing is left behind its element. -/
theorem content_eq_ok_iff_splitFault {tag : UInt8} {name : String} {bs inner : Octets} :
    content tag name bs = .ok inner ↔ splitFault bs = .ok ⟨tag, inner, []⟩ := by
  unfold content split
  rw [Except.bind_eq_ok]
  constructor
  · rintro ⟨⟨tag', inner', rest⟩, hsplit, h⟩
    rw [Except.mapError_eq_ok] at hsplit
    dsimp only at h
    split at h
    next => cases h
    next htag =>
      split at h
      next => cases h
      next hrest =>
        cases h
        rw [hsplit, not_not.mp htag, not_not.mp hrest]
  · intro h
    exact ⟨_, Except.mapError_eq_ok.mpr h, by simp⟩

/-- A content is read if it is all that follows the tag and its length. -/
theorem content_eq_ok_iff {tag : UInt8} {name : String} {bs inner : Octets} :
    content tag name bs = .ok inner
      ↔ tag % 32 ≠ 31 ∧ ∃ front, IsLength front inner.length ∧ bs = tag :: (front ++ inner) := by
  rw [content_eq_ok_iff_splitFault, splitFault_eq_ok_iff]
  simp only [List.append_nil]

theorem content_element {tag : UInt8} {bs : Octets} (htag : tag % 32 ≠ 31)
    (hsize : bs.length < 2 ^ 32) (name : String) : content tag name (element tag bs) = .ok bs :=
  content_eq_ok_iff.mpr ⟨htag, _, isLength_lengthOctets hsize, rfl⟩

/-- A length of `2 ^ 32` or more takes more octets than one that is read. -/
theorem lt_length_lengthOctets {n : Nat} (h : 2 ^ 32 ≤ n) : 5 < (lengthOctets n).length := by
  have hsize : ¬ natSize n ≤ 4 := by
    rw [natSize_le_iff]
    exact Nat.not_lt.mpr h
  rw [lengthOctets, if_neg (by omega), List.length_cons, ← natSize]
  omega

theorem IsLength.length_le {front : Octets} {n : Nat} (h : IsLength front n) :
    front.length ≤ 5 := by
  cases h with
  | short => exact Nat.le_add_left 1 4
  | long _ hmost _ => exact Nat.succ_le_succ hmost

/-- The content of an element is read back if it has less than `2 ^ 32` octets, and
otherwise nothing is read. -/
theorem content_element_iff {tag : UInt8} {bs inner : Octets} {name : String}
    (htag : tag % 32 ≠ 31) :
    content tag name (element tag bs) = .ok inner ↔ bs.length < 2 ^ 32 ∧ bs = inner := by
  constructor
  · intro h
    have hsize : bs.length < 2 ^ 32 := by
      obtain ⟨-, front, hfront, heq⟩ := content_eq_ok_iff.mp h
      have hlength := congrArg List.length heq
      rw [length_element, List.length_cons, List.length_append] at hlength
      have hle := hfront.length_le
      have hlt := hfront.lt
      by_contra hlarge
      have hmany := lt_length_lengthOctets (Nat.not_lt.mp hlarge)
      omega
    rw [content_element htag hsize, Except.ok.injEq] at h
    exact ⟨hsize, h⟩
  · rintro ⟨hsize, rfl⟩
    exact content_element htag hsize name

/-- Where an element ends is told by its front. -/
theorem element_append_inj {tag : UInt8} {bs bs' rest rest' : Octets} (htag : tag % 32 ≠ 31)
    (hsize : bs.length < 2 ^ 32) (hsize' : bs'.length < 2 ^ 32)
    (h : element tag bs ++ rest = element tag bs' ++ rest') : bs = bs' ∧ rest = rest' := by
  have heq := splitFault_element htag hsize rest
  rw [h, splitFault_element htag hsize' rest'] at heq
  cases heq
  exact ⟨rfl, rfl⟩

/-! ## Sequences of elements -/

/-- Octets that are one element, with a tag and a size that can be read. -/
def IsElement (bs : Octets) : Prop :=
  ∃ tag content, tag % 32 ≠ 31 ∧ content.length < 2 ^ 32 ∧ bs = element tag content

/-- Octets that are one element, with a tag that can be read, and of any size. -/
def IsWhole (bs : Octets) : Prop := ∃ tag content, tag % 32 ≠ 31 ∧ bs = element tag content

theorem IsElement.isWhole {e : Octets} (h : IsElement e) : IsWhole e := by
  obtain ⟨tag, content, htag, -, he⟩ := h
  exact ⟨tag, content, htag, he⟩

/-- An element is larger than its content, so its size can be read if it is small enough. -/
theorem IsWhole.isElement {e : Octets} (h : IsWhole e) (hsize : e.length < 2 ^ 32) :
    IsElement e := by
  obtain ⟨tag, content, htag, rfl⟩ := h
  exact ⟨tag, content, htag, Nat.lt_trans (length_lt_element tag content) hsize, rfl⟩

theorem isElement_element {tag : UInt8} {bs : Octets} (htag : tag % 32 ≠ 31)
    (hsize : bs.length < 2 ^ 32) : IsElement (element tag bs) := ⟨tag, bs, htag, hsize, rfl⟩

theorem elements?_cons (tag : UInt8) (bs : Octets) :
    elements? (tag :: bs) = (peekSize? bs).bind fun size =>
      if 0 < size ∧ size ≤ bs.length + 1 then
        (elements? (bs.drop (size - 1))).map ((tag :: bs.take (size - 1)) :: ·)
      else none := by
  rw [elements?]
  cases peekSize? bs with
  | none => rfl
  | some size =>
      rw [Option.bind_some]
      simp only [Option.bind_eq_bind, Option.bind_some]
      split
      · cases elements? (bs.drop (size - 1)) <;> rfl
      · rfl

/-- An element in front of others is cut off. -/
theorem elements?_append {e : Octets} (h : IsElement e) (rest : Octets) :
    elements? (e ++ rest) = (elements? rest).map (e :: ·) := by
  obtain ⟨tag, bs, -, hsize, rfl⟩ := h
  have hpeek : peekSize? (lengthOctets bs.length ++ bs ++ rest)
      = some (1 + (lengthOctets bs.length).length + bs.length) := by
    rw [List.append_assoc]
    exact peekSize?_of_peekLength? ((isLength_lengthOctets hsize).peekLength? _) hsize
  have hcount : 1 + (lengthOctets bs.length).length + bs.length - 1
      = (lengthOctets bs.length ++ bs).length := by
    rw [List.length_append]
    omega
  rw [element, List.cons_append, List.cons_append, elements?_cons, hpeek, Option.bind_some,
    hcount, List.take_left' rfl, List.drop_left' rfl, if_pos]
  rw [List.length_append, List.length_append]
  omega

/-- Octets that are cut as one element.  Their tag is not looked at, and their length
need not be the shortest. -/
def IsPiece (bs : Octets) : Prop := elements? bs = some [bs]

theorem IsElement.isPiece {e : Octets} (h : IsElement e) : IsPiece e := by
  have happend := elements?_append h []
  rwa [List.append_nil, elements?] at happend

theorem IsPiece.ne_nil {e : Octets} (h : IsPiece e) : e ≠ [] := by
  rintro rfl
  rw [IsPiece, elements?] at h
  cases h

/-- Elements that are written one after the other are cut apart again. -/
theorem elements?_flatten {es : List Octets} (h : ∀ e ∈ es, IsElement e) :
    elements? es.flatten = some es := by
  induction es with
  | nil => rw [List.flatten_nil, elements?]
  | cons e es ih =>
      rw [List.flatten_cons, elements?_append (h e (List.mem_cons_self ..)),
        ih fun e' he' => h e' (List.mem_cons_of_mem _ he'), Option.map_some]

/-- The pieces that are cut make up the content. -/
theorem flatten_of_elements? {bs : Octets} {es : List Octets} (h : elements? bs = some es) :
    es.flatten = bs := by
  induction bs using elements?.induct generalizing es with
  | case1 =>
      rw [elements?, Option.some.injEq] at h
      rw [← h, List.flatten_nil]
  | case2 tag bs ih =>
      rw [elements?_cons] at h
      obtain ⟨size, -, h⟩ := Option.bind_eq_some_iff.mp h
      split at h
      next =>
        obtain ⟨rest, hrest, rfl⟩ := Option.map_eq_some_iff.mp h
        rw [List.flatten_cons, ih size hrest, List.cons_append, List.take_append_drop]
      next => cases h

/-- A piece of the size that `elements?` would cut, which is one element to its end,
has the shortest length. -/
theorem eq_element_of_peekSize? {tag tag' : UInt8} {bs inner : Octets} {size : Nat} {name : String}
    (hpeek : peekSize? bs = some size) (hsize : size ≤ bs.length + 1)
    (h : content tag name (tag' :: bs.take (size - 1)) = .ok inner) :
    tag' :: bs.take (size - 1) = element tag inner := by
  obtain ⟨-, front, hfront, hmore⟩ := content_eq_ok_iff.mp h
  obtain ⟨rfl, happend⟩ := List.cons.inj hmore
  -- the reader that cuts looks at more octets, but finds the same length
  have hsplit : bs = front ++ (inner ++ bs.drop (size - 1)) := by
    rw [← List.append_assoc, ← happend, List.take_append_drop]
  have hfull : peekLength? bs = some inner.length := by
    rw [hsplit]
    exact hfront.peekLength? _
  rw [peekSize?_of_peekLength? hfull hfront.lt, Option.some.injEq] at hpeek
  have hcount := congrArg List.length happend
  rw [List.length_take_of_le (by omega), List.length_append] at hcount
  rw [happend, hfront.eq_lengthOctets (by omega), element, List.cons_append]

/-- An element that is cut, and read to its end, has the shortest length. -/
theorem eq_element_of_mem_elements? {tag : UInt8} {bs e inner : Octets} {es : List Octets}
    {name : String} (h : elements? bs = some es) (he : e ∈ es)
    (hcontent : content tag name e = .ok inner) : e = element tag inner := by
  induction bs using elements?.induct generalizing es with
  | case1 =>
      rw [elements?, Option.some.injEq] at h
      rw [← h] at he
      cases he
  | case2 tag' bs ih =>
      rw [elements?_cons] at h
      obtain ⟨size, hpeek, h⟩ := Option.bind_eq_some_iff.mp h
      split at h
      · rename_i hsize
        obtain ⟨rest, hrest, rfl⟩ := Option.map_eq_some_iff.mp h
        rcases List.mem_cons.mp he with rfl | he
        · exact eq_element_of_peekSize? hpeek hsize.2 hcontent
        · exact ih size hrest he
      · cases h

theorem isElement_of_mem_elements? {tag : UInt8} {bs e inner : Octets} {es : List Octets}
    {name : String} (h : elements? bs = some es) (he : e ∈ es)
    (hcontent : content tag name e = .ok inner) : IsElement e := by
  obtain ⟨htag, front, hfront, -⟩ := content_eq_ok_iff.mp hcontent
  exact ⟨tag, inner, htag, hfront.lt, eq_element_of_mem_elements? h he hcontent⟩

end Presign.Der
