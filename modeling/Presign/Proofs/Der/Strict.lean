import Presign.Der.Strict
import Presign.Proofs.Der.Element

/-!
# What strict readers read

A strict reader takes an element off if and only if `element` wrote it
(`any?_eq_some_iff`).  `all?` reads octets to their end as such elements, each as its
tag and its content (`all?_eq_some_iff`).

The reader that cuts is tolerant, but it agrees with the strict one where that one has
a result (`elements?_of_all?`).
-/

namespace Presign.Der.Strict

open Octets

/-! ## Lengths -/

theorem length?_lengthOctets {n : Nat} (h : n < 2 ^ 32) (rest : Octets) :
    length? (lengthOctets n ++ rest) = some (n, rest) := by
  by_cases hn : n < 128
  · have hnat : (UInt8.ofNat n).toNat = n := by
      rw [UInt8.toNat_ofNat']
      omega
    rw [lengthOctets, if_pos hn, List.singleton_append, length?, if_pos, hnat]
    rw [UInt8.lt_iff_toNat_lt, hnat]
    exact hn
  · have hsize : natSize n ≤ 4 := natSize_le h
    have hpos : natSize n ≠ 0 := by
      rw [natSize_of_ne (by omega)]
      omega
    have hnat : (UInt8.ofNat (128 + natSize n)).toNat = 128 + natSize n := by
      rw [UInt8.toNat_ofNat']
      omega
    have hlength : (Octets.ofNat n).length = natSize n := rfl
    rw [lengthOctets, if_neg hn, List.cons_append, length?, if_neg (not_lt_of_counts hnat)]
    dsimp only
    rw [hnat, Nat.add_sub_cancel_left, if_neg, List.take_left' hlength, List.drop_left' hlength,
      toNat_ofNat, if_pos]
    · rw [lengthOctets, if_neg hn]
    · rw [List.length_append, hlength]
      omega

/-- A length that is read has its shortest form and at most four octets. -/
theorem length?_eq_some_iff {bs rest : Octets} {n : Nat} :
    length? bs = some (n, rest) ↔ n < 2 ^ 32 ∧ bs = lengthOctets n ++ rest := by
  constructor
  · intro h
    cases bs with
    | nil => cases h
    | cons b bs =>
        rw [length?] at h
        split at h
        next hlt =>
          cases h
          have hb : b.toNat < 128 := UInt8.lt_iff_toNat_lt.mp hlt
          refine ⟨by omega, ?_⟩
          rw [lengthOctets, if_pos hb, UInt8.ofNat_toNat, List.singleton_append]
        next =>
          dsimp only at h
          split at h
          next => cases h
          next hsize =>
            split at h
            next hshortest =>
              rw [Option.some.injEq, Prod.mk.injEq] at h
              obtain ⟨rfl, rfl⟩ := h
              have hlength : (bs.take (b.toNat - 128)).length = b.toNat - 128 :=
                List.length_take_of_le (by omega)
              have hfour : (bs.take (b.toNat - 128)).length ≤ 4 := by omega
              refine ⟨?_, ?_⟩
              · exact Nat.lt_of_lt_of_le (toNat_lt _) (Nat.pow_le_pow_right (by decide) hfour)
              · rw [hshortest, List.cons_append, List.take_append_drop]
            next => cases h
  · rintro ⟨hn, rfl⟩
    exact length?_lengthOctets hn rest

/-! ## Elements -/

/-- What is read is an element with a known tag and the shortest length. -/
theorem any?_eq_some_iff {bs : Octets} {s : Split} :
    any? bs = some s
      ↔ isKnownTag s.tag = true ∧ s.content.length < 2 ^ 32 ∧
        bs = element s.tag s.content ++ s.rest := by
  constructor
  · intro h
    cases bs with
    | nil => cases h
    | cons tag bs =>
        obtain ⟨⟨n, rest⟩, hlength, hsplit⟩ := Option.bind_eq_some_iff.mp h
        obtain ⟨hn, rfl⟩ := length?_eq_some_iff.mp hlength
        dsimp only at hsplit
        split at hsplit
        next hknown =>
          cases hsplit
          have htake : (rest.take n).length = n := List.length_take_of_le hknown.2
          refine ⟨hknown.1, by rwa [htake], ?_⟩
          rw [element, htake, List.cons_append, List.cons_append, List.append_assoc,
            List.take_append_drop]
        next => cases hsplit
  · rintro ⟨htag, hsize, rfl⟩
    have hlength := length?_lengthOctets hsize (s.content ++ s.rest)
    rw [element, List.cons_append, List.cons_append, List.append_assoc, any?, hlength]
    change (if _ then _ else none) = _
    rw [if_pos ⟨htag, by rw [List.length_append]; omega⟩, List.take_left' rfl, List.drop_left' rfl]
    rfl

theorem only?_element {tag : UInt8} {content : Octets} (htag : isKnownTag tag = true)
    (hsize : content.length < 2 ^ 32) : only? tag (element tag content) = some content := by
  have hany : any? (element tag content) = some ⟨tag, content, []⟩ :=
    any?_eq_some_iff.mpr ⟨htag, hsize, (List.append_nil _).symm⟩
  simp [only?, take?, hany]

theorem tag_of_isKnownTag {tag : UInt8} (h : isKnownTag tag = true) : tag % 32 ≠ 31 := by
  have hall : ∀ n < 256, isKnownTag (UInt8.ofNat n) = true → UInt8.ofNat n % 32 ≠ 31 := by
    decide +kernel
  have htag := hall tag.toNat tag.toNat_lt
  rw [UInt8.ofNat_toNat] at htag
  exact htag h

/-! ## Sequences of elements -/

/-- An element as its tag and its content. -/
structure Part where
  /-- The tag. -/
  tag : UInt8
  /-- The content. -/
  content : Octets
deriving DecidableEq

/-- The octets of a part. -/
def Part.octets (p : Part) : Octets := element p.tag p.content

/-- Whether a part has a known tag and a length of at most four octets. -/
def Part.IsReadable (p : Part) : Prop := isKnownTag p.tag = true ∧ p.content.length < 2 ^ 32

theorem Part.IsReadable.isElement {p : Part} (h : p.IsReadable) : IsElement p.octets :=
  isElement_element (tag_of_isKnownTag h.1) h.2

/-- Reads octets to their end. -/
def all? : Octets → Option (List Part)
  | [] => some []
  | b :: bs =>
    match any? (b :: bs) with
    | none => none
    | some s =>
      if _shorter : s.rest.length ≤ bs.length then (all? s.rest).map (⟨s.tag, s.content⟩ :: ·)
      else none
termination_by bs => bs.length

theorem all?_append {p : Part} (h : p.IsReadable) (rest : Octets) :
    all? (p.octets ++ rest) = (all? rest).map (p :: ·) := by
  have hany : any? (p.octets ++ rest) = some ⟨p.tag, p.content, rest⟩ :=
    any?_eq_some_iff.mpr ⟨h.1, h.2, rfl⟩
  have hcons : p.octets ++ rest = p.tag :: (lengthOctets p.content.length ++ p.content ++ rest) :=
    rfl
  rw [hcons] at hany ⊢
  rw [all?, hany]
  dsimp only
  rw [dif_pos (by simp only [List.length_append]; omega)]

/-- Octets are read as parts if and only if they are the parts one after the other. -/
theorem all?_eq_some_iff {bs : Octets} {ps : List Part} :
    all? bs = some ps
      ↔ (∀ p ∈ ps, p.IsReadable) ∧ bs = (ps.map Part.octets).flatten := by
  constructor
  · intro h
    induction bs using all?.induct generalizing ps with
    | case1 =>
        rw [all?, Option.some.injEq] at h
        subst h
        exact ⟨fun p hp => absurd hp List.not_mem_nil, rfl⟩
    | case2 b bs hany =>
        rw [all?, hany] at h
        cases h
    | case3 b bs s hany hshorter ih =>
        rw [all?, hany] at h
        dsimp only at h
        rw [dif_pos hshorter] at h
        obtain ⟨rest, hrest, rfl⟩ := Option.map_eq_some_iff.mp h
        obtain ⟨htag, hsize, hbs⟩ := any?_eq_some_iff.mp hany
        obtain ⟨hreadable, hflatten⟩ := ih hrest
        refine ⟨?_, ?_⟩
        · intro p hp
          rcases List.mem_cons.mp hp with rfl | hp
          · exact ⟨htag, hsize⟩
          · exact hreadable p hp
        · rw [hbs, hflatten, List.map_cons, List.flatten_cons]
          rfl
    | case4 b bs s hany hlonger =>
        rw [all?, hany] at h
        dsimp only at h
        rw [dif_neg hlonger] at h
        cases h
  · rintro ⟨h, rfl⟩
    induction ps with
    | nil => rw [List.map_nil, List.flatten_nil, all?]
    | cons p ps ih =>
        rw [List.map_cons, List.flatten_cons, all?_append (h p (List.mem_cons_self ..)),
          ih fun q hq => h q (List.mem_cons_of_mem _ hq), Option.map_some]

/-- Parts are read if they are short enough together. -/
theorem all?_flatten {ps : List Part} (htags : ps.all (fun p => isKnownTag p.tag) = true)
    (hsize : (ps.map Part.octets).flatten.length < 2 ^ 32) :
    all? (ps.map Part.octets).flatten = some ps := by
  refine all?_eq_some_iff.mpr ⟨fun p hp => ⟨List.all_eq_true.mp htags p hp, ?_⟩, rfl⟩
  calc p.content.length < p.octets.length := length_lt_element _ _
    _ ≤ (ps.map Part.octets).flatten.length :=
      (List.sublist_flatten_of_mem (List.mem_map_of_mem hp)).length_le
    _ < 2 ^ 32 := hsize

theorem all?_singleton {p : Part} (htag : isKnownTag p.tag = true)
    (hsize : p.octets.length < 2 ^ 32) : all? p.octets = some [p] := by
  have hflatten : ([p].map Part.octets).flatten = p.octets := List.flatten_singleton
  rw [← hflatten] at hsize ⊢
  exact all?_flatten (by rw [List.all_cons, htag]; rfl) hsize

/-- What is read strictly is cut into the same elements. -/
theorem elements?_of_all? {bs : Octets} {ps : List Part} (h : all? bs = some ps) :
    elements? bs = some (ps.map Part.octets) := by
  obtain ⟨hreadable, rfl⟩ := all?_eq_some_iff.mp h
  refine elements?_flatten fun e he => ?_
  obtain ⟨p, hp, rfl⟩ := List.mem_map.mp he
  exact (hreadable p hp).isElement

end Presign.Der.Strict
