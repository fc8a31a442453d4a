import Presign.Proofs.Time.Pattern

/-!
# What patterns tolerate

A pattern of fields takes more texts than those that have each field in its width.  Blanks may
stand in front of each field.  A field may have fewer digits, but not in front of a digit, which
would belong to it.  And that is all: `IsRow` has the texts that a row of fields takes, and the
pattern reads what it tells and nothing else (`Pattern.readInto?_eq_some_iff`).

So a row without blanks has digits alone in front of its final letter (`IsRow.exists_digits`), and
its length tells whether each field has its width.

A year may have a sign, so these rows have no year.
-/

namespace Presign.Time

open Rfc3339 (digits)

/-! ## Fields -/

/-- What a field takes at the front of a text: blanks, and the digits behind them. -/
inductive Field.Takes (f : Field) : List Char → Nat → List Char → Prop
  | intro {blanks cs rest : List Char} {n : Nat}
      (hblanks : ∀ c ∈ blanks, Text.isBlank c = true) (hdigits : TakesDigits f.width cs n rest) :
      f.Takes (blanks ++ cs) n rest

variable {f : Field} {fs : List Field} {cs rest : List Char} {n : Nat} {r r' : Reading}

/-- Digits have no blanks in front of them. -/
theorem TakesDigits.trimStart {width : Nat} (h : TakesDigits width cs n rest) :
    Text.trimStart cs = cs := by
  cases h with
  | @intro count n rest hpos _ _ _ =>
      obtain ⟨c, cs, hcons, hdigit⟩ := exists_digits_eq_cons hpos n
      rw [hcons, List.cons_append]
      exact List.dropWhile_cons_of_neg (by rw [Text.isBlank_of_digit? hdigit]; decide)

theorem Field.takes_iff : f.Takes cs n rest ↔ TakesDigits f.width (Text.trimStart cs) n rest := by
  constructor
  · rintro ⟨hblanks, hdigits⟩
    have hstart := hdigits.trimStart
    rw [Text.trimStart] at hstart
    rwa [Text.trimStart, List.dropWhile_append_of_pos hblanks, hstart]
  · intro h
    have htaken := Takes.intro (f := f)
      (fun c (hc : c ∈ cs.takeWhile Text.isBlank) => List.mem_takeWhile_imp hc) h
    rwa [Text.trimStart, List.takeWhile_append_dropWhile] at htaken

/-- A field below the year reads what it takes. -/
theorem Field.read?_eq_some_iff (hf : f ≠ .year) :
    f.read? r cs = some (r', rest) ↔ ∃ n, f.Takes cs n rest ∧ f.set n r = r' := by
  have hread : f.read? r cs
      = (digitsUpTo? f.width (Text.trimStart cs)).map fun p => (f.set p.1 r, p.2) := by
    unfold read?
    split
    · exact absurd rfl hf
    · exact absurd rfl hf
    · rfl
  rw [hread, Option.map_eq_some_iff]
  constructor
  · rintro ⟨⟨n, rest'⟩, hdigits, heq⟩
    cases heq
    exact ⟨n, takes_iff.mpr (digitsUpTo?_eq_some_iff.mp hdigits), rfl⟩
  · rintro ⟨n, htakes, rfl⟩
    exact ⟨(n, rest), digitsUpTo?_eq_some_iff.mpr (takes_iff.mp htakes), rfl⟩

/-! ## Rows of fields -/

/-- A row of fields with a final letter behind it, and the reading that it makes of another one. -/
inductive IsRow (final : Char) : List Field → Reading → List Char → Reading → Prop
  | final {r : Reading} : IsRow final [] r [final] r
  | field {f : Field} {fs : List Field} {r r' : Reading} {cs rest : List Char} {n : Nat}
      (htakes : f.Takes cs n rest) (hrow : IsRow final fs (f.set n r) rest r') :
      IsRow final (f :: fs) r cs r'

variable {final : Char}

theorem Pattern.readInto?_eq_some_iff (hfs : .year ∉ fs) :
    readInto? r (fs.map Piece.field ++ [.literal final]) cs = some r' ↔ IsRow final fs r cs r' := by
  induction fs generalizing r cs with
  | nil =>
      constructor
      · intro h
        match cs, h with
        | c :: cs, h =>
            simp only [List.map_nil, List.nil_append, readInto?] at h
            split at h
            next heq =>
              split at h
              next hempty =>
                cases h
                cases heq
                rw [List.isEmpty_iff.mp hempty]
                exact .final
              next => cases h
            next => cases h
      · intro h
        cases h
        simp [readInto?]
  | cons f fs ih =>
      obtain ⟨hf, hrest⟩ := not_or.mp (fun h => hfs (List.mem_cons.mpr h))
      rw [List.map_cons, List.cons_append, readInto?, Option.bind_eq_bind, Option.bind_eq_some_iff]
      constructor
      · rintro ⟨⟨r₁, rest⟩, hread, hrow⟩
        obtain ⟨n, htakes, rfl⟩ := (Field.read?_eq_some_iff (Ne.symm hf)).mp hread
        exact .field htakes ((ih hrest).mp hrow)
      · rintro (_ | ⟨htakes, hrow⟩)
        exact ⟨_, (Field.read?_eq_some_iff (Ne.symm hf)).mpr ⟨_, htakes, rfl⟩, (ih hrest).mpr hrow⟩

/-! ## Rows without blanks -/

/-- Without blanks there are digits alone before the final letter. -/
theorem IsRow.exists_digits (h : IsRow final fs r cs r')
    (hblanks : ∀ c ∈ cs, Text.isBlank c = false) :
    ∃ ds, cs = ds ++ [final] ∧ ∀ c ∈ ds, isDigit c = true := by
  induction h with
  | final => exact ⟨[], rfl, fun c hc => by cases hc⟩
  | @field _ _ _ _ _ _ n htakes _ ih =>
      cases htakes with
      | @intro blanks _ _ _ hfront hdigits =>
          cases hdigits with
          | @intro count _ _ _ _ _ _ =>
              obtain ⟨hnot, hblanks⟩ := List.forall_mem_append.mp hblanks
              have hnone : blanks = [] := List.eq_nil_iff_forall_not_mem.mpr fun c hc =>
                Bool.noConfusion ((hfront c hc).symm.trans (hnot c hc))
              obtain ⟨ds, rfl, hall⟩ := ih (List.forall_mem_append.mp hblanks).2
              refine ⟨digits count n ++ ds, ?_,
                List.forall_mem_append.mpr ⟨Rfc3339.isDigit_of_mem_digits, hall⟩⟩
              rw [hnone, List.nil_append, List.append_assoc]

end Presign.Time
