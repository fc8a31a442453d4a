import Mathlib.Data.List.Basic
import Mathlib.Data.List.Infix
import Mathlib.Data.List.TakeWhile
import Presign.Pem
import Presign.Proofs.Base64
import Presign.Proofs.Except
import Presign.Proofs.Text.Blank
import Presign.Proofs.Text.Search
import Presign.Proofs.Text.Utf8

/-!
# Reading PEM

An envelope that is written is its opening line, its body and its closing line
(`encode_render`).  The body may be disturbed: only its octets that are not blank
count, and these are the Base64 of the data (`filter_body`).  Reading finds the
envelope behind anything without the opening words and before anything at all
(`parse_envelope`).

It does so for plain labels, which have no dash and no blank at either end.
Another label is never read back: what is read is plain, since reading stops at
the first dash and trims (`isPlain_of_parse_render`).
-/

namespace Presign.Pem

/-! ## Labels -/

/-- Whether a label has no dash and no blank at its ends. -/
structure IsPlain (label : String) : Prop where
  /-- No dash. -/
  dash : '-' ∉ label.toList
  /-- No blank at the start. -/
  first : ∀ c ∈ label.toList.head?, Text.isBlank c = false
  /-- No blank at the end. -/
  last : ∀ c ∈ label.toList.getLast?, Text.isBlank c = false

theorem isPlain_iff {label : String} :
    IsPlain label ↔ '-' ∉ label.toList ∧ label.toList.head?.any Text.isBlank = false ∧
      label.toList.getLast?.any Text.isBlank = false := by
  rw [Option.any_eq_false, Option.any_eq_false]
  exact ⟨fun h => ⟨h.dash, h.first, h.last⟩, fun ⟨hdash, hfirst, hlast⟩ => ⟨hdash, hfirst, hlast⟩⟩

instance (label : String) : Decidable (IsPlain label) := decidable_of_iff' _ isPlain_iff

/-- A trimmed text has no blank at its ends. -/
theorem isPlain_trim {cs : List Char} (h : '-' ∉ cs) : IsPlain (String.ofList (Text.trim cs)) := by
  refine ⟨?_, ?_, ?_⟩
  all_goals rw [String.toList_ofList]
  · exact fun hc => h ((Text.trim_sublist cs).subset hc)
  · exact fun c hc => Text.isBlank_of_head?_trim hc
  · exact fun c hc => Text.isBlank_of_getLast?_trim hc

/-! ## Envelopes -/

/-- The opening line, without its line break. -/
def openingLine (p : Pem) : Octets :=
  Text.encode opening ++ Text.encode (" " ++ p.label) ++ Text.encode dashes

/-- What stands between the lines, with the line break after the opening line. -/
def body (p : Pem) : Octets :=
  let digits := (Base64.encode p.data).map fun b => Char.ofNat b.toNat
  ('\n' :: (chunks 63 digits).flatMap (· ++ ['\n'])).flatMap String.utf8EncodeChar

/-- The closing line. -/
def closingLine (p : Pem) : Octets :=
  Text.encode closing ++ Text.encode (" " ++ p.label) ++ Text.encode dashes

theorem encode_render (p : Pem) :
    Text.encode p.render = p.openingLine ++ p.body ++ p.closingLine := by
  simp only [render, renderChars, openingLine, body, closingLine, Text.encode_eq_flatMap,
    String.toList_append, String.toList_ofList, List.flatMap_append, List.flatMap_cons,
    List.flatMap_nil, List.append_assoc, List.append_nil]

theorem flatten_chunks {α : Type} (width : Nat) (xs : List α) :
    (chunks width xs).flatten = xs := by
  induction xs using chunks.induct width with
  | case1 => rw [chunks]; rfl
  | case2 x xs ih =>
      rw [chunks, List.flatten_cons, ih, List.cons_append, List.take_append_drop]

/-- Only the line breaks of lines without blanks are blank. -/
theorem filter_lines {lines : List (List Char)}
    (h : ∀ b ∈ lines.flatten.flatMap String.utf8EncodeChar, Octets.isBlank b = false) :
    ((lines.flatMap (· ++ ['\n'])).flatMap String.utf8EncodeChar).filter
        (fun b => !Octets.isBlank b)
      = lines.flatten.flatMap String.utf8EncodeChar := by
  induction lines with
  | nil => rfl
  | cons line lines ih =>
      rw [List.flatten_cons, List.flatMap_append] at h ⊢
      have hline : (line.flatMap String.utf8EncodeChar).filter (fun b => !Octets.isBlank b)
          = line.flatMap String.utf8EncodeChar := by
        rw [List.filter_eq_self]
        intro b hb
        rw [h b (List.mem_append_left _ hb)]
        rfl
      have hbreak : (['\n'].flatMap String.utf8EncodeChar).filter (fun b => !Octets.isBlank b)
          = [] := by decide
      rw [List.flatMap_cons, List.flatMap_append, List.flatMap_append, List.filter_append,
        List.filter_append, hline, hbreak, List.append_nil,
        ih fun b hb => h b (List.mem_append_right _ hb)]

/-- The characters of Base64 are written by its octets. -/
theorem flatMap_digits (bs : Octets) :
    ((Base64.encode bs).map fun b => Char.ofNat b.toNat).flatMap String.utf8EncodeChar
      = Base64.encode bs := by
  have hchar : ∀ n < 128, (Char.ofNat n).toNat = n := by decide
  have hone : ∀ b ∈ Base64.encode bs, String.utf8EncodeChar (Char.ofNat b.toNat) = [b] := by
    intro b hb
    have hlt := (Base64.of_isWritten (Base64.isWritten_of_mem_encode hb)).1
    have hnat : (Char.ofNat b.toNat).toNat = b.toNat := hchar _ hlt
    rw [Text.utf8EncodeChar_of_lt (by omega), hnat, UInt8.ofNat_toNat]
  rw [List.flatMap_map, List.flatMap_congr hone, List.flatMap_singleton']

/-- The octets of the body that are not blank write the data. -/
theorem filter_body (p : Pem) :
    p.body.filter (fun b => !Octets.isBlank b) = Base64.encode p.data := by
  rw [body, List.flatMap_cons, List.filter_append, filter_lines, flatten_chunks, flatMap_digits]
  · rfl
  · rw [flatten_chunks, flatMap_digits]
    intro b hb
    exact (Base64.of_isWritten (Base64.isWritten_of_mem_encode hb)).2.1

/-! ## Reading -/

theorem encode_opening : Text.encode opening
    = [0x2D, 0x2D, 0x2D, 0x2D, 0x2D, 0x42, 0x45, 0x47, 0x49] ++ [0x4E] := by
  decide

theorem encode_closing : Text.encode closing
    = [0x2D, 0x2D, 0x2D, 0x2D, 0x2D, 0x45, 0x4E] ++ [0x44] := by
  decide

theorem encode_dashes : Text.encode dashes = 0x2D :: [0x2D, 0x2D, 0x2D, 0x2D] := by
  decide

/-- Nothing begins to open an envelope before its place if nothing does so in
what stands in front of it. -/
theorem encloses_opening {before : Octets} (h : ¬ Text.encode opening <:+: before) :
    Text.Encloses (Text.encode opening) before := by
  rw [encode_opening] at h ⊢
  exact Text.encloses_of_not_isInfix (by decide) h

theorem encloses_closing {bs : Octets} (h : 0x2D ∉ bs) :
    Text.Encloses (Text.encode closing) bs := by
  rw [encode_closing]
  refine Text.encloses_of_not_isInfix (by decide) fun hinside => h (hinside.subset ?_)
  decide

/-- Reading takes an envelope apart at the opening words, the next dash, the
dashes there and the closing words. -/
theorem parse_pieces {before label bs data : Octets}
    (hbefore : Text.Encloses (Text.encode opening) before)
    (hlabel : ∀ b ∈ label, (b != 0x2D) = true) (hbody : Text.Encloses (Text.encode closing) bs)
    (hdata : Base64.decode? (bs.filter fun b => !Octets.isBlank b) = some data) (after : Octets) :
    parse (before ++ Text.encode opening
        ++ (label ++ (Text.encode dashes ++ (bs ++ Text.encode closing ++ after))))
      = .ok ⟨labelOf label, data⟩ := by
  have hdashes : Text.around? (Text.encode dashes)
        (Text.encode dashes ++ (bs ++ Text.encode closing ++ after))
      = some ([], bs ++ Text.encode closing ++ after) := by
    refine Text.encloses_nil ?_ _
    rw [encode_dashes]
    exact List.cons_ne_nil _ _
  have hfree : ∀ rest, (label ++ (Text.encode dashes ++ rest)).takeWhile (· != 0x2D) = label ∧
      (label ++ (Text.encode dashes ++ rest)).dropWhile (· != 0x2D)
        = Text.encode dashes ++ rest := by
    intro rest
    rw [List.takeWhile_append_of_pos hlabel, List.dropWhile_append_of_pos hlabel, encode_dashes]
    exact ⟨List.append_nil _, rfl⟩
  have hsome : (Text.encode dashes ++ (bs ++ Text.encode closing ++ after)).isEmpty = false := by
    rw [encode_dashes]
    rfl
  obtain ⟨htake, hdrop⟩ := hfree (bs ++ Text.encode closing ++ after)
  rw [parse, hbefore]
  dsimp only
  rw [htake, hdrop, hsome, hdashes]
  dsimp only [Except.ok_bind]
  rw [hbody after]
  dsimp only
  rw [hdata]
  rfl

/-- The label that is read is what stands before the first dash behind the opening
words. -/
theorem label_of_parse {before afterOpening : Octets} {q : Pem}
    (hbefore : Text.Encloses (Text.encode opening) before)
    (h : parse (before ++ Text.encode opening ++ afterOpening) = .ok q) :
    q.label = labelOf (afterOpening.takeWhile (· != 0x2D)) := by
  rw [parse, hbefore] at h
  dsimp only at h
  split at h
  · cases h
  · cases hheader : Text.around? (Text.encode dashes) (afterOpening.dropWhile (· != 0x2D)) with
    | none => rw [hheader] at h; cases h
    | some header =>
        rw [hheader] at h
        dsimp only at h
        cases hclosing : Text.around? (Text.encode closing) header.2 with
        | none => rw [hclosing] at h; cases h
        | some found =>
            rw [hclosing] at h
            dsimp only at h
            cases hdata : Base64.decode? (found.1.filter fun b => !Octets.isBlank b) with
            | none => rw [hdata] at h; cases h
            | some data => rw [hdata] at h; cases h; rfl

/-! ## Written and read -/

/-- The label of what is written is read up to its first dash. -/
theorem labelOf_takeWhile (label : String) (rest : Octets) :
    labelOf ((Text.encode (" " ++ label) ++ (Text.encode dashes ++ rest)).takeWhile (· != 0x2D))
      = String.ofList (Text.trim ((' ' :: label.toList).takeWhile (· != '-'))) := by
  have htake := Text.takeWhile_flatMap (d := '-') (by decide) (' ' :: label.toList)
    ([0x2D, 0x2D, 0x2D, 0x2D] ++ rest)
  have hlabel : Text.encode (" " ++ label)
      = (' ' :: label.toList).flatMap String.utf8EncodeChar := by
    rw [Text.encode_eq_flatMap, String.toList_append]
    rfl
  rw [encode_dashes, List.cons_append, hlabel]
  refine (congrArg labelOf htake).trans ?_
  rw [labelOf, ← Text.encode_ofList, Text.decodeLossyChars_encode, String.toList_ofList]

/-- An envelope with a plain label is read from any text that holds it, whatever its
body has of blanks. -/
theorem parse_envelope {p : Pem} (hlabel : IsPlain p.label) {before bs : Octets}
    (hbefore : ¬ Text.encode opening <:+: before)
    (hbody : bs.filter (fun b => !Octets.isBlank b) = p.body.filter fun b => !Octets.isBlank b)
    (after : Octets) :
    parse (before ++ (p.openingLine ++ bs ++ p.closingLine) ++ after) = .ok p := by
  have hspaced : '-' ∉ ' ' :: p.label.toList := by
    rw [List.mem_cons, not_or]
    exact ⟨by decide, hlabel.dash⟩
  have hencoded : ∀ b ∈ Text.encode (" " ++ p.label), (b != 0x2D) = true := by
    rw [Text.encode_eq_flatMap, String.toList_append]
    exact Text.ne_of_mem_flatMap (d := '-') (by decide) hspaced
  have hdash : 0x2D ∉ bs := by
    intro hmem
    have hfilter : 0x2D ∈ bs.filter fun b => !Octets.isBlank b :=
      List.mem_filter.mpr ⟨hmem, by decide⟩
    rw [hbody, filter_body] at hfilter
    exact (Base64.of_isWritten (Base64.isWritten_of_mem_encode hfilter)).2.2 rfl
  have hdata : Base64.decode? (bs.filter fun b => !Octets.isBlank b) = some p.data := by
    rw [hbody, filter_body, Base64.decode?_encode]
  have hread : labelOf (Text.encode (" " ++ p.label)) = p.label := by
    rw [labelOf, Text.decodeLossyChars_encode, String.toList_append]
    change String.ofList (Text.trim (' ' :: p.label.toList)) = p.label
    rw [Text.trim, Text.trimStart, List.dropWhile_cons_of_pos (by decide)]
    change String.ofList (Text.trim p.label.toList) = p.label
    rw [Text.trim_eq_self hlabel.first hlabel.last, String.ofList_toList]
  have hpieces := parse_pieces (encloses_opening hbefore) hencoded (encloses_closing hdash) hdata
    (Text.encode (" " ++ p.label) ++ Text.encode dashes ++ after)
  rw [hread] at hpieces
  rw [← hpieces, openingLine, closingLine]
  simp only [List.append_assoc]

/-- The label that is read from what is written is plain. -/
theorem isPlain_of_parse_render {p q : Pem} (h : parse (Text.encode p.render) = .ok q) :
    IsPlain q.label := by
  have hsplit : Text.encode p.render = [] ++ Text.encode opening
      ++ (Text.encode (" " ++ p.label) ++ (Text.encode dashes ++ (p.body ++ p.closingLine))) := by
    rw [encode_render, openingLine]
    simp only [List.append_assoc, List.nil_append]
  have hopening : Text.Encloses (Text.encode opening) [] := by
    rw [encode_opening]
    exact Text.encloses_nil (by simp)
  rw [hsplit] at h
  rw [label_of_parse hopening h, labelOf_takeWhile]
  refine isPlain_trim fun hmem => ?_
  simpa using List.mem_takeWhile_imp hmem

/-- Reading undoes writing.  What is written is an opening line, a body and a closing
line.  If the label is plain, the envelope is read from any text that holds these lines
behind something without the opening words, and with any blanks inserted into the body
or removed from it.  Another label is never read back. -/
theorem parse_undoes_render (p : Pem) :
    Text.encode p.render = p.openingLine ++ p.body ++ p.closingLine ∧
      (IsPlain p.label → ∀ before bs after : Octets, ¬ Text.encode opening <:+: before →
        bs.filter (fun b => !Octets.isBlank b) = p.body.filter (fun b => !Octets.isBlank b) →
        parse (before ++ (p.openingLine ++ bs ++ p.closingLine) ++ after) = .ok p) ∧
      (¬ IsPlain p.label → ∀ q, parse (Text.encode p.render) = .ok q → q.label ≠ p.label) := by
  refine ⟨encode_render p, ?_, ?_⟩
  · intro hlabel before bs after hbefore hbody
    exact parse_envelope hlabel hbefore hbody after
  · intro hlabel q hq heq
    rw [← heq] at hlabel
    exact hlabel (isPlain_of_parse_render hq)

/-- Seven octets in one line between lines that look like others, with blanks inside of
the digits.  A dash is never read back as a label. -/
theorem parse_undoes_render_flattened :
    let p : Pem := ⟨"GARBAGE", [0x47, 0x41, 0x52, 0x42, 0x41, 0x47, 0x45]⟩
    let before := Text.encode "------BEGI"
    let bs := Text.encode " R0FSQk FHRQ=\t="
    let after := Text.encode "-----BEGIN X-----"
    IsPlain p.label ∧ ¬ Text.encode opening <:+: before ∧
      bs.filter (fun b => !Octets.isBlank b) = p.body.filter (fun b => !Octets.isBlank b) ∧
      parse (before ++ (p.openingLine ++ bs ++ p.closingLine) ++ after) = .ok p ∧
      ¬ IsPlain "-" ∧ ∀ q, parse (Text.encode (render ⟨"-", []⟩)) = .ok q → q.label ≠ "-" := by
  intro p before bs after
  have hlabel : IsPlain p.label := by decide
  have hbefore : ¬ Text.encode opening <:+: before := by decide
  have hbody : bs.filter (fun b => !Octets.isBlank b)
      = p.body.filter (fun b => !Octets.isBlank b) := by
    rw [filter_body]
    decide
  have hdash : ¬ IsPlain "-" := by decide
  exact ⟨hlabel, hbefore, hbody,
    (parse_undoes_render p).2.1 hlabel before bs after hbefore hbody, hdash,
    (parse_undoes_render ⟨"-", []⟩).2.2 hdash⟩

end Presign.Pem
