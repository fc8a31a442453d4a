import Presign.Text.Search

/-!
# Tokens of XML

A text is a sequence of tags, sections and character data.  `next?` takes one
token off the front, and `scan` takes all.  Where no token can be taken the
scan ends with `broken`, so what comes before a fault can still be looked at
first.

Names are not looked at here, and the inside of a start tag is kept as it is
written.  A start tag runs to the first `>` outside quotes.  End tags and
processing instructions may also run to the end of the text.  A comment runs
to the first `-->`, a CDATA section to the first `]]>`, and a document type to
the `>` at which the angle brackets inside balance.
-/

namespace Presign.Xml

/-- A token. -/
inductive Token where
  /-- Character data with its references. -/
  | text (raw : List Char)
  /-- A CDATA section. -/
  | cdata (content : List Char)
  /-- A comment. -/
  | comment (content : List Char)
  /-- A processing instruction, target and data together. -/
  | instruction (content : List Char)
  /-- A start tag, without its angle brackets. -/
  | startTag (content : List Char)
  /-- The tag of an element without content, without its angle brackets and
  the slash. -/
  | emptyTag (content : List Char)
  /-- An end tag. -/
  | endTag (name : List Char)
  /-- An XML declaration or a document type. -/
  | skipped
  /-- No token begins here. -/
  | broken
deriving DecidableEq, Repr

namespace Token

/-- The white space of XML. -/
def isBlank (c : Char) : Bool := c == ' ' || c == '\t' || c == '\n' || c == '\r'

/-! ## Where tags end -/

/-- The inside of a tag up to the first `>` outside quotes, and what follows.
`quote` is the quote that is open. -/
def tagEnd? (quote : Option Char) : List Char → Option (List Char × List Char)
  | [] => none
  | c :: cs =>
    match quote with
    | some q =>
      (tagEnd? (if c = q then none else some q) cs).map fun (inside, rest) => (c :: inside, rest)
    | none =>
      if c = '>' then some ([], cs)
      else
        (tagEnd? (if c = '\x27' ∨ c = '\x22' then some c else none) cs).map
          fun (inside, rest) => (c :: inside, rest)

/-- The inside of a document type up to the `>` that balances, and what
follows.  `depth` is the number of angle brackets that are open. -/
def doctypeEnd? (depth : Nat) : List Char → Option (List Char × List Char)
  | [] => none
  | c :: cs =>
    if c = '>' then
      match depth with
      | 0 => some ([], cs)
      | depth + 1 => (doctypeEnd? depth cs).map fun (inside, rest) => (c :: inside, rest)
    else
      (doctypeEnd? (if c = '<' then depth + 1 else depth) cs).map
        fun (inside, rest) => (c :: inside, rest)

/-! ## Markup -/

/-- Whether a text begins with a word, in any case of its ASCII letters. -/
def beginsWith (word : String) (cs : List Char) : Bool :=
  (cs.take word.length).map Char.toUpper == word.toList

/-- The token of delimited content, if the content ends. -/
def delimited (token : List Char → Token) (found : Option (List Char × List Char)) :
    Token × List Char :=
  match found with
  | some (content, rest) => (token content, rest)
  | none => (.broken, [])

/-- The token that begins with `<!`. -/
def bang (cs : List Char) : Token × List Char :=
  if ['-', '-'].isPrefixOf cs then delimited .comment (Text.around? ['-', '-', '>'] (cs.drop 2))
  else if beginsWith "[CDATA[" cs then
    delimited .cdata (Text.around? [']', ']', '>'] (cs.drop 7))
  else if beginsWith "DOCTYPE" cs then
    delimited (fun content => if content.all isBlank then .broken else .skipped)
      (doctypeEnd? 0 (cs.drop 7))
  else (.broken, [])

/-- The token of what stands between `<?` and the next `>`. -/
def ofInstruction (body : List Char) : Token :=
  if 2 ≤ body.length ∧ body.getLast? = some '?' then
    if ['x', 'm', 'l'].isPrefixOf body ∧ (body.drop 3).head?.any isBlank ∧ 5 ≤ body.length then
      .skipped
    else .instruction body.dropLast
  else .broken

/-- The name in an end tag, without the blanks after it.  A name of blanks
alone is kept. -/
def closedName (body : List Char) : List Char :=
  if body.all isBlank then body else (body.reverse.dropWhile isBlank).reverse

/-- The token of what stands inside the angle brackets of a start tag. -/
def ofTag (inside : List Char) : Token :=
  if inside.getLast? = some '/' then .emptyTag inside.dropLast else .startTag inside

/-- The token that begins with `<`.  Nothing begins with a `<` at the end. -/
def markup? : List Char → Option (Token × List Char)
  | [] => none
  | '!' :: cs => some (bang cs)
  | '/' :: cs =>
    let (body, rest) := Text.upTo '>' cs
    some (.endTag (closedName body), rest)
  | '?' :: cs =>
    let (body, rest) := Text.upTo '>' cs
    some (ofInstruction body, rest)
  | cs =>
    match tagEnd? none cs with
    | some (inside, rest) => some (ofTag inside, rest)
    | none => some (.broken, [])

/-- The first token, and what follows it. -/
def next? : List Char → Option (Token × List Char)
  | [] => none
  | '<' :: cs => markup? cs
  | cs => some (.text (cs.takeWhile (· ≠ '<')), cs.dropWhile (· ≠ '<'))

/-! ## All tokens -/

theorem length_tagEnd?_le {quote : Option Char} {cs : List Char} {r : List Char × List Char}
    (h : tagEnd? quote cs = some r) : r.2.length ≤ cs.length := by
  induction cs generalizing quote r with
  | nil => cases h
  | cons c cs ih =>
    have step (q : Option Char)
        (h : (tagEnd? q cs).map (fun (inside, rest) => (c :: inside, rest)) = some r) :
        r.2.length ≤ (c :: cs).length := by
      obtain ⟨found, inner, e⟩ := Option.map_eq_some_iff.1 h
      rw [← e]
      exact Nat.le_succ_of_le (show found.2.length ≤ cs.length from ih inner)
    simp only [tagEnd?] at h
    split at h
    · exact step _ h
    · split at h
      · cases h
        simp
      · exact step _ h

theorem length_doctypeEnd?_le {depth : Nat} {cs : List Char} {r : List Char × List Char}
    (h : doctypeEnd? depth cs = some r) : r.2.length ≤ cs.length := by
  induction cs generalizing depth r with
  | nil => cases h
  | cons c cs ih =>
    have step (d : Nat)
        (h : (doctypeEnd? d cs).map (fun (inside, rest) => (c :: inside, rest)) = some r) :
        r.2.length ≤ (c :: cs).length := by
      obtain ⟨found, inner, e⟩ := Option.map_eq_some_iff.1 h
      rw [← e]
      exact Nat.le_succ_of_le (show found.2.length ≤ cs.length from ih inner)
    simp only [doctypeEnd?] at h
    split at h
    · split at h
      · cases h
        simp
      · exact step _ h
    · exact step _ h

theorem length_delimited_le {token : List Char → Token} {found : Option (List Char × List Char)}
    {n : Nat} (h : ∀ r, found = some r → r.2.length ≤ n) : (delimited token found).2.length ≤ n := by
  unfold delimited
  split
  · exact h _ rfl
  · exact Nat.zero_le n

theorem length_bang_le (cs : List Char) : (bang cs).2.length ≤ cs.length := by
  unfold bang
  split
  · refine length_delimited_le fun r found => ?_
    have := Text.length_around?_le found
    simp only [List.length_drop] at this
    omega
  · split
    · refine length_delimited_le fun r found => ?_
      have := Text.length_around?_le found
      simp only [List.length_drop] at this
      omega
    · split
      · refine length_delimited_le fun r found => ?_
        have := length_doctypeEnd?_le found
        simp only [List.length_drop] at this
        omega
      · simp

theorem length_markup?_le {cs : List Char} {r : Token × List Char} (h : markup? cs = some r) :
    r.2.length ≤ cs.length := by
  unfold markup? at h
  split at h
  · cases h
  · cases h
    exact Nat.le_succ_of_le (length_bang_le _)
  · cases h
    exact Nat.le_succ_of_le (Text.length_upTo_le _ _)
  · cases h
    exact Nat.le_succ_of_le (Text.length_upTo_le _ _)
  · split at h
    · rename_i found
      cases h
      exact length_tagEnd?_le found
    · cases h
      simp

theorem length_next?_lt {cs : List Char} {r : Token × List Char} (h : next? cs = some r) :
    r.2.length < cs.length := by
  unfold next? at h
  split at h
  · cases h
  · exact Nat.lt_succ_of_le (length_markup?_le h)
  · rename_i notEmpty notOpen
    cases h
    cases cs with
    | nil => exact absurd rfl notEmpty
    | cons c cs =>
      have : c ≠ '<' := fun e => notOpen cs (by rw [e])
      simp only [ne_eq, List.dropWhile_cons, this, not_false_eq_true, decide_true, if_true]
      exact Nat.lt_succ_of_le (List.dropWhile_sublist _).length_le

/-- All tokens of a text. -/
def scan (cs : List Char) : List Token :=
  match _found : next? cs with
  | none => []
  | some (token, rest) => token :: scan rest
termination_by cs.length
decreasing_by exact length_next?_lt _found

end Token

end Presign.Xml
