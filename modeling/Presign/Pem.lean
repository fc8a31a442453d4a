import Presign.Base64
import Presign.Text.Blank
import Presign.Text.Search
import Presign.Text.Utf8

/-!
# PEM

A labelled sequence of octets in the textual envelope of RFC 7468.  `render`
writes it.  `parse` reads the first envelope of a text and ignores what stands
around it.  The label is what stands between the opening words and the next
dash, without blanks at its ends.  Blanks inside the body are dropped.  The
label of the closing line is not compared.
-/

namespace Presign

/-- A labelled sequence of octets. -/
structure Pem where
  /-- What the octets are said to hold. -/
  label : String
  /-- The octets. -/
  data : Octets
deriving DecidableEq

/-- Why a text is no PEM envelope. -/
inductive PemError where
  /-- No opening words. -/
  | headerNotFound
  /-- The opening line does not end. -/
  | invalidHeader
  /-- No closing words. -/
  | footerNotFound
  /-- The body is not canonical Base64. -/
  | base64
deriving DecidableEq, Repr

/-- The text of an envelope error.  The fault inside the Base64 is not named. -/
def PemError.message : PemError → String
  | .headerNotFound => "pem header not found"
  | .invalidHeader => "invalid pem header"
  | .footerNotFound => "pem footer not found"
  | .base64 => "couldn't decode base64: "

namespace Pem

/-- The words that open an envelope. -/
def opening : String := "-----BEGIN"

/-- The words that close an envelope. -/
def closing : String := "-----END"

/-- The dashes at the end of both lines. -/
def dashes : String := "-----"

/-- The pieces of a list, `width + 1` elements in each but the last. -/
def chunks {α : Type} (width : Nat) : List α → List (List α)
  | [] => []
  | x :: xs => (x :: xs.take width) :: chunks width (xs.drop width)
termination_by xs => xs.length
decreasing_by simp only [List.length_drop, List.length_cons]; omega

/-- The characters of an envelope: 64 Base64 digits to a line, and no line
break after the closing line. -/
def renderChars (p : Pem) : List Char :=
  let body := (Base64.encode p.data).map fun b => Char.ofNat b.toNat
  (opening ++ " ").toList ++ p.label.toList ++ dashes.toList ++ ['\n']
    ++ (chunks 63 body).flatMap (· ++ ['\n'])
    ++ (closing ++ " ").toList ++ p.label.toList ++ dashes.toList

/-- The text of an envelope. -/
def render (p : Pem) : String := String.ofList p.renderChars

/-- The label that octets write. -/
def labelOf (bs : Octets) : String :=
  String.ofList (Text.trim (Text.decodeLossyChars bs))

/-- Reads the first envelope of a text given as octets. -/
def parse (input : Octets) : Except PemError Pem := do
  let some (_, afterOpening) := Text.around? (Text.encode opening) input
    | .error .headerNotFound
  let label := afterOpening.takeWhile (· != 0x2D)
  let afterLabel := afterOpening.dropWhile (· != 0x2D)
  if afterLabel.isEmpty then .error .invalidHeader
  let some (_, afterHeader) := Text.around? (Text.encode dashes) afterLabel
    | .error .invalidHeader
  let some (body, _) := Text.around? (Text.encode closing) afterHeader
    | .error .footerNotFound
  let some data := Base64.decode? (body.filter fun b => !Octets.isBlank b)
    | .error .base64
  return ⟨labelOf label, data⟩

end Pem

end Presign
