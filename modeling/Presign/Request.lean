import Presign.Octets

/-!
# Signing requests

A client asks for one signature.  It sends the data that the signature is to
cover, in the form that the type of the signature prescribes, and says whether
the signature is to be an advanced one.  An advanced XML signature comes with
an object for the properties of the signature.

The answer is the exact data to sign, and the object as it then has to be
embedded.
-/

namespace Presign

/-- The type of a signature. -/
inductive SignatureType where
  | xml
  | pdf
  | json
  | cms
deriving DecidableEq, Repr

namespace SignatureType

/-- All types. -/
def all : List SignatureType := [.xml, .pdf, .json, .cms]

/-- The name of a type. -/
def text : SignatureType → String
  | .xml => "XML"
  | .pdf => "PDF"
  | .json => "JSON"
  | .cms => "CMS"

/-- The type with a name. -/
def ofText? (s : String) : Option SignatureType := all.find? fun t => t.text == s

end SignatureType

/-- The profile of an advanced signature. -/
inductive AdesProfile where
  /-- No advanced signature. -/
  | none
  /-- The basic profile. -/
  | bes
  /-- The profile with an explicit policy. -/
  | epes
deriving DecidableEq, Repr

namespace AdesProfile

/-- All profiles. -/
def all : List AdesProfile := [.none, .bes, .epes]

/-- The name of a profile. -/
def text : AdesProfile → String
  | .none => "NONE"
  | .bes => "BES"
  | .epes => "EPES"

/-- The profile with a name. -/
def ofText? (s : String) : Option AdesProfile := all.find? fun p => p.text == s

/-- Whether the signature is an advanced one. -/
def isAdvanced (p : AdesProfile) : Bool := p != .none

end AdesProfile

/-- The object that travels with an advanced XML signature. -/
structure AdesObject where
  /-- The identifier of the signature. -/
  signatureId : Option String
  /-- The octets of the object. -/
  object : Option Octets
deriving DecidableEq

/-- A request. -/
structure Request where
  /-- The type of the signature. -/
  type : Option SignatureType
  /-- The data to be signed. -/
  data : Option Octets
  /-- The profile of the signature. -/
  profile : AdesProfile
  /-- The object that comes with the request. -/
  adesObject : Option AdesObject
  /-- The processing rule that the client asks for. -/
  rule : Option String
deriving DecidableEq

/-- Data that is ready to be signed. -/
structure Prepared where
  /-- The data to sign. -/
  data : Octets
  /-- The processing rule of the request. -/
  rule : Option String
  /-- The object to embed in the signature. -/
  adesObject : Option AdesObject
deriving DecidableEq

end Presign
