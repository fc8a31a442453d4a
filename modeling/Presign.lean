import Presign.Preparer
import Presign.Proofs.Cms.Independence
import Presign.Proofs.Cms.NewAttributes
import Presign.Proofs.Cms.Protection
import Presign.Proofs.Cms.SigningCertificate
import Presign.Proofs.Cms.Stability
import Presign.Proofs.Cms.TolerantTime
import Presign.Proofs.Ecdsa.Canonical
import Presign.Proofs.Ecdsa.Digest
import Presign.Proofs.Ecdsa.Steps
import Presign.Proofs.KeyStack.Custody
import Presign.Proofs.KeyStack.Fallback
import Presign.Proofs.KeyStack.Waiting
import Presign.Proofs.LooseIdentifier
import Presign.Proofs.Pem
import Presign.Proofs.Preparer.Refusals
import Presign.Proofs.Preparer.Relaxation
import Presign.Proofs.Rsa.DigestInfo
import Presign.Proofs.Rsa.Signature
import Presign.Proofs.SignedInfo.Claims
import Presign.Proofs.SignedInfo.Frame
import Presign.Proofs.SignedInfo.Stability
import Presign.Proofs.SignedInfo.Verification
import Presign.Proofs.Time.Tolerance
import Presign.Proofs.Xades.Frame
import Presign.Proofs.Xml.DeclarationRules
import Presign.Proofs.Xml.DocumentOrder
import Presign.Proofs.Xml.Exclusive
import Presign.Proofs.Xml.FixedPoint
import Presign.Proofs.Xml.RoundTrip
import Presign.Settings
import Presign.Signing
