import Presign.Time.Instant

/-!
# Windows of time

A window is the time that a message may claim to come from: not older than an
age, and not in the future, with a tolerance for clocks that differ on both
ends.  The ends belong to the window.  An end that lies outside of the range
of instants bounds nothing.
-/

namespace Presign.Time

/-- A span of time, open where it has no bound. -/
structure Window where
  notBefore : Option Instant
  notAfter : Option Instant
deriving DecidableEq, Repr

/-- On which side an instant lies outside of a window. -/
inductive Misplaced where
  | future
  | tooOld
deriving DecidableEq, Repr

namespace Window

/-- The window at a time, for an age and a tolerance. -/
def around (now : Instant) (age skew : Nat) : Window :=
  { notBefore := (now.earlier? age).bind fun i => i.earlier? skew
    notAfter := now.later? skew }

/-- Checks that an instant lies in a window. -/
def check (w : Window) (i : Instant) : Except Misplaced Unit :=
  if w.notAfter.any fun bound => bound.before i then .error .future
  else if w.notBefore.any fun bound => i.before bound then .error .tooOld
  else .ok ()

end Window

end Presign.Time
