import Purels.Domain.Models

/-!
# Checking what an account is made of

The validators of package `security` behind a registration.

* `NormalizeUsername`, `ValidatePassword`.
-/

namespace Purels.Security

open Go

def minPasswordLength : Nat := 12
def maxPasswordLength : Nat := 128

/-- `usernamePattern`: a lower-case letter or digit, then two to thirty-one more characters. -/
def usernamePattern (username : GoString) : Bool :=
  match username with
  | [] => false
  | c :: rest =>
    (isLowerOrDigit c) && 2 ≤ rest.length && rest.length ≤ 31 &&
      rest.all fun c => isLowerOrDigit c || c == 0x5F || c == 0x2D
where
  isLowerOrDigit (c : UInt8) : Bool := (0x61 ≤ c.toNat && c.toNat ≤ 0x7A) || isDigit c

/-- `NormalizeUsername`. -/
def NormalizeUsername (u : Unicode) (raw : GoString) : Except ServiceError GoString :=
  let username := toLower u (trimSpace raw)
  if !usernamePattern username then
    .error (.invalid "username must be 3-32 characters of a-z, 0-9, underscore or hyphen, starting with a letter or digit")
  else .ok username

/-- `ValidatePassword`. -/
def ValidatePassword (password : GoString) : Except ServiceError Unit :=
  if (runes password).length < minPasswordLength then
    .error (.invalid "password must be at least 12 characters")
  else if (runes password).length > maxPasswordLength then
    .error (.invalid "password must be at most 128 characters")
  else .ok ()

example : NormalizeUsername .ascii (lit " Ann-1 ") = .ok (lit "ann-1") := by decide

end Purels.Security
