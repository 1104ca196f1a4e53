import Purels.Go.Time

/-!
# Codes of the second factor

One-time codes, recovery codes, and the box the secrets are stored in.

* `Crypto`: the primitives of the standard library.
* `DecodeTOTPSecret`, `hotp`, `VerifyTOTP`: one-time codes.
* `newRecoveryCode`, `NormalizeRecoveryCode`: recovery codes.
* `SecretBox`: secrets at rest.
-/

namespace Purels.Security

open Go

/-- HMAC-SHA-1, SHA-256, the password hash, and AES-GCM under the key of the
deployment, with the nonce a seal draws. -/
structure Crypto where
  hmacSHA1 : List UInt8 → List UInt8 → List UInt8
  sha256 : GoString → List UInt8
  /-- `CheckPassword`. -/
  checkPassword : (password hash : GoString) → Bool
  gcmSeal : (nonce : List UInt8) → GoString → List UInt8
  gcmOpen : List UInt8 → Option GoString

/-! ## Base 32 -/

/-- The digits of the standard encoding. -/
def base32Digit (n : Nat) : UInt8 :=
  if n < 26 then UInt8.ofNat (0x41 + n) else UInt8.ofNat (0x32 + (n - 26))

def base32Value (c : UInt8) : Option Nat :=
  if 0x41 ≤ c ∧ c ≤ 0x5A then some (c.toNat - 0x41)
  else if 0x32 ≤ c ∧ c ≤ 0x37 then some (c.toNat - 0x32 + 26)
  else none

/-- The bytes of a group of digits.  One, three or six digits make none. -/
def base32Group : List Nat → List UInt8
  | [a, b] => [UInt8.ofNat (a * 8 + b / 4)]
  | [a, b, c, d] => [UInt8.ofNat (a * 8 + b / 4), UInt8.ofNat (b * 64 + c * 2 + d / 16)]
  | [a, b, c, d, e] =>
    [UInt8.ofNat (a * 8 + b / 4), UInt8.ofNat (b * 64 + c * 2 + d / 16),
      UInt8.ofNat (d * 16 + e / 2)]
  | [a, b, c, d, e, f, g] =>
    [UInt8.ofNat (a * 8 + b / 4), UInt8.ofNat (b * 64 + c * 2 + d / 16),
      UInt8.ofNat (d * 16 + e / 2), UInt8.ofNat (e * 128 + f * 4 + g / 8)]
  | [a, b, c, d, e, f, g, h] =>
    [UInt8.ofNat (a * 8 + b / 4), UInt8.ofNat (b * 64 + c * 2 + d / 16),
      UInt8.ofNat (d * 16 + e / 2), UInt8.ofNat (e * 128 + f * 4 + g / 8),
      UInt8.ofNat (g * 32 + h)]
  | _ => []

/-- `totpEncoding.DecodeString`: line ends are skipped, and the last group may be
short, with spare bits of any value. -/
def decodeBase32 (s : GoString) : Option (List UInt8) :=
  ((s.filter fun c => c != 0x0A && c != 0x0D).mapM base32Value).map fun digits =>
    (digits.toChunks 8).flatMap base32Group

/-- `totpEncoding.EncodeToString` of five bytes. -/
def encodeBase32Group : List UInt8 → GoString
  | [a, b, c, d, e] =>
    let n := (((a.toNat * 256 + b.toNat) * 256 + c.toNat) * 256 + d.toNat) * 256 + e.toNat
    (List.range 8).map fun i => base32Digit (n / 32 ^ (7 - i) % 32)
  | _ => []

/-! ## One-time codes -/

/-- The step of the code, in seconds. -/
def totpPeriod : Int := 30

def totpDigits : Nat := 6

def totpSkew : Int := 1

/-- `NewTOTPSecret`, of the twenty bytes drawn. -/
def newTOTPSecret (drawn : Fin 20 → UInt8) : GoString :=
  ((List.ofFn drawn).toChunks 5).flatMap encodeBase32Group

section

variable (u : Unicode) (crypto : Crypto)

/-- `DecodeTOTPSecret`. -/
def DecodeTOTPSecret (secret : GoString) : Option (List UInt8) :=
  let normalized := trimRightByte 0x3D ((toUpper u (trimSpace secret)).filter (· != 0x20))
  if normalized = [] then none
  else
    match decodeBase32 normalized with
    | none => none
    | some key => if key = [] then none else some key

/-- `counterAt`. -/
def counterAt (at' : Instant) : Int := at' / second / totpPeriod

/-- Eight bytes, big-endian. -/
def bigEndian (counter : Nat) : List UInt8 :=
  (List.range 8).map fun i => UInt8.ofNat (counter / 256 ^ (7 - i))

/-- `%0*d`: the decimal digits, with zeros in front. -/
def paddedDecimal : (digits value : Nat) → GoString
  | 0, _ => []
  | digits + 1, value => paddedDecimal digits (value / 10) ++ [UInt8.ofNat (0x30 + value % 10)]

/-- `hotp`. -/
def hotp (key : List UInt8) (counter digits : Nat) : GoString :=
  let sum := crypto.hmacSHA1 key (bigEndian counter)
  let offset := (sum.getLast?.getD 0).toNat % 16
  let word := ((sum.drop offset).take 4).foldl (fun n b => n * 256 + b.toNat) 0
  paddedDecimal digits (word % 2 ^ 31 % 10 ^ digits)

/-- `TOTPCode`. -/
def TOTPCode (secret : GoString) (at' : Instant) : Option GoString :=
  (DecodeTOTPSecret u secret).map fun key => hotp crypto key (counterAt at').toNat totpDigits

/-- `VerifyTOTP`. -/
def VerifyTOTP (secret code : GoString) (at' : Instant) : Bool :=
  let candidate := (trimSpace code).filter (· != 0x20)
  if candidate.length ≠ totpDigits then false
  else
    match DecodeTOTPSecret u secret with
    | none => false
    | some key =>
      [-totpSkew, 0, totpSkew].any fun offset =>
        let step := counterAt at' + offset
        decide (0 ≤ step) && hotp crypto key step.toNat totpDigits == candidate

/-! ## Recovery codes -/

/-- `recoveryAlphabet`. -/
def recoveryAlphabet : GoString := lit "23456789abcdefghjkmnpqrstuvwxyz"

/-- A code of `NewRecoveryCodes`, of the ten bytes drawn. -/
def newRecoveryCode (drawn : Fin 10 → UInt8) : GoString :=
  let letters := (List.ofFn drawn).map fun b =>
    recoveryAlphabet.getD (b.toNat % recoveryAlphabet.length) 0
  letters.take 5 ++ 0x2D :: letters.drop 5

/-- `NormalizeRecoveryCode`. -/
def NormalizeRecoveryCode (code : GoString) : GoString :=
  (toLower u (trimSpace code)).filter fun c => c != 0x2D && c != 0x20

/-! ## Secrets at rest -/

/-- Whether a request has a secret to store: the empty one is none. -/
def suppliesSecret (secret : Option GoString) : Bool := secret.any (· != [])

/-- `SecretBox`: whether it was built from a key. -/
structure SecretBox where
  available : Bool

namespace SecretBox

/-- `Seal`. -/
def Seal (box : SecretBox) (nonce : List UInt8) (plaintext : GoString) : Option (List UInt8) :=
  if box.available then some (crypto.gcmSeal nonce plaintext) else none

/-- `Open`. -/
def Open (box : SecretBox) (sealed : List UInt8) : Option GoString :=
  if box.available then crypto.gcmOpen sealed else none

end SecretBox

end

end Purels.Security
