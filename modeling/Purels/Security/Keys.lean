import Purels.Domain.Models
import Purels.Security.SecondFactor

/-!
# The key of the secret box

`decodeKey` and `NewSecretBox`, with the two encodings of the standard library a key may
be pasted in.

* `hexDecodeString`, `base64Decode`: the decoders.
* `decodeKey`: the three forms of a key.
* `NewSecretBox`.
-/

namespace Purels.Security

open Go

/-! ## Decoders -/

/-- `hex.DecodeString`. -/
def hexDecodeString : GoString → Option (List UInt8)
  | [] => some []
  | [_] => none
  | a :: b :: rest =>
    if isHex a && isHex b then
      (hexDecodeString rest).map (UInt8.ofNat (unhex a * 16 + unhex b) :: ·)
    else none

/-- The value of a digit of the standard alphabet. -/
def base64Value (c : UInt8) : Option Nat :=
  if 0x41 ≤ c ∧ c ≤ 0x5A then some (c.toNat - 0x41)
  else if 0x61 ≤ c ∧ c ≤ 0x7A then some (c.toNat - 0x61 + 26)
  else if 0x30 ≤ c ∧ c ≤ 0x39 then some (c.toNat - 0x30 + 52)
  else if c = 0x2B then some 62
  else if c = 0x2F then some 63
  else none

/-- The first bytes of a quantum of four digits. -/
def quantum (size a b c d : Nat) : List UInt8 :=
  [UInt8.ofNat (a * 4 + b / 16), UInt8.ofNat (b * 16 + c / 4), UInt8.ofNat (c * 64 + d)].take size

/-- The quanta of `base64.StdEncoding`, or of `base64.RawStdEncoding` without the padding.
The spare bits of the last one may have any value. -/
def base64Quanta (padded : Bool) : GoString → Option (List UInt8)
  | [] => some []
  | [_] => none
  | [a, b] =>
    if padded then none
    else
      match base64Value a, base64Value b with
      | some a, some b => some (quantum 1 a b 0 0)
      | _, _ => none
  | [a, b, c] =>
    if padded then none
    else
      match base64Value a, base64Value b, base64Value c with
      | some a, some b, some c => some (quantum 2 a b c 0)
      | _, _, _ => none
  | a :: b :: c :: d :: rest =>
    match base64Value a, base64Value b with
    | some a, some b =>
      if padded ∧ c = 0x3D then if d = 0x3D ∧ rest = [] then some (quantum 1 a b 0 0) else none
      else
        match base64Value c with
        | none => none
        | some c =>
          if padded ∧ d = 0x3D then if rest = [] then some (quantum 2 a b c 0) else none
          else
            match base64Value d with
            | none => none
            | some d => (base64Quanta padded rest).map (quantum 3 a b c d ++ ·)
    | _, _ => none

/-- `DecodeString`: line ends are skipped. -/
def base64Decode (padded : Bool) (s : GoString) : Option (List UInt8) :=
  base64Quanta padded (s.filter fun c => c != 0x0A && c != 0x0D)

example : base64Decode true (lit "TWE=") = some (lit "Ma") := by decide
example : base64Decode false (lit "TWE") = some (lit "Ma") := by decide

/-! ## Keys -/

/-- `decodeKey`: 32 raw bytes, 64 hexadecimal digits, or the base 64 of 32 bytes. -/
def decodeKey (key : GoString) : Except ServiceError (List UInt8) :=
  let trimmed := trimSpace key
  if trimmed = [] then .error (.invalid "no encryption key configured")
  else if trimmed.length = 32 then .ok trimmed
  else
    match thirtyTwo (hexDecodeString trimmed), thirtyTwo (base64Decode true trimmed),
        thirtyTwo (base64Decode false trimmed) with
    | some decoded, _, _ => .ok decoded
    | none, some decoded, _ => .ok decoded
    | none, none, some decoded => .ok decoded
    | none, none, none =>
      .error (.invalid "the encryption key must be 32 raw bytes, 64 hex characters, or base64 for 32 bytes")
where
  /-- A decoded key of the right length. -/
  thirtyTwo (decoded : Option (List UInt8)) : Option (List UInt8) :=
    decoded.filter fun key => key.length == 32

/-- `NewSecretBox`.  A key of 32 bytes makes an AES-256 block, which GCM takes. -/
def NewSecretBox (key : GoString) : Except ServiceError SecretBox :=
  (decodeKey key).map fun _ => ⟨true⟩

end Purels.Security
