import Purels.Security.Keys
import Purels.Service.TwoFactor

/-!
# The secrets of a deployment

* `secretEncryptionKey`: the configured key, from the two variables it may stand in.
* `SecretsAvailable`, which looks at the key, and `secretBox`, which is built from it.
* `authConfig`: what the services of the second factor are given of both.
-/

namespace Purels.Config

open Go Security Service

/-- The lookup of `secretEncryptionKey` over `SECRET_ENCRYPTION_KEY` and the older
`TOTP_ENCRYPTION_KEY`. -/
def secretEncryptionKey (key legacy : GoString) : GoString :=
  if trimSpace key = [] then trimSpace legacy else trimSpace key

/-- `SecretsAvailable`. -/
def SecretsAvailable (secretEncryptionKey : GoString) : Bool := secretEncryptionKey != []

/-- The box of the API process: the zero one when it could not be built. -/
def secretBox (secretEncryptionKey : GoString) : SecretBox :=
  match NewSecretBox secretEncryptionKey with
  | .ok box => box
  | .error _ => ⟨false⟩

/-- What the process makes of the environment. -/
def authConfig (u : Unicode) (crypto : Crypto) (key legacy : GoString)
    (challengeTTL sessionTTL : Int) : AuthConfig where
  u := u
  crypto := crypto
  box := secretBox (secretEncryptionKey key legacy)
  secretsAvailable := SecretsAvailable (secretEncryptionKey key legacy)
  challengeTTL := challengeTTL
  sessionTTL := sessionTTL

/-- The box is usable when the key decodes. -/
theorem secretBox_available (key : GoString) :
    (secretBox key).available = (decodeKey key).isOk := by
  unfold secretBox NewSecretBox
  cases decodeKey key <;> rfl

end Purels.Config
