import Purels.Go.Time

/-!
# Domain types

The records the packages share: accounts and the request context, links and
their divert rules, and the requests that create and edit them.

* `Uuid`, with the input syntax PostgreSQL gives it, and `Uuid.parse_toText`.
* `User`, `Context` and `Context.ownerID`, the visibility scope of a request.
* `Link`, `LinkRule` and the link requests.
* `ServiceError`, what an operation can fail with.
-/

namespace Purels

open Go

/-! ## Identifiers -/

/-- A `uuid` value: thirty-two hexadecimal digits. -/
structure Uuid where
  digits : List (Fin 16)
  length_digits : digits.length = 32
  deriving DecidableEq

/-- The identifier whose digits are all `d`. -/
def Uuid.filled (d : Fin 16) : Uuid := ⟨List.replicate 32 d, List.length_replicate ..⟩

instance : Inhabited Uuid := ⟨Uuid.filled 0⟩

/-- A hyphen may follow every second pair of digits but the last; `n` pairs are
still to be read. -/
def skipHyphen (n : Nat) (s : GoString) : GoString :=
  if n % 2 = 0 ∧ 0 < n ∧ s.head? = some 0x2D then s.drop 1 else s

/-- The pairs of digits of `string_to_uuid`, `n` of them still to be read. -/
def uuidDigits : Nat → GoString → Option (List (Fin 16) × GoString)
  | 0, rest => some ([], rest)
  | n + 1, a :: b :: rest =>
    if isHex a && isHex b then
      (uuidDigits n (skipHyphen n rest)).map fun p =>
        (Fin.ofNat 16 (unhex a) :: Fin.ofNat 16 (unhex b) :: p.1, p.2)
    else none
  | _ + 1, _ => none

theorem uuidDigits_length {n : Nat} {s : GoString} {p : List (Fin 16) × GoString}
    (h : uuidDigits n s = some p) : p.1.length = 2 * n := by
  induction n generalizing s p with
  | zero =>
    obtain rfl : ([], s) = p := by simpa [uuidDigits] using h
    rfl
  | succ n ih =>
    rcases s with _ | ⟨a, _ | ⟨b, rest⟩⟩
    · simp [uuidDigits] at h
    · simp [uuidDigits] at h
    · rw [uuidDigits] at h
      split_ifs at h
      obtain ⟨q, hq, rfl⟩ := Option.map_eq_some_iff.mp h
      simp only [List.length_cons, ih hq]
      omega

/-- `string_to_uuid`: hexadecimal digits in either case, optionally in braces. -/
def Uuid.parse (s : GoString) : Option Uuid :=
  let braces := s.head? = some 0x7B
  match h : uuidDigits 16 (if braces then s.drop 1 else s) with
  | none => none
  | some (digits, rest) =>
    if rest = (if braces then [0x7D] else []) then some ⟨digits, uuidDigits_length h⟩ else none

/-- A hexadecimal digit, in lower case. -/
def hexDigit (d : Fin 16) : UInt8 :=
  if d.val < 10 then UInt8.ofNat (0x30 + d.val) else UInt8.ofNat (0x57 + d.val)

/-- The text PostgreSQL writes a `uuid` as. -/
def Uuid.toText (id : Uuid) : GoString :=
  let text := id.digits.map hexDigit
  text.take 8 ++ 0x2D :: (text.drop 8).take 4 ++ 0x2D :: (text.drop 12).take 4 ++
    0x2D :: (text.drop 16).take 4 ++ 0x2D :: text.drop 20

theorem isHex_hexDigit (d : Fin 16) : isHex (hexDigit d) = true := by
  revert d; decide

theorem unhex_hexDigit (d : Fin 16) : Fin.ofNat 16 (unhex (hexDigit d)) = d := by
  revert d; decide

theorem hexDigit_ne (d : Fin 16) : hexDigit d ≠ 0x2D ∧ hexDigit d ≠ 0x7B := by
  revert d; decide

/-- Two digits are a pair. -/
theorem uuidDigits_pair (n : Nat) (a b : Fin 16) (rest : GoString) :
    uuidDigits (n + 1) (hexDigit a :: hexDigit b :: rest) =
      (uuidDigits n (skipHyphen n rest)).map fun p => (a :: b :: p.1, p.2) := by
  simp only [uuidDigits, isHex_hexDigit, unhex_hexDigit, Bool.and_self, if_true]

theorem skipHyphen_digit (n : Nat) (d : Fin 16) (rest : GoString) :
    skipHyphen n (hexDigit d :: rest) = hexDigit d :: rest := by
  simp [skipHyphen, (hexDigit_ne d).1]

/-- Pairs that follow one another. -/
theorem uuidDigits_group (n k : Nat) {ds : List (Fin 16)} (hds : ds.length = 2 * (k + 1))
    (rest : GoString) :
    uuidDigits (n + (k + 1)) (ds.map hexDigit ++ rest) =
      (uuidDigits n (skipHyphen n rest)).map fun p => (ds ++ p.1, p.2) := by
  induction k generalizing ds with
  | zero =>
    match ds, hds with
    | [a, b], _ => exact uuidDigits_pair n a b rest
  | succ k ih =>
    match ds, hds with
    | a :: b :: c :: ds, hds =>
      have hrest : (c :: ds).length = 2 * (k + 1) := by
        simp only [List.length_cons] at hds ⊢
        omega
      calc uuidDigits (n + (k + 1) + 1) ((a :: b :: c :: ds).map hexDigit ++ rest)
          = (uuidDigits (n + (k + 1)) (skipHyphen (n + (k + 1))
              ((c :: ds).map hexDigit ++ rest))).map fun p => (a :: b :: p.1, p.2) :=
            uuidDigits_pair ..
        _ = (uuidDigits (n + (k + 1)) ((c :: ds).map hexDigit ++ rest)).map
              fun p => (a :: b :: p.1, p.2) := by
            rw [List.map_cons, List.cons_append, skipHyphen_digit]
        _ = (uuidDigits n (skipHyphen n rest)).map
              fun p => (a :: b :: c :: ds ++ p.1, p.2) := by
            rw [ih hrest, Option.map_map]
            rfl

/-- A group and the hyphen after it. -/
theorem uuidDigits_hyphen (n k : Nat) {ds : List (Fin 16)} (hds : ds.length = 2 * (k + 1))
    (hn : 0 < n) (heven : n % 2 = 0) (rest : GoString) :
    uuidDigits (n + (k + 1)) (ds.map hexDigit ++ 0x2D :: rest) =
      (uuidDigits n rest).map fun p => (ds ++ p.1, p.2) := by
  rw [uuidDigits_group n k hds, skipHyphen, if_pos ⟨heven, hn, rfl⟩]
  rfl

/-- The text of an identifier names it. -/
theorem Uuid.parse_toText (id : Uuid) : Uuid.parse id.toText = some id := by
  obtain ⟨digits, hlength⟩ := id
  have hdrop : ∀ m, digits.drop m = (digits.drop m).take 4 ++ digits.drop (m + 4) := fun m => by
    rw [← List.drop_drop, List.take_append_drop]
  have hparts : digits = digits.take 8 ++ ((digits.drop 8).take 4 ++ ((digits.drop 12).take 4 ++
      ((digits.drop 16).take 4 ++ digits.drop 20))) := by
    rw [← hdrop 16, ← hdrop 12, ← hdrop 8, List.take_append_drop]
  have hread : uuidDigits 16 (Uuid.toText ⟨digits, hlength⟩) = some (digits, []) := by
    unfold Uuid.toText
    simp only [← List.map_take, ← List.map_drop, List.append_assoc, List.cons_append]
    rw [uuidDigits_hyphen 12 3 (by simp; omega) (by decide) (by decide),
      uuidDigits_hyphen 10 1 (by simp; omega) (by decide) (by decide),
      uuidDigits_hyphen 8 1 (by simp; omega) (by decide) (by decide),
      uuidDigits_hyphen 6 1 (by simp; omega) (by decide) (by decide),
      ← List.append_nil (List.map _ _), uuidDigits_group 0 5 (by simp; omega)]
    simp only [skipHyphen, uuidDigits, Option.map_some, List.append_nil]
    simpa using hparts.symm
  have hbrace : (Uuid.toText ⟨digits, hlength⟩).head? ≠ some 0x7B := by
    match digits, hlength with
    | d :: ds, _ => simpa [Uuid.toText] using (hexDigit_ne d).2
  unfold Uuid.parse
  dsimp only
  split
  · rename_i hnone
    rw [if_neg hbrace, hread] at hnone
    cases hnone
  · rename_i found rest hfound
    rw [if_neg hbrace, hread] at hfound
    obtain ⟨rfl, rfl⟩ := Prod.mk.inj (Option.some.inj hfound)
    rw [if_neg hbrace, if_pos rfl]

/-! ## Accounts and the request context -/

/-- The scopes of `AllScopes`.  A role edit is checked against the list, so no
other string is ever stored. -/
inductive Scope where
  | linksRead
  | linksWrite
  | statsRead
  | tokensManage
  | auditRead
  | usersManage
  | rolesManage
  | oidcManage
  | analyticsManage
  | captchaManage
  | settingsManage
  deriving DecidableEq

/-- The four presets of the roles table. -/
inductive RoleName where
  | admin
  | operator
  | readonly
  | user
  deriving DecidableEq

/-- `domain.User`.  `unrestricted` is the visibility flag of the role. -/
structure User where
  id : Uuid
  username : GoString := []
  role : RoleName := .user
  scopes : List Scope := []
  unrestricted : Bool := false
  mfaEnabled : Bool := false
  deriving DecidableEq

/-- What a request carries once the middleware has authenticated it.  The
scopes are the credential's: the role's for a session, its own for a token. -/
structure Context where
  user : Option User := none
  scopes : List Scope := []
  deriving DecidableEq

/-- `OwnerIDFromContext`: none for an unrestricted account, the actor otherwise. -/
def Context.ownerID (ctx : Context) : Option Uuid :=
  match ctx.user with
  | some user => if user.unrestricted then none else some user.id
  | none => none

/-- `ActorIDFromContext`. -/
def Context.actorID (ctx : Context) : Option Uuid := ctx.user.map User.id

/-- `HasScope`. -/
def Context.hasScope (ctx : Context) (scope : Scope) : Bool := scope ∈ ctx.scopes

/-! ## Links -/

/-- The status column; deletion is soft. -/
inductive LinkStatus where
  | active
  | disabled
  | deleted
  deriving DecidableEq

/-- The match types of a divert rule. -/
inductive MatchType where
  | uaContains
  | device
  deriving DecidableEq

/-- `domain.LinkRule` without the row id, which nothing reads.  A redirect code
of zero inherits the link's. -/
structure LinkRule where
  position : Nat
  matchType : MatchType
  matchValue : GoString
  destinationURL : GoString
  redirectCode : Int
  deriving DecidableEq

/-- `domain.Link`. -/
structure Link where
  id : Uuid
  aliasName : GoString
  destinationURL : GoString
  title : GoString := []
  tags : List GoString := []
  redirectCode : Int := 302
  status : LinkStatus := .active
  version : Nat := 1
  expiresAt : Option Instant := none
  createdAt : Instant := 0
  updatedAt : Instant := 0
  interstitialSeconds : Int := 2
  domain : GoString := []
  lastCheckedAt : Option Instant := none
  lastStatusCode : Option Int := none
  rules : List LinkRule := []
  deriving DecidableEq

/-- `domain.LinkRuleInput`. -/
structure LinkRuleInput where
  matchType : GoString
  matchValue : GoString
  destinationURL : GoString
  redirectCode : Int := 0
  deriving DecidableEq

/-- `domain.CreateLinkRequest`. -/
structure CreateLinkRequest where
  destinationURL : GoString
  aliasName : GoString := []
  title : GoString := []
  tags : List GoString := []
  redirectCode : Int := 0
  expiresAt : GoString := []
  domain : GoString := []
  rules : List LinkRuleInput := []
  interstitialSeconds : Option Int := none
  deriving DecidableEq

/-- `domain.UpdateLinkRequest`: an omitted field leaves the link's unchanged. -/
structure UpdateLinkRequest where
  destinationURL : GoString := []
  redirectCode : Int := 0
  expiresAt : Option GoString := none
  title : Option GoString := none
  tags : Option (List GoString) := none
  status : GoString := []
  domain : Option GoString := none
  rules : Option (List LinkRuleInput) := none
  interstitialSeconds : Option Int := none
  deriving DecidableEq

/-- `domain.BulkLinkRequest`. -/
structure BulkLinkRequest where
  action : GoString
  ids : List GoString
  tags : List GoString := []
  expiresAt : Option GoString := none
  deriving DecidableEq

/-! ## Errors -/

/-- What an operation can fail with: the sentinel errors of the packages, a
validation message, or a database error that was not classified. -/
inductive ServiceError where
  | notFound
  | conflict
  | lastCapabilityHolder
  | quotaExceeded
  | selfDestination
  | invalidCredentials
  | invalidSecondFactor
  | twoFactorUnavailable
  | noEnrolment
  | secretsUnavailable
  | oidcSlugImmutable
  | oidcDiscovery
  | oidcRedirectBase
  | oidcState
  | oidcExchange (detail : String)
  | oidcNotProvisioned
  | captchaInvalidSettings
  | captchaSecretsUnavailable
  | tagCharacters (name : GoString)
  | unknownRole (name : GoString)
  | unknownScope (name : GoString)
  | invalid (message : String)
  | database
  deriving DecidableEq

end Purels
