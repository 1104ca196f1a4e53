import Mathlib.Data.List.Sort
import Purels.Domain.Models

/-!
# Scopes by name

The vocabulary of scopes as the strings that a request carries, and the set that an API
token is minted with.

* `Scope.text`, `allScopes`, `knownScope`: the vocabulary.
* `defaultTokenScopes`.
* `normalizeRoleScopes`: a submitted set of permissions in its canonical form.
-/

namespace Purels

open Go

/-- The string of a scope. -/
def Scope.text : Scope → GoString
  | .linksRead => lit "links:read"
  | .linksWrite => lit "links:write"
  | .statsRead => lit "stats:read"
  | .tokensManage => lit "tokens:manage"
  | .auditRead => lit "audit:read"
  | .usersManage => lit "users:manage"
  | .rolesManage => lit "roles:manage"
  | .oidcManage => lit "oidc:manage"
  | .analyticsManage => lit "analytics:manage"
  | .captchaManage => lit "captcha:manage"
  | .settingsManage => lit "settings:manage"

/-- `AllScopes`. -/
def allScopes : List Scope :=
  [.linksRead, .linksWrite, .statsRead, .tokensManage, .auditRead, .usersManage, .rolesManage,
    .oidcManage, .analyticsManage, .captchaManage, .settingsManage]

/-- `DefaultTokenScopes`. -/
def defaultTokenScopes : List Scope := [.linksRead, .linksWrite, .statsRead]

/-- `IsKnownScope`, with the scope that the string names. -/
def knownScope (text : GoString) : Option Scope := allScopes.find? fun scope => scope.text == text

/-- The loop of `normalizeRoleScopes`; `seen` is what it has kept so far. -/
def normalizeScopes (seen : List Scope) : List GoString → Except ServiceError (List Scope)
  | [] => .ok seen
  | text :: rest =>
    match knownScope text with
    | none => .error (.unknownScope text)
    | some scope => normalizeScopes (if seen.contains scope then seen else seen ++ [scope]) rest

/-- `normalizeRoleScopes`. -/
def normalizeRoleScopes (scopes : List GoString) : Except ServiceError (List Scope) :=
  (normalizeScopes [] scopes).map fun kept => kept.insertionSort fun a b => a.text ≤ b.text

/-- Every scope is known by its name. -/
theorem knownScope_text (scope : Scope) : knownScope scope.text = some scope := by
  cases scope <;> decide

/-- A set of names of scopes is kept as it is, up to its order and repetitions. -/
theorem normalizeScopes_text (scopes seen : List Scope) :
    ∃ kept, normalizeScopes seen (scopes.map Scope.text) = .ok kept ∧
      ∀ scope, scope ∈ kept ↔ scope ∈ seen ∨ scope ∈ scopes := by
  induction scopes generalizing seen with
  | nil => exact ⟨seen, rfl, fun scope => by simp⟩
  | cons first rest ih =>
    obtain ⟨kept, hkept, hmem⟩ := ih (if seen.contains first then seen else seen ++ [first])
    refine ⟨kept, ?_, fun scope => ?_⟩
    · rw [List.map_cons, normalizeScopes, knownScope_text]
      exact hkept
    · rw [hmem scope]
      by_cases hseen : first ∈ seen
      · simp only [List.contains_iff_mem, hseen, if_true, List.mem_cons]
        constructor
        · rintro (hold | hnew)
          · exact .inl hold
          · exact .inr (.inr hnew)
        · rintro (hold | rfl | hnew)
          · exact .inl hold
          · exact .inl hseen
          · exact .inr hnew
      · simp only [List.contains_iff_mem, hseen, if_false, List.mem_append, List.mem_cons,
          List.not_mem_nil, or_false, or_assoc]

/-- Any subset of the vocabulary can be given to a role. -/
theorem normalizeRoleScopes_text (scopes : List Scope) :
    ∃ kept, normalizeRoleScopes (scopes.map Scope.text) = .ok kept ∧
      ∀ scope, scope ∈ kept ↔ scope ∈ scopes := by
  obtain ⟨kept, hkept, hmem⟩ := normalizeScopes_text scopes []
  refine ⟨kept.insertionSort fun a b => a.text ≤ b.text, ?_, fun scope => ?_⟩
  · rw [normalizeRoleScopes, hkept]
    rfl
  · rw [List.mem_insertionSort, hmem scope]
    simp

end Purels
