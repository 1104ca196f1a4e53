import Purels.Domain.Models
import Purels.Security.Links
import Purels.Store.Clicks

/-!
# Recording a click

`RecordClick`, which discards the error of the insert, and the headers it is handed.

* `HeaderValue`: what the HTTP server lets through.
* `RecordClick_cases`: a click changes nothing, or adds its event.
* `RecordClick_events`: a click is stored when both texts are.
-/

namespace Purels.Service

open Go Security Store

/-- A header value that `net/http` delivers: bytes from the blank on but for the delete
character, and tabs. -/
structure HeaderValue where
  text : GoString
  allowed : ∀ b ∈ text, (0x20 ≤ b.toNat ∧ b ≠ 0x7F) ∨ b = 0x09

theorem HeaderValue.zero_not_mem (value : HeaderValue) : (0 : UInt8) ∉ value.text := by
  intro hmem
  rcases value.allowed 0 hmem with ⟨hrange, -⟩ | htab
  · exact absurd hrange (by decide)
  · exact absurd htab (by decide)

section

variable (u : Unicode) (hash : GoString → Option (List UInt8))

/-- The click that `RecordClick` hands to the store; `hash` is that of the configured hasher. -/
def clickOf (linkID : Uuid) (requestIP userAgent referrer : GoString) (id : Uuid) : Click where
  id := id
  linkID := linkID
  ipHash := hash requestIP
  userAgent := userAgent
  referrer := referrer
  isBot := IsBotUA u userAgent

/-- `RecordClick`. -/
def RecordClick (link : Link) (requestIP userAgent referrer : GoString) (id : Uuid)
    (now : Instant) (s : ClickTables) : ClickTables :=
  match s.CreateClickEvent (clickOf u hash link.id requestIP userAgent referrer id) now with
  | .error _ => s
  | .ok s => s

/-- The event of a click. -/
def storedClick (linkID : Uuid) (requestIP userAgent referrer : GoString) (id : Uuid)
    (now : Instant) : ClickEvent where
  id := id
  linkID := linkID
  occurredAt := now
  ipHash := hash requestIP
  userAgent := some (truncate userAgent 512)
  referrer := some (truncate referrer 2048)
  isBot := IsBotUA u userAgent

/-- A click changes nothing, or its event is added. -/
theorem RecordClick_cases (link : Link) (requestIP userAgent referrer : GoString) (id : Uuid)
    (now : Instant) (s : ClickTables) :
    RecordClick u hash link requestIP userAgent referrer id now s = s ∨
      (storableText (truncate userAgent 512) ∧
        (RecordClick u hash link requestIP userAgent referrer id now s).events =
          s.events ++ [storedClick u hash link.id requestIP userAgent referrer id now]) := by
  unfold RecordClick ClickTables.CreateClickEvent clickOf
  dsimp only
  by_cases htext : (!storableText (truncate userAgent 512) ||
      !storableText (truncate referrer 2048)) = true
  · rw [if_pos htext]
    exact .inl rfl
  rw [if_neg htext]
  by_cases hrow : (!s.links.contains link.id || s.events.any (·.id == id)) = true
  · rw [if_pos hrow]
    exact .inl rfl
  rw [if_neg hrow]
  rw [Bool.or_eq_true, not_or, Bool.not_eq_true', Bool.not_eq_false] at htext
  exact .inr ⟨htext.1, rfl⟩

/-- A click on a stored link under a fresh identifier is recorded when both texts are storable,
and is dropped otherwise. -/
theorem RecordClick_events (link : Link) (requestIP userAgent referrer : GoString) {id : Uuid}
    (now : Instant) {s : ClickTables} (hlink : link.id ∈ s.links)
    (hfresh : ∀ event ∈ s.events, event.id ≠ id) :
    (RecordClick u hash link requestIP userAgent referrer id now s).events =
      if storableText (truncate userAgent 512) ∧ storableText (truncate referrer 2048) then
        s.events ++ [storedClick u hash link.id requestIP userAgent referrer id now]
      else s.events := by
  have hknown : s.links.contains link.id = true := List.contains_iff_mem.mpr hlink
  have hnone : s.events.any (·.id == id) = false := by
    rw [List.any_eq_false]
    intro event hevent
    simpa using hfresh event hevent
  unfold RecordClick ClickTables.CreateClickEvent clickOf
  dsimp only
  by_cases hagent : storableText (truncate userAgent 512) = true
  · by_cases hreferrer : storableText (truncate referrer 2048) = true
    · rw [hagent, hreferrer, hknown, hnone]
      rfl
    · rw [Bool.not_eq_true] at hreferrer
      rw [hagent, hreferrer]
      rfl
  · rw [Bool.not_eq_true] at hagent
    rw [hagent]
    simp

/-- The first click of a link. -/
theorem RecordClick_first (link : Link) (requestIP userAgent referrer : GoString) (id : Uuid)
    (now : Instant) :
    (RecordClick u hash link requestIP userAgent referrer id now { links := [link.id] }).events =
      if storableText (truncate userAgent 512) ∧ storableText (truncate referrer 2048) then
        [storedClick u hash link.id requestIP userAgent referrer id now]
      else [] :=
  RecordClick_events u hash link requestIP userAgent referrer now List.mem_cons_self
    (List.forall_mem_nil _)

end

end Purels.Service
