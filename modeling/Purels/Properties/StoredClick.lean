import Purels.Go.Utf8
import Purels.Service.Clicks

/-!
# Clicks that are stored

The headers of a click against the insert of its event, into a database that refuses text which
is not UTF-8. `truncate` cuts at a byte, and `RecordClick` discards the error.

* `ClickStored`: what is bound fits its column, and the event is inserted.
* `clickStored_iff`: this is so exactly when both cuts are clean.
* `click_lost`: a character across the cut loses the click.
-/

namespace Purels.Properties

open Go Security Store Service

/-- What is bound for a value is text that fits its column. -/
def Binds (value : GoString) (width : Nat) : Prop :=
  validString (truncate value width) ∧ (runes (truncate value width)).length ≤ width

/-- A click with these headers is stored, whichever it is. -/
structure ClickStored (userAgent referrer : GoString) : Prop where
  agent_bound : validString userAgent → Binds userAgent 512
  referrer_bound : validString referrer → Binds referrer 2048
  stored : ∀ (u : Unicode) (hash : GoString → Option (List UInt8)) (link : Link)
    (requestIP : GoString) (id : Uuid) (now : Instant) (s : ClickTables), link.id ∈ s.links →
    (∀ event ∈ s.events, event.id ≠ id) →
      (RecordClick u hash link requestIP userAgent referrer id now s).events =
        s.events ++ [storedClick u hash link.id requestIP userAgent referrer id now]

/-! ## One text -/

/-- The text that is bound has no more characters than its column has room for. -/
theorem length_truncate_le (value : GoString) (width : Nat) :
    (runes (truncate value width)).length ≤ width :=
  (length_runes_le _).trans (List.length_take_le ..)

theorem binds_iff {value : GoString} {width : Nat} :
    Binds value width ↔ validString (truncate value width) :=
  and_iff_left (length_truncate_le value width)

/-- A header value is storable when the cut leaves valid text. -/
theorem storable_truncate_iff (value : HeaderValue) (width : Nat) :
    storableText (truncate value.text width) ↔ CutsCleanly value.text width := by
  have hzero : (truncate value.text width).contains 0 = false := by
    rw [Bool.eq_false_iff]
    intro hmem
    exact value.zero_not_mem (List.mem_of_mem_take (List.contains_iff_mem.mp hmem))
  rw [storableText, hzero, ← validString_take_cut]
  simp [truncate]

/-! ## The insert -/

/-- The link of the examples below. -/
def visited : Link where
  id := default
  aliasName := lit "abc"
  destinationURL := lit "https://example.com/"

/-- A click is stored exactly when both of its headers are cut between characters, with nothing
but characters before the cut. -/
theorem clickStored_iff (userAgent referrer : HeaderValue) :
    ClickStored userAgent.text referrer.text ↔
      CutsCleanly userAgent.text 512 ∧ CutsCleanly referrer.text 2048 := by
  rw [← storable_truncate_iff, ← storable_truncate_iff]
  constructor
  · intro h
    by_contra hlost
    have hevents := h.stored .ascii (fun _ => none) visited [] default 0 { links := [visited.id] }
      List.mem_cons_self (List.forall_mem_nil _)
    rw [RecordClick_first, if_neg hlost] at hevents
    cases hevents
  · intro h
    constructor
    case agent_bound =>
      intro _
      exact binds_iff.mpr ((Bool.and_eq_true_iff.mp h.1).1)
    case referrer_bound =>
      intro _
      exact binds_iff.mpr ((Bool.and_eq_true_iff.mp h.2).1)
    case stored =>
      intro u hash link requestIP id now s hlink hfresh
      rw [RecordClick_events u hash link requestIP _ _ now hlink hfresh, if_pos h]

/-- A user agent with a character across the byte number 512. -/
def longAgent : HeaderValue where
  text := List.replicate 511 0x61 ++ [0xC3, 0xA9]
  allowed := by decide +kernel

/-- It is valid text, what is bound for it is not, and its click is lost. -/
theorem click_lost : validString longAgent.text ∧
    (RecordClick .ascii (fun _ => none) visited [] longAgent.text [] default 0
      { links := [visited.id] }).events.length = 0 ∧
    ¬ ClickStored longAgent.text [] := by
  have hvalid : validString longAgent.text = true := by decide +kernel
  have hbroken : validString (truncate longAgent.text 512) = false := by decide +kernel
  refine ⟨hvalid, by decide +kernel, fun h => ?_⟩
  have hbinds := (h.agent_bound hvalid).1
  rw [hbroken] at hbinds
  cases hbinds

end Purels.Properties
