import Purels.Security.Links

/-!
# Host names and their trailing dots

`bit.ly` and `bit.ly.` name the same host.  `trimDot` takes the dot away, and
`covers_iff_trimDot` says when the comparison of the denylist, made on hosts as
written, agrees with the one on trimmed hosts.
-/

namespace Purels.Properties

open Go Security

/-- A host without one trailing dot. -/
def trimDot (host : GoString) : GoString :=
  if host.getLast? = some 0x2E then host.dropLast else host

/-- The host ends in a dot. -/
def endsDot (host : GoString) : Bool := host.getLast? == some 0x2E

theorem covers_concat (c : UInt8) (entry host : GoString) :
    covers (entry ++ [c]) (host ++ [c]) = covers entry host := by
  have hsuffix : (0x2E :: (entry ++ [c]) <:+ host ++ [c]) ↔ (0x2E :: entry <:+ host) := by
    rw [← List.reverse_prefix, ← List.reverse_prefix]
    simp
  simp [covers, hsuffix]

/-- A covered host ends as its entry does. -/
theorem getLast?_of_covers {entry host : GoString} (hne : entry ≠ [])
    (h : covers entry host) : host.getLast? = entry.getLast? := by
  rcases Bool.or_eq_true_iff.mp h with heq | hsuffix
  · rw [beq_iff_eq.mp heq]
  · obtain ⟨before, rfl⟩ := of_decide_eq_true hsuffix
    obtain ⟨front, last, rfl⟩ := List.eq_nil_or_concat entry |>.resolve_left hne
    have hassoc : before ++ 0x2E :: (front ++ [last]) = (before ++ 0x2E :: front) ++ [last] := by
      simp
    rw [List.concat_eq_append, hassoc, List.getLast?_concat, List.getLast?_concat]

/-- Entry by entry, what the code compares is what the trimmed hosts say when
both or neither end in a dot. -/
theorem covers_iff_trimDot {entry host : GoString} (hne : entry ≠ []) :
    covers entry host ↔ covers (trimDot entry) (trimDot host) ∧ endsDot entry = endsDot host := by
  by_cases he : entry.getLast? = some 0x2E <;> by_cases hh : host.getLast? = some 0x2E
  · obtain ⟨front, rfl⟩ := List.getLast?_eq_some_iff.mp he
    obtain ⟨front', rfl⟩ := List.getLast?_eq_some_iff.mp hh
    simp [covers_concat, trimDot, endsDot]
  · have hdots : endsDot entry ≠ endsDot host := by simp [endsDot, he, hh]
    simp only [hdots, and_false, iff_false]
    exact fun h => hh (getLast?_of_covers hne h ▸ he)
  · have hdots : endsDot entry ≠ endsDot host := by simp [endsDot, he, hh]
    simp only [hdots, and_false, iff_false]
    exact fun h => he (getLast?_of_covers hne h ▸ hh)
  · simp [trimDot, endsDot, he, hh]

end Purels.Properties
