import Purels.Go.Json
import Purels.Js.Strings
import Purels.Lib.Numerals

/-!
# String literals of a script

A scan of a script for its string literals, with the values they stand for.  The scan gives up
at what may begin a comment, a regular expression or a template, and so whatever it returns is
how a browser reads the script.

* `lexUnit` and `lex`: one code unit, and a text.
* `literals`: the literals of a script, in order.
* `Reads`: a text that leaves the scan outside of a literal, and `Reads.append`.
* `reads_marshalString`: the text that JSON writes a string as is one literal of that value.
-/

namespace Purels.Js

open Go Lib

/-- A string literal: its quote, and the code units of its value. -/
structure Literal where
  quote : Nat
  value : List Nat
  deriving DecidableEq

/-- Where a scan stands. -/
inductive Mode where
  | code
  | inside (quote : Nat) (value : List Nat)
  | escape (quote : Nat) (value : List Nat)
  | hex (quote : Nat) (value : List Nat) (left : Nat) (n : Nat)
  deriving DecidableEq

/-- A scan, with the literals it has passed. -/
structure Lexer where
  mode : Mode
  passed : List Literal
  deriving DecidableEq

/-- What may begin a comment, a regular expression or a template, or escape a name. -/
def opensOther (c : Nat) : Bool :=
  c == 0x2F || c == 0x60 || c == 0x3C || c == 0x2D || c == 0x23 || c == 0x5C

/-- The character after a backslash; digits and line ends are not read. -/
def escaped (c : Nat) : Option Nat :=
  if c = 0x62 then some 0x08
  else if c = 0x66 then some 0x0C
  else if c = 0x6E then some 0x0A
  else if c = 0x72 then some 0x0D
  else if c = 0x74 then some 0x09
  else if c = 0x76 then some 0x0B
  else if (0x30 ≤ c ∧ c ≤ 0x39) ∨ c = 0x0A ∨ c = 0x0D ∨ c = 0x2028 ∨ c = 0x2029 then none
  else some c

/-- The next code unit. -/
def lexUnit (s : Lexer) (c : Nat) : Option Lexer :=
  match s.mode with
  | .code =>
    if c = 0x22 ∨ c = 0x27 then some { s with mode := .inside c [] }
    else if opensOther c then none
    else some s
  | .inside quote value =>
    if c = quote then some ⟨.code, s.passed ++ [⟨quote, value⟩]⟩
    else if c = 0x5C then some { s with mode := .escape quote value }
    else if c = 0x0A ∨ c = 0x0D then none
    else some { s with mode := .inside quote (value ++ [c]) }
  | .escape quote value =>
    if c = 0x75 then some { s with mode := .hex quote value 3 0 }
    else if c = 0x78 then some { s with mode := .hex quote value 1 0 }
    else (escaped c).map fun d => { s with mode := .inside quote (value ++ [d]) }
  | .hex quote value left n =>
    (digitValue c).map fun d =>
      match left with
      | 0 => { s with mode := .inside quote (value ++ [n * 16 + d]) }
      | left + 1 => { s with mode := .hex quote value left (n * 16 + d) }

/-- The code units of a text, one after the other. -/
def lex (text : List Nat) (s : Lexer) : Option Lexer := text.foldlM lexUnit s

/-- The literals of a script, when the scan does not give up and no literal is left open. -/
def literals (text : List Nat) : Option (List Literal) :=
  match lex text ⟨.code, []⟩ with
  | some ⟨.code, passed⟩ => some passed
  | _ => none

/-! ## Texts in sequence -/

theorem lex_append (a b : List Nat) (s : Lexer) : lex (a ++ b) s = (lex a s).bind (lex b) :=
  List.foldlM_append

theorem lex_cons (c : Nat) (text : List Nat) (s : Lexer) :
    lex (c :: text) s = (lexUnit s c).bind (lex text) :=
  List.foldlM_cons

/-- What has been passed before does not matter. -/
theorem lexUnit_passed (mode : Mode) (a b : List Literal) (c : Nat) :
    lexUnit ⟨mode, a ++ b⟩ c =
      (lexUnit ⟨mode, b⟩ c).map fun s => { s with passed := a ++ s.passed } := by
  cases mode with
  | code =>
    unfold lexUnit
    dsimp only
    split
    · rfl
    · split
      · rfl
      · rfl
  | inside quote value =>
    unfold lexUnit
    dsimp only
    split
    · rw [List.append_assoc]
      rfl
    · split
      · rfl
      · split
        · rfl
        · rfl
  | escape quote value =>
    unfold lexUnit
    dsimp only
    split
    · rfl
    · split
      · rfl
      · rw [Option.map_map]
        rfl
  | hex quote value left n =>
    unfold lexUnit
    dsimp only
    rw [Option.map_map]
    cases left with
    | zero => rfl
    | succ left => rfl

theorem lex_passed (text : List Nat) (mode : Mode) (a b : List Literal) :
    lex text ⟨mode, a ++ b⟩ =
      (lex text ⟨mode, b⟩).map fun s => { s with passed := a ++ s.passed } := by
  induction text generalizing mode b with
  | nil => rfl
  | cons c text ih =>
    rw [lex_cons, lex_cons, lexUnit_passed]
    cases lexUnit ⟨mode, b⟩ c with
    | none => rfl
    | some s => exact ih s.mode s.passed

/-- The scan passes these literals in a text and is outside of a literal after it. -/
def Reads (text : List Nat) (ls : List Literal) : Prop :=
  ∀ passed, lex text ⟨.code, passed⟩ = some ⟨.code, passed ++ ls⟩

theorem Reads.append {s t : List Nat} {a b : List Literal} (hs : Reads s a) (ht : Reads t b) :
    Reads (s ++ t) (a ++ b) := by
  intro passed
  rw [lex_append, hs, Option.bind_some, ht, List.append_assoc]

theorem Reads.literals_eq {text : List Nat} {ls : List Literal} (h : Reads text ls) :
    literals text = some ls := by
  unfold literals
  rw [h []]
  rfl

theorem reads_of_literals {text : List Nat} {ls : List Literal} (h : literals text = some ls) :
    Reads text ls := by
  intro passed
  have hlex : lex text ⟨.code, []⟩ = some ⟨.code, ls⟩ := by
    unfold literals at h
    split at h
    · rename_i heq
      rw [heq, Option.some.inj h]
    · cases h
  have hpassed := lex_passed text .code passed []
  rw [List.append_nil, hlex] at hpassed
  exact hpassed

/-! ## Strings that JSON writes -/

/-- Inside of a literal in double quotes, with a value so far. -/
def quoted (value : List Nat) (passed : List Literal) : Lexer := ⟨.inside 0x22 value, passed⟩

/-- A backslash and a character stand for what the character escapes. -/
theorem lex_escaped {c d : Nat} (hu : c ≠ 0x75) (hx : c ≠ 0x78) (h : escaped c = some d)
    (value : List Nat) (passed : List Literal) :
    lex [0x5C, c] (quoted value passed) = some (quoted (value ++ [d]) passed) := by
  have hchar : lexUnit ⟨.escape 0x22 value, passed⟩ c = some (quoted (value ++ [d]) passed) := by
    unfold lexUnit
    dsimp only
    rw [if_neg hu, if_neg hx, h]
    rfl
  have hslash : lexUnit (quoted value passed) 0x5C = some ⟨.escape 0x22 value, passed⟩ := rfl
  rw [lex_cons, hslash, Option.bind_some, lex_cons, hchar]
  rfl

theorem digitValue_hexDigit {n : Nat} (h : n < 16) :
    digitValue (Go.hexDigit n).toNat = some n := by
  have hall : ∀ n : Fin 16, digitValue (Go.hexDigit n).toNat = some n.val := by decide
  exact hall ⟨n, h⟩

/-- A hexadecimal escape stands for its number. -/
theorem lex_unicodeEscape {c : Nat} (h : c < 0x80) (value : List Nat) (passed : List Literal) :
    lex ((unicodeEscape c).map UInt8.toNat) (quoted value passed) =
      some (quoted (value ++ [c]) passed) := by
  have htext : (unicodeEscape c).map UInt8.toNat =
      [0x5C, 0x75, 0x30, 0x30, (Go.hexDigit (c / 16)).toNat, (Go.hexDigit (c % 16)).toNat] := rfl
  have hhigh : digitValue (Go.hexDigit (c / 16)).toNat = some (c / 16) :=
    digitValue_hexDigit (by omega)
  have hlow : digitValue (Go.hexDigit (c % 16)).toNat = some (c % 16) :=
    digitValue_hexDigit (by omega)
  have hzeros : lex [0x5C, 0x75, 0x30, 0x30] (quoted value passed) =
      some ⟨.hex 0x22 value 1 0, passed⟩ := rfl
  have hdigits : ∀ x y, digitValue x = some (c / 16) → digitValue y = some (c % 16) →
      lex [x, y] ⟨.hex 0x22 value 1 0, passed⟩ =
        some (quoted (value ++ [(0 * 16 + c / 16) * 16 + c % 16]) passed) := by
    intro x y hx hy
    simp only [lex_cons, lexUnit, hx, hy, Option.map_some, Option.bind_some]
    rfl
  have hsplit : (0 * 16 + c / 16) * 16 + c % 16 = c := by omega
  rw [htext]
  show lex ([0x5C, 0x75, 0x30, 0x30] ++ [_, _]) _ = _
  rw [lex_append, hzeros, Option.bind_some, hdigits _ _ hhigh hlow, hsplit]

/-- One character of a string is read as itself. -/
theorem lex_marshalRune {b : UInt8} (hb : b.toNat < 0x80) (value : List Nat)
    (passed : List Literal) :
    lex ((marshalRune ⟨b.toNat, [b]⟩).map UInt8.toNat) (quoted value passed) =
      some (quoted (value ++ [b.toNat]) passed) := by
  unfold marshalRune
  dsimp only
  by_cases hself : b.toNat = 0x22 ∨ b.toNat = 0x5C
  · rw [if_pos hself]
    show lex [0x5C, b.toNat] _ = _
    rcases hself with hquote | hslash
    · rw [hquote]
      exact lex_escaped (by decide) (by decide) rfl value passed
    · rw [hslash]
      exact lex_escaped (by decide) (by decide) rfl value passed
  rw [if_neg hself]
  by_cases hback : b.toNat = 0x08
  · rw [if_pos hback, hback]
    exact lex_escaped (by decide) (by decide) rfl value passed
  rw [if_neg hback]
  by_cases hfeed : b.toNat = 0x0C
  · rw [if_pos hfeed, hfeed]
    exact lex_escaped (by decide) (by decide) rfl value passed
  rw [if_neg hfeed]
  by_cases hnewline : b.toNat = 0x0A
  · rw [if_pos hnewline, hnewline]
    exact lex_escaped (by decide) (by decide) rfl value passed
  rw [if_neg hnewline]
  by_cases hreturn : b.toNat = 0x0D
  · rw [if_pos hreturn, hreturn]
    exact lex_escaped (by decide) (by decide) rfl value passed
  rw [if_neg hreturn]
  by_cases htab : b.toNat = 0x09
  · rw [if_pos htab, htab]
    exact lex_escaped (by decide) (by decide) rfl value passed
  rw [if_neg htab]
  by_cases hhtml : b.toNat < 0x20 ∨ b.toNat = 0x3C ∨ b.toNat = 0x3E ∨ b.toNat = 0x26
  · rw [if_pos hhtml]
    exact lex_unicodeEscape hb value passed
  -- the replacement character and the line separators are not ASCII
  have herror : b.toNat ≠ runeError := by
    rw [runeError]
    omega
  rw [if_neg hhtml, if_neg fun h => herror h.1, if_neg (by omega), if_neg (by omega)]
  have hplain : lexUnit (quoted value passed) b.toNat =
      some (quoted (value ++ [b.toNat]) passed) := by
    unfold lexUnit quoted
    dsimp only
    rw [if_neg (by omega), if_neg (by omega), if_neg (by omega)]
  show lex [b.toNat] _ = _
  rw [lex_cons, hplain]
  rfl

/-- The literal that JSON writes for a text of ASCII is read as that text. -/
theorem reads_marshalString {s : GoString} (h : ∀ b ∈ s, b.toNat < 0x80) :
    Reads ((marshalString s).map UInt8.toNat) [⟨0x22, s.map UInt8.toNat⟩] := by
  have hchars : ∀ (s : GoString) (value : List Nat) (passed : List Literal),
      (∀ b ∈ s, b.toNat < 0x80) →
      lex (((s.map fun b => ⟨b.toNat, [b]⟩).flatMap marshalRune).map UInt8.toNat)
        (quoted value passed) = some (quoted (value ++ s.map UInt8.toNat) passed) := by
    intro s
    induction s with
    | nil =>
      intro value passed _
      simp only [List.map_nil, List.flatMap_nil, List.append_nil]
      rfl
    | cons b s ih =>
      intro value passed h
      rw [List.map_cons, List.flatMap_cons, List.map_append, lex_append,
        lex_marshalRune (h b List.mem_cons_self), Option.bind_some,
        ih _ _ fun c hc => h c (List.mem_cons_of_mem _ hc), List.append_assoc]
      rfl
  intro passed
  have hopen : lex ((lit "\"").map UInt8.toNat) ⟨.code, passed⟩ = some (quoted [] passed) := rfl
  have hclose : ∀ value, lex ((lit "\"").map UInt8.toNat) (quoted value passed) =
      some ⟨.code, passed ++ [⟨0x22, value⟩]⟩ := fun _ => rfl
  rw [marshalString, runes_of_ascii h, List.map_append, List.map_append, lex_append, lex_append,
    hopen, Option.bind_some, hchars s [] passed h, Option.bind_some, hclose]
  rfl

/-- A text of ASCII is written in ASCII, and without a character that opens a tag. -/
theorem marshalString_ascii {s : GoString} (h : ∀ b ∈ s, b.toNat < 0x80) :
    ∀ x ∈ marshalString s, x.toNat < 0x80 ∧ x ≠ 0x3C := by
  have hrune : ∀ c : Fin 0x80, ∀ x ∈ marshalRune ⟨c, [UInt8.ofNat c]⟩,
      x.toNat < 0x80 ∧ x ≠ 0x3C := by
    decide +kernel
  have hquote : ∀ x ∈ lit "\"", x.toNat < 0x80 ∧ x ≠ 0x3C := by decide +kernel
  intro x hx
  rw [marshalString, runes_of_ascii h, List.mem_append, List.mem_append] at hx
  rcases hx with (hopen | hchar) | hclose
  · exact hquote x hopen
  · obtain ⟨r, hr, hx⟩ := List.mem_flatMap.mp hchar
    obtain ⟨b, hb, rfl⟩ := List.mem_map.mp hr
    have hbyte := hrune ⟨b.toNat, h b hb⟩ x
    simp only [UInt8.ofNat_toNat] at hbyte
    exact hbyte hx
  · exact hquote x hclose

end Purels.Js
