import Purels.Go.Strings

/-!
# JSON values

A value that `encoding/json` decodes, and the conversions it makes into the fields
of a structure.

* `Json`: the values.  A number keeps its literal.
* `Json.toBool`, `Json.toInt`, `Json.toText`: scalar fields.
* `Slice` and `Json.toStrings`: a list field, decoded into the memory it has.
* `fieldOf`: the field a key names.
* `marshalString`: the literal a string is written as.
* `jsonText`: what is read back from it.
-/

namespace Purels.Go

inductive Json where
  | null
  | bool (b : Bool)
  | number (literal : GoString)
  | string (s : GoString)
  | array (items : List Json)
  | object (members : List (GoString × Json))

/-- `strconv.ParseInt` of a JSON number, in base 10 and 64 bits. -/
def parseInt64 (literal : GoString) : Option Int :=
  let digits := if literal.head? = some 0x2D then literal.tail else literal
  if digits = [] || !digits.all (fun c => decide (0x30 ≤ c ∧ c ≤ 0x39)) then none
  else
    let magnitude : Nat := digits.foldl (fun n c => n * 10 + (c.toNat - 0x30)) 0
    let value : Int := if literal.head? = some 0x2D then -magnitude else magnitude
    if -(2 ^ 63 : Int) ≤ value ∧ value < 2 ^ 63 then some value else none

namespace Json

/-- The literal `null`. -/
def isNull : Json → Bool
  | .null => true
  | _ => false

/-- Into a `bool`. -/
def toBool : Json → Option Bool
  | .bool b => some b
  | _ => none

/-- Into an `int` or an `int64`. -/
def toInt : Json → Option Int
  | .number literal => parseInt64 literal
  | _ => none

/-- Into a `string`. -/
def toText : Json → Option GoString
  | .string s => some s
  | _ => none

end Json

/-- A slice of strings with the rest of its memory. -/
structure Slice where
  values : List GoString
  spare : List GoString := []

/-- An element of a list: `null` leaves what its memory holds. -/
def Json.toElement (held : GoString) : Json → Option GoString
  | .string s => some s
  | .null => some held
  | _ => none

/-- Elements decoded into the memory one after the other. -/
def Json.toElements : (memory : List GoString) → List Json → Option (List GoString)
  | _, [] => some []
  | memory, item :: items => do
    let first ← item.toElement (memory.head?.getD [])
    let rest ← Json.toElements memory.tail items
    some (first :: rest)

/-- Into a `[]string` that is there.  An empty array makes a new slice. -/
def Json.toStrings (slice : Slice) : Json → Option Slice
  | .array items =>
    let memory := slice.values ++ slice.spare
    if items.isEmpty then some ⟨[], []⟩
    else (Json.toElements memory items).map fun values => ⟨values, memory.drop items.length⟩
  | _ => none

/-- The field a key of an object names: the field of that name, else the first one whose
name is the same up to case. -/
def fieldOf {α : Type} (u : Unicode) (tag : α → GoString) (fields : List α) (key : GoString) :
    Option α :=
  match fields.find? fun field => tag field == key with
  | some field => some field
  | none => fields.find? fun field => equalFold u (tag field) key

/-! ## Writing strings -/

/-- The lower-case digits of a `\u` escape. -/
def hexDigit (n : Nat) : UInt8 := (lit "0123456789abcdef").getD n 0

/-- The `\u00` escape of an ASCII code. -/
def unicodeEscape (c : Nat) : GoString := lit "\\u00" ++ [hexDigit (c / 16), hexDigit (c % 16)]

/-- How one rune is written: the quote, the backslash, the controls and the characters HTML
gives a meaning are escaped, and so are the line separators of JavaScript. -/
def marshalRune (r : Rune) : GoString :=
  if r.code = 0x22 ∨ r.code = 0x5C then 0x5C :: r.bytes
  else if r.code = 0x08 then lit "\\b"
  else if r.code = 0x0C then lit "\\f"
  else if r.code = 0x0A then lit "\\n"
  else if r.code = 0x0D then lit "\\r"
  else if r.code = 0x09 then lit "\\t"
  else if r.code < 0x20 ∨ r.code = 0x3C ∨ r.code = 0x3E ∨ r.code = 0x26 then unicodeEscape r.code
  else if r.code = runeError ∧ r.bytes.length = 1 then lit "\\ufffd"
  else if r.code = 0x2028 then lit "\\u2028"
  else if r.code = 0x2029 then lit "\\u2029"
  else r.bytes

/-- `json.Marshal` of a string, HTML escaping on. -/
def marshalString (s : GoString) : GoString :=
  lit "\"" ++ (runes s).flatMap marshalRune ++ lit "\""

/-- What JSON keeps of a string: a byte that belongs to no character becomes U+FFFD. -/
def jsonText (s : GoString) : GoString :=
  (runes s).flatMap fun r =>
    if r.code = runeError ∧ r.bytes.length = 1 then encodeRune runeError else r.bytes

/-- Valid text is kept. -/
theorem jsonText_of_valid {s : GoString} (h : validString s) : jsonText s = s := by
  have hrune : ∀ r ∈ runes s,
      (if r.code = runeError ∧ r.bytes.length = 1 then encodeRune runeError else r.bytes) =
        r.bytes := by
    intro r hr
    have hvalid := List.all_eq_true.mp h r hr
    rw [if_neg]
    rintro ⟨hcode, hlength⟩
    rw [hcode, hlength] at hvalid
    exact absurd hvalid (by decide)
  calc jsonText s = ofRunes (runes s) := List.flatMap_congr hrune
    _ = s := ofRunes_runes s

/-- A valid text stays valid when it is trimmed. -/
theorem validString_trimSpace {s : GoString} (h : validString s) : validString (trimSpace s) := by
  apply List.all_eq_true.mpr
  intro r hr
  rw [runes_trimSpace] at hr
  exact List.all_eq_true.mp h r
    ((List.dropWhile_suffix _).subset ((List.rdropWhile_prefix _ _).subset hr))

example : marshalString (lit "a</script>") = lit "\"a\\u003c/script\\u003e\"" := by decide

end Purels.Go
