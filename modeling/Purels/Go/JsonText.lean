import Purels.Go.Json
import Purels.Lib.Numerals

/-!
# Reading JSON

The texts that `encoding/json` decodes, rune by rune.

* `hex4` and `stringTail`: the literal of a string.
* `numberLiteral`: the literal of a number, which is kept.
* `parseValue`, `parseElements`, `parseMembers`: values, at most ten thousand deep.
* `parseJson`: a whole text.
-/

namespace Purels.Go

/-! ## Strings -/

/-- The value of four hexadecimal digits. -/
def hex4 (a b c d : Rune) : Option Nat :=
  match Lib.digitValue a.code, Lib.digitValue b.code, Lib.digitValue c.code,
      Lib.digitValue d.code with
  | some a, some b, some c, some d => some (((a * 16 + b) * 16 + c) * 16 + d)
  | _, _, _, _ => none

/-- `getu4`: the unit of an escape `\uXXXX` at the start of a text, and what follows it. -/
def getu4 : List Rune → Option (Nat × List Rune)
  | s :: e :: a :: b :: c :: d :: rest =>
    if s.code = 0x5C ∧ e.code = 0x75 then (hex4 a b c d).map fun n => (n, rest) else none
  | _ => none

/-- `utf16.IsSurrogate`. -/
def isSurrogate (n : Nat) : Bool := 0xD800 ≤ n && n < 0xE000

/-- `utf16.DecodeRune`, of a pair that is one. -/
def decodeSurrogates (high low : Nat) : Option Nat :=
  if 0xD800 ≤ high ∧ high < 0xDC00 ∧ 0xDC00 ≤ low ∧ low < 0xE000 then
    some ((high - 0xD800) * 0x400 + (low - 0xDC00) + 0x10000)
  else none

/-- The character of a short escape. -/
def shortEscape (c : Nat) : Option Nat :=
  if c = 0x22 ∨ c = 0x5C ∨ c = 0x2F then some c
  else if c = 0x62 then some 0x08
  else if c = 0x66 then some 0x0C
  else if c = 0x6E then some 0x0A
  else if c = 0x72 then some 0x0D
  else if c = 0x74 then some 0x09
  else none

/-- A string literal after its opening quote: its text, and what follows the closing one.  A half
of a pair and a byte that belongs to no character become U+FFFD. -/
def stringTail : Nat → List Rune → Option (GoString × List Rune)
  | 0, _ => none
  | _, [] => none
  | fuel + 1, r :: rest =>
    let more (c : Nat) (rest : List Rune) : Option (GoString × List Rune) :=
      (stringTail fuel rest).map fun (s, rest) => (encodeRune c ++ s, rest)
    if r.code = 0x22 then some ([], rest)
    else if r.code < 0x20 then none
    else if r.code ≠ 0x5C then more r.code rest
    else
      match getu4 (r :: rest) with
      | some (n, rest) =>
        if isSurrogate n then
          match getu4 rest with
          | none => more runeError rest
          | some (low, rest') =>
            match decodeSurrogates n low with
            | some c => more c rest'
            | none => more runeError rest
        else more n rest
      | none =>
        match rest with
        | [] => none
        | e :: rest =>
          match shortEscape e.code with
          | some c => more c rest
          | none => none

/-! ## Numbers -/

def isDigitRune (r : Rune) : Bool := 0x30 ≤ r.code && r.code ≤ 0x39

/-- One digit or more. -/
def digitRun (s : List Rune) : Option (List Rune × List Rune) :=
  if s.takeWhile isDigitRune = [] then none
  else some (s.takeWhile isDigitRune, s.dropWhile isDigitRune)

/-- The digits before a point: no zero before others. -/
def wholePart (s : List Rune) : Option (List Rune × List Rune) :=
  match s with
  | [] => none
  | r :: rest => if r.code = 0x30 then some ([r], rest) else digitRun (r :: rest)

/-- A point and digits. -/
def fractionPart (s : List Rune) : Option (List Rune × List Rune) :=
  match s with
  | [] => some ([], [])
  | r :: rest =>
    if r.code = 0x2E then (digitRun rest).map fun (digits, rest) => (r :: digits, rest)
    else some ([], r :: rest)

/-- An exponent. -/
def exponentPart (s : List Rune) : Option (List Rune × List Rune) :=
  match s with
  | [] => some ([], [])
  | r :: rest =>
    if r.code = 0x65 ∨ r.code = 0x45 then
      match rest with
      | [] => none
      | sign :: after =>
        if sign.code = 0x2B ∨ sign.code = 0x2D then
          (digitRun after).map fun (digits, rest) => (r :: sign :: digits, rest)
        else (digitRun rest).map fun (digits, rest) => (r :: digits, rest)
    else some ([], r :: rest)

/-- The literal of a number, and what follows it. -/
def numberLiteral (s : List Rune) : Option (GoString × List Rune) := do
  let (minus, s) :=
    match s with
    | r :: rest => if r.code = 0x2D then ([r], rest) else ([], r :: rest)
    | [] => ([], [])
  let (whole, s) ← wholePart s
  let (fraction, s) ← fractionPart s
  let (exponent, s) ← exponentPart s
  some (ofRunes (minus ++ whole ++ fraction ++ exponent), s)

/-! ## Values -/

/-- `isSpace` of the scanner. -/
def isJsonSpace (r : Rune) : Bool :=
  r.code == 0x20 || r.code == 0x09 || r.code == 0x0D || r.code == 0x0A

def skipJsonSpace (s : List Rune) : List Rune := s.dropWhile isJsonSpace

/-- A name at the start of a text. -/
def keyword (name : String) (s : List Rune) : Option (List Rune) :=
  let codes := (lit name).map UInt8.toNat
  if (s.take codes.length).map Rune.code = codes then some (s.drop codes.length) else none

/-- One of the names, or a number. -/
def scalar (s : List Rune) : Option (Json × List Rune) :=
  match keyword "true" s, keyword "false" s, keyword "null" s with
  | some rest, _, _ => some (.bool true, rest)
  | none, some rest, _ => some (.bool false, rest)
  | none, none, some rest => some (.null, rest)
  | none, none, none => (numberLiteral s).map fun (literal, rest) => (.number literal, rest)

/-- `maxNestingDepth`. -/
def maxNestingDepth : Nat := 10000

mutual

/-- A value, in at most `depth` more arrays and objects, and what follows it. -/
def parseValue : Nat → Nat → List Rune → Option (Json × List Rune)
  | 0, _, _ => none
  | fuel + 1, depth, s =>
    match skipJsonSpace s with
    | [] => none
    | r :: rest =>
      if r.code = 0x22 then (stringTail rest.length rest).map fun (s, rest) => (.string s, rest)
      else if r.code = 0x5B ∨ r.code = 0x7B then
        match depth, skipJsonSpace rest with
        | 0, _ => none
        | _, [] => none
        | depth + 1, c :: rest =>
          if r.code = 0x5B then
            if c.code = 0x5D then some (.array [], rest)
            else
              (parseElements fuel depth (c :: rest)).map fun (items, rest) => (.array items, rest)
          else if c.code = 0x7D then some (.object [], rest)
          else
            (parseMembers fuel depth (c :: rest)).map fun (members, rest) =>
              (.object members, rest)
      else scalar (r :: rest)

/-- The elements of an array up to its bracket. -/
def parseElements : Nat → Nat → List Rune → Option (List Json × List Rune)
  | 0, _, _ => none
  | fuel + 1, depth, s =>
    match parseValue fuel depth s with
    | none => none
    | some (item, rest) =>
      match skipJsonSpace rest with
      | [] => none
      | c :: rest =>
        if c.code = 0x5D then some ([item], rest)
        else if c.code = 0x2C then
          (parseElements fuel depth rest).map fun (items, rest) => (item :: items, rest)
        else none

/-- The members of an object up to its brace. -/
def parseMembers : Nat → Nat → List Rune → Option (List (GoString × Json) × List Rune)
  | 0, _, _ => none
  | fuel + 1, depth, s =>
    match skipJsonSpace s with
    | [] => none
    | q :: rest =>
      if q.code ≠ 0x22 then none
      else
        match stringTail rest.length rest with
        | none => none
        | some (key, rest) =>
          match skipJsonSpace rest with
          | [] => none
          | colon :: rest =>
            if colon.code ≠ 0x3A then none
            else
              match parseValue fuel depth rest with
              | none => none
              | some (value, rest) =>
                match skipJsonSpace rest with
                | [] => none
                | c :: rest =>
                  if c.code = 0x7D then some ([(key, value)], rest)
                  else if c.code = 0x2C then
                    (parseMembers fuel depth rest).map fun (members, rest) =>
                      ((key, value) :: members, rest)
                  else none

end

/-- `json.Unmarshal` up to the conversion: the value of a text, with nothing after it. -/
def parseJson (text : GoString) : Option Json :=
  let s := runes text
  match parseValue (2 * s.length + 1) maxNestingDepth s with
  | some (value, rest) => if skipJsonSpace rest = [] then some value else none
  | none => none

end Purels.Go
