import Purels.Go.Strings
import Purels.Lib.Numerals

/-!
# Floating-point numbers of Go

`strconv.ParseFloat`, and the comparison of two numbers.

* `Float64` and `Float64.le`.
* `special`: the infinities and the number that is none.
* `underscoreOK`: digit separators.
* `ParseFloat`: the nearest number to a literal, or an error.
-/

namespace Purels.Go

open Lib

/-- A `float64`, up to the sign of zero. -/
inductive Float64 where
  | finite (value : ℚ)
  | infinite (negative : Bool)
  | nan
  deriving DecidableEq

/-- `<=`, which no comparison with `nan` satisfies. -/
def Float64.le : Float64 → Float64 → Bool
  | .nan, _ | _, .nan => false
  | .infinite true, _ | _, .infinite false => true
  | .infinite false, _ | _, .infinite true => false
  | .finite a, .finite b => decide (a ≤ b)

/-- `special`: a name of a value, in any case.  Only an infinity may have a sign. -/
def special (s : GoString) : Option Float64 :=
  let text := s.map fun b => asciiLower b.toNat
  let named (name : String) : List Nat := (lit name).map UInt8.toNat
  if text = named "nan" then some .nan
  else if text ∈ ["inf", "+inf", "infinity", "+infinity"].map named then some (.infinite false)
  else if text ∈ ["-inf", "-infinity"].map named then some (.infinite true)
  else none

/-- The loop of `underscoreOK`; `digit` and `underscore` say what the last character was. -/
def separated (hex : Bool) : (digit underscore : Bool) → List Nat → Bool
  | _, underscore, [] => !underscore
  | digit, underscore, c :: s =>
    if isDigitOf (if hex then 16 else 10) c then separated hex true false s
    else if c = 0x5F then digit && separated hex false true s
    else !underscore && separated hex false false s

/-- `underscoreOK`: an underscore stands between two digits, or between the prefix of a base
and a digit. -/
def underscoreOK (s : List Nat) : Bool :=
  let body := match s with
    | 0x2B :: s | 0x2D :: s => s
    | s => s
  match body with
  | 0x30 :: c :: rest =>
    if asciiLower c = 0x78 then separated true true false rest
    else if asciiLower c = 0x62 ∨ asciiLower c = 0x6F then separated false true false rest
    else separated false false false body
  | _ => separated false false false body

/-- A literal without sign and separators. -/
def unsignedFloat : List Nat → Option ℚ
  | 0x30 :: 0x78 :: s | 0x30 :: 0x58 :: s => hexForm.read s
  | s => decimalForm.read s

/-- `ParseFloat`; a number out of range is an error too. -/
def ParseFloat (s : GoString) : Option Float64 :=
  match special s with
  | some value => some value
  | none =>
    let codes := s.map UInt8.toNat
    if codes.contains 0x5F && !underscoreOK codes then none
    else
      ((signed unsignedFloat (codes.filter (· != 0x5F))).bind float64).map .finite

end Purels.Go
