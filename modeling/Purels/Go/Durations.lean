import Purels.Go.NetIP
import Purels.Lib.Numerals

/-!
# Durations and truth values

`time.ParseDuration` and `strconv.ParseBool`.

* `leadingInt`, `leadingFraction`: the digits before and after a point, with their overflows.
* `unitMap`: the units.
* `ParseDuration`: a sign and any number of terms, each with its unit.
-/

namespace Purels.Go

open Lib

/-- `time.Duration`, in nanoseconds. -/
abbrev Duration := Int

/-! ## Terms -/

/-- `leadingInt`: the digits, unless they pass `1 << 63`. -/
def leadingInt : Nat → GoString → Option (Nat × GoString)
  | x, [] => some (x, [])
  | x, c :: s =>
    if !isDigit c then some (x, c :: s)
    else if x > 2 ^ 63 / 10 then none
    else
      let x := x * 10 + (c.toNat - 0x30)
      if x > 2 ^ 63 then none else leadingInt x s

/-- `leadingFraction`: the digits as a number with its scale; digits that would overflow are
passed over. -/
def leadingFraction : (x scale : Nat) → (overflow : Bool) → GoString → Nat × Nat × GoString
  | x, scale, _, [] => (x, scale, [])
  | x, scale, overflow, c :: s =>
    if !isDigit c then (x, scale, c :: s)
    else if overflow || decide (x > (2 ^ 63 - 1) / 10) then leadingFraction x scale true s
    else
      let y := x * 10 + (c.toNat - 0x30)
      if y > 2 ^ 63 then leadingFraction x scale true s
      else leadingFraction y (scale * 10) false s

/-- `unitMap`; the two spellings of a micro sign are different characters. -/
def unitMap : List (GoString × Nat) :=
  [(lit "ns", 1), (lit "us", 1000), (lit "µs", 1000), (lit "μs", 1000), (lit "ms", 1000000),
    (lit "s", 1000000000), (lit "m", 60 * 1000000000), (lit "h", 3600 * 1000000000)]

/-- A character that ends a unit. -/
def endsUnit (c : UInt8) : Bool := c == 0x2E || isDigit c

/-- `uint64(float64(f) * (float64(unit) / scale))`. -/
def fractionOf (f unit scale : Nat) : Nat :=
  let ratio := (float64 (unit / scale : ℚ)).getD 0
  ⌊(float64 ((float64 f).getD 0 * ratio)).getD 0⌋.toNat

/-- One number with its unit, in nanoseconds, and the text after it. -/
def durationTerm (s : GoString) : Option (Nat × GoString) :=
  match leadingInt 0 s with
  | none => none
  | some (v, rest) =>
    let (f, scale, text) :=
      match rest with
      | 0x2E :: rest => leadingFraction 0 1 false rest
      | rest => (0, 1, rest)
    -- A digit before the point or one after it.
    if rest.length = s.length ∧ (rest.head? ≠ some 0x2E ∨ text.length + 1 = rest.length) then none
    else
      let name := text.takeWhile fun c => !endsUnit c
      match (unitMap.find? fun unit => unit.1 == name).map Prod.snd with
      | none => none
      | some unit =>
        if v > 2 ^ 63 / unit then none
        else
          let v := v * unit + if f > 0 then fractionOf f unit scale else 0
          if v > 2 ^ 63 then none else some (v, text.drop name.length)

/-- The terms of a duration; every one of them takes up some text. -/
def durationTerms : (fuel : Nat) → (d : Nat) → GoString → Option Nat
  | _, d, [] => some d
  | 0, _, _ :: _ => none
  | fuel + 1, d, c :: s =>
    if !endsUnit c then none
    else
      match durationTerm (c :: s) with
      | none => none
      | some (v, rest) =>
        let d := (d + v) % 2 ^ 64
        if d > 2 ^ 63 then none else durationTerms fuel d rest

/-- The duration after its sign. -/
def unsignedDuration (negative : Bool) (s : GoString) : Option Duration :=
  if s = [0x30] then some 0
  else if s = [] then none
  else
    match durationTerms s.length 0 s with
    | none => none
    | some d =>
      if negative then some (-(d : Int)) else if d > 2 ^ 63 - 1 then none else some d

/-- `time.ParseDuration`. -/
def ParseDuration : GoString → Option Duration
  | 0x2D :: s => unsignedDuration true s
  | 0x2B :: s => unsignedDuration false s
  | s => unsignedDuration false s

example : ParseDuration (lit "-1h30m0.5s") = some (-5400500000000) := by decide +kernel

/-! ## Truth values -/

/-- `strconv.ParseBool`. -/
def ParseBool (s : GoString) : Option Bool :=
  if [lit "1", lit "t", lit "T", lit "TRUE", lit "true", lit "True"].contains s then some true
  else if [lit "0", lit "f", lit "F", lit "FALSE", lit "false", lit "False"].contains s then
    some false
  else none

end Purels.Go
