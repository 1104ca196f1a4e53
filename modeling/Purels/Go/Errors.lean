import Purels.Go.Strings

/-!
# Error values

An error is a tree: a value that other errors wrap, each with a text of its own.  What
`errors.Is` looks for is one of a set `σ` of package-level values, and what `errors.As` looks
for is a value of one type `τ`.

* `GoError`: the trees, and `GoError.text`, what `Error` returns.
* `GoError.is`, `GoError.as`: the two searches, depth first.
* `GoError.mapText`: the same error with other texts, which no search tells apart.
-/

namespace Purels.Go

/-- An error value. -/
inductive GoError (σ τ : Type) where
  /-- `errors.New`, at package level when it has a name. -/
  | value (name : Option σ) (text : GoString)
  /-- A value of the type that `errors.As` is asked for. -/
  | typed (v : τ) (text : GoString)
  /-- An error with an `Unwrap` method, as `fmt.Errorf` makes for `%w`. -/
  | wrap (text : GoString) (inner : GoError σ τ)
  /-- An error that wraps several: the first of them, and the rest. -/
  | join (text : GoString) (first rest : GoError σ τ)
  deriving DecidableEq

namespace GoError

variable {σ τ : Type}

/-- `Error`. -/
def text : GoError σ τ → GoString
  | .value _ text | .typed _ text | .wrap text _ | .join text _ _ => text

/-- `errors.Is`. -/
def is [DecidableEq σ] (target : σ) : GoError σ τ → Bool
  | .value name _ => name == some target
  | .typed _ _ => false
  | .wrap _ inner => inner.is target
  | .join _ first rest => first.is target || rest.is target

/-- `errors.As`. -/
def as : GoError σ τ → Option τ
  | .value _ _ => none
  | .typed v _ => some v
  | .wrap _ inner => inner.as
  | .join _ first rest => first.as <|> rest.as

/-- The same error with other texts. -/
def mapText (f : GoString → GoString) : GoError σ τ → GoError σ τ
  | .value name text => .value name (f text)
  | .typed v text => .typed v (f text)
  | .wrap text inner => .wrap (f text) (inner.mapText f)
  | .join text first rest => .join (f text) (first.mapText f) (rest.mapText f)

@[simp] theorem text_mapText (f : GoString → GoString) (e : GoError σ τ) :
    (e.mapText f).text = f e.text := by
  cases e <;> rfl

@[simp] theorem is_mapText [DecidableEq σ] (f : GoString → GoString) (target : σ)
    (e : GoError σ τ) : (e.mapText f).is target = e.is target := by
  induction e with
  | value name text => rfl
  | typed v text => rfl
  | wrap text inner ih => exact ih
  | join text first rest ihFirst ihRest => rw [mapText, is, is, ihFirst, ihRest]

@[simp] theorem as_mapText (f : GoString → GoString) (e : GoError σ τ) :
    (e.mapText f).as = e.as := by
  induction e with
  | value name text => rfl
  | typed v text => rfl
  | wrap text inner ih => exact ih
  | join text first rest ihFirst ihRest => rw [mapText, as, as, ihFirst, ihRest]

end GoError

end Purels.Go
