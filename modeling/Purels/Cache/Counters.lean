import Purels.Go.Strings

/-!
# Counters of the cache

The keys of Redis that hold numbers, and the three commands that are sent to them.

* `Counter` and `Counters`: a number with the time it expires at.
* `Incr`, `Expire`, `TTL`: the commands.
* `put_self`, `put_of_ne`, `find_eq_some`, `find_eq_none`: what is stored, and what is found.
-/

namespace Purels.Cache

open Go

/-- A key that holds a number. Times are in milliseconds. -/
structure Counter where
  value : ℕ
  /-- The key is gone from this time on, or stays for good. -/
  deadline : Option ℕ
  /-- The time that the key was made at, which Redis does not keep. -/
  since : ℕ
  deriving DecidableEq

/-- The keys, and the clock of the server. Keys are removed when they are looked up. -/
structure Counters where
  clock : ℕ
  stored : GoString → Option Counter

namespace Counters

/-- The key has not expired. -/
def live (s : Counters) (counter : Counter) : Bool :=
  counter.deadline.all fun deadline => s.clock < deadline

/-- The counter under a key. -/
def find (s : Counters) (key : GoString) : Option Counter := (s.stored key).filter s.live

def put (s : Counters) (key : GoString) (counter : Counter) : Counters :=
  { s with stored := fun other => if other = key then some counter else s.stored other }

/-- The counter that `INCR` leaves: a new key holds one, and has no deadline. -/
def incremented (s : Counters) (key : GoString) : Counter :=
  match s.find key with
  | none => ⟨1, none, s.clock⟩
  | some counter => { counter with value := counter.value + 1 }

/-- `INCR`. -/
def Incr (s : Counters) (key : GoString) : Counters := s.put key (s.incremented key)

/-- `EXPIRE`, with a time in seconds. -/
def Expire (s : Counters) (key : GoString) (seconds : ℕ) : Counters :=
  match s.find key with
  | none => s
  | some counter => s.put key { counter with deadline := some (s.clock + seconds * 1000) }

/-- `TTL`: what is left, in seconds. A key that stays is negative, and so is one that is not
there. -/
def TTL (s : Counters) (key : GoString) : Int :=
  match s.find key with
  | none => -2
  | some counter =>
    match counter.deadline with
    | none => -1
    | some deadline => (deadline - s.clock + 500) / 1000

/-! ## Reads after writes -/

variable {s : Counters} {key other : GoString} {counter : Counter}

@[simp] theorem put_clock : (s.put key counter).clock = s.clock := rfl

@[simp] theorem put_self : (s.put key counter).stored key = some counter := if_pos rfl

theorem put_of_ne (h : other ≠ key) : (s.put key counter).stored other = s.stored other :=
  if_neg h

@[simp] theorem Incr_clock : (s.Incr key).clock = s.clock := rfl

@[simp] theorem Expire_clock (seconds : ℕ) : (s.Expire key seconds).clock = s.clock := by
  unfold Expire
  cases s.find key <;> rfl

theorem find_eq_some :
    s.find key = some counter ↔ s.stored key = some counter ∧ s.live counter = true :=
  Option.filter_eq_some_iff

/-- A counter that is not found is not stored, or has expired. -/
theorem find_eq_none :
    s.find key = none ↔
      ∀ counter, s.stored key = some counter →
        ∃ deadline, counter.deadline = some deadline ∧ deadline ≤ s.clock := by
  rw [find, Option.filter_eq_none_iff]
  refine forall_congr' fun counter => imp_congr_right fun _ => ?_
  unfold live
  cases counter.deadline with
  | none => simp
  | some deadline => simp

/-- A key that is incremented is new, or its counter is one further. -/
theorem incremented_cases (s : Counters) (key : GoString) :
    (s.find key = none ∧ s.incremented key = ⟨1, none, s.clock⟩) ∨
    ∃ counter, s.find key = some counter ∧
      s.incremented key = { counter with value := counter.value + 1 } := by
  unfold incremented
  cases s.find key with
  | none => exact .inl ⟨rfl, rfl⟩
  | some counter => exact .inr ⟨counter, rfl, rfl⟩

/-- A write changes the one key. -/
theorem put_stored {written : Counter} (h : (s.put key written).stored other = some counter) :
    (other = key ∧ counter = written) ∨ (other ≠ key ∧ s.stored other = some counter) := by
  by_cases hkey : other = key
  · subst hkey
    rw [put_self] at h
    exact .inl ⟨rfl, (Option.some.inj h).symm⟩
  · rw [put_of_ne hkey] at h
    exact .inr ⟨hkey, h⟩

/-- `EXPIRE` gives the counter that is found a deadline, and does nothing else. -/
theorem Expire_cases {seconds : ℕ} (h : (s.Expire key seconds).stored other = some counter) :
    (other = key ∧ ∃ before, s.find key = some before ∧
      counter = { before with deadline := some (s.clock + seconds * 1000) }) ∨
    (s.stored other = some counter ∧ (other = key → s.find key = none)) := by
  unfold Expire at h
  cases hfind : s.find key with
  | none =>
    rw [hfind] at h
    exact .inr ⟨h, fun _ => rfl⟩
  | some before =>
    rw [hfind] at h
    rcases put_stored h with ⟨hkey, hwritten⟩ | ⟨hkey, hstored⟩
    · exact .inl ⟨hkey, before, rfl, hwritten⟩
    · exact .inr ⟨hstored, fun hsame => absurd hsame hkey⟩

/-- `EXPIRE` changes nothing but a deadline. -/
theorem Expire_stored {seconds : ℕ} (h : (s.Expire key seconds).stored other = some counter) :
    ∃ before, s.stored other = some before ∧ counter.value = before.value ∧
      counter.since = before.since ∧
        (counter.deadline = before.deadline ∨
          counter.deadline = some (s.clock + seconds * 1000)) := by
  rcases Expire_cases h with ⟨rfl, before, hfind, rfl⟩ | ⟨hstored, -⟩
  · exact ⟨before, (find_eq_some.mp hfind).1, rfl, rfl, .inr rfl⟩
  · exact ⟨counter, hstored, rfl, rfl, .inl rfl⟩

/-- `EXPIRE` removes no counter. -/
theorem Expire_keeps (seconds : ℕ) (h : s.stored other = some counter) :
    ∃ after, (s.Expire key seconds).stored other = some after ∧ after.since = counter.since := by
  unfold Expire
  cases hfind : s.find key with
  | none => exact ⟨counter, h, rfl⟩
  | some before =>
    by_cases hkey : other = key
    · subst hkey
      rw [(find_eq_some.mp hfind).1] at h
      cases h
      exact ⟨_, put_self, rfl⟩
    · exact ⟨counter, (put_of_ne hkey).trans h, rfl⟩

end Counters

end Purels.Cache
