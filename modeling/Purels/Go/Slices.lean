import Mathlib.Data.List.Range
import Mathlib.Logic.Function.Basic
import Mathlib.Tactic.Common

/-!
# Slices and their memory

A slice is a header that points into an array, and several headers may point into
the same one.  Memory holds the arrays by address.

* `Memory` and `SliceHeader`; a nil slice is no header.
* `Memory.get`, `Memory.set`, `Memory.read`: elements through a header.
* `Memory.grow` and `Memory.copy` allocate a new array.
* `Memory.view`: the elements up to the capacity, and zero values after them.
* `Memory.Frame`: what a write leaves alone.
-/

namespace Purels.Go

/-- Arrays by address; those from `next` on are not allocated yet. -/
structure Memory (α : Type) where
  next : ℕ
  cell : ℕ → ℕ → α

/-- A slice: `len` elements from `offset` on, and room for `cap`. -/
structure SliceHeader where
  array : ℕ
  offset : ℕ
  len : ℕ
  cap : ℕ
  len_le : len ≤ cap

namespace SliceHeader

/-- No elements and no room. -/
def empty : SliceHeader := ⟨0, 0, 0, 0, le_rfl⟩

/-- `reflect.Value.SetLen`, within the capacity. -/
def setLen (h : SliceHeader) (n : ℕ) : SliceHeader :=
  { h with len := min n h.cap, len_le := Nat.min_le_right n h.cap }

/-- The length that reaches index `i`. -/
def reach (h : SliceHeader) (i : ℕ) : SliceHeader := if h.len ≤ i then h.setLen (i + 1) else h

@[simp] theorem setLen_array (h : SliceHeader) (n : ℕ) : (h.setLen n).array = h.array := rfl

@[simp] theorem setLen_cap (h : SliceHeader) (n : ℕ) : (h.setLen n).cap = h.cap := rfl

@[simp] theorem reach_array (h : SliceHeader) (i : ℕ) : (h.reach i).array = h.array := by
  unfold reach
  split <;> rfl

@[simp] theorem reach_offset (h : SliceHeader) (i : ℕ) : (h.reach i).offset = h.offset := by
  unfold reach
  split <;> rfl

@[simp] theorem reach_cap (h : SliceHeader) (i : ℕ) : (h.reach i).cap = h.cap := by
  unfold reach
  split <;> rfl

theorem le_reach_len {h : SliceHeader} {i : ℕ} (hi : i < h.cap) : i + 1 ≤ (h.reach i).len := by
  unfold reach
  split_ifs with hlen
  · exact le_min le_rfl hi
  · omega

end SliceHeader

namespace Memory

variable {α : Type}

def get (m : Memory α) (h : SliceHeader) (i : ℕ) : α := m.cell h.array (h.offset + i)

def set (m : Memory α) (h : SliceHeader) (i : ℕ) (x : α) : Memory α :=
  { m with
    cell := Function.update m.cell h.array (Function.update (m.cell h.array) (h.offset + i) x) }

/-- The elements of a slice. -/
def read (m : Memory α) (h : SliceHeader) : List α := (List.range h.len).map (m.get h)

/-- A new array. -/
def alloc (m : Memory α) (contents : ℕ → α) : Memory α where
  next := m.next + 1
  cell := Function.update m.cell m.next contents

/-! ## Frames -/

/-- The header points into allocated memory, or nowhere. -/
def Points (m : Memory α) (h : SliceHeader) : Prop := h.cap = 0 ∨ h.array < m.next

/-- A step through `h`, which has become `h'`, left every other array alone. -/
structure Frame (m : Memory α) (h : SliceHeader) (m' : Memory α) (h' : SliceHeader) : Prop where
  next : m.next ≤ m'.next
  cell : ∀ a < m.next, h.cap = 0 ∨ a ≠ h.array → m'.cell a = m.cell a
  array : h'.cap = 0 ∨ (0 < h.cap ∧ h'.array = h.array) ∨ m.next ≤ h'.array
  points : m'.Points h'

section

variable {m m' m'' : Memory α} {h h' h'' : SliceHeader}

theorem Frame.refl (hpoints : m.Points h) : Frame m h m h where
  next := le_rfl
  cell _ _ _ := rfl
  array := by
    by_cases hcap : h.cap = 0
    · exact .inl hcap
    · exact .inr (.inl ⟨by omega, rfl⟩)
  points := hpoints

theorem Frame.trans (hf : Frame m h m' h') (hf' : Frame m' h' m'' h'') : Frame m h m'' h'' where
  next := hf.next.trans hf'.next
  cell a ha hne := by
    rw [← hf.cell a ha hne]
    refine hf'.cell a (Nat.lt_of_lt_of_le ha hf.next) ?_
    rcases hf.array with hcap | ⟨hcap, harray⟩ | harray
    · exact .inl hcap
    · rcases hne with hzero | hne
      · omega
      · exact .inr (harray ▸ hne)
    · exact .inr (by omega)
  array := by
    rcases hf'.array with hcap | ⟨hcap, harray⟩ | harray
    · exact .inl hcap
    · rcases hf.array with hcap' | ⟨hcap', harray'⟩ | harray'
      · omega
      · exact .inr (.inl ⟨hcap', harray.trans harray'⟩)
      · exact .inr (.inr (harray ▸ harray'))
    · exact .inr (.inr (hf.next.trans harray))
  points := hf'.points

theorem frame_set {i : ℕ} (hi : i < h.cap) (hpoints : m.Points h) (x : α) :
    Frame m h (m.set h i x) h where
  next := le_rfl
  cell a _ hne := by
    rcases hne with hcap | hne
    · omega
    · exact Function.update_of_ne hne _ _
  array := .inr (.inl ⟨by omega, rfl⟩)
  points := hpoints

theorem frame_alloc (m : Memory α) (h : SliceHeader) (contents : ℕ → α) {n cap : ℕ} (hn : n ≤ cap) :
    Frame m h (m.alloc contents) ⟨m.next, 0, n, cap, hn⟩ where
  next := Nat.le_succ _
  cell _ ha _ := Function.update_of_ne (Nat.ne_of_lt ha) _ _
  array := .inr (.inr le_rfl)
  points := .inr (Nat.lt_succ_self _)

/-- Another length is the same memory. -/
theorem Frame.of_len (hf : Frame m h m' h') (harray : h''.array = h'.array)
    (hcap : h''.cap = h'.cap) : Frame m h m' h'' where
  next := hf.next
  cell := hf.cell
  array := by rw [harray, hcap]; exact hf.array
  points := by unfold Points; rw [harray, hcap]; exact hf.points

end

/-! ## Growing and copying -/

variable [Inhabited α]

/-- The elements of a slice, and zero values after them. -/
def contents (m : Memory α) (h : SliceHeader) (i : ℕ) : α :=
  if i < h.len then m.get h i else default

section

-- How much room an allocation leaves is not said by the language.
variable (room : ℕ → ℕ)

/-- `reflect.Value.Grow`: a larger array with the same elements. -/
def grow (m : Memory α) (h : SliceHeader) : Memory α × SliceHeader :=
  (m.alloc (m.contents h), ⟨m.next, 0, h.len, h.len + 1 + room h.len, by omega⟩)

/-- `append([]T{}, xs...)`. -/
def copy (m : Memory α) (h : SliceHeader) : Memory α × SliceHeader :=
  (m.alloc (m.contents h), ⟨m.next, 0, h.len, h.len + room h.len, by omega⟩)

end

/-- The elements up to the capacity, and zero values after them. -/
def view (m : Memory α) (h : SliceHeader) (i : ℕ) : α := if i < h.cap then m.get h i else default

variable {m m' : Memory α} {h h' k : SliceHeader}

/-- A slice of another array looks as before. -/
theorem Frame.view_eq (hf : Frame m h m' h') (hpoints : m.Points k)
    (hne : k.cap = 0 ∨ h.cap = 0 ∨ k.array ≠ h.array) : m'.view k = m.view k := by
  funext i
  unfold view get
  split_ifs with hi
  · have hcell : m'.cell k.array = m.cell k.array := by
      refine hf.cell k.array ?_ ?_
      · rcases hpoints with hcap | hlt
        · omega
        · exact hlt
      · rcases hne with hcap | hcap | hne
        · omega
        · exact .inl hcap
        · exact .inr hne
    rw [hcell]
  · rfl

theorem read_eq_view (m : Memory α) (h : SliceHeader) :
    m.read h = (List.range h.len).map (m.view h) := by
  refine List.map_congr_left fun i hi => ?_
  have hlt : i < h.cap := Nat.lt_of_lt_of_le (List.mem_range.mp hi) h.len_le
  rw [view, if_pos hlt]

theorem view_setLen (m : Memory α) (h : SliceHeader) (n : ℕ) : m.view (h.setLen n) = m.view h := rfl

theorem view_reach (m : Memory α) (h : SliceHeader) (i : ℕ) : m.view (h.reach i) = m.view h := by
  unfold SliceHeader.reach
  split
  · exact view_setLen m h (i + 1)
  · rfl

theorem view_set {i : ℕ} (hi : i < h.cap) (x : α) :
    (m.set h i x).view h = Function.update (m.view h) i x := by
  funext j
  by_cases hj : j = i
  · subst hj
    simp [view, hi, get, set]
  · rw [Function.update_of_ne hj]
    simp [view, get, set, hj]

theorem view_alloc (m : Memory α) (h : SliceHeader) {n cap : ℕ} (hn : n ≤ cap)
    (hlen : h.len ≤ cap) :
    (m.alloc (m.contents h)).view ⟨m.next, 0, n, cap, hn⟩ = m.contents h := by
  funext i
  unfold view
  dsimp only
  split_ifs with hi
  · simp [get, alloc]
  · unfold contents
    rw [if_neg (by omega)]

/-- Growing a full slice leaves what is there. -/
theorem view_grow (room : ℕ → ℕ) (m : Memory α) (hfull : h.len = h.cap) :
    (m.grow room h).1.view (m.grow room h).2 = m.view h := by
  unfold grow
  rw [view_alloc m h _ (by omega)]
  funext i
  rw [contents, view, hfull]

theorem view_copy (room : ℕ → ℕ) (m : Memory α) (h : SliceHeader) :
    (m.copy room h).1.view (m.copy room h).2 = m.contents h :=
  view_alloc m h _ (by omega)

theorem contents_eq_getD (m : Memory α) (h : SliceHeader) (i : ℕ) :
    m.contents h i = (m.read h).getD i default := by
  unfold contents read
  by_cases hi : i < h.len
  · simp [hi, List.getD_eq_getElem?_getD]
  · simp [hi, List.getD_eq_getElem?_getD]

end Memory

end Purels.Go
