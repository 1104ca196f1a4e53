import Purels.Domain.RuntimePatch
import Purels.Go.Slices

/-!
# Patches of the runtime settings, in memory

`RuntimeSettingsPatch.Apply` on a structure whose lists are slices: what is decoded into
a list is written to the array behind it.

* `StoredInput`: the structure, with a header for each list.
* `decodeElements` and `decodeStrings`: an array decoded into a slice.
* `ApplyIn`: `Apply`, with the memory it leaves.
* `ApplyIn_cases`: it returns what `Apply` does, and no array of the base is written.
-/

namespace Purels

open Go

/-- `domain.RuntimeSettingsInput` as it lies in memory.  The lists are behind the two
headers; those of `fields` are not used. -/
structure StoredInput where
  fields : RuntimeSettingsInput
  destinationDenylist : Option SliceHeader
  shortDomains : Option SliceHeader

/-- A nil slice has no elements and no room. -/
def header (h : Option SliceHeader) : SliceHeader := h.getD .empty

/-- The value the structure has. -/
def StoredInput.load (x : StoredInput) (m : Memory GoString) : RuntimeSettingsInput :=
  { x.fields with
    destinationDenylist := m.read (header x.destinationDenylist)
    shortDomains := m.read (header x.shortDomains) }

section

-- How much room an allocation leaves is not said by the language.
variable (room : ℕ → ℕ)

/-! ## Lists -/

/-- The loop of `array` of `encoding/json`, from index `i` on. -/
def decodeElements (m : Memory GoString) (h : SliceHeader) (i : ℕ) :
    List Json → Option (Memory GoString × SliceHeader)
  | [] => some (m, h.setLen i)
  | item :: items =>
    let grown := if h.cap ≤ i then m.grow room h else (m, h)
    let reached := grown.2.reach i
    match item.toElement (grown.1.get reached i) with
    | none => none
    | some x => decodeElements (grown.1.set reached i x) reached (i + 1) items

/-- `array` of `encoding/json`, into a slice of strings. -/
def decodeStrings (m : Memory GoString) (h : Option SliceHeader) :
    Json → Option (Memory GoString × SliceHeader)
  | .array items =>
    if items.isEmpty then some (m, .empty) else decodeElements room m (header h) 0 items
  | _ => none

/-- A value decoded into a field. -/
def StoredInput.set (x : StoredInput) (m : Memory GoString) (value : Json) :
    SettingsField → Option (Memory GoString × StoredInput)
  | .destinationDenylist =>
    (decodeStrings room m x.destinationDenylist value).map fun r =>
      (r.1, { x with destinationDenylist := some r.2 })
  | .shortDomains =>
    (decodeStrings room m x.shortDomains value).map fun r =>
      (r.1, { x with shortDomains := some r.2 })
  | field =>
    (Decoding.set ⟨x.fields, [], []⟩ value field).map fun d => (m, { x with fields := d.input })

variable (u : Unicode)

/-- `Decode` with `DisallowUnknownFields`. -/
def decodeChangesIn : List (GoString × Json) → Memory GoString → StoredInput →
    Except PatchError (Memory GoString × StoredInput)
  | [], m, x => .ok (m, x)
  | (key, value) :: entries, m, x =>
    match settingsField u key with
    | none => .error (.unknownField key)
    | some field =>
      match x.set room m value field with
      | none => .error (.badValue field)
      | some (m, x) => decodeChangesIn entries m x

/-- `append([]string{}, list...)`, for a list that is not nil. -/
def copyList (m : Memory GoString) : Option SliceHeader → Memory GoString × Option SliceHeader
  | none => (m, none)
  | some h => ((m.copy room h).1, some (m.copy room h).2)

/-- `RuntimeSettingsPatch.Apply`. -/
def RuntimeSettingsPatch.ApplyIn (p : RuntimeSettingsPatch) (m : Memory GoString)
    (x : StoredInput) : Except PatchError (Memory GoString × StoredInput) :=
  if p.revision ≤ 0 || p.changes.entries.isEmpty then .error .required
  else
    match p.changes.entries.find? fun entry => entry.2.isNull with
    | some entry => .error (.nullField entry.1)
    | none =>
      let (m, shortDomains) := copyList room m x.shortDomains
      let (m, destinationDenylist) := copyList room m x.destinationDenylist
      decodeChangesIn room u p.changes.entries m { x with shortDomains, destinationDenylist }

variable {room u} {m : Memory GoString}

/-! ## An array decoded into a slice -/

/-- The memory of a slice, as `Json.toElements` is given it. -/
def Shows (m : Memory GoString) (h : SliceHeader) (memory : List GoString) : Prop :=
  ∀ j, memory.getD j [] = m.view h j

/-- The room for index `i`, in the array of the slice or in a larger one. -/
theorem grown_cases (room : ℕ → ℕ) {h : SliceHeader} {i : ℕ} (hi : i ≤ h.len)
    (hpoints : m.Points h) :
    ∃ m' h', (if h.cap ≤ i then m.grow room h else (m, h)) = (m', h') ∧ m.Frame h m' h' ∧
      m'.view h' = m.view h ∧ i < h'.cap ∧ i ≤ h'.len := by
  have hlen := h.len_le
  split_ifs with hcap
  · refine ⟨_, _, rfl, Memory.frame_alloc m h _ (by omega), ?_, ?_, hi⟩
    · exact Memory.view_grow room m (by omega)
    · show i < h.len + 1 + room h.len
      omega
  · exact ⟨m, h, rfl, Memory.Frame.refl hpoints, rfl, by omega, hi⟩

theorem toElements_cons (memory : List GoString) (item : Json) (items : List Json) :
    Json.toElements memory (item :: items) =
      (item.toElement (memory.head?.getD [])).bind fun x =>
        (Json.toElements memory.tail items).map fun xs => x :: xs := by
  rw [Json.toElements]
  cases item.toElement (memory.head?.getD []) with
  | none => rfl
  | some x => cases Json.toElements memory.tail items <;> simp

/-- The loop writes the elements, and leaves the rest of the memory. -/
theorem decodeElements_cases (room : ℕ → ℕ) {h : SliceHeader} {i : ℕ} (items : List Json)
    {memory : List GoString}
    (hmem : ∀ j, memory.getD j [] = m.view h (i + j)) (hi : i ≤ h.len) (hpoints : m.Points h) :
    (Json.toElements memory items = none ∧ decodeElements room m h i items = none) ∨
    ∃ values m' h', Json.toElements memory items = some values ∧
      decodeElements room m h i items = some (m', h') ∧ m.Frame h m' h' ∧
      h'.len = i + items.length ∧ values.length = items.length ∧
      (∀ j < i, m'.view h' j = m.view h j) ∧
      ∀ j, (values ++ memory.drop items.length).getD j [] = m'.view h' (i + j) := by
  induction items generalizing m h i memory with
  | nil =>
    have hlen : (h.setLen i).len = i := Nat.min_eq_left (hi.trans h.len_le)
    exact .inr ⟨[], m, h.setLen i, by cases memory <;> rfl, rfl,
      (Memory.Frame.refl hpoints).of_len rfl rfl, by rw [hlen]; rfl, rfl, fun _ _ => rfl, hmem⟩
  | cons item items ih =>
    obtain ⟨m₁, h₁, hgrown, hframe, hview, hcap, hlen⟩ := grown_cases room hi hpoints
    have hreached := hframe.of_len (h₁.reach_array i) (h₁.reach_cap i)
    have hcap' : i < (h₁.reach i).cap := by rw [h₁.reach_cap]; exact hcap
    have hview' : m₁.view (h₁.reach i) = m.view h := by rw [Memory.view_reach, hview]
    have hheld : m₁.get (h₁.reach i) i = memory.head?.getD [] := by
      have hzero := hmem 0
      rw [Nat.add_zero, ← hview', Memory.view, if_pos hcap'] at hzero
      rw [← hzero]
      cases memory <;> rfl
    have hdecode : decodeElements room m h i (item :: items) =
        match item.toElement (memory.head?.getD []) with
        | none => none
        | some x => decodeElements room (m₁.set (h₁.reach i) i x) (h₁.reach i) (i + 1) items := by
      rw [decodeElements, hgrown, ← hheld]
    rw [hdecode, toElements_cons]
    cases hitem : item.toElement (memory.head?.getD []) with
    | none => exact .inl ⟨rfl, rfl⟩
    | some x =>
      have hset := Memory.view_set (m := m₁) hcap' x
      have hrest : ∀ j, memory.tail.getD j [] =
          (m₁.set (h₁.reach i) i x).view (h₁.reach i) (i + 1 + j) := by
        intro j
        rw [hset, Function.update_of_ne (by omega), hview', Nat.add_assoc, Nat.add_comm 1 j,
          ← hmem (j + 1)]
        cases memory <;> rfl
      have hwritten := hreached.trans (Memory.frame_set hcap' hreached.points x)
      rcases ih hrest (SliceHeader.le_reach_len hcap) hwritten.points with
        ⟨hnone, hfail⟩ | ⟨values, m', h', hvalues, hok, hframe', hlen', hlength, hbefore, hafter⟩
      · exact .inl ⟨by rw [Option.bind_some, hnone]; rfl, hfail⟩
      · refine .inr ⟨x :: values, m', h', by rw [Option.bind_some, hvalues]; rfl, hok,
          hwritten.trans hframe', ?_, ?_, ?_, ?_⟩
        · rw [hlen', List.length_cons]
          omega
        · rw [List.length_cons, List.length_cons, hlength]
        · intro j hj
          rw [hbefore j (by omega), hset, Function.update_of_ne (by omega), hview']
        · intro j
          cases j with
          | zero =>
            rw [Nat.add_zero, hbefore i (by omega), hset, Function.update_self]
            rfl
          | succ j =>
            have htail := hafter j
            rw [List.drop_tail] at htail
            rw [← Nat.add_assoc, Nat.add_right_comm i j 1, ← htail]
            rfl

/-- Decoding into a slice does what `Json.toStrings` says. -/
theorem decodeStrings_cases (room : ℕ → ℕ) {h : Option SliceHeader} (slice : Slice) (value : Json)
    (hmem : Shows m (header h) (slice.values ++ slice.spare)) (hpoints : m.Points (header h)) :
    (value.toStrings slice = none ∧ decodeStrings room m h value = none) ∨
    ∃ slice' m' h', value.toStrings slice = some slice' ∧
      decodeStrings room m h value = some (m', h') ∧ m.Frame (header h) m' h' ∧
      m'.read h' = slice'.values ∧ Shows m' h' (slice'.values ++ slice'.spare) := by
  cases value with
  | array items =>
    unfold Json.toStrings decodeStrings
    dsimp only
    split_ifs with hempty
    · refine .inr ⟨⟨[], []⟩, m, .empty, rfl, rfl, ?_, rfl, fun j => rfl⟩
      exact ⟨le_rfl, fun _ _ _ => rfl, .inl rfl, .inl rfl⟩
    · rcases decodeElements_cases room (i := 0) items
          (fun j => by rw [Nat.zero_add]; exact hmem j) (Nat.zero_le _) hpoints with
        ⟨hnone, hfail⟩ | ⟨values, m', h', hvalues, hok, hframe, hlen, hlength, -, hafter⟩
      · exact .inl ⟨by rw [hnone]; rfl, hfail⟩
      · refine .inr ⟨_, m', h', by rw [hvalues]; rfl, hok, hframe, ?_, fun j => ?_⟩
        · rw [Memory.read_eq_view, hlen, Nat.zero_add]
          refine List.ext_getElem (by simp [hlength]) fun j hj hj' => ?_
          have hget := hafter j
          dsimp only at hj'
          rw [Nat.zero_add, List.getD_eq_getElem?_getD, List.getElem?_append_left hj',
            List.getElem?_eq_getElem hj', Option.getD_some] at hget
          rw [List.getElem_map, List.getElem_range, ← hget]
        · rw [hafter j, Nat.zero_add]
  | _ => exact .inl ⟨rfl, rfl⟩

/-! ## The structure -/

/-- Arrays below `base` are as they were. -/
def SameBelow (base : ℕ) (m m' : Memory GoString) : Prop := ∀ a < base, m'.cell a = m.cell a

/-- Two slices that lie apart, in arrays from `base` on. -/
structure Separate (base : ℕ) (m : Memory GoString) (h k : SliceHeader) : Prop where
  base_le : base ≤ m.next
  points : m.Points h
  points' : m.Points k
  beyond : h.cap = 0 ∨ base ≤ h.array
  beyond' : k.cap = 0 ∨ base ≤ k.array
  apart : h.cap = 0 ∨ k.cap = 0 ∨ h.array ≠ k.array

theorem Separate.symm {base : ℕ} {h k : SliceHeader} (hs : Separate base m h k) :
    Separate base m k h where
  base_le := hs.base_le
  points := hs.points'
  points' := hs.points
  beyond := hs.beyond'
  beyond' := hs.beyond
  apart := by
    rcases hs.apart with hcap | hcap | hne
    · exact .inr (.inl hcap)
    · exact .inl hcap
    · exact .inr (.inr hne.symm)

/-- A step through one of them leaves the other, and what lies below. -/
theorem Separate.step {base : ℕ} {m' : Memory GoString} {h h' k : SliceHeader}
    (hs : Separate base m h k) (hf : m.Frame h m' h') :
    Separate base m' h' k ∧ m'.view k = m.view k ∧ SameBelow base m m' := by
  have hle := hs.base_le
  have hnext := hf.next
  refine ⟨⟨hle.trans hnext, hf.points, ?_, ?_, hs.beyond', ?_⟩, ?_, fun a ha => ?_⟩
  · rcases hs.points' with hcap | hlt
    · exact .inl hcap
    · exact .inr (Nat.lt_of_lt_of_le hlt hnext)
  · rcases hf.array with hcap | ⟨hcap, harray⟩ | harray
    · exact .inl hcap
    · rcases hs.beyond with hzero | hbeyond
      · omega
      · exact .inr (harray ▸ hbeyond)
    · exact .inr (hle.trans harray)
  · rcases hf.array with hcap | ⟨hcap, harray⟩ | harray
    · exact .inl hcap
    · rcases hs.apart with hzero | hzero | hne
      · omega
      · exact .inr (.inl hzero)
      · exact .inr (.inr (harray ▸ hne))
    · rcases hs.points' with hzero | hlt
      · exact .inr (.inl hzero)
      · exact .inr (.inr (by omega))
  · refine hf.view_eq hs.points' ?_
    rcases hs.apart with hcap | hcap | hne
    · exact .inr (.inl hcap)
    · exact .inl hcap
    · exact .inr (.inr hne.symm)
  · refine hf.cell a (Nat.lt_of_lt_of_le ha hle) ?_
    rcases hs.beyond with hcap | hbeyond
    · exact .inl hcap
    · exact .inr (by omega)

/-- The structure in memory is the one that is decoded into. -/
structure DecodingAt (base : ℕ) (m : Memory GoString) (x : StoredInput) (d : Decoding) : Prop where
  load : x.load m = d.input
  denylist : Shows m (header x.destinationDenylist) (d.input.destinationDenylist ++ d.denylistSpare)
  domains : Shows m (header x.shortDomains) (d.input.shortDomains ++ d.domainsSpare)
  separate : Separate base m (header x.destinationDenylist) (header x.shortDomains)

/-- The fields that are not lists. -/
def SettingsField.scalar : SettingsField → Bool
  | .destinationDenylist | .shortDomains => false
  | _ => true

/-- A scalar is decoded without looking at the lists, and leaves them. -/
theorem Decoding.set_scalar {field : SettingsField} (hscalar : field.scalar) (d : Decoding)
    (x : RuntimeSettingsInput) (value : Json)
    (hx : { x with
      destinationDenylist := d.input.destinationDenylist
      shortDomains := d.input.shortDomains } = d.input) :
    (Decoding.set ⟨x, [], []⟩ value field = none ∧ d.set value field = none) ∨
    ∃ d₁ d', Decoding.set ⟨x, [], []⟩ value field = some d₁ ∧ d.set value field = some d' ∧
      d'.denylistSpare = d.denylistSpare ∧ d'.domainsSpare = d.domainsSpare ∧
      d'.input.destinationDenylist = d.input.destinationDenylist ∧
      d'.input.shortDomains = d.input.shortDomains ∧
      { d₁.input with
        destinationDenylist := d.input.destinationDenylist
        shortDomains := d.input.shortDomains } = d'.input := by
  obtain ⟨input, denylistSpare, domainsSpare⟩ := d
  dsimp only at hx ⊢
  rw [← hx]
  cases field
  case destinationDenylist => cases hscalar
  case shortDomains => cases hscalar
  all_goals
    simp only [Decoding.set]
    first
    | cases value.toText with
      | none => exact .inl ⟨rfl, rfl⟩
      | some v => exact .inr ⟨_, _, rfl, rfl, rfl, rfl, rfl, rfl, rfl⟩
    | cases value.toBool with
      | none => exact .inl ⟨rfl, rfl⟩
      | some v => exact .inr ⟨_, _, rfl, rfl, rfl, rfl, rfl, rfl, rfl⟩
    | cases value.toInt with
      | none => exact .inl ⟨rfl, rfl⟩
      | some v => exact .inr ⟨_, _, rfl, rfl, rfl, rfl, rfl, rfl, rfl⟩

theorem StoredInput.set_of_scalar {field : SettingsField} (hscalar : field.scalar) (x : StoredInput)
    (value : Json) : x.set room m value field =
      (Decoding.set ⟨x.fields, [], []⟩ value field).map fun d =>
        (m, { x with fields := d.input }) := by
  cases field
  case destinationDenylist => cases hscalar
  case shortDomains => cases hscalar
  all_goals rfl

/-- What decoding into a field has to do: what `Decoding.set` does, apart from the base. -/
def SetsAs (room : ℕ → ℕ) (base : ℕ) (m : Memory GoString) (x : StoredInput) (d : Decoding)
    (value : Json) (field : SettingsField) : Prop :=
  (d.set value field = none ∧ x.set room m value field = none) ∨
    ∃ d' m' x', d.set value field = some d' ∧ x.set room m value field = some (m', x') ∧
      DecodingAt base m' x' d' ∧ SameBelow base m m'

theorem read_of_view {m' : Memory GoString} {h : SliceHeader} (hview : m'.view h = m.view h) :
    m'.read h = m.read h := by
  rw [Memory.read_eq_view, Memory.read_eq_view, hview]

theorem setsAs_scalar {base : ℕ} {x : StoredInput} {d : Decoding} (h : DecodingAt base m x d)
    (value : Json) {field : SettingsField} (hscalar : field.scalar) :
    SetsAs room base m x d value field := by
  have hdenylist : m.read (header x.destinationDenylist) = d.input.destinationDenylist :=
    congrArg RuntimeSettingsInput.destinationDenylist h.load
  have hdomains : m.read (header x.shortDomains) = d.input.shortDomains :=
    congrArg RuntimeSettingsInput.shortDomains h.load
  have hfields : { x.fields with
      destinationDenylist := d.input.destinationDenylist
      shortDomains := d.input.shortDomains } = d.input := by
    rw [← hdenylist, ← hdomains]
    exact h.load
  unfold SetsAs
  rw [StoredInput.set_of_scalar hscalar]
  rcases Decoding.set_scalar hscalar d x.fields value hfields with
    ⟨hnone, hfail⟩ | ⟨d₁, d', hsome, hset, hspare, hspare', hlist, hlist', hinput⟩
  · exact .inl ⟨hfail, by rw [hnone]; rfl⟩
  · refine .inr ⟨d', m, { x with fields := d₁.input }, hset, by rw [hsome]; rfl, ⟨?_, ?_, ?_,
      h.separate⟩, fun _ _ => rfl⟩
    · rw [← hinput, ← hdenylist, ← hdomains]
      rfl
    · rw [hlist, hspare]
      exact h.denylist
    · rw [hlist', hspare']
      exact h.domains

theorem setsAs_denylist {base : ℕ} {x : StoredInput} {d : Decoding} (h : DecodingAt base m x d)
    (value : Json) : SetsAs room base m x d value .destinationDenylist := by
  rcases decodeStrings_cases room ⟨d.input.destinationDenylist, d.denylistSpare⟩ value h.denylist
      h.separate.points with
    ⟨hnone, hfail⟩ | ⟨slice, m', h', hsome, hok, hframe, hread, hshows⟩
  · exact .inl ⟨by simp only [Decoding.set, hnone, Option.map_none],
      by simp only [StoredInput.set, hfail, Option.map_none]⟩
  obtain ⟨hseparate, hview, hbelow⟩ := h.separate.step hframe
  refine .inr ⟨{ d with
      input := { d.input with destinationDenylist := slice.values }
      denylistSpare := slice.spare }, m', { x with destinationDenylist := some h' },
    by simp only [Decoding.set, hsome, Option.map_some],
    by simp only [StoredInput.set, hok, Option.map_some],
    ⟨?_, hshows, fun j => ?_, hseparate⟩, hbelow⟩
  · rw [← h.load, ← hread]
    show ({ x.fields with
      destinationDenylist := m'.read h'
      shortDomains := m'.read (header x.shortDomains) } : RuntimeSettingsInput) = _
    rw [read_of_view hview]
    rfl
  · rw [hview]
    exact h.domains j

theorem setsAs_domains {base : ℕ} {x : StoredInput} {d : Decoding} (h : DecodingAt base m x d)
    (value : Json) : SetsAs room base m x d value .shortDomains := by
  rcases decodeStrings_cases room ⟨d.input.shortDomains, d.domainsSpare⟩ value h.domains
      h.separate.points' with
    ⟨hnone, hfail⟩ | ⟨slice, m', h', hsome, hok, hframe, hread, hshows⟩
  · exact .inl ⟨by simp only [Decoding.set, hnone, Option.map_none],
      by simp only [StoredInput.set, hfail, Option.map_none]⟩
  obtain ⟨hseparate, hview, hbelow⟩ := h.separate.symm.step hframe
  refine .inr ⟨{ d with
      input := { d.input with shortDomains := slice.values }
      domainsSpare := slice.spare }, m', { x with shortDomains := some h' },
    by simp only [Decoding.set, hsome, Option.map_some],
    by simp only [StoredInput.set, hok, Option.map_some],
    ⟨?_, fun j => ?_, hshows, hseparate.symm⟩, hbelow⟩
  · rw [← h.load, ← hread]
    show ({ x.fields with
      destinationDenylist := m'.read (header x.destinationDenylist)
      shortDomains := m'.read h' } : RuntimeSettingsInput) = _
    rw [read_of_view hview]
    rfl
  · rw [hview]
    exact h.denylist j

/-- Decoding into a field does what `Decoding.set` says. -/
theorem setsAs (room : ℕ → ℕ) {base : ℕ} {x : StoredInput} {d : Decoding}
    (h : DecodingAt base m x d) (value : Json) (field : SettingsField) :
    SetsAs room base m x d value field := by
  cases field
  case destinationDenylist => exact setsAs_denylist h value
  case shortDomains => exact setsAs_domains h value
  all_goals exact setsAs_scalar h value rfl

theorem decodeChangesIn_cases (room : ℕ → ℕ) (u : Unicode) (entries : List (GoString × Json))
    {base : ℕ} {x : StoredInput} {d : Decoding} (h : DecodingAt base m x d) :
    (∃ e, decodeChanges u entries d = .error e ∧ decodeChangesIn room u entries m x = .error e) ∨
    ∃ d' m' x', decodeChanges u entries d = .ok d' ∧
      decodeChangesIn room u entries m x = .ok (m', x') ∧ DecodingAt base m' x' d' ∧
      SameBelow base m m' := by
  induction entries generalizing m x d with
  | nil => exact .inr ⟨d, m, x, rfl, rfl, h, fun _ _ => rfl⟩
  | cons entry entries ih =>
    obtain ⟨key, value⟩ := entry
    rw [decodeChanges, decodeChangesIn]
    cases settingsField u key with
    | none => exact .inl ⟨_, rfl, rfl⟩
    | some field =>
      dsimp only
      rcases setsAs room h value field with
        ⟨hnone, hfail⟩ | ⟨d₁, m₁, x₁, hsome, hok, hholds, hsame⟩
      · rw [hnone, hfail]
        exact .inl ⟨_, rfl, rfl⟩
      · rw [hsome, hok]
        rcases ih hholds with ⟨e, herror, herror'⟩ | ⟨d', m', x', hdone, hdone', hholds', hsame'⟩
        · exact .inl ⟨e, herror, herror'⟩
        · exact .inr ⟨d', m', x', hdone, hdone', hholds',
            fun a ha => (hsame' a ha).trans (hsame a ha)⟩

/-! ## The copies -/

/-- The lists of the base point into allocated memory. -/
structure StoredInput.Valid (x : StoredInput) (m : Memory GoString) : Prop where
  denylist : m.Points (header x.destinationDenylist)
  domains : m.Points (header x.shortDomains)

/-- A copy has the elements of the list, in a new array. -/
theorem copyList_cases (room : ℕ → ℕ) (m : Memory GoString) (h : Option SliceHeader) :
    m.next ≤ (copyList room m h).1.next ∧ SameBelow m.next m (copyList room m h).1 ∧
      (copyList room m h).1.Points (header (copyList room m h).2) ∧
      ((header (copyList room m h).2).cap = 0 ∨ m.next ≤ (header (copyList room m h).2).array) ∧
      (copyList room m h).1.read (header (copyList room m h).2) = m.read (header h) ∧
      Shows (copyList room m h).1 (header (copyList room m h).2) (m.read (header h)) := by
  cases h with
  | none => exact ⟨le_rfl, fun _ _ => rfl, .inl rfl, .inl rfl, rfl, fun _ => rfl⟩
  | some h =>
    have hview := Memory.view_copy room m h
    have hshows : Shows (m.copy room h).1 (m.copy room h).2 (m.read h) := by
      intro j
      rw [hview, Memory.contents_eq_getD]
      rfl
    refine ⟨Nat.le_succ _, fun a ha => Function.update_of_ne (Nat.ne_of_lt ha) _ _,
      .inr (Nat.lt_succ_self _), .inr le_rfl, ?_, hshows⟩
    show (m.copy room h).1.read (m.copy room h).2 = m.read h
    rw [Memory.read_eq_view, hview]
    refine List.map_congr_left fun j hj => ?_
    exact if_pos (List.mem_range.mp hj)

/-- A slice in memory that is left alone. -/
theorem view_of_sameBelow {m' : Memory GoString} {h : SliceHeader} (hsame : SameBelow m.next m m')
    (hpoints : m.Points h) : m'.view h = m.view h := by
  funext i
  unfold Memory.view Memory.get
  split_ifs with hi
  · rcases hpoints with hcap | hlt
    · omega
    · rw [hsame h.array hlt]
  · rfl

theorem points_of_le {m' : Memory GoString} {h : SliceHeader} (hle : m.next ≤ m'.next)
    (hpoints : m.Points h) : m'.Points h := by
  rcases hpoints with hcap | hlt
  · exact .inl hcap
  · exact .inr (Nat.lt_of_lt_of_le hlt hle)

/-- After the copies the structure holds the value of the base, above all that was there. -/
theorem holds_copies (room : ℕ → ℕ) {x : StoredInput} (hvalid : x.Valid m)
    {m₁ m₂ : Memory GoString} {h₁ h₂ : Option SliceHeader}
    (hdomains : copyList room m x.shortDomains = (m₁, h₁))
    (hdenylist : copyList room m₁ x.destinationDenylist = (m₂, h₂)) :
    DecodingAt m.next m₂ { x with shortDomains := h₁, destinationDenylist := h₂ }
        ⟨x.load m, [], []⟩ ∧
      SameBelow m.next m m₂ := by
  obtain ⟨hnext₁, hsame₁, hpoints₁, hbeyond₁, hread₁, hshows₁⟩ :=
    copyList_cases room m x.shortDomains
  rw [hdomains] at hnext₁ hsame₁ hpoints₁ hbeyond₁ hread₁ hshows₁
  obtain ⟨hnext₂, hsame₂, hpoints₂, hbeyond₂, hread₂, hshows₂⟩ :=
    copyList_cases room m₁ x.destinationDenylist
  rw [hdenylist] at hnext₂ hsame₂ hpoints₂ hbeyond₂ hread₂ hshows₂
  dsimp only at *
  -- The second copy leaves the first one, and the first one leaves the denylist of the base.
  have hkept : m₂.view (header h₁) = m₁.view (header h₁) := view_of_sameBelow hsame₂ hpoints₁
  have hbase : m₁.read (header x.destinationDenylist) = m.read (header x.destinationDenylist) :=
    read_of_view (view_of_sameBelow hsame₁ hvalid.denylist)
  have hsame : SameBelow m.next m m₂ := by
    intro a ha
    exact (hsame₂ a (Nat.lt_of_lt_of_le ha hnext₁)).trans (hsame₁ a ha)
  refine ⟨⟨?_, ?_, ?_, ?_⟩, hsame⟩
  · unfold StoredInput.load
    dsimp only
    rw [read_of_view hkept, hread₁, hread₂, hbase]
  · show Shows m₂ (header h₂) (m.read (header x.destinationDenylist) ++ [])
    rw [List.append_nil, ← hbase]
    exact hshows₂
  · show Shows m₂ (header h₁) (m.read (header x.shortDomains) ++ [])
    rw [List.append_nil]
    intro j
    rw [hkept]
    exact hshows₁ j
  · refine ⟨hnext₁.trans hnext₂, hpoints₂, points_of_le hnext₂ hpoints₁, ?_, hbeyond₁, ?_⟩
    · rcases hbeyond₂ with hcap | hle
      · exact .inl hcap
      · exact .inr (hnext₁.trans hle)
    · rcases hbeyond₂ with hcap | hle
      · exact .inl hcap
      · rcases hpoints₁ with hcap | hlt
        · exact .inr (.inl hcap)
        · exact .inr (.inr (by dsimp only; omega))

/-- `ApplyIn` returns what `Apply` does on the value of the base, and writes no array that
was there. -/
theorem ApplyIn_cases (room : ℕ → ℕ) (u : Unicode) (p : RuntimeSettingsPatch)
    {m : Memory GoString} {x : StoredInput} (hvalid : x.Valid m) :
    (∃ e, p.Apply u (x.load m) = .error e ∧ p.ApplyIn room u m x = .error e) ∨
    ∃ m' x', p.Apply u (x.load m) = .ok (x'.load m') ∧ p.ApplyIn room u m x = .ok (m', x') ∧
      SameBelow m.next m m' := by
  unfold RuntimeSettingsPatch.Apply RuntimeSettingsPatch.ApplyIn
  split_ifs
  · exact .inl ⟨_, rfl, rfl⟩
  cases p.changes.entries.find? fun entry => entry.2.isNull with
  | some entry => exact .inl ⟨_, rfl, rfl⟩
  | none =>
    rcases hdomains : copyList room m x.shortDomains with ⟨m₁, h₁⟩
    rcases hdenylist : copyList room m₁ x.destinationDenylist with ⟨m₂, h₂⟩
    obtain ⟨hholds, hsame⟩ := holds_copies room hvalid hdomains hdenylist
    dsimp only
    rw [hdenylist]
    rcases decodeChangesIn_cases room u p.changes.entries hholds with
      ⟨e, herror, herror'⟩ | ⟨d', m', x', hdone, hdone', hholds', hsame'⟩
    · rw [herror]
      exact .inl ⟨e, rfl, herror'⟩
    · rw [hdone]
      refine .inr ⟨m', x', ?_, hdone', fun a ha => (hsame' a ha).trans (hsame a ha)⟩
      rw [hholds'.load]

end

end Purels
