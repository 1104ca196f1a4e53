import Purels.Domain.PatchMemory

/-!
# What a settings patch writes

`Apply` decodes the changes on top of the base.  A `null` in a list leaves the element
that its memory holds, which may be the base's.

* `Json.keepsAt` and `overlay`: one index of a list, through the arrays decoded into it.
* `Apply_list` and `Apply_scalar`: the result of a field, by its supplied values.
* `LeavesNull`: an element of a supplied list that no supplied value gives.
* `patch_fields_iff`, for every patch that is accepted, and `null_element_kept`, a patch
  whose result depends on the base.
-/

namespace Purels.Properties

open Go

/-! ## One index of a list -/

def elementsOf : Json → List Json
  | .array elements => elements
  | _ => []

/-- An array that, decoded into a slice, leaves what the memory holds at this index. -/
def keepsAt (j : ℕ) (value : Json) : Bool :=
  !(elementsOf value).isEmpty && ((elementsOf value)[j]?).all Json.isNull

/-- The string of an array at this index. -/
def textAt (j : ℕ) (value : Json) : GoString := (((elementsOf value)[j]?).bind Json.toText).getD []

/-- What index `j` holds after the values have been decoded one after the other. -/
def overlay (j : ℕ) (values : List Json) (held : GoString) : GoString :=
  values.foldl (fun held value => if keepsAt j value then held else textAt j value) held

theorem overlay_of_keeps {j : ℕ} {values : List Json} (h : ∀ v ∈ values, keepsAt j v)
    (held : GoString) : overlay j values held = held := by
  induction values with
  | nil => rfl
  | cons v values ih =>
    have hstep : overlay j (v :: values) held = overlay j values held := by
      unfold overlay
      rw [List.foldl_cons, if_pos (h v List.mem_cons_self)]
    rw [hstep]
    exact ih fun w hw => h w (List.mem_cons_of_mem v hw)

theorem overlay_of_not_keeps {j : ℕ} {values : List Json} (h : ¬ ∀ v ∈ values, keepsAt j v)
    (held held' : GoString) : overlay j values held = overlay j values held' := by
  induction values generalizing held held' with
  | nil => exact absurd (fun v hv => by cases hv) h
  | cons v values ih =>
    unfold overlay
    rw [List.foldl_cons, List.foldl_cons]
    split_ifs with hkeeps
    · refine ih (fun hall => h fun w hw => ?_) held held'
      rcases List.mem_cons.mp hw with rfl | hw
      · exact hkeeps
      · exact hall w hw
    · rfl

/-- The memory after its elements have been decoded. -/
theorem toElements_getD {memory : List GoString} {elements : List Json} {values : List GoString}
    (h : Json.toElements memory elements = some values) :
    values.length = elements.length ∧ ∀ j,
      (values ++ memory.drop elements.length).getD j [] =
        if (elements[j]?).all Json.isNull then memory.getD j []
        else ((elements[j]?).bind Json.toText).getD [] := by
  induction elements generalizing memory values with
  | nil =>
    obtain rfl : [] = values := by cases memory <;> simpa [Json.toElements] using h
    exact ⟨rfl, fun j => rfl⟩
  | cons element elements ih =>
    rw [toElements_cons] at h
    obtain ⟨x, hx, hrest⟩ := Option.bind_eq_some_iff.mp h
    obtain ⟨xs, hxs, rfl⟩ := Option.map_eq_some_iff.mp hrest
    obtain ⟨hlength, hget⟩ := ih hxs
    refine ⟨by rw [List.length_cons, List.length_cons, hlength], fun j => ?_⟩
    cases j with
    | zero =>
      show x = _
      cases element with
      | string s => simpa [Json.toElement, Json.isNull, Json.toText] using hx.symm
      | null =>
        have hheld : memory.head?.getD [] = x := by simpa [Json.toElement] using hx
        rw [← hheld]
        cases memory <;> rfl
      | _ => cases hx
    | succ j =>
      have htail := hget j
      rw [List.drop_tail] at htail
      have hmemory : memory.getD (j + 1) [] = memory.tail.getD j [] := by cases memory <;> rfl
      rw [hmemory]
      exact htail

theorem toStrings_getD {slice slice' : Slice} {value : Json}
    (h : value.toStrings slice = some slice') :
    slice'.values.length = (elementsOf value).length ∧ ∀ j,
      (slice'.values ++ slice'.spare).getD j [] =
        if keepsAt j value then (slice.values ++ slice.spare).getD j [] else textAt j value := by
  cases value with
  | array elements =>
    unfold Json.toStrings at h
    dsimp only at h
    split_ifs at h with hempty
    · obtain rfl := Option.some.inj h
      obtain rfl := List.isEmpty_iff.mp hempty
      exact ⟨rfl, fun j => rfl⟩
    · obtain ⟨values, hvalues, rfl⟩ := Option.map_eq_some_iff.mp h
      obtain ⟨hlength, hget⟩ := toElements_getD hvalues
      refine ⟨hlength, fun j => ?_⟩
      rw [hget j]
      simp [keepsAt, textAt, elementsOf, hempty]
  | _ => cases h

/-- Which arrays can be decoded does not depend on the memory. -/
theorem toElements_isSome (memory memory' : List GoString) (elements : List Json) :
    (Json.toElements memory elements).isSome = (Json.toElements memory' elements).isSome := by
  induction elements generalizing memory memory' with
  | nil => cases memory <;> cases memory' <;> rfl
  | cons element elements ih =>
    rw [toElements_cons, toElements_cons]
    cases element with
    | string s | null =>
      simpa [Json.toElement] using ih memory.tail memory'.tail
    | _ => rfl

theorem toStrings_isSome (slice slice' : Slice) (value : Json) :
    (value.toStrings slice).isSome = (value.toStrings slice').isSome := by
  cases value with
  | array elements =>
    unfold Json.toStrings
    dsimp only
    split_ifs
    · rfl
    · rw [Option.isSome_map, Option.isSome_map]
      exact toElements_isSome _ _ elements
  | _ => rfl

/-! ## Fields -/

/-- The list of a list field. -/
def listOf (input : RuntimeSettingsInput) : SettingsField → List GoString
  | .destinationDenylist => input.destinationDenylist
  | .shortDomains => input.shortDomains
  | _ => []

/-- The memory of a list field. -/
def memoryOf (d : Decoding) : SettingsField → List GoString
  | .destinationDenylist => d.input.destinationDenylist ++ d.denylistSpare
  | .shortDomains => d.input.shortDomains ++ d.domainsSpare
  | _ => []

theorem set_isSome (d d' : Decoding) (value : Json) (field : SettingsField) :
    (d.set value field).isSome = (d'.set value field).isSome := by
  cases field <;> simp only [Decoding.set, Option.isSome_map] <;> exact toStrings_isSome _ _ value

/-- A scalar has the value it was given. -/
theorem set_read_scalar {d₁ d₂ d₁' d₂' : Decoding} {value : Json} {field : SettingsField}
    (hscalar : field.scalar) (h₁ : d₁.set value field = some d₁')
    (h₂ : d₂.set value field = some d₂') :
    d₁'.input.read field = d₂'.input.read field := by
  cases field
  case destinationDenylist => cases hscalar
  case shortDomains => cases hscalar
  all_goals
    simp only [Decoding.set, Option.map_eq_some_iff] at h₁ h₂
    obtain ⟨x, hx, rfl⟩ := h₁
    obtain ⟨y, hy, rfl⟩ := h₂
    obtain rfl : x = y := by simpa [hx] using hy
    rfl

/-- A list is decoded into the memory it has. -/
theorem set_list {d d' : Decoding} {value : Json} {field : SettingsField} (hlist : ¬ field.scalar)
    (h : d.set value field = some d') :
    (listOf d'.input field).length = (elementsOf value).length ∧ ∀ j,
      (memoryOf d' field).getD j [] =
        if keepsAt j value then (memoryOf d field).getD j [] else textAt j value := by
  cases field
  case destinationDenylist =>
    obtain ⟨slice, hslice, rfl⟩ := Option.map_eq_some_iff.mp h
    exact toStrings_getD hslice
  case shortDomains =>
    obtain ⟨slice, hslice, rfl⟩ := Option.map_eq_some_iff.mp h
    exact toStrings_getD hslice
  all_goals exact absurd rfl hlist

/-- Another field's list stays where it is. -/
theorem set_other {d d' : Decoding} {value : Json} {field other : SettingsField}
    (h : d.set value field = some d') (hne : other ≠ field) :
    listOf d'.input other = listOf d.input other ∧ memoryOf d' other = memoryOf d other := by
  cases field <;> simp only [Decoding.set, Option.map_eq_some_iff] at h <;>
    obtain ⟨x, -, rfl⟩ := h <;> cases other <;> first | exact ⟨rfl, rfl⟩ | exact absurd rfl hne

/-! ## Changes -/

section

variable (u : Unicode)

/-- The values that the keys give to a field, in their order. -/
def suppliedValues (entries : List (GoString × Json)) (field : SettingsField) : List Json :=
  (entries.filter fun entry => settingsField u entry.1 == some field).map Prod.snd

/-- The last list supplied for the field has an element that no supplied value gives: it is
`null`, and so is the element of every other value that reaches its index. -/
def LeavesNull (p : RuntimeSettingsPatch) (field : SettingsField) : Prop :=
  ¬ field.scalar ∧ ∃ last j,
    (suppliedValues u p.changes.entries field).getLast? = some last ∧ j < (elementsOf last).length ∧
    ∀ value ∈ suppliedValues u p.changes.entries field, keepsAt j value

variable {u}

theorem decodeChanges_cons {key : GoString} {value : Json} {entries : List (GoString × Json)}
    {d d' : Decoding} (h : decodeChanges u ((key, value) :: entries) d = .ok d') :
    ∃ field d₁, settingsField u key = some field ∧ d.set value field = some d₁ ∧
      decodeChanges u entries d₁ = .ok d' := by
  rw [decodeChanges] at h
  split at h
  · cases h
  rename_i field hfield
  split at h
  · cases h
  rename_i d₁ hset
  exact ⟨field, d₁, hfield, hset, h⟩

/-- Which changes are accepted does not depend on what they are decoded into. -/
theorem decodeChanges_ok {entries : List (GoString × Json)} {d₁ d₁' : Decoding}
    (h : decodeChanges u entries d₁ = .ok d₁') (d₂ : Decoding) :
    ∃ d₂', decodeChanges u entries d₂ = .ok d₂' := by
  induction entries generalizing d₁ d₂ with
  | nil => exact ⟨d₂, rfl⟩
  | cons entry entries ih =>
    obtain ⟨key, value⟩ := entry
    obtain ⟨field, d, hfield, hset, hrest⟩ := decodeChanges_cons h
    have hsome := set_isSome d₁ d₂ value field
    rw [hset, Option.isSome_some] at hsome
    obtain ⟨d', hset'⟩ := Option.isSome_iff_exists.mp hsome.symm
    obtain ⟨d₂', hd₂'⟩ := ih hrest d'
    refine ⟨d₂', ?_⟩
    rw [decodeChanges, hfield]
    dsimp only
    rw [hset']
    exact hd₂'

theorem suppliedValues_cons (key : GoString) (value : Json) (entries : List (GoString × Json))
    (field : SettingsField) :
    suppliedValues u ((key, value) :: entries) field =
      if settingsField u key = some field then value :: suppliedValues u entries field
      else suppliedValues u entries field := by
  unfold suppliedValues
  by_cases hkey : settingsField u key = some field
  · simp [hkey]
  · simp [hkey]

/-- A scalar is what the last of its values says. -/
theorem decodeChanges_scalar {entries : List (GoString × Json)} {d₁ d₁' d₂ d₂' : Decoding}
    {field : SettingsField} (hscalar : field.scalar) (h₁ : decodeChanges u entries d₁ = .ok d₁')
    (h₂ : decodeChanges u entries d₂ = .ok d₂')
    (hsame : d₁.input.read field = d₂.input.read field ∨ suppliedValues u entries field ≠ []) :
    d₁'.input.read field = d₂'.input.read field := by
  induction entries generalizing d₁ d₂ with
  | nil =>
    obtain rfl := Except.ok.inj h₁
    obtain rfl := Except.ok.inj h₂
    exact hsame.resolve_right fun h => h rfl
  | cons entry entries ih =>
    obtain ⟨key, value⟩ := entry
    obtain ⟨named, d, hnamed, hset, hrest⟩ := decodeChanges_cons h₁
    obtain ⟨named', d', hnamed', hset', hrest'⟩ := decodeChanges_cons h₂
    obtain rfl : named = named' := by simpa [hnamed] using hnamed'
    refine ih hrest hrest' ?_
    rw [suppliedValues_cons, hnamed] at hsame
    by_cases hfield : named = field
    · subst hfield
      exact .inl (set_read_scalar hscalar hset hset')
    · rw [if_neg (fun h => hfield (Option.some.inj h))] at hsame
      rw [Decoding.set_read hset (Ne.symm hfield), Decoding.set_read hset' (Ne.symm hfield)]
      exact hsame

/-- A list has the length of the last of its values, and its memory went through all. -/
theorem decodeChanges_list {entries : List (GoString × Json)} {d d' : Decoding}
    {field : SettingsField} (hlist : ¬ field.scalar) (h : decodeChanges u entries d = .ok d') :
    (suppliedValues u entries field = [] → listOf d'.input field = listOf d.input field) ∧
    (∀ last, (suppliedValues u entries field).getLast? = some last →
      (listOf d'.input field).length = (elementsOf last).length) ∧
    ∀ j, (memoryOf d' field).getD j [] =
      overlay j (suppliedValues u entries field) ((memoryOf d field).getD j []) := by
  induction entries generalizing d with
  | nil =>
    obtain rfl := Except.ok.inj h
    refine ⟨fun _ => rfl, fun last hlast => ?_, fun j => rfl⟩
    cases hlast
  | cons entry entries ih =>
    obtain ⟨key, value⟩ := entry
    obtain ⟨named, d₁, hnamed, hset, hrest⟩ := decodeChanges_cons h
    obtain ⟨hnil, hlength, hget⟩ := ih hrest
    rw [suppliedValues_cons, hnamed]
    by_cases hfield : named = field
    · subst hfield
      obtain ⟨hsetLength, hsetGet⟩ := set_list hlist hset
      rw [if_pos rfl]
      refine ⟨fun hcons => ?_, fun last hlast => ?_, fun j => ?_⟩
      · cases hcons
      · rw [List.getLast?_cons] at hlast
        cases hmore : (suppliedValues u entries named).getLast? with
        | none =>
          rw [hmore] at hlast
          obtain rfl : value = last := Option.some.inj hlast
          rw [hnil (List.getLast?_eq_none_iff.mp hmore), hsetLength]
        | some final =>
          rw [hmore] at hlast
          obtain rfl : final = last := Option.some.inj hlast
          exact hlength final hmore
      · rw [hget j, hsetGet j]
        rfl
    · rw [if_neg (fun h => hfield (Option.some.inj h))]
      obtain ⟨hother, hmemory⟩ := set_other hset (Ne.symm hfield)
      refine ⟨fun hcons => (hnil hcons).trans hother, hlength, fun j => ?_⟩
      rw [hget j, hmemory]

/-! ## Apply -/

variable {p : RuntimeSettingsPatch} {base base' out out' : RuntimeSettingsInput}
  {field : SettingsField}

theorem Apply_decodes (h : p.Apply u base = .ok out) :
    ∃ d, decodeChanges u p.changes.entries ⟨base, [], []⟩ = .ok d ∧ d.input = out := by
  unfold RuntimeSettingsPatch.Apply at h
  split_ifs at h
  split at h
  · cases h
  split at h
  · cases h
  · rename_i d hdecode
    exact ⟨d, hdecode, Except.ok.inj h⟩

/-- A patch is accepted on every base or on none. -/
theorem Apply_accepts (h : p.Apply u base = .ok out) (base' : RuntimeSettingsInput) :
    ∃ out', p.Apply u base' = .ok out' := by
  obtain ⟨d, hdecode, -⟩ := Apply_decodes h
  obtain ⟨d', hdecode'⟩ := decodeChanges_ok hdecode ⟨base', [], []⟩
  unfold RuntimeSettingsPatch.Apply at h ⊢
  split_ifs at h with hrequired
  split at h
  · cases h
  rename_i hnull
  refine ⟨d'.input, ?_⟩
  rw [if_neg hrequired, hdecode']

theorem supplies_iff : p.Supplies u field ↔ suppliedValues u p.changes.entries field ≠ [] := by
  unfold RuntimeSettingsPatch.Supplies suppliedValues
  rw [Ne, List.map_eq_nil_iff, List.filter_eq_nil_iff]
  simp

/-- A supplied scalar does not depend on the base. -/
theorem Apply_scalar (hscalar : field.scalar) (h : p.Apply u base = .ok out)
    (h' : p.Apply u base' = .ok out') (hsupplies : p.Supplies u field) :
    out.read field = out'.read field := by
  obtain ⟨d, hdecode, rfl⟩ := Apply_decodes h
  obtain ⟨d', hdecode', rfl⟩ := Apply_decodes h'
  exact decodeChanges_scalar hscalar hdecode hdecode' (.inr (supplies_iff.mp hsupplies))

theorem read_eq_listOf (hlist : ¬ field.scalar) (input : RuntimeSettingsInput) :
    input.read field = .texts (listOf input field) := by
  cases field <;> first | rfl | exact absurd rfl hlist

/-- A supplied list, index by index. -/
theorem Apply_list (hlist : ¬ field.scalar) (h : p.Apply u base = .ok out) {last : Json}
    (hlast : (suppliedValues u p.changes.entries field).getLast? = some last) :
    listOf out field = (List.range (elementsOf last).length).map fun j =>
      overlay j (suppliedValues u p.changes.entries field) ((listOf base field).getD j []) := by
  obtain ⟨d, hdecode, rfl⟩ := Apply_decodes h
  obtain ⟨-, hlength, hget⟩ := decodeChanges_list hlist hdecode
  have hbase : memoryOf ⟨base, [], []⟩ field = listOf base field := by
    cases field <;> first | exact List.append_nil _ | exact absurd rfl hlist
  rw [hbase] at hget
  have hmemory : ∃ spare, memoryOf d field = listOf d.input field ++ spare := by
    cases field <;> exact ⟨_, rfl⟩
  obtain ⟨spare, hspare⟩ := hmemory
  refine List.ext_getElem (by simp [hlength last hlast]) fun j hj hj' => ?_
  rw [List.getElem_map, List.getElem_range, ← hget j, hspare, List.getD_eq_getElem?_getD,
    List.getElem?_append_left hj, List.getElem?_eq_getElem hj, Option.getD_some]

/-- A base with this list in both list fields. -/
def listBase (list : List GoString) : RuntimeSettingsInput :=
  { destinationDenylist := list, shortDomains := list }

theorem listOf_listBase (hlist : ¬ field.scalar) (list : List GoString) :
    listOf (listBase list) field = list := by
  cases field <;> first | rfl | exact absurd rfl hlist

/-- An index that keeps what is there has the value of the base. -/
theorem Apply_list_kept (hlist : ¬ field.scalar) (h : p.Apply u base = .ok out) {last : Json}
    {j : ℕ} (hlast : (suppliedValues u p.changes.entries field).getLast? = some last)
    (hj : j < (elementsOf last).length)
    (hkeeps : ∀ value ∈ suppliedValues u p.changes.entries field, keepsAt j value) :
    (listOf out field)[j]? = some ((listOf base field).getD j []) := by
  rw [Apply_list hlist h hlast, List.getElem?_map, List.getElem?_range hj, Option.map_some,
    overlay_of_keeps hkeeps]

/-- The result of a supplied field is the same on every base unless a null is left. -/
theorem Apply_field_iff (hsupplies : p.Supplies u field) (hok : p.Apply u base = .ok out) :
    (∀ base₁ base₂ out₁ out₂, p.Apply u base₁ = .ok out₁ → p.Apply u base₂ = .ok out₂ →
      out₂.read field = out₁.read field) ↔ ¬ LeavesNull u p field := by
  constructor
  · rintro hsame ⟨hlist, last, j, hlast, hj, hkeeps⟩
    obtain ⟨out₁, hout₁⟩ := Apply_accepts hok (listBase (List.replicate (j + 1) (lit "a")))
    obtain ⟨out₂, hout₂⟩ := Apply_accepts hok (listBase (List.replicate (j + 1) (lit "b")))
    have hread := hsame _ _ out₁ out₂ hout₁ hout₂
    rw [read_eq_listOf hlist, read_eq_listOf hlist] at hread
    have hget₁ := Apply_list_kept hlist hout₁ hlast hj hkeeps
    have hget₂ := Apply_list_kept hlist hout₂ hlast hj hkeeps
    rw [SettingsValue.texts.inj hread, hget₁, listOf_listBase hlist, listOf_listBase hlist] at hget₂
    simp at hget₂
    revert hget₂
    decide
  · intro hleaves base₁ base₂ out₁ out₂ hout₁ hout₂
    by_cases hscalar : field.scalar
    · exact Apply_scalar hscalar hout₂ hout₁ hsupplies
    · rw [read_eq_listOf hscalar, read_eq_listOf hscalar]
      have hne := supplies_iff.mp hsupplies
      have hlast := List.getLast?_eq_some_getLast hne
      rw [Apply_list hscalar hout₁ hlast, Apply_list hscalar hout₂ hlast]
      congr 1
      refine List.map_congr_left fun j hj => overlay_of_not_keeps (fun hkeeps => ?_) _ _
      exact hleaves ⟨hscalar, _, j, hlast, List.mem_range.mp hj, hkeeps⟩

/-! ## Apply in memory -/

/-- A base with these values, in an array of its own for each list. -/
def storedBase (input : RuntimeSettingsInput) : Memory GoString × StoredInput :=
  (⟨2, fun a i =>
      if a = 0 then input.destinationDenylist.getD i [] else input.shortDomains.getD i []⟩,
    { fields := input
      destinationDenylist := some ⟨0, 0, input.destinationDenylist.length,
        input.destinationDenylist.length, le_rfl⟩
      shortDomains := some ⟨1, 0, input.shortDomains.length, input.shortDomains.length, le_rfl⟩ })

theorem storedBase_valid (input : RuntimeSettingsInput) :
    (storedBase input).2.Valid (storedBase input).1 :=
  ⟨.inr (by decide : 0 < 2), .inr (by decide : 1 < 2)⟩

theorem map_range_getD (list : List GoString) :
    (List.range list.length).map (fun i => list.getD i []) = list := by
  refine List.ext_getElem (by simp) fun i hi hi' => ?_
  simp [List.getD_eq_getElem?_getD, hi']

theorem storedBase_load (input : RuntimeSettingsInput) :
    (storedBase input).2.load (storedBase input).1 = input := by
  have hdenylist : (storedBase input).1.read (header (storedBase input).2.destinationDenylist) =
      input.destinationDenylist := by
    show (List.range input.destinationDenylist.length).map
      (fun i => input.destinationDenylist.getD (0 + i) []) = _
    simp only [Nat.zero_add]
    exact map_range_getD _
  have hdomains : (storedBase input).1.read (header (storedBase input).2.shortDomains) =
      input.shortDomains := by
    show (List.range input.shortDomains.length).map
      (fun i => input.shortDomains.getD (0 + i) []) = _
    simp only [Nat.zero_add]
    exact map_range_getD _
  unfold StoredInput.load
  rw [hdenylist, hdomains]
  rfl

/-- A patch is field-independent: a field that it does not supply is the base's, a supplied
field has one value on all bases, and the lists of the base are left alone. -/
def FieldIndependent (room : ℕ → ℕ) (u : Unicode) (p : RuntimeSettingsPatch) : Prop :=
  ∀ m x m₁ x₁, x.Valid m → p.ApplyIn room u m x = .ok (m₁, x₁) →
    (∀ field, ¬ p.Supplies u field → (x₁.load m₁).read field = (x.load m).read field) ∧
    (∀ m' x' m₁' x₁', x'.Valid m' → p.ApplyIn room u m' x' = .ok (m₁', x₁') →
      ∀ field, p.Supplies u field → (x₁'.load m₁').read field = (x₁.load m₁).read field) ∧
    x.load m₁ = x.load m

variable {room : ℕ → ℕ} {m m₁ : Memory GoString} {x x₁ : StoredInput}

theorem ApplyIn_ok (hvalid : x.Valid m) (h : p.ApplyIn room u m x = .ok (m₁, x₁)) :
    p.Apply u (x.load m) = .ok (x₁.load m₁) ∧ SameBelow m.next m m₁ := by
  rcases ApplyIn_cases room u p hvalid with ⟨e, -, herror⟩ | ⟨m', x', hok, hin, hsame⟩
  · rw [herror] at h
    cases h
  · rw [hin] at h
    obtain ⟨rfl, rfl⟩ := Prod.mk.inj (Except.ok.inj h)
    exact ⟨hok, hsame⟩

/-- A base in memory for every accepted patch. -/
theorem ApplyIn_stored (room : ℕ → ℕ) (h : p.Apply u base = .ok out) :
    ∃ m₁ x₁, p.ApplyIn room u (storedBase base).1 (storedBase base).2 = .ok (m₁, x₁) ∧
      x₁.load m₁ = out := by
  have hload := storedBase_load base
  rcases ApplyIn_cases room u p (storedBase_valid base) with ⟨e, herror, -⟩ | ⟨m', x', hok, hin, -⟩
  · rw [hload, h] at herror
    cases herror
  · rw [hload, h] at hok
    exact ⟨m', x', hin, (Except.ok.inj hok).symm⟩

/-- An accepted patch is field-independent when it leaves no null in a list. -/
theorem patch_fields_iff (hvalid : x.Valid m) (haccepts : p.ApplyIn room u m x = .ok (m₁, x₁)) :
    FieldIndependent room u p ↔ ∀ field, ¬ LeavesNull u p field := by
  obtain ⟨hok, -⟩ := ApplyIn_ok hvalid haccepts
  constructor
  · intro hindependent field hleaves
    have hsupplies : p.Supplies u field := by
      obtain ⟨-, last, j, hlast, -⟩ := hleaves
      refine supplies_iff.mpr fun hnil => ?_
      rw [hnil] at hlast
      cases hlast
    refine (Apply_field_iff hsupplies hok).mp (fun base₁ base₂ out₁ out₂ hout₁ hout₂ => ?_) hleaves
    obtain ⟨m₁', x₁', hin₁, rfl⟩ := ApplyIn_stored room hout₁
    obtain ⟨m₂', x₂', hin₂, rfl⟩ := ApplyIn_stored room hout₂
    exact (hindependent _ _ _ _ (storedBase_valid base₁) hin₁).2.1 _ _ _ _ (storedBase_valid base₂)
      hin₂ field hsupplies
  · intro hleaves m₀ x₀ m₀' x₀' hvalid₀ hin₀
    obtain ⟨hok₀, hsame⟩ := ApplyIn_ok hvalid₀ hin₀
    refine ⟨fun field hnot => Apply_read u hok₀ hnot,
      fun m' x' m₁' x₁' hvalid' hin' field hsupplies => ?_, ?_⟩
    · obtain ⟨hok', -⟩ := ApplyIn_ok hvalid' hin'
      exact (Apply_field_iff hsupplies hok).mpr (hleaves field) _ _ _ _ hok₀ hok'
    · unfold StoredInput.load
      rw [read_of_view (view_of_sameBelow hsame hvalid₀.denylist),
        read_of_view (view_of_sameBelow hsame hvalid₀.domains)]

end

/-! ## A null element -/

/-- `{"revision": 1, "changes": {"short_domains": [element]}}`. -/
def domainsPatch (element : Json) : RuntimeSettingsPatch where
  revision := 1
  changes := ⟨[(lit "short_domains", .array [element])], List.pairwise_singleton _ _⟩

def oneDomain (domain : GoString) : RuntimeSettingsInput := { shortDomains := [domain] }

theorem domainsPatch_string : (domainsPatch (.string (lit "c.example"))).Apply .ascii
    (oneDomain (lit "a.example")) = .ok (oneDomain (lit "c.example")) := by
  rfl

theorem domainsPatch_null (domain : GoString) :
    (domainsPatch .null).Apply .ascii (oneDomain domain) = .ok (oneDomain domain) := by
  rfl

/-- A list of strings is taken as it is. -/
theorem string_patch_independent : ∃ m₁ x₁,
    (domainsPatch (.string (lit "c.example"))).ApplyIn (fun _ => 0) .ascii
      (storedBase (oneDomain (lit "a.example"))).1 (storedBase (oneDomain (lit "a.example"))).2 =
        .ok (m₁, x₁) ∧
    x₁.load m₁ = oneDomain (lit "c.example") ∧
    FieldIndependent (fun _ => 0) .ascii (domainsPatch (.string (lit "c.example"))) := by
  obtain ⟨m₁, x₁, hin, hload⟩ := ApplyIn_stored (fun _ => 0) domainsPatch_string
  refine ⟨m₁, x₁, hin, hload,
    (patch_fields_iff (storedBase_valid _) hin).mpr fun field hleaves => ?_⟩
  obtain ⟨-, last, j, hlast, hj, hkeeps⟩ := hleaves
  have hkept := hkeeps last (List.mem_of_getLast? hlast)
  rw [domainsPatch, suppliedValues_cons] at hlast
  split_ifs at hlast
  · obtain rfl : Json.array [.string (lit "c.example")] = last := Option.some.inj hlast
    obtain rfl : j = 0 := Nat.lt_one_iff.mp hj
    cases hkept
  · cases hlast

/-- The patch sets the one short domain to `null`, and is accepted: the result is the domain
of the base. -/
theorem null_element_kept : ¬ ∀ (p : RuntimeSettingsPatch) (m : Memory GoString) (x : StoredInput)
    (m₁ : Memory GoString) (x₁ : StoredInput), x.Valid m →
      p.ApplyIn (fun _ => 0) .ascii m x = .ok (m₁, x₁) →
      FieldIndependent (fun _ => 0) .ascii p := by
  intro hclaim
  obtain ⟨m₁, x₁, hin, hload⟩ := ApplyIn_stored (fun _ => 0) (domainsPatch_null (lit "a.example"))
  obtain ⟨m₂, x₂, hin', hload'⟩ := ApplyIn_stored (fun _ => 0) (domainsPatch_null (lit "b.example"))
  have hsame := (hclaim _ _ _ _ _ (storedBase_valid _) hin _ _ _ _ (storedBase_valid _) hin).2.1
    _ _ _ _ (storedBase_valid _) hin' .shortDomains ⟨_, List.mem_singleton_self _, by rfl⟩
  rw [hload, hload'] at hsame
  revert hsame
  decide

end Purels.Properties
