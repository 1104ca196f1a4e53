import Purels.Config.Environment

/-!
# The hosts of the first row

The host lists that a deployment is seeded with, entry by entry. `hostListEnv` leaves an entry
that can never match where it is, and `RuntimeDefaults` validates the list as a whole.

* `acceptedHost`: what `normalizeRuntimeHosts` makes of one entry.
* `normalizeHostsFrom_eq`, `normalizeHostsFrom_error`: what it makes of a list.
* `defaultHosts_clean`, `defaultHosts_dirty`: what a value is seeded with.
* `Seeded`, and `seeded_iff`: no entry is lost unless the value is mixed.
* `denylist_dropped`: one bad entry empties the denylist.
-/

namespace Purels.Config

open Go

section

variable (u : Unicode)

/-- The host that `normalizeRuntimeHosts` makes of one entry, if it accepts one. -/
def acceptedHost (field : String) (entry : GoString) : Option GoString :=
  match normalizeRuntimeHosts u [entry] field with
  | .ok [host] => some host
  | _ => none

/-- The hosts of the accepted entries of a value: the first occurrence of each, in order. -/
def acceptedHosts (field : String) (value : GoString) : List GoString :=
  ((split 0x2C value).filterMap (acceptedHost u field)).eraseDups

/-- The seeded lists keep every accepted entry of their variables. -/
structure Seeded (getenv : Environment) : Prop where
  denylist : (acceptedHosts u "destination_denylist" (getenv (lit "DESTINATION_DENYLIST"))).Sublist
    (RuntimeDefaults u (Load u getenv)).destinationDenylist
  domains : (acceptedHosts u "short_domains" (getenv (lit "SHORT_DOMAINS"))).Sublist
    (RuntimeDefaults u (Load u getenv)).shortDomains

/-- Every entry of a list is blank or accepted. -/
def Clean (field : String) (values : List GoString) : Prop :=
  ∀ entry ∈ values, foldHost u entry = [] ∨ (acceptedHost u field entry).isSome

/-- A value all of whose entries are accepted, but for blank ones, or none of whose entries is. -/
def Unmixed (field : String) (value : GoString) : Prop :=
  Clean u field (split 0x2C value) ∨ ∀ entry ∈ split 0x2C value, acceptedHost u field entry = none

end

variable {u : Unicode} {field : String}

/-! ## One entry -/

/-- A folded entry is a bare, valid host. -/
def IsHost (u : Unicode) (host : GoString) : Prop :=
  host ≠ [] ∧ bareHost host = true ∧ validHost u host = true

/-- An entry is accepted when its canonical spelling is a host. -/
theorem acceptedHost_eq_some {entry host : GoString} :
    acceptedHost u field entry = some host ↔
      IsHost u (foldHost u entry) ∧ host = foldHost u entry := by
  unfold acceptedHost normalizeRuntimeHosts
  rw [normalizeHostsFrom, IsHost]
  by_cases hnil : foldHost u entry = []
  · rw [if_pos hnil]
    simp [normalizeHostsFrom, hnil]
  rw [if_neg hnil]
  by_cases hbare : bareHost (foldHost u entry) = true
  · by_cases hvalid : validHost u (foldHost u entry) = true
    · simp [normalizeHostsFrom, hnil, hbare, hvalid, eq_comm]
    · simp [hbare, hvalid]
  · simp [hbare]

/-- Folding an entry first changes nothing. -/
theorem acceptedHost_foldHost (entry : GoString) :
    acceptedHost u field (foldHost u entry) = acceptedHost u field entry := by
  refine Option.ext fun host => ?_
  rw [acceptedHost_eq_some, acceptedHost_eq_some, foldHost_foldHost]

/-- A blank entry is not accepted. -/
theorem acceptedHost_blank {entry : GoString} (hblank : foldHost u entry = []) :
    acceptedHost u field entry = none := by
  rw [Option.eq_none_iff_forall_not_mem]
  intro host hhost
  exact (acceptedHost_eq_some.mp hhost).1.1 hblank

theorem isSome_acceptedHost (entry : GoString) :
    (acceptedHost u field entry).isSome ↔ IsHost u (foldHost u entry) := by
  rw [Option.isSome_iff_exists]
  constructor
  · intro h
    cases h with
    | intro host hhost => exact (acceptedHost_eq_some.mp hhost).1
  · intro h
    exact ⟨foldHost u entry, acceptedHost_eq_some.mpr ⟨h, rfl⟩⟩

/-! ## A list of entries -/

/-- The loop appends the first occurrence of each accepted host that has not been kept. -/
theorem normalizeHostsFrom_eq {values : List GoString} (hclean : Clean u field values)
    (result : List GoString) :
    normalizeHostsFrom u field result values =
      .ok (result ++ ((values.filterMap (acceptedHost u field)).filter
        fun host => !result.contains host).eraseDups) := by
  induction values generalizing result with
  | nil => simp [normalizeHostsFrom]
  | cons entry values ih =>
    have hrest : Clean u field values := fun other hother => hclean other (by simp [hother])
    rw [normalizeHostsFrom]
    by_cases hnil : foldHost u entry = []
    · rw [if_pos hnil, List.filterMap_cons, acceptedHost_blank hnil]
      exact ih hrest result
    have hhost : IsHost u (foldHost u entry) := by
      rw [← @isSome_acceptedHost u field]
      exact (hclean entry (by simp)).resolve_left hnil
    have haccepted : acceptedHost u field entry = some (foldHost u entry) :=
      acceptedHost_eq_some.mpr ⟨hhost, rfl⟩
    rw [if_neg hnil, if_neg (by simp [hhost.2.1]), if_neg (by simp [hhost.2.2]),
      List.filterMap_cons, haccepted]
    by_cases hkept : foldHost u entry ∈ result
    · rw [if_pos hkept, ih hrest, List.filter_cons_of_neg (by simp [hkept])]
    · rw [if_neg hkept, ih hrest, List.filter_cons_of_pos (by simp [hkept]), List.eraseDups_cons,
        List.filter_filter, List.append_assoc]
      -- What is dropped from the rest is what is kept already, and the host that was just added.
      simp [Bool.and_comm, beq_eq_decide]

/-- The loop stops at an entry that is neither blank nor accepted. -/
theorem normalizeHostsFrom_error {values : List GoString} (hclean : ¬Clean u field values)
    (result : List GoString) :
    ∃ error, normalizeHostsFrom u field result values = .error error := by
  induction values generalizing result with
  | nil => exact absurd (fun _ hentry => absurd hentry (by simp)) hclean
  | cons entry values ih =>
    rw [normalizeHostsFrom]
    by_cases hnil : foldHost u entry = []
    · rw [if_pos hnil]
      apply ih
      intro hrest
      apply hclean
      intro other hother
      cases hother with
      | head => exact .inl hnil
      | tail _ hother => exact hrest other hother
    rw [if_neg hnil]
    split_ifs with hbare hvalid hkept
    · exact ⟨_, rfl⟩
    · exact ⟨_, rfl⟩
    all_goals
      apply ih
      intro hrest
      apply hclean
      intro other hother
      cases hother with
      | head =>
        right
        rw [isSome_acceptedHost]
        exact ⟨hnil, by simpa using hbare, by simpa using hvalid⟩
      | tail _ hother => exact hrest other hother

/-! ## A value -/

/-- `hostListEnv` folds the entries and drops the blank ones: the list is clean as before. -/
theorem clean_hostList (value : GoString) :
    Clean u field (hostList u value) ↔ Clean u field (split 0x2C value) := by
  constructor
  · intro hclean entry hentry
    by_cases hnil : foldHost u entry = []
    · exact .inl hnil
    have hmem : foldHost u entry ∈ hostList u value :=
      List.mem_filter.mpr ⟨List.mem_map.mpr ⟨entry, hentry, rfl⟩, by simp [hnil]⟩
    have hfolded := hclean _ hmem
    rwa [foldHost_foldHost, acceptedHost_foldHost] at hfolded
  · intro hclean host hhost
    rw [hostList, List.mem_filter, List.mem_map] at hhost
    cases hhost.1 with
    | intro entry hentry =>
      rw [← hentry.2, foldHost_foldHost, acceptedHost_foldHost]
      exact hclean entry hentry.1

/-- `hostListEnv` loses no accepted entry. -/
theorem filterMap_hostList (value : GoString) :
    (hostList u value).filterMap (acceptedHost u field) =
      (split 0x2C value).filterMap (acceptedHost u field) := by
  unfold hostList
  induction split 0x2C value with
  | nil => rfl
  | cons entry values ih =>
    rw [List.map_cons]
    by_cases hnil : foldHost u entry = []
    · rw [List.filter_cons_of_neg (by simp [hnil]), ih, List.filterMap_cons,
        acceptedHost_blank hnil]
    · rw [List.filter_cons_of_pos (by simp [hnil]), List.filterMap_cons, acceptedHost_foldHost, ih,
        List.filterMap_cons]

/-- A clean value is seeded with its accepted hosts. -/
theorem defaultHosts_clean {value : GoString} (hclean : Clean u field (split 0x2C value)) :
    defaultHosts u (hostList u value) field = acceptedHosts u field value := by
  rw [defaultHosts, normalizeRuntimeHosts,
    normalizeHostsFrom_eq ((clean_hostList value).mpr hclean), filterMap_hostList]
  simp [acceptedHosts]

/-- Any other value is seeded with no host at all. -/
theorem defaultHosts_dirty {value : GoString} (hdirty : ¬Clean u field (split 0x2C value)) :
    defaultHosts u (hostList u value) field = [] := by
  rw [← clean_hostList] at hdirty
  rw [defaultHosts, normalizeRuntimeHosts]
  cases normalizeHostsFrom_error hdirty [] with
  | intro error herror => rw [herror]

theorem acceptedHosts_eq_nil {value : GoString} :
    acceptedHosts u field value = [] ↔
      ∀ entry ∈ split 0x2C value, acceptedHost u field entry = none := by
  rw [← List.filterMap_eq_nil_iff, acceptedHosts]
  cases (split 0x2C value).filterMap (acceptedHost u field) with
  | nil => simp
  | cons host hosts => simp [List.eraseDups_cons]

/-- A list keeps its accepted entries exactly if the value is not mixed. -/
theorem sublist_defaultHosts (value : GoString) :
    (acceptedHosts u field value).Sublist (defaultHosts u (hostList u value) field) ↔
      Unmixed u field value := by
  by_cases hclean : Clean u field (split 0x2C value)
  · rw [defaultHosts_clean hclean]
    exact ⟨fun _ => .inl hclean, fun _ => List.Sublist.refl _⟩
  · rw [defaultHosts_dirty hclean, List.sublist_nil, acceptedHosts_eq_nil]
    exact ⟨.inr, fun h => h.resolve_left hclean⟩

/-- The seeded lists keep every accepted entry exactly if neither value mixes accepted entries
with entries that are not. -/
theorem seeded_iff (u : Unicode) (getenv : Environment) :
    Seeded u getenv ↔
      Unmixed u "destination_denylist" (getenv (lit "DESTINATION_DENYLIST")) ∧
        Unmixed u "short_domains" (getenv (lit "SHORT_DOMAINS")) := by
  rw [← sublist_defaultHosts, ← sublist_defaultHosts]
  constructor
  · intro hseeded
    exact ⟨hseeded.denylist, hseeded.domains⟩
  · intro hboth
    exact ⟨hboth.1, hboth.2⟩

/-- An environment that sets the denylist, one entry of which is a URL. -/
def mixedEnvironment : Environment := fun key =>
  if key = lit "DESTINATION_DENYLIST" then lit "evil.example,http://bad.example" else []

/-- One URL among the entries leaves the deployment without a denylist. -/
theorem denylist_dropped : ¬∀ u getenv, Seeded u getenv := by
  intro hall
  have hkept := (hall .ascii mixedEnvironment).denylist
  have haccepted : acceptedHosts .ascii "destination_denylist"
      (mixedEnvironment (lit "DESTINATION_DENYLIST")) = [lit "evil.example"] := by decide
  have hseeded : (RuntimeDefaults .ascii (Load .ascii mixedEnvironment)).destinationDenylist =
      [] := by decide
  rw [haccepted, hseeded] at hkept
  exact absurd hkept (by simp)

end Purels.Config
