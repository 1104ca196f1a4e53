import Purels.Js.Numbers

/-!
# The console's settings form

`runtime-settings-form.ts`, which turns the settings of a group into the texts and switches of
a form, and what the form holds into a patch.

* `runtimeGroups`: the fields of each group.
* `runtimeDraft`: the form of a group.
* `runtimeChanges`: the patch, or the field whose number is refused.
* `runtimeChanges_eq_nil_iff`: when a form has nothing to save; `runtimeChanges_keys`: what it
  may save.
* `readHosts_join_iff`: the lists that a text area keeps.
-/

namespace Purels.Console

open Js

/-! ## Fields -/

/-- The fields of `RuntimeSettingsInput`. -/
inductive RuntimeKey where
  | aliasMode
  | uniqueUrls
  | registrationEnabled
  | totpEnabled
  | countBots
  | forwardQuery
  | fallbackUrl
  | autoPruneExpired
  | pruneGraceSeconds
  | maxLinksPerUser
  | destinationDenylist
  | shortDomains
  | healthCheckEnabled
  | healthCheckIntervalSeconds
  | rateLimitEnabled
  | rateLimitLogin
  | rateLimitApi
  | rateLimitRedirect
  | rateLimitRegister
  | rateLimit2fa
  | rateLimitOidc
  deriving DecidableEq

/-- The name of a field. -/
def RuntimeKey.name : RuntimeKey → String
  | .aliasMode => "alias_mode"
  | .uniqueUrls => "unique_urls"
  | .registrationEnabled => "registration_enabled"
  | .totpEnabled => "totp_enabled"
  | .countBots => "count_bots"
  | .forwardQuery => "forward_query"
  | .fallbackUrl => "fallback_url"
  | .autoPruneExpired => "auto_prune_expired"
  | .pruneGraceSeconds => "prune_grace_seconds"
  | .maxLinksPerUser => "max_links_per_user"
  | .destinationDenylist => "destination_denylist"
  | .shortDomains => "short_domains"
  | .healthCheckEnabled => "health_check_enabled"
  | .healthCheckIntervalSeconds => "health_check_interval_seconds"
  | .rateLimitEnabled => "rate_limit_enabled"
  | .rateLimitLogin => "rate_limit_login"
  | .rateLimitApi => "rate_limit_api"
  | .rateLimitRedirect => "rate_limit_redirect"
  | .rateLimitRegister => "rate_limit_register"
  | .rateLimit2fa => "rate_limit_2fa"
  | .rateLimitOidc => "rate_limit_oidc"

/-- `RuntimeGroup`. -/
inductive RuntimeGroup where
  | creation
  | redirects
  | maintenance
  | registration
  | traffic
  | statistics
  deriving DecidableEq

/-- `runtimeGroups`: the only fields that saving a group may change. -/
def runtimeGroups : RuntimeGroup → List RuntimeKey
  | .creation => [.aliasMode, .uniqueUrls, .maxLinksPerUser, .shortDomains]
  | .redirects => [.forwardQuery, .fallbackUrl, .destinationDenylist]
  | .maintenance =>
    [.healthCheckEnabled, .healthCheckIntervalSeconds, .autoPruneExpired, .pruneGraceSeconds]
  | .registration => [.registrationEnabled, .totpEnabled]
  | .traffic =>
    [.rateLimitEnabled, .rateLimitLogin, .rateLimitRegister, .rateLimit2fa, .rateLimitOidc,
      .rateLimitApi, .rateLimitRedirect]
  | .statistics => [.countBots]

/-- A value of the settings. -/
inductive RuntimeValue where
  | text (s : JsString)
  | flag (b : Bool)
  | number (n : Int)
  | list (items : List JsString)
  deriving DecidableEq

/-- A value of a form. -/
inductive DraftValue where
  | text (s : JsString)
  | flag (b : Bool)
  deriving DecidableEq

/-- `RuntimeSettingsInput`, as the console holds it. -/
abbrev RuntimeRecord := RuntimeKey → RuntimeValue

/-- `RuntimeDraft`: a form, with the fields it has. -/
abbrev RuntimeDraft := RuntimeKey → Option DraftValue

/-! ## The form -/

/-- What a form shows of a value. -/
def draftValue : RuntimeValue → DraftValue
  | .flag b => .flag b
  | .list items => .text ([0x0A].intercalate items)
  | .text s => .text s
  | .number n => .text (numberText n)

/-- `runtimeDraft`. -/
def runtimeDraft (settings : RuntimeRecord) (group : RuntimeGroup) : RuntimeDraft := fun key =>
  if key ∈ runtimeGroups group then some (draftValue (settings key)) else none

/-! ## The patch -/

/-- `String(raw)`. -/
def draftText : DraftValue → JsString
  | .text s => s
  | .flag true => ofGo (Go.lit "true")
  | .flag false => ofGo (Go.lit "false")

/-- `Number(raw)`, when it is finite. -/
def draftNumber : DraftValue → Option ℚ
  | .text s => Js.number s
  | .flag b => some (if b then 1 else 0)

/-- `Number.isSafeInteger`, with the integer. -/
def safeInteger (q : ℚ) : Option Int :=
  if q.den = 1 ∧ q.num.natAbs < 2 ^ 53 then some q.num else none

/-- `/[\n,]/`. -/
def isSeparator (c : UInt16) : Bool := c == 0x0A || c == 0x2C

/-- The entries of a text area. -/
def readHosts (raw : JsString) : List JsString :=
  ((raw.splitOnP isSeparator).map trim).filter (· ≠ [])

/-- The new value of a field whose old one is given; `none` is a number that is refused. -/
def newValue (old : RuntimeValue) (raw : DraftValue) : Option RuntimeValue :=
  match old with
  | .list _ => some (.list (readHosts (draftText raw)))
  | .number _ =>
    if raw = .text [] then none
    else ((draftNumber raw).bind safeInteger).map .number
  | .text _ | .flag _ =>
    match raw with
    | .text s => some (.text s)
    | .flag b => some (.flag b)

/-- A control that depends on one that is switched off keeps its saved value. -/
def disabled (draft : RuntimeDraft) (key : RuntimeKey) : Bool :=
  key == .healthCheckIntervalSeconds && draft .healthCheckEnabled == some (.flag false) ||
  key == .pruneGraceSeconds && draft .autoPruneExpired == some (.flag false) ||
  (Go.lit "rate_limit_").isPrefixOf (Go.lit key.name) && key != .rateLimitEnabled &&
    draft .rateLimitEnabled == some (.flag false)

/-- The loop of `runtimeChanges`.  Values of these kinds have one JSON text when they are the
same. -/
def changesOf (saved : RuntimeRecord) (draft : RuntimeDraft) :
    List RuntimeKey → Except RuntimeKey (List (RuntimeKey × RuntimeValue))
  | [] => .ok []
  | key :: keys =>
    if disabled draft key then changesOf saved draft keys
    else
      match draft key with
      | none => changesOf saved draft keys
      | some raw =>
        match newValue (saved key) raw with
        | none => .error key
        | some value =>
          if value ≠ saved key then
            (changesOf saved draft keys).map fun changes => (key, value) :: changes
          else changesOf saved draft keys

/-- `runtimeChanges`. -/
def runtimeChanges (saved : RuntimeRecord) (draft : RuntimeDraft) (group : RuntimeGroup) :
    Except RuntimeKey (List (RuntimeKey × RuntimeValue)) :=
  changesOf saved draft (runtimeGroups group)

/-! ## What is saved -/

/-- A form that has the saved value of a field, or none to save. -/
def Unchanged (saved : RuntimeRecord) (draft : RuntimeDraft) (key : RuntimeKey) : Prop :=
  disabled draft key ∨ ∀ raw ∈ draft key, newValue (saved key) raw = some (saved key)

/-- A field that is unchanged is passed over. -/
theorem changesOf_cons_unchanged {saved : RuntimeRecord} {draft : RuntimeDraft}
    {key : RuntimeKey} {keys : List RuntimeKey} (h : Unchanged saved draft key) :
    changesOf saved draft (key :: keys) = changesOf saved draft keys := by
  rw [changesOf]
  by_cases hdisabled : disabled draft key
  · rw [if_pos hdisabled]
  · rw [if_neg hdisabled]
    cases hraw : draft key with
    | none => rfl
    | some raw =>
      dsimp only
      rw [h.resolve_left hdisabled raw hraw]
      exact if_neg (not_not.mpr rfl)

theorem changesOf_eq_nil_iff {saved : RuntimeRecord} {draft : RuntimeDraft}
    {keys : List RuntimeKey} :
    changesOf saved draft keys = .ok [] ↔ ∀ key ∈ keys, Unchanged saved draft key := by
  induction keys with
  | nil => exact ⟨fun _ => List.forall_mem_nil _, fun _ => rfl⟩
  | cons key keys ih =>
    rw [List.forall_mem_cons]
    by_cases hunchanged : Unchanged saved draft key
    · rw [changesOf_cons_unchanged hunchanged, ih]
      exact ⟨fun h => ⟨hunchanged, h⟩, fun h => h.2⟩
    · refine ⟨fun h => absurd h ?_, fun h => absurd h.1 hunchanged⟩
      unfold Unchanged at hunchanged
      rw [not_or, not_forall] at hunchanged
      obtain ⟨hdisabled, raw, hraw⟩ := hunchanged
      rw [Classical.not_imp] at hraw
      rw [changesOf, if_neg hdisabled, hraw.1]
      dsimp only
      cases hnew : newValue (saved key) raw with
      | none => exact nofun
      | some value =>
        have hvalue : value ≠ saved key := fun heq => hraw.2 (heq ▸ hnew)
        dsimp only
        rw [if_pos hvalue]
        cases changesOf saved draft keys with
        | error e => exact nofun
        | ok changes => exact nofun

/-- A form has nothing to save when every field of its group is unchanged. -/
theorem runtimeChanges_eq_nil_iff {saved : RuntimeRecord} {draft : RuntimeDraft}
    {group : RuntimeGroup} :
    runtimeChanges saved draft group = .ok [] ↔
      ∀ key ∈ runtimeGroups group, Unchanged saved draft key :=
  changesOf_eq_nil_iff

theorem changesOf_keys {saved : RuntimeRecord} {draft : RuntimeDraft} {keys : List RuntimeKey}
    {changes : List (RuntimeKey × RuntimeValue)} (h : changesOf saved draft keys = .ok changes) :
    (changes.map Prod.fst).Sublist keys := by
  induction keys generalizing changes with
  | nil =>
    rw [← Except.ok.inj h]
    exact List.Sublist.slnil
  | cons key keys ih =>
    rw [changesOf] at h
    split at h
    · exact (ih h).cons key
    · split at h
      · exact (ih h).cons key
      · split at h
        · cases h
        · split at h
          · cases hrest : changesOf saved draft keys with
            | error e =>
              rw [hrest] at h
              cases h
            | ok rest =>
              rw [hrest] at h
              rw [← Except.ok.inj h]
              exact (ih hrest).cons_cons key
          · exact (ih h).cons key

/-- Whatever a form holds, it saves fields of its group. -/
theorem runtimeChanges_keys {saved : RuntimeRecord} {draft : RuntimeDraft} {group : RuntimeGroup}
    {changes : List (RuntimeKey × RuntimeValue)}
    (h : runtimeChanges saved draft group = .ok changes) :
    ∀ change ∈ changes, change.1 ∈ runtimeGroups group := fun _ hchange =>
  (changesOf_keys h).subset (List.mem_map_of_mem hchange)

/-! ## Lists -/

/-- No part of a split text holds a separator. -/
theorem mem_splitOnP {α : Type} {p : α → Bool} {s part : List α} (h : part ∈ s.splitOnP p) :
    ∀ c ∈ part, p c = false := by
  induction s generalizing part with
  | nil =>
    rw [List.splitOnP_nil, List.mem_singleton] at h
    rw [h]
    exact List.forall_mem_nil _
  | cons x s ih =>
    rw [List.splitOnP_cons_eq_if_modifyHead] at h
    split at h
    · rcases List.mem_cons.mp h with hempty | hrest
      · rw [hempty]
        exact List.forall_mem_nil _
      · exact ih hrest
    · rename_i hx
      cases hparts : s.splitOnP p with
      | nil => exact absurd hparts (List.splitOnP_ne_nil p s)
      | cons first parts =>
        rw [hparts] at h ih
        rcases List.mem_cons.mp h with hfirst | hrest
        · rw [hfirst, List.forall_mem_cons]
          exact ⟨Bool.eq_false_iff.mpr hx, ih List.mem_cons_self⟩
        · exact ih (List.mem_cons_of_mem _ hrest)

/-- Parts without a separator are what their join is split into. -/
theorem splitOnP_intercalate {α : Type} {p : α → Bool} {sep : α} (hsep : p sep)
    {parts : List (List α)} (hne : parts ≠ []) (h : ∀ part ∈ parts, ∀ c ∈ part, p c = false) :
    ([sep].intercalate parts).splitOnP p = parts := by
  induction parts with
  | nil => exact absurd rfl hne
  | cons part parts ih =>
    rw [List.forall_mem_cons] at h
    cases parts with
    | nil =>
      rw [List.intercalate_singleton]
      exact List.splitOnP_eq_singleton h.1
    | cons next parts =>
      rw [List.intercalate_cons_cons, List.append_assoc, List.singleton_append,
        List.splitOnP_append_cons_of_forall_mem h.1 sep hsep,
        ih (List.cons_ne_nil _ _) h.2]

/-- A text area keeps a list of hosts that have no line break when no host has a comma and all
are trimmed. -/
theorem readHosts_join_iff {items : List JsString} (hne : ∀ item ∈ items, item ≠ [])
    (hline : ∀ item ∈ items, 0x0A ∉ item) :
    readHosts ([0x0A].intercalate items) = items ↔
      ∀ item ∈ items, 0x2C ∉ item ∧ trim item = item := by
  constructor
  · intro h item hitem
    rw [← h] at hitem
    obtain ⟨part, hpart, rfl⟩ := List.mem_map.mp (List.mem_of_mem_filter hitem)
    refine ⟨fun hcomma => ?_, trim_trim part⟩
    have hnot := mem_splitOnP hpart _ (trim_subset part hcomma)
    exact absurd hnot (by decide)
  · intro h
    have hparts : ∀ item ∈ items, ∀ c ∈ item, isSeparator c = false := by
      intro item hitem c hc
      rw [isSeparator, Bool.or_eq_false_iff, beq_eq_false_iff_ne, beq_eq_false_iff_ne]
      exact ⟨fun heq => hline item hitem (heq ▸ hc), fun heq => (h item hitem).1 (heq ▸ hc)⟩
    unfold readHosts
    by_cases hempty : items = []
    · rw [hempty]
      rfl
    · rw [splitOnP_intercalate rfl hempty hparts,
        List.map_congr_left fun item hitem => (h item hitem).2, List.map_id',
        List.filter_eq_self.mpr fun item hitem => decide_eq_true (hne item hitem)]

/-! ## Numbers -/

/-- A form keeps a natural number below 2 ^ 53. -/
theorem newValue_number {n : ℕ} (h : n < 2 ^ 53) :
    newValue (.number n) (draftValue (.number n)) = some (.number n) := by
  have hread := number_numberText h
  have hsafe : safeInteger (n : ℚ) = some (n : Int) := by
    unfold safeInteger
    rw [Rat.den_natCast, Rat.num_natCast, Int.natAbs_natCast, if_pos ⟨rfl, h⟩]
  unfold newValue draftValue
  dsimp only
  rw [if_neg fun heq => numberText_ne_nil n (DraftValue.text.inj heq), draftNumber, hread,
    Option.bind_some, hsafe]
  rfl

end Purels.Console
