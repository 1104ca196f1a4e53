import Mathlib.Data.List.Dedup
import Mathlib.Data.List.Sort
import Purels.Domain.Models

/-!
# The link tables

The tables behind package `postgres` that hold links, and the statements that
read and write them.  A statement is a function of the whole store, and a
transaction of the source is one function too: its row locks are held until it
commits and nothing it writes is seen before.

* `LinkRow`, `LinkStore`: the rows, with tags named by their text.
* `LinkStore.toLink`: what `scanLink` reads back.
* The reads `GetLink`, `GetLinkByAlias`, `FindLiveLinkByDestination`,
  `CountLinksByOwner`.
* The writes `CreateLink`, `UpdateLink`, `DeleteLink`, `bulkLinkUpdate` and
  `BulkTagLinks`.
-/

namespace Purels.Store

open Go

/-! ## Tables -/

/-- A row of `links`. -/
structure LinkRow where
  id : Uuid
  aliasName : GoString
  destinationURL : GoString
  title : GoString := []
  redirectCode : Int := 302
  status : LinkStatus := .active
  version : Nat := 1
  expiresAt : Option Instant := none
  createdAt : Instant := 0
  updatedAt : Instant := 0
  deletedAt : Option Instant := none
  userID : Option Uuid := none
  lastCheckedAt : Option Instant := none
  lastStatusCode : Option Int := none
  domain : Option GoString := none
  interstitialSeconds : Int := 2
  deriving DecidableEq

/-- A row of `link_rules`.  Without a code of its own it inherits the link's. -/
structure RuleRow where
  linkID : Uuid
  position : Nat
  matchType : MatchType
  matchValue : GoString
  destinationURL : GoString
  redirectCode : Option Int := none
  deriving DecidableEq

/-- A row of `click_events`. -/
structure ClickEvent where
  id : Uuid
  linkID : Uuid
  occurredAt : Instant
  ipHash : Option (List UInt8) := none
  userAgent : Option GoString := none
  referrer : Option GoString := none
  processedAt : Option Instant := none
  isBot : Bool := false
  deriving DecidableEq

/-- A row of `link_click_daily`. -/
structure DailyRow where
  linkID : Uuid
  day : Int
  clicks : Int := 0
  botClicks : Int := 0
  deriving DecidableEq

/-- The link tables.  A tag is its name, which is unique. -/
structure LinkStore where
  links : List LinkRow := []
  tags : List GoString := []
  linkTags : List (Uuid × GoString) := []
  rules : List RuleRow := []
  events : List ClickEvent := []
  daily : List DailyRow := []
  aliasSeq : Nat := 1
  deriving DecidableEq

/-- What of PostgreSQL depends on the database's locale and time zone. -/
structure DatabaseLocale where
  /-- `a <= b` under the default collation. -/
  collate : GoString → GoString → Bool
  /-- `value ILIKE '%' || needle || '%'`. -/
  ilike : GoString → GoString → Bool
  /-- `t::date`, in days since the epoch. -/
  date : Instant → Int

/-- Byte order, and days in UTC. -/
def plainLocale : DatabaseLocale where
  collate a b := decide (a ≤ b)
  ilike value needle := decide (needle <:+: value)
  date t := t / (86400 * second)

/-- A text column takes valid UTF-8 without the null character. -/
def storableText (s : GoString) : Bool := validString s && !s.contains 0

/-- The constraints of the tables: keys, the alias column, and foreign keys. -/
structure LinkStore.Schema (s : LinkStore) : Prop where
  ids_nodup : (s.links.map LinkRow.id).Nodup
  aliases_nodup : (s.links.map LinkRow.aliasName).Nodup
  aliases_fit : ∀ row ∈ s.links, storableText row.aliasName ∧ (runes row.aliasName).length ≤ 64
  tags_linked : ∀ t ∈ s.linkTags, t.1 ∈ s.links.map LinkRow.id ∧ t.2 ∈ s.tags
  rules_linked : ∀ r ∈ s.rules, r.linkID ∈ s.links.map LinkRow.id
  events_linked : ∀ e ∈ s.events, e.linkID ∈ s.links.map LinkRow.id
  daily_linked : ∀ d ∈ s.daily, d.linkID ∈ s.links.map LinkRow.id

/-! ## Reading rows back -/

namespace LinkRow

/-- `deleted_at IS NULL`. -/
def live (row : LinkRow) : Bool := row.deletedAt == none

/-- `($2::uuid IS NULL OR user_id=$2)`. -/
def visibleTo (row : LinkRow) (owner : Option Uuid) : Bool :=
  owner == none || row.userID == owner

end LinkRow

/-- A rule as `linkRulesColumn` renders it. -/
def RuleRow.toRule (row : RuleRow) : LinkRule where
  position := row.position
  matchType := row.matchType
  matchValue := row.matchValue
  destinationURL := row.destinationURL
  redirectCode := row.redirectCode.getD 0

namespace LinkStore

variable (loc : DatabaseLocale)

/-- `linkTagsColumn`. -/
def tagsOf (s : LinkStore) (id : Uuid) : List GoString :=
  ((s.linkTags.filter fun t => t.1 == id).map Prod.snd).insertionSort fun a b => loc.collate a b

/-- `linkRulesColumn`, in match order. -/
def rulesOf (s : LinkStore) (id : Uuid) : List LinkRule :=
  ((s.rules.filter fun r => r.linkID == id).insertionSort fun a b => a.position ≤ b.position).map
    RuleRow.toRule

/-- `linkSingleColumns`, as `scanLink` reads them. -/
def toLink (s : LinkStore) (row : LinkRow) : Link where
  id := row.id
  aliasName := row.aliasName
  destinationURL := row.destinationURL
  title := row.title
  tags := s.tagsOf loc row.id
  redirectCode := row.redirectCode
  status := row.status
  version := row.version
  expiresAt := row.expiresAt
  createdAt := row.createdAt
  updatedAt := row.updatedAt
  interstitialSeconds := row.interstitialSeconds
  domain := row.domain.getD []
  lastCheckedAt := row.lastCheckedAt
  lastStatusCode := row.lastStatusCode
  rules := s.rulesOf row.id

/-- An identifier bound as text.  `normalizeDBError` reads a failed cast as
"not found"; text that is not even storable fails before the cast. -/
def uuidParam (id : GoString) : Except ServiceError Uuid :=
  if !storableText id then .error .database
  else
    match Uuid.parse id with
    | none => .error .notFound
    | some id => .ok id

/-- A live row with this identifier that the owner may see. -/
def selects (id : Uuid) (owner : Option Uuid) (row : LinkRow) : Bool :=
  row.id == id && row.live && row.visibleTo owner

/-- The row such a predicate finds. -/
def liveRow (s : LinkStore) (id : Uuid) (owner : Option Uuid) : Option LinkRow :=
  s.links.find? (selects id owner)

/-- `GetLink`. -/
def GetLink (s : LinkStore) (id : GoString) (owner : Option Uuid) : Except ServiceError Link :=
  match uuidParam id with
  | .error e => .error e
  | .ok id =>
    match s.liveRow id owner with
    | none => .error .notFound
    | some row => .ok (s.toLink loc row)

/-- The live row with this alias. -/
def liveAlias (s : LinkStore) (aliasName : GoString) : Option LinkRow :=
  s.links.find? fun row => row.aliasName == aliasName && row.live

/-- `GetLinkByAlias`. -/
def GetLinkByAlias (s : LinkStore) (aliasName : GoString) : Except ServiceError Link :=
  if !storableText aliasName then .error .database
  else
    match s.liveAlias aliasName with
    | none => .error .notFound
    | some row => .ok (s.toLink loc row)

/-- `FindLiveLinkByDestination`: the oldest resolvable link of the account. -/
def FindLiveLinkByDestination (s : LinkStore) (destination : GoString) (owner : Uuid)
    (now : Instant) : Except ServiceError Link :=
  if !storableText destination then .error .database
  else
    let found := s.links.filter fun row =>
      row.destinationURL == destination && row.userID == some owner && row.live &&
        row.status == .active && row.expiresAt.all (now < ·)
    match (found.insertionSort fun a b => a.createdAt ≤ b.createdAt).head? with
    | none => .error .notFound
    | some row => .ok (s.toLink loc row)

/-- `CountLinksByOwner`. -/
def CountLinksByOwner (s : LinkStore) (owner : Uuid) : Nat :=
  s.links.countP fun row => row.userID == some owner && row.live

/-- `NextAliasValue`. -/
def NextAliasValue (s : LinkStore) : Nat × LinkStore :=
  (s.aliasSeq, { s with aliasSeq := s.aliasSeq + 1 })

/-! ## Writing rows -/

/-- `setLinkTags`. -/
def setLinkTags (s : LinkStore) (id : Uuid) (tags : List GoString) : LinkStore :=
  { s with
    tags := s.tags ++ (tags.filter fun name => !s.tags.contains name).dedup
    linkTags := (s.linkTags.filter fun t => t.1 != id) ++ tags.dedup.map fun name => (id, name) }

/-- The row `setLinkRules` inserts: the position is the index, and a zero code
is stored as NULL. -/
def ruleRow (id : Uuid) (position : Nat) (rule : LinkRule) : RuleRow where
  linkID := id
  position := position
  matchType := rule.matchType
  matchValue := rule.matchValue
  destinationURL := rule.destinationURL
  redirectCode := if rule.redirectCode = 0 then none else some rule.redirectCode

/-- `setLinkRules`. -/
def setLinkRules (s : LinkStore) (id : Uuid) (rules : List LinkRule) : LinkStore :=
  { s with rules := (s.rules.filter fun r => r.linkID != id) ++ rules.mapIdx (ruleRow id) }

/-- A tag name fits its column. -/
def storableTag (name : GoString) : Bool := storableText name && (runes name).length ≤ 64

/-- A rule fits its columns. -/
def storableRule (rule : LinkRule) : Bool :=
  storableText rule.matchValue && (runes rule.matchValue).length ≤ 255 &&
    storableText rule.destinationURL && (runes rule.destinationURL).length ≤ 8192 &&
    (rule.redirectCode == 0 || rule.redirectCode == 301 || rule.redirectCode == 302)

/-- The columns an edit writes take the link's values. -/
def storableColumns (link : Link) : Bool :=
  storableText link.destinationURL && (runes link.destinationURL).length ≤ 8192 &&
    storableText link.title && (runes link.title).length ≤ 255 &&
    storableText link.domain && (runes link.domain).length ≤ 255 &&
    (link.redirectCode == 301 || link.redirectCode == 302)

/-- The row `CreateLink` inserts. -/
def newRow (link : Link) (owner : Option Uuid) : LinkRow where
  id := link.id
  aliasName := link.aliasName
  destinationURL := link.destinationURL
  title := link.title
  redirectCode := link.redirectCode
  status := link.status
  version := link.version
  expiresAt := link.expiresAt.map toMicroseconds
  createdAt := toMicroseconds link.createdAt
  updatedAt := toMicroseconds link.createdAt
  userID := owner
  domain := if link.domain = [] then none else some link.domain
  interstitialSeconds := link.interstitialSeconds

/-- The statements of `CreateLink`. -/
def insertLink (s : LinkStore) (link : Link) (owner : Option Uuid) : LinkStore :=
  let tagged := { s with links := s.links ++ [newRow link owner] }.setLinkTags link.id link.tags
  if link.rules = [] then tagged else tagged.setLinkRules link.id link.rules

/-- `CreateLink`, one transaction.  The alias and the identifier are unique
over all rows, retired ones included. -/
def CreateLink (s : LinkStore) (link : Link) (owner : Option Uuid) :
    Except ServiceError Unit × LinkStore :=
  if !(storableColumns link && storableText link.aliasName &&
      (runes link.aliasName).length ≤ 64) then (.error .database, s)
  else if s.links.any fun row => row.aliasName == link.aliasName || row.id == link.id then
    (.error .conflict, s)
  else if !(link.tags.all storableTag && link.rules.all storableRule) then (.error .database, s)
  else (.ok (), s.insertLink link owner)

/-- `UPDATE links SET … WHERE` with the rows the predicate selects. -/
def updateLinks (s : LinkStore) (selected : LinkRow → Bool) (set : LinkRow → LinkRow) : LinkStore :=
  { s with links := s.links.map fun row => if selected row then set row else row }

/-- The columns `UpdateLink` sets. -/
def editRow (link : Link) (now : Instant) (row : LinkRow) : LinkRow :=
  { row with
    destinationURL := link.destinationURL
    title := link.title
    redirectCode := link.redirectCode
    status := link.status
    expiresAt := link.expiresAt.map toMicroseconds
    domain := if link.domain = [] then none else some link.domain
    interstitialSeconds := link.interstitialSeconds
    version := row.version + 1
    updatedAt := now }

/-- The statements of `UpdateLink`.  Tags and rules are left alone when not given. -/
def editLink (s : LinkStore) (link : Link) (tags : Option (List GoString))
    (rules : Option (List LinkRule)) (owner : Option Uuid) (now : Instant) : LinkStore :=
  let edited := s.updateLinks (selects link.id owner) (editRow link now)
  let tagged := match tags with
    | some tags => edited.setLinkTags link.id tags
    | none => edited
  match rules with
  | some rules => tagged.setLinkRules link.id rules
  | none => tagged

/-- `UpdateLink`, one transaction. -/
def UpdateLink (s : LinkStore) (link : Link) (tags : Option (List GoString))
    (rules : Option (List LinkRule)) (owner : Option Uuid) (now : Instant) :
    Except ServiceError Unit × LinkStore :=
  if !storableColumns link then (.error .database, s)
  else if !(s.links.any (selects link.id owner)) then (.error .notFound, s)
  else if !((tags.getD []).all storableTag && (rules.getD []).all storableRule) then
    (.error .database, s)
  else (.ok (), s.editLink link tags rules owner now)

/-- What a deletion sets. -/
def retireRow (now : Instant) (row : LinkRow) : LinkRow :=
  { row with
    status := .deleted, deletedAt := some now, version := row.version + 1, updatedAt := now }

/-- `DeleteLink`.  Its errors are not normalized. -/
def DeleteLink (s : LinkStore) (id : GoString) (owner : Option Uuid) (now : Instant) :
    Except ServiceError Unit × LinkStore :=
  match uuidParam id with
  | .error _ => (.error .database, s)
  | .ok id =>
    if s.links.any (selects id owner) then
      (.ok (), s.updateLinks (selects id owner) (retireRow now))
    else (.error .notFound, s)

/-- The cast `$1::uuid[]`; one bad entry fails the statement. -/
def uuidArray (ids : List GoString) : Except ServiceError (List Uuid) :=
  ids.mapM fun id => (uuidParam id).mapError fun _ => .database

/-- The rows a bulk edit selects. -/
def bulkSelects (ids : List Uuid) (owner : Option Uuid) (row : LinkRow) : Bool :=
  ids.contains row.id && row.live && row.visibleTo owner

/-- `bulkLinkUpdate`: the aliases of the edited rows. -/
def bulkLinkUpdate (s : LinkStore) (ids : List GoString) (owner : Option Uuid)
    (set : LinkRow → LinkRow) (now : Instant) : Except ServiceError (List GoString) × LinkStore :=
  match uuidArray ids with
  | .error e => (.error e, s)
  | .ok ids =>
    (.ok ((s.links.filter (bulkSelects ids owner)).map LinkRow.aliasName),
      s.updateLinks (bulkSelects ids owner) fun row =>
        { set row with version := row.version + 1, updatedAt := now })

/-- `BulkDeleteLinks`. -/
def BulkDeleteLinks (s : LinkStore) (ids : List GoString) (owner : Option Uuid) (now : Instant) :
    Except ServiceError (List GoString) × LinkStore :=
  s.bulkLinkUpdate ids owner (fun row => { row with status := .deleted, deletedAt := some now }) now

/-- `BulkSetStatus`. -/
def BulkSetStatus (s : LinkStore) (ids : List GoString) (owner : Option Uuid) (status : LinkStatus)
    (now : Instant) : Except ServiceError (List GoString) × LinkStore :=
  s.bulkLinkUpdate ids owner (fun row => { row with status }) now

/-- `BulkSetExpiry`. -/
def BulkSetExpiry (s : LinkStore) (ids : List GoString) (owner : Option Uuid)
    (expiresAt : Option Instant) (now : Instant) :
    Except ServiceError (List GoString) × LinkStore :=
  s.bulkLinkUpdate ids owner (fun row => { row with expiresAt := expiresAt.map toMicroseconds }) now

/-- The tag links of the selected rows, without those that exist. -/
def newTagLinks (s : LinkStore) (selected : LinkRow → Bool) (tags : List GoString) :
    List (Uuid × GoString) :=
  ((s.links.filter selected).flatMap fun row => tags.dedup.map fun name => (row.id, name)).filter
    fun t => !s.linkTags.contains t

/-- `BulkTagLinks`, one transaction: the number of join rows touched. -/
def BulkTagLinks (s : LinkStore) (ids : List GoString) (owner : Option Uuid)
    (tags : List GoString) (add : Bool) : Except ServiceError Nat × LinkStore :=
  match uuidArray ids with
  | .error e => (.error e, s)
  | .ok ids =>
    if !tags.all storableTag then (.error .database, s)
    else if add then
      let links := s.newTagLinks (bulkSelects ids owner) tags
      (.ok links.length,
        { s with
          tags := s.tags ++ (tags.filter fun name => !s.tags.contains name).dedup
          linkTags := s.linkTags ++ links })
    else
      let gone := fun t : Uuid × GoString =>
        s.links.any (fun row => row.id == t.1 && bulkSelects ids owner row) && tags.contains t.2
      (.ok (s.linkTags.countP gone), { s with linkTags := s.linkTags.filter fun t => !gone t })

/-! ## What a write leaves in the tables -/

section

variable (s : LinkStore) (link : Link) (owner : Option Uuid)

@[simp] theorem insertLink_links :
    (s.insertLink link owner).links = s.links ++ [newRow link owner] := by
  unfold insertLink
  split <;> rfl

@[simp] theorem editLink_links (tags : Option (List GoString)) (rules : Option (List LinkRule))
    (now : Instant) :
    (s.editLink link tags rules owner now).links =
      s.links.map fun row => if selects link.id owner row then editRow link now row else row := by
  cases tags <;> cases rules <;> rfl

/-- The rows of replaced rules belong to the link and lead where its rules do. -/
theorem mem_ruleRows {id : Uuid} {rules : List LinkRule} {row : RuleRow}
    (h : row ∈ rules.mapIdx (ruleRow id)) :
    row.linkID = id ∧ ∃ rule ∈ rules, row.destinationURL = rule.destinationURL := by
  obtain ⟨i, hi, rfl⟩ := List.mem_mapIdx.mp h
  exact ⟨rfl, _, List.getElem_mem hi, rfl⟩

/-- The rules after `setLinkRules`: those of other links, and the new ones. -/
theorem mem_setLinkRules {id : Uuid} {rules : List LinkRule} {row : RuleRow}
    (h : row ∈ (s.setLinkRules id rules).rules) :
    (row ∈ s.rules ∧ row.linkID ≠ id) ∨
      (row.linkID = id ∧ ∃ rule ∈ rules, row.destinationURL = rule.destinationURL) := by
  rcases List.mem_append.mp h with h | h
  · obtain ⟨hmem, hne⟩ := List.mem_filter.mp h
    exact .inl ⟨hmem, by simpa using hne⟩
  · exact .inr (mem_ruleRows h)

theorem mem_insertLink_rules {row : RuleRow} (h : row ∈ (s.insertLink link owner).rules) :
    row ∈ s.rules ∨
      (row.linkID = link.id ∧ ∃ rule ∈ link.rules, row.destinationURL = rule.destinationURL) := by
  unfold insertLink at h
  dsimp only at h
  split_ifs at h
  · exact .inl h
  · exact (mem_setLinkRules _ h).imp_left And.left

theorem mem_editLink_rules {tags : Option (List GoString)} {rules : Option (List LinkRule)}
    {now : Instant} {row : RuleRow} (h : row ∈ (s.editLink link tags rules owner now).rules) :
    (row ∈ s.rules ∧ (rules = none ∨ row.linkID ≠ link.id)) ∨
      (row.linkID = link.id ∧ ∃ new, rules = some new ∧
        ∃ rule ∈ new, row.destinationURL = rule.destinationURL) := by
  have htables : ∀ tags : Option (List GoString),
      (s.editLink link tags none owner now).rules = s.rules := by
    intro tags
    cases tags <;> rfl
  cases rules with
  | none => exact .inl ⟨htables tags ▸ h, .inl rfl⟩
  | some new =>
    rcases mem_setLinkRules _ h with ⟨hmem, hne⟩ | ⟨hid, hnew⟩
    · exact .inl ⟨htables tags ▸ hmem, .inr hne⟩
    · exact .inr ⟨hid, new, rfl, hnew⟩

end

/-! ## What a statement can do

One inversion lemma for each write: it fails and leaves the store alone, or it
did what its statements say. -/

variable {s s' : LinkStore}

theorem GetLink_ok {loc : DatabaseLocale} {id : GoString} {owner : Option Uuid} {link : Link}
    (h : s.GetLink loc id owner = .ok link) :
    ∃ uid row, uuidParam id = .ok uid ∧ s.liveRow uid owner = some row ∧
      link = s.toLink loc row := by
  unfold GetLink at h
  split at h
  · simp at h
  rename_i uid huid
  split at h
  · simp at h
  rename_i row hrow
  exact ⟨uid, row, huid, hrow, (Except.ok.inj h).symm⟩

theorem GetLinkByAlias_ok {loc : DatabaseLocale} {aliasName : GoString} {link : Link}
    (h : s.GetLinkByAlias loc aliasName = .ok link) :
    ∃ row ∈ s.links, row.aliasName = aliasName ∧ row.live ∧ link = s.toLink loc row := by
  unfold GetLinkByAlias at h
  split_ifs at h
  split at h
  · simp at h
  rename_i row hrow
  have hmatch := List.find?_some hrow
  rw [Bool.and_eq_true, beq_iff_eq] at hmatch
  exact ⟨row, List.mem_of_find?_eq_some hrow, hmatch.1, hmatch.2, (Except.ok.inj h).symm⟩

/-- A link of the account that resolves to the destination. -/
def reusable (destination : GoString) (owner : Uuid) (now : Instant) (row : LinkRow) : Bool :=
  row.destinationURL == destination && row.userID == some owner && row.live &&
    row.status == .active && row.expiresAt.all (now < ·)

/-- The lookup fails, finds no reusable row, or returns one. -/
theorem FindLiveLinkByDestination_cases (s : LinkStore) (loc : DatabaseLocale)
    (destination : GoString) (owner : Uuid) (now : Instant) :
    s.FindLiveLinkByDestination loc destination owner now = .error .database ∨
    (s.FindLiveLinkByDestination loc destination owner now = .error .notFound ∧
      ∀ row ∈ s.links, ¬ reusable destination owner now row) ∨
    ∃ row ∈ s.links, reusable destination owner now row ∧
      s.FindLiveLinkByDestination loc destination owner now = .ok (s.toLink loc row) := by
  unfold FindLiveLinkByDestination
  split_ifs with htext
  · exact .inl rfl
  · dsimp only
    split <;> rename_i hhead
    · refine .inr (.inl ⟨rfl, fun row hrow hreusable => ?_⟩)
      have hmem := (List.mem_insertionSort (fun a b : LinkRow => a.createdAt ≤ b.createdAt)).mpr
        (List.mem_filter.mpr ⟨hrow, hreusable⟩)
      exact List.ne_nil_of_mem hmem (List.head?_eq_none_iff.mp hhead)
    · rename_i row
      have hmem := (List.mem_insertionSort _).mp (List.mem_of_head? hhead)
      obtain ⟨hrow, hreusable⟩ := List.mem_filter.mp hmem
      exact .inr (.inr ⟨row, hrow, hreusable, rfl⟩)

theorem liveRow_eq_some {id : Uuid} {owner : Option Uuid} {row : LinkRow}
    (h : s.liveRow id owner = some row) : row ∈ s.links ∧ selects id owner row :=
  ⟨List.mem_of_find?_eq_some h, List.find?_some h⟩

theorem CreateLink_cases (link : Link) (owner : Option Uuid) :
    (∃ e, s.CreateLink link owner = (.error e, s)) ∨
    (s.CreateLink link owner = (.ok (), s.insertLink link owner) ∧ storableColumns link ∧
      (∀ row ∈ s.links, row.aliasName ≠ link.aliasName ∧ row.id ≠ link.id) ∧
      link.rules.all storableRule) := by
  unfold CreateLink
  split_ifs with hcolumns htaken hparts
  · exact .inl ⟨_, rfl⟩
  · exact .inl ⟨_, rfl⟩
  · exact .inl ⟨_, rfl⟩
  · simp only [Bool.not_eq_true', Bool.not_eq_false, Bool.and_eq_true]
      at hcolumns hparts
    refine .inr ⟨rfl, hcolumns.1.1, fun row hrow => ?_, hparts.2⟩
    simp only [List.any_eq_true, not_exists, not_and, Bool.or_eq_true, beq_iff_eq, not_or]
      at htaken
    exact htaken row hrow

/-- A link that is created has an alias the column takes. -/
theorem CreateLink_storable {link : Link} {owner : Option Uuid}
    (h : s.CreateLink link owner = (.ok (), s')) : storableText link.aliasName := by
  unfold CreateLink at h
  split_ifs at h with hcolumns
  · simp at h
  · simp at h
  · simp at h
  · simp only [Bool.not_eq_true', Bool.not_eq_false, Bool.and_eq_true] at hcolumns
    exact hcolumns.1.2

theorem UpdateLink_cases (link : Link) (tags : Option (List GoString))
    (rules : Option (List LinkRule)) (owner : Option Uuid) (now : Instant) :
    (∃ e, s.UpdateLink link tags rules owner now = (.error e, s)) ∨
    (s.UpdateLink link tags rules owner now = (.ok (), s.editLink link tags rules owner now) ∧
      storableColumns link ∧ s.links.any (selects link.id owner) ∧
      (tags.getD []).all storableTag ∧ (rules.getD []).all storableRule) := by
  unfold UpdateLink
  split_ifs with hcolumns hrow hparts
  · exact .inl ⟨_, rfl⟩
  · exact .inl ⟨_, rfl⟩
  · exact .inl ⟨_, rfl⟩
  · simp only [Bool.not_eq_true', Bool.not_eq_false, Bool.and_eq_true]
      at hcolumns hrow hparts
    exact .inr ⟨rfl, hcolumns, hrow, hparts⟩

theorem DeleteLink_cases (id : GoString) (owner : Option Uuid) (now : Instant) :
    (∃ e, s.DeleteLink id owner now = (.error e, s)) ∨
    ∃ uid, uuidParam id = .ok uid ∧ s.links.any (selects uid owner) ∧
      s.DeleteLink id owner now =
        (.ok (), s.updateLinks (selects uid owner) (retireRow now)) := by
  unfold DeleteLink
  split
  · exact .inl ⟨_, rfl⟩
  rename_i uid huid
  split_ifs with hany
  · exact .inr ⟨uid, huid, hany, rfl⟩
  · exact .inl ⟨_, rfl⟩

/-- A bulk edit rewrites the rows it selects. -/
theorem bulkLinkUpdate_cases (ids : List GoString) (owner : Option Uuid)
    (set : LinkRow → LinkRow) (now : Instant) :
    (∃ e, s.bulkLinkUpdate ids owner set now = (.error e, s)) ∨
    ∃ selected, s.bulkLinkUpdate ids owner set now =
      (.ok ((s.links.filter selected).map LinkRow.aliasName),
        s.updateLinks selected fun row =>
          { set row with version := row.version + 1, updatedAt := now }) := by
  unfold bulkLinkUpdate
  split
  · exact .inl ⟨_, rfl⟩
  · exact .inr ⟨_, rfl⟩

/-- A bulk tag edit writes tags and tag links only. -/
theorem BulkTagLinks_cases (ids : List GoString) (owner : Option Uuid) (tags : List GoString)
    (add : Bool) :
    ∃ res names linkTags, s.BulkTagLinks ids owner tags add =
      (res, { s with tags := names, linkTags := linkTags }) := by
  unfold BulkTagLinks
  split
  · exact ⟨_, s.tags, s.linkTags, rfl⟩
  · dsimp only
    split_ifs
    · exact ⟨_, s.tags, s.linkTags, rfl⟩
    · exact ⟨_, _, _, rfl⟩
    · exact ⟨_, s.tags, _, rfl⟩

/-- A bulk tag edit adds links to the tags it is given, which fit their column. -/
theorem BulkTagLinks_linkTags (ids : List GoString) (owner : Option Uuid) (tags : List GoString)
    (add : Bool) : ∀ t ∈ (s.BulkTagLinks ids owner tags add).2.linkTags,
      t ∈ s.linkTags ∨ t.2 ∈ tags ∧ storableTag t.2 := by
  intro t ht
  unfold BulkTagLinks at ht
  split at ht
  · exact .inl ht
  dsimp only at ht
  split_ifs at ht with hfit hadd
  · exact .inl ht
  · rcases List.mem_append.mp ht with hold | hnew
    · exact .inl hold
    · obtain ⟨row, -, hpair⟩ := List.mem_flatMap.mp (List.mem_filter.mp hnew).1
      obtain ⟨name, hname, rfl⟩ := List.mem_map.mp hpair
      rw [Bool.not_eq_true', Bool.not_eq_false] at hfit
      have hmem : name ∈ tags := List.mem_dedup.mp hname
      exact .inr ⟨hmem, List.all_eq_true.mp hfit name hmem⟩
  · exact .inl (List.mem_filter.mp ht).1

/-- What a created link fits. -/
theorem CreateLink_fits {link : Link} {owner : Option Uuid}
    (h : s.CreateLink link owner = (.ok (), s')) :
    storableColumns link ∧ storableText link.aliasName ∧ (runes link.aliasName).length ≤ 64 ∧
      (∀ row ∈ s.links, row.aliasName ≠ link.aliasName ∧ row.id ≠ link.id) ∧
      link.tags.all storableTag ∧ link.rules.all storableRule ∧ s' = s.insertLink link owner := by
  unfold CreateLink at h
  split_ifs at h with hcolumns htaken hparts
  · simp at h
  · simp at h
  · simp at h
  · simp only [Bool.not_eq_true', Bool.not_eq_false, Bool.and_eq_true, decide_eq_true_eq]
      at hcolumns hparts
    simp only [List.any_eq_true, not_exists, not_and, Bool.or_eq_true, beq_iff_eq, not_or]
      at htaken
    exact ⟨hcolumns.1.1, hcolumns.1.2, hcolumns.2, htaken, hparts.1, hparts.2,
      (Prod.mk.inj h).2.symm⟩

/-- A link that fits is created. -/
theorem CreateLink_ok {link : Link} {owner : Option Uuid} (hcolumns : storableColumns link)
    (halias : storableText link.aliasName ∧ (runes link.aliasName).length ≤ 64)
    (hfree : ∀ row ∈ s.links, row.aliasName ≠ link.aliasName ∧ row.id ≠ link.id)
    (htags : link.tags.all storableTag) (hrules : link.rules.all storableRule) :
    s.CreateLink link owner = (.ok (), s.insertLink link owner) := by
  have htaken : (s.links.any fun row => row.aliasName == link.aliasName || row.id == link.id) =
      false := by
    apply List.any_eq_false.mpr
    intro row hrow
    rw [Bool.or_eq_true, beq_iff_eq, beq_iff_eq, not_or]
    exact hfree row hrow
  unfold CreateLink
  rw [hcolumns, halias.1, htaken, htags, hrules, decide_eq_true halias.2]
  rfl

/-! ### Tags -/

theorem mem_tagsOf {loc : DatabaseLocale} {id : Uuid} {name : GoString} :
    name ∈ s.tagsOf loc id ↔ (id, name) ∈ s.linkTags := by
  unfold tagsOf
  rw [List.mem_insertionSort, List.mem_map]
  constructor
  · rintro ⟨t, ht, rfl⟩
    obtain ⟨hmem, hid⟩ := List.mem_filter.mp ht
    rw [← beq_iff_eq.mp hid]
    exact hmem
  · intro hmem
    exact ⟨(id, name), List.mem_filter.mpr ⟨hmem, beq_self_eq_true id⟩, rfl⟩

theorem mem_setLinkTags {id : Uuid} {tags : List GoString} {t : Uuid × GoString} :
    t ∈ (s.setLinkTags id tags).linkTags ↔
      t ∈ s.linkTags ∧ t.1 ≠ id ∨ t.1 = id ∧ t.2 ∈ tags := by
  unfold setLinkTags
  rw [List.mem_append, List.mem_filter, bne_iff_ne, List.mem_map]
  refine or_congr_right ?_
  constructor
  · rintro ⟨name, hname, rfl⟩
    exact ⟨rfl, List.mem_dedup.mp hname⟩
  · rintro ⟨rfl, hname⟩
    exact ⟨t.2, List.mem_dedup.mpr hname, rfl⟩

theorem mem_insertLink_linkTags {link : Link} {owner : Option Uuid} {t : Uuid × GoString} :
    t ∈ (s.insertLink link owner).linkTags ↔
      t ∈ s.linkTags ∧ t.1 ≠ link.id ∨ t.1 = link.id ∧ t.2 ∈ link.tags := by
  have htagged : (s.insertLink link owner).linkTags =
      ({ s with links := s.links ++ [newRow link owner] }.setLinkTags link.id link.tags).linkTags := by
    unfold insertLink
    split <;> rfl
  rw [htagged, mem_setLinkTags]

/-- The tags of a link that was inserted. -/
theorem mem_tagsOf_insertLink {loc : DatabaseLocale} {link : Link} {owner : Option Uuid}
    {name : GoString} :
    name ∈ (s.insertLink link owner).tagsOf loc link.id ↔ name ∈ link.tags := by
  rw [mem_tagsOf, mem_insertLink_linkTags]
  constructor
  · rintro (⟨-, hne⟩ | ⟨-, hname⟩)
    · exact absurd rfl hne
    · exact hname
  · intro hname
    exact .inr ⟨rfl, hname⟩

theorem mem_editLink_linkTags {link : Link} {tags : Option (List GoString)}
    {rules : Option (List LinkRule)} {owner : Option Uuid} {now : Instant} {t : Uuid × GoString}
    (h : t ∈ (s.editLink link tags rules owner now).linkTags) :
    t ∈ s.linkTags ∨ ∃ new, tags = some new ∧ t.2 ∈ new := by
  cases tags with
  | none =>
    refine .inl ?_
    cases rules <;> exact h
  | some new =>
    have hset : t ∈ ((s.updateLinks (selects link.id owner) (editRow link now)).setLinkTags
        link.id new).linkTags := by
      cases rules <;> exact h
    rcases mem_setLinkTags.mp hset with ⟨hold, -⟩ | ⟨-, hname⟩
    · exact .inl hold
    · exact .inr ⟨new, rfl, hname⟩

end LinkStore

end Purels.Store
