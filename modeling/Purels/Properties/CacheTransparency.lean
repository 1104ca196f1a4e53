import Purels.Properties.LinkSteps
import Purels.Store.Upkeep

/-!
# The cache in sequential use

Runs with one call at a time, the prunes of the worker and the advances of the
clock between the calls.

* `soloCalls`: the machine.
* `resolveUncached`, `ResolvesUncached`: a resolve that reads the database only.
* `SetsOK`: no link that JSON cannot carry is cached over an entry.
* `Tables`, `Ready` and `Transparent`: the invariant, of the tables, of the call
  in progress and of the cache.
* `cache_transparent`, the run theorem, and `stale_entry`, a run in which an
  update leaves an entry behind.
-/

namespace Purels.Properties

open Go Store LinkStore Service Lib

/-! ## Sequential runs -/

/-- The service with at most one call in progress. -/
structure Solo where
  world : World
  call : Call := .idle
  clock : Instant

inductive SoloAction where
  | start (request : Request)
  | next
  | prune (grace limit : Nat)
  /-- The cache lets an entry go. -/
  | expire (aliasName : GoString)
  | tick (elapsed : Nat)

/-- Where a redirect leads, and after how long. -/
structure Redirection where
  destinationURL : GoString
  redirectCode : Int
  rules : List LinkRule
  interstitialSeconds : Int
  deriving DecidableEq

def redirection (link : Link) : Redirection :=
  ⟨link.destinationURL, link.redirectCode, link.rules, link.interstitialSeconds⟩

section

variable (u : Unicode) (loc : DatabaseLocale) (svc : LinkService) (localOffset : Instant → Int)

/-- One call after the other. -/
def soloCalls : Machine Solo SoloAction where
  step s
    | .start request => if s.call.free then some { s with call := request.call } else none
    | .next =>
      (nextStep u loc svc localOffset s.clock s.world s.call).map fun r =>
        { s with world := r.1, call := r.2 }
    | .prune grace limit =>
      if s.call.free then
        let pruned := (s.world.store.PruneExpiredLinks grace limit s.clock).2
        some { s with world := { s.world with store := pruned } }
      else none
    | .expire aliasName =>
      if s.call.free then some { s with world := s.world.dropLink aliasName } else none
    | .tick elapsed => if s.call.free then some { s with clock := s.clock + elapsed } else none

/-! ## Answers -/

/-- `Resolve` without the cache. -/
def resolveUncached (s : LinkStore) (aliasName : GoString) (now : Instant) :
    Except ServiceError Link :=
  match s.GetLinkByAlias loc aliasName with
  | .error e => .error e
  | .ok link => if isUsable link now then .ok link else .error .notFound

/-- What the visitor gets of it. -/
def storedAnswer (s : LinkStore) (aliasName : GoString) (now : Instant) :
    Except ServiceError Redirection :=
  (resolveUncached loc s aliasName now).map redirection

/-- A resolve that starts now ends, and answers what it would without the cache. -/
def ResolvesUncached (s : Solo) (aliasName : GoString) : Prop :=
  ∃ n t answer,
    (soloCalls u loc svc localOffset).run s
      (.start (.resolve aliasName) :: List.replicate n .next) = some t ∧
      t.call = .done (.resolved answer) ∧
      answer.map redirection = (resolveUncached loc s.world.store aliasName s.clock).map redirection

/-- What the visitor gets of a cached link. -/
def cachedAnswer (link : Link) (now : Instant) : Except ServiceError Redirection :=
  if isUsable link now then .ok (redirection link) else .error .notFound

/-! ## The conditions -/

/-- The expiry a create asks for has no digits below the microsecond. -/
def Precise : SoloAction → Prop
  | .start (.create _ _ req _) => ∀ t, parseRFC3339 req.expiresAt = some t → toMicroseconds t = t
  | _ => True

/-- A link that JSON cannot carry is not cached over an entry. -/
def SetsOK (s : Solo) : SoloAction → Prop
  | .next =>
    match s.call with
    | .createCache link => cacheable (fun _ => 0) link ∨ s.world.cache link.aliasName = none
    | .updateCache link => cacheable localOffset link ∨ s.world.cache link.aliasName = none
    | _ => True
  | _ => True

/-! ## The invariant -/

/-- What of the schema the redirects rest on. -/
structure Tables (s : LinkStore) : Prop where
  keyed : s.Keyed
  storable : ∀ row ∈ s.links, storableText row.aliasName
  linked : ∀ rule ∈ s.rules, rule.linkID ∈ s.links.map LinkRow.id

/-- What is checked makes a link that the tables give back as it is. -/
structure Tidy (checked : CheckedLink) : Prop where
  position : ∀ i (hi : i < checked.rules.length), checked.rules[i].position = i
  precise : ∀ t, parseRFC3339 checked.expiresAt = some t → toMicroseconds t = t

/-- What a call knows before it takes its next step. -/
def Ready (w : World) : Call → Prop
  | .resolveMiss aliasName => w.cache aliasName = none
  | .resolveCache link =>
    (∀ now, cachedAnswer link now = storedAnswer loc w.store link.aliasName now) ∧
      w.cache link.aliasName = none
  | .createCache link | .updateCache link =>
    ∀ now, cachedAnswer link now = storedAnswer loc w.store link.aliasName now
  | .create _ _ req _ => ∀ t, parseRFC3339 req.expiresAt = some t → toMicroseconds t = t
  | .createQuota _ _ checked _ _ | .createAlias _ _ checked _ => Tidy checked
  | .createInsert _ _ checked link _ =>
    Tidy checked ∧ ∃ aliasName draw, link = newLink checked aliasName draw
  | _ => True

/-- The call will still set or drop the entry of the alias. -/
def Pending (s : LinkStore) (aliasName : GoString) (call : Call) : Prop :=
  Owes loc s aliasName call ∨ ∃ link, call = .createCache link ∧ link.aliasName = aliasName

/-- An entry answers as the tables do from now on, or the call in progress will see to it. -/
structure Transparent (s : Solo) : Prop where
  tables : Tables s.world.store
  located : Located s.world.store s.call
  ready : Ready loc s.world s.call
  fresh : ∀ aliasName entry, s.world.cache aliasName = some entry →
    (∀ now ≥ s.clock, cachedAnswer entry now = storedAnswer loc s.world.store aliasName now) ∨
      Pending loc s.world.store aliasName s.call

variable {u loc svc localOffset}

/-! ## Answers of the tables -/

/-- A link that is read by its alias answers as the tables do. -/
theorem cachedAnswer_of_GetLinkByAlias {s : LinkStore} {aliasName : GoString} {link : Link}
    (h : s.GetLinkByAlias loc aliasName = .ok link) (now : Instant) :
    cachedAnswer link now = storedAnswer loc s aliasName now := by
  unfold cachedAnswer storedAnswer resolveUncached
  rw [h]
  split_ifs with husable
  · simp [husable, Except.map]
  · simp [husable, Except.map]

/-- The answer for the alias of a row. -/
theorem storedAnswer_row {s : LinkStore} (hs : Tables s) {row : LinkRow} (hrow : row ∈ s.links)
    (now : Instant) :
    storedAnswer loc s row.aliasName now =
      if row.live then cachedAnswer (s.toLink loc row) now else .error .notFound := by
  have hstorable := hs.storable row hrow
  have hfound := hs.keyed.liveAlias_eq hrow
  by_cases hlive : row.live = true
  · rw [if_pos hlive] at hfound ⊢
    refine (cachedAnswer_of_GetLinkByAlias ?_ now).symm
    simp [GetLinkByAlias, hstorable, hfound]
  · rw [if_neg hlive] at hfound ⊢
    simp [storedAnswer, resolveUncached, GetLinkByAlias, hstorable, hfound, Except.map]

/-- The answer for an alias without a row. -/
theorem storedAnswer_missing {s : LinkStore} {aliasName : GoString}
    (hnone : ∀ row ∈ s.links, row.aliasName ≠ aliasName) (now : Instant) :
    storedAnswer loc s aliasName now =
      if storableText aliasName then .error .notFound else .error .database := by
  have hfound : s.liveAlias aliasName = none := by
    refine List.find?_eq_none.mpr fun row hrow htrue => hnone row hrow ?_
    exact beq_iff_eq.mp (Bool.and_eq_true_iff.mp htrue).1
  by_cases hstorable : storableText aliasName = true <;>
    simp [storedAnswer, resolveUncached, GetLinkByAlias, hstorable, hfound, Except.map]

/-- What a link answers depends on a few columns and its rules. -/
theorem cachedAnswer_toLink {s t : LinkStore} {row : LinkRow}
    (hrules : t.rulesOf row.id = s.rulesOf row.id) (now : Instant) :
    cachedAnswer (t.toLink loc row) now = cachedAnswer (s.toLink loc row) now := by
  simp [cachedAnswer, redirection, toLink, hrules, isUsable]

/-- A write that does not touch the alias, nor makes a row with it. -/
theorem storedAnswer_carries {touched : GoString → Prop} {s t : LinkStore} {aliasName : GoString}
    (hs : Tables s) (ht : Tables t) (hcarries : Carries touched s t)
    (hold : ∀ row ∈ t.links, row.aliasName = aliasName → ∃ row ∈ s.links, row.aliasName = aliasName)
    (hun : ¬ touched aliasName) (now : Instant) :
    storedAnswer loc t aliasName now = storedAnswer loc s aliasName now := by
  by_cases hrow : ∃ row ∈ s.links, row.aliasName = aliasName
  · obtain ⟨row, hrow, rfl⟩ := hrow
    obtain ⟨row', hrow', -, -, -, hsame⟩ := hcarries.row row hrow
    obtain ⟨rfl, hrules⟩ := hsame hun
    rw [storedAnswer_row ht hrow', storedAnswer_row hs hrow, cachedAnswer_toLink hrules]
  · have hnone : ∀ row ∈ s.links, row.aliasName ≠ aliasName := fun row hmem heq =>
      hrow ⟨row, hmem, heq⟩
    have hnone' : ∀ row ∈ t.links, row.aliasName ≠ aliasName := fun row hmem heq =>
      hrow (hold row hmem heq)
    rw [storedAnswer_missing hnone', storedAnswer_missing hnone]

/-! ## The tables -/

theorem tables_of_schema {s : LinkStore} (h : s.Schema) : Tables s where
  keyed := ⟨h.ids_nodup, h.aliases_nodup⟩
  storable row hrow := (h.aliases_fit row hrow).1
  linked := h.rules_linked

/-- Rows and rules are all that `Tables` looks at. -/
theorem Tables.of_eq {s t : LinkStore} (h : Tables s) (hlinks : t.links = s.links)
    (hrules : t.rules = s.rules) : Tables t where
  keyed := ⟨hlinks ▸ h.keyed.ids_nodup, hlinks ▸ h.keyed.aliases_nodup⟩
  storable := hlinks ▸ h.storable
  linked := by
    rw [hlinks, hrules]
    exact h.linked

/-- An update of rows that keeps identifiers and aliases. -/
theorem Tables.updateLinks {s : LinkStore} (h : Tables s) {selected : LinkRow → Bool}
    {set : LinkRow → LinkRow} (hid : ∀ row, (set row).id = row.id)
    (halias : ∀ row, (set row).aliasName = row.aliasName) : Tables (s.updateLinks selected set) where
  keyed := by
    constructor
    · rw [map_updateLinks LinkRow.id hid]
      exact h.keyed.ids_nodup
    · rw [map_updateLinks LinkRow.aliasName halias]
      exact h.keyed.aliases_nodup
  storable row hrow := by
    obtain ⟨old, hold, rfl⟩ := List.mem_map.mp hrow
    split_ifs
    · rw [halias]
      exact h.storable old hold
    · exact h.storable old hold
  linked rule hrule := by
    rw [map_updateLinks LinkRow.id hid]
    exact h.linked rule hrule

/-- The statements of an update. -/
theorem Tables.editLink {s : LinkStore} (h : Tables s) {link : Link}
    (hlink : link.id ∈ s.links.map LinkRow.id) (tags : Option (List GoString))
    (rules : Option (List LinkRule)) (owner : Option Uuid) (now : Instant) :
    Tables (s.editLink link tags rules owner now) := by
  have hedited : Tables (s.updateLinks (selects link.id owner) (editRow link now)) :=
    h.updateLinks (by intro _; rfl) (by intro _; rfl)
  have hlinks : (s.editLink link tags rules owner now).links =
      (s.updateLinks (selects link.id owner) (editRow link now)).links := editLink_links ..
  have hids : (s.editLink link tags rules owner now).links.map LinkRow.id =
      s.links.map LinkRow.id := by
    rw [hlinks]
    exact map_updateLinks LinkRow.id fun _ => rfl
  refine ⟨⟨hlinks ▸ hedited.keyed.ids_nodup, hlinks ▸ hedited.keyed.aliases_nodup⟩,
    hlinks ▸ hedited.storable, fun rule hrule => ?_⟩
  rw [hids]
  rcases mem_editLink_rules s link owner hrule with ⟨hold, -⟩ | ⟨hid, -⟩
  · exact h.linked rule hold
  · exact hid ▸ hlink

/-- The statements of a create. -/
theorem Tables.insertLink {s : LinkStore} (h : Tables s) {link : Link} {owner : Option Uuid}
    (hins : s.CreateLink link owner = (.ok (), s.insertLink link owner)) :
    Tables (s.insertLink link owner) := by
  rcases s.CreateLink_cases link owner with ⟨e, he⟩ | ⟨-, -, hfresh, -⟩
  · simp [he] at hins
  refine ⟨(carries_insert h.keyed hfresh).keyed, fun row hrow => ?_, fun rule hrule => ?_⟩
  · rw [insertLink_links] at hrow
    rcases List.mem_append.mp hrow with hold | hnew
    · exact h.storable row hold
    · rw [List.mem_singleton.mp hnew]
      exact CreateLink_storable hins
  · rw [insertLink_links, List.map_append]
    rcases mem_insertLink_rules s link owner hrule with hold | ⟨hid, -⟩
    · exact List.mem_append_left _ (h.linked rule hold)
    · exact List.mem_append_right _ (List.mem_singleton.mpr hid)

/-- A deletion of rows with what refers to them. -/
theorem Tables.cascade {s : LinkStore} (h : Tables s) (doomed : List Uuid) :
    Tables (s.cascade doomed) where
  keyed := keyed_cascade h.keyed doomed
  storable row hrow := h.storable row (mem_cascade_links.mp hrow).1
  linked rule hrule := by
    obtain ⟨hmem, hkept⟩ := List.mem_filter.mp hrule
    obtain ⟨row, hrow, hid⟩ := List.mem_map.mp (h.linked rule hmem)
    have hnot : rule.linkID ∉ doomed := by simpa using hkept
    exact List.mem_map.mpr ⟨row, mem_cascade_links.mpr ⟨hrow, hid ▸ hnot⟩, hid⟩

/-- A prune takes away rows that answer nobody any more. -/
theorem storedAnswer_prune {s : LinkStore} (hs : Tables s) (grace limit : Nat) {clock : Instant}
    (aliasName : GoString) {now : Instant} (hnow : clock ≤ now) :
    storedAnswer loc (s.PruneExpiredLinks grace limit clock).2 aliasName now =
      storedAnswer loc s aliasName now := by
  set doomed := (s.prunable grace limit clock).map LinkRow.id with hdoomed
  have ht : Tables (s.cascade doomed) := hs.cascade doomed
  show storedAnswer loc (s.cascade doomed) aliasName now = _
  by_cases hrow : ∃ row ∈ s.links, row.aliasName = aliasName
  · obtain ⟨row, hrow, rfl⟩ := hrow
    by_cases hgone : row.id ∈ doomed
    · -- the row has expired, so it answered as a missing one does
      obtain ⟨t, ht, hbefore⟩ := expired_of_doomed hs.keyed hrow (hdoomed ▸ hgone)
      have hnone : ∀ other ∈ (s.cascade doomed).links, other.aliasName ≠ row.aliasName := by
        intro other hother heq
        obtain ⟨hmem, hkept⟩ := mem_cascade_links.mp hother
        exact hkept (hs.keyed.eq_of_alias hmem hrow heq ▸ hgone)
      have hunusable : isUsable (s.toLink loc row) now = false := by
        have hlate : ¬ now < t := not_lt.mpr (hbefore.le.trans hnow)
        simp [isUsable, toLink, ht, hlate]
      rw [storedAnswer_missing hnone, if_pos (hs.storable row hrow), storedAnswer_row hs hrow,
        cachedAnswer, hunusable]
      simp
    · have hkept : row ∈ (s.cascade doomed).links := mem_cascade_links.mpr ⟨hrow, hgone⟩
      rw [storedAnswer_row ht hkept, storedAnswer_row hs hrow,
        cachedAnswer_toLink (rulesOf_cascade hgone)]
  · have hnone : ∀ row ∈ s.links, row.aliasName ≠ aliasName := fun row hmem heq =>
      hrow ⟨row, hmem, heq⟩
    have hnone' : ∀ row ∈ (s.cascade doomed).links, row.aliasName ≠ aliasName :=
      fun row hmem => hnone row (mem_cascade_links.mp hmem).1
    rw [storedAnswer_missing hnone', storedAnswer_missing hnone]

/-! ## Steps of a call -/

section

variable {w w' : World} {call call' : Call} {now : Instant}

/-- A step keeps the tables in order, and only the insert of a create makes a row. -/
theorem nextStep_tables (h : Tables w.store)
    (hstep : nextStep u loc svc localOffset now w call = some (w', call')) :
    Tables w'.store ∧ ∀ row ∈ w'.store.links,
      (∃ old ∈ w.store.links, old.aliasName = row.aliasName) ∨
        ∃ link, call' = .createCache link ∧ link.aliasName = row.aliasName := by
  have hkept : ∀ {store : LinkStore}, store.links = w.store.links → store.rules = w.store.rules →
      Tables store ∧ ∀ row ∈ store.links,
        (∃ old ∈ w.store.links, old.aliasName = row.aliasName) ∨
          ∃ link, call' = .createCache link ∧ link.aliasName = row.aliasName :=
    fun hlinks hrules => ⟨h.of_eq hlinks hrules, fun row hrow => .inl ⟨row, hlinks ▸ hrow, rfl⟩⟩
  have hsets : ∀ (selected : LinkRow → Bool) (set : LinkRow → LinkRow),
      (∀ row, (set row).aliasName = row.aliasName) →
      ∀ row ∈ (w.store.updateLinks selected set).links,
        ∃ old ∈ w.store.links, old.aliasName = row.aliasName := by
    intro selected set halias row hrow
    obtain ⟨old, hold, rfl⟩ := List.mem_map.mp hrow
    refine ⟨old, hold, ?_⟩
    split_ifs
    · exact (halias old).symm
    · rfl
  have hcached : ∀ offset link, (w.setLink offset link).store = w.store := by
    intro offset link
    unfold World.setLink
    split_ifs <;> rfl
  cases call with
  | idle => simp [nextStep] at hstep
  | done result => simp [nextStep] at hstep
  | resolve _ | resolveMiss _ | create _ _ _ _ | createQuota _ _ _ _ _ | update _ _ _ _
  | updateWritten _ _ | delete _ _ | deleteCache _ =>
    obtain ⟨rfl, -⟩ := Prod.mk.inj (Option.some.inj hstep)
    exact hkept rfl rfl
  | resolveCache link | createCache link | updateCache link =>
    obtain ⟨rfl, -⟩ := Prod.mk.inj (Option.some.inj hstep)
    exact hkept (congrArg LinkStore.links (hcached _ link)) (congrArg LinkStore.rules (hcached _ link))
  | createAlias settings ctx checked draws =>
    obtain ⟨store, next, heq, ⟨n, rfl⟩, -⟩ := createAliasStep_cases u settings ctx checked draws w
    simp only [nextStep, heq, Option.some.injEq, Prod.mk.injEq] at hstep
    obtain ⟨rfl, -⟩ := hstep
    exact hkept rfl rfl
  | createInsert settings ctx checked link retry =>
    rcases createInsertStep_cases u svc settings ctx checked link retry w with
      ⟨next, heq, -⟩ | ⟨hins, heq⟩ <;>
      simp only [nextStep, heq, Option.some.injEq, Prod.mk.injEq] at hstep <;>
      obtain ⟨rfl, rfl⟩ := hstep
    · exact hkept rfl rfl
    · refine ⟨h.insertLink hins, fun row hrow => ?_⟩
      rw [insertLink_links] at hrow
      rcases List.mem_append.mp hrow with hold | hnew
      · exact .inl ⟨row, hold, rfl⟩
      · exact .inr ⟨link, rfl, by rw [List.mem_singleton.mp hnew]; rfl⟩
  | updateLoaded settings ctx id req link =>
    rcases updateLoadedStep_cases u svc settings ctx id req link now w with
      ⟨e, heq⟩ | ⟨edit, hplan, hany, heq⟩ <;>
      simp only [nextStep, heq, Option.some.injEq, Prod.mk.injEq] at hstep <;>
      obtain ⟨rfl, rfl⟩ := hstep
    · exact hkept rfl rfl
    · obtain ⟨row, hrow, hselects⟩ := List.any_eq_true.mp hany
      simp only [selects, Bool.and_eq_true, beq_iff_eq] at hselects
      have hid : edit.link.id ∈ w.store.links.map LinkRow.id := by
        rw [(planUpdate_ok hplan).id, ← hselects.1.1]
        exact List.mem_map_of_mem hrow
      refine ⟨h.editLink hid edit.tags edit.rules ctx.ownerID now, fun row hrow => .inl ?_⟩
      rw [editLink_links] at hrow
      exact hsets (selects edit.link.id ctx.ownerID) (editRow edit.link now) (fun _ => rfl) row hrow
  | deleteLoaded ctx id edited =>
    rcases deleteLoadedStep_cases ctx id edited now w with ⟨e, heq⟩ | ⟨uid, -, -, heq⟩ <;>
      simp only [nextStep, heq, Option.some.injEq, Prod.mk.injEq] at hstep <;>
      obtain ⟨rfl, rfl⟩ := hstep
    · exact hkept rfl rfl
    · exact ⟨h.updateLinks (fun _ => rfl) fun _ => rfl, fun row hrow =>
        .inl (hsets _ (retireRow now) (fun _ => rfl) row hrow)⟩
  | bulk ctx req =>
    rcases bulkStep_cases u ctx req now w with
      ⟨names, linkTags, next, heq, -⟩ | ⟨selected, set, changed, hset, heq⟩ <;>
      simp only [nextStep, heq, Option.some.injEq, Prod.mk.injEq] at hstep <;>
      obtain ⟨rfl, rfl⟩ := hstep
    · exact hkept rfl rfl
    · exact ⟨h.updateLinks (fun row => (hset row).id) fun row => (hset row).aliasName, fun row hrow =>
        .inl (hsets selected set (fun row => (hset row).aliasName) row hrow)⟩
  | evict changed aliases =>
    cases aliases <;>
    · obtain ⟨rfl, -⟩ := Prod.mk.inj (Option.some.inj hstep)
      exact hkept rfl rfl

/-- A new link answers as its row does. -/
theorem cachedAnswer_newLink (h : Tables w.store) {checked : CheckedLink} (hchecked : Tidy checked)
    {aliasName : GoString} {draw : Draw} {owner : Option Uuid}
    (hins : w.store.CreateLink (newLink checked aliasName draw) owner =
      (.ok (), w.store.insertLink (newLink checked aliasName draw) owner)) (now : Instant) :
    cachedAnswer (newLink checked aliasName draw) now =
      storedAnswer loc (w.store.insertLink (newLink checked aliasName draw) owner) aliasName now := by
  set link := newLink checked aliasName draw with hlink
  rcases w.store.CreateLink_cases link owner with ⟨e, he⟩ | ⟨-, -, hfresh, -⟩
  · simp [he] at hins
  have hmem : newRow link owner ∈ (w.store.insertLink link owner).links := by
    rw [insertLink_links]
    exact List.mem_append_right _ (List.mem_singleton.mpr rfl)
  have hnew : link.id ∉ w.store.links.map LinkRow.id := by
    intro hid
    obtain ⟨row, hrow, heq⟩ := List.mem_map.mp hid
    exact (hfresh row hrow).2 heq
  have hrules : (w.store.insertLink link owner).rulesOf link.id = link.rules :=
    rulesOf_insertLink h.linked hnew hchecked.position owner
  have hexpiry : link.expiresAt.map toMicroseconds = link.expiresAt := by
    rw [hlink, newLink]
    dsimp only
    split_ifs
    · rfl
    · cases hparse : parseRFC3339 checked.expiresAt with
      | none => rfl
      | some t => rw [Option.map_some, hchecked.precise t hparse]
  have hanswer : storedAnswer loc _ _ now = _ := storedAnswer_row (h.insertLink hins) hmem now
  have hlive : (newRow link owner).live = true := rfl
  rw [if_pos hlive] at hanswer
  refine Eq.trans ?_ hanswer.symm
  have hsame : cachedAnswer ((w.store.insertLink link owner).toLink loc (newRow link owner)) now =
      cachedAnswer link now := by
    have hrow : (newRow link owner).id = link.id := rfl
    simp only [cachedAnswer, redirection, toLink, isUsable, hrow, hrules]
    simp [newRow, hexpiry]
  exact hsame.symm

/-- What a call knows, after its step. -/
theorem nextStep_ready (h : Tables w.store) (hready : Ready loc w call)
    (hstep : nextStep u loc svc localOffset now w call = some (w', call')) :
    Ready loc w' call' := by
  cases call with
  | idle => simp [nextStep] at hstep
  | done result => simp [nextStep] at hstep
  | resolve aliasName =>
    obtain ⟨rfl, rfl⟩ := Prod.mk.inj (Option.some.inj hstep)
    unfold resolveStep
    split
    · trivial
    · rename_i hmiss
      exact hmiss
  | resolveMiss aliasName =>
    obtain ⟨rfl, rfl⟩ := Prod.mk.inj (Option.some.inj hstep)
    unfold resolveMissStep
    split
    · trivial
    · rename_i link hget
      split_ifs
      · obtain ⟨row, -, halias, -, rfl⟩ := GetLinkByAlias_ok hget
        obtain rfl : row.aliasName = aliasName := halias
        exact ⟨cachedAnswer_of_GetLinkByAlias hget, hready⟩
      · trivial
  | create settings ctx req draws =>
    obtain ⟨rfl, rfl⟩ := Prod.mk.inj (Option.some.inj hstep)
    unfold createStep
    split
    · trivial
    · rename_i checked hchecked
      have htidy : Tidy checked :=
        ⟨normalizeRules_position (checkCreate_ok hchecked).2.2,
          checkCreate_expiresAt hchecked ▸ hready⟩
      split_ifs
      · split
        · trivial
        · exact htidy
      · split
        · trivial
        · trivial
        · exact htidy
  | createQuota settings ctx checked named draws =>
    obtain ⟨rfl, rfl⟩ := Prod.mk.inj (Option.some.inj hstep)
    unfold createQuotaStep
    split
    · trivial
    · split
      · exact ⟨hready, _, _, rfl⟩
      · exact hready
  | createAlias settings ctx checked draws =>
    have heq : createAliasStep u settings ctx checked draws w = (w', call') := Option.some.inj hstep
    unfold createAliasStep at heq
    split at heq
    · obtain ⟨-, rfl⟩ := Prod.mk.inj heq
      trivial
    · split at heq
      · obtain ⟨-, rfl⟩ := Prod.mk.inj heq
        trivial
      · obtain ⟨-, rfl⟩ := Prod.mk.inj heq
        split_ifs
        · exact hready
        · exact ⟨hready, _, _, rfl⟩
  | createInsert settings ctx checked link retry =>
    obtain ⟨htidy, aliasName, draw, rfl⟩ := hready
    rcases createInsertStep_cases u svc settings ctx checked (newLink checked aliasName draw) retry w
      with ⟨next, heq, hnext⟩ | ⟨hins, heq⟩ <;>
      simp only [nextStep, heq, Option.some.injEq, Prod.mk.injEq] at hstep <;>
      obtain ⟨rfl, rfl⟩ := hstep
    · rcases hnext with ⟨e, rfl⟩ | ⟨draws, rfl⟩
      · trivial
      · exact htidy
    · exact cachedAnswer_newLink h htidy hins
  | updateWritten ctx id =>
    obtain ⟨rfl, rfl⟩ := Prod.mk.inj (Option.some.inj hstep)
    unfold updateWrittenStep
    split
    · trivial
    · rename_i link hget
      obtain ⟨uid, row, huid, hfound, rfl⟩ := GetLink_ok hget
      obtain ⟨hrow, hselects⟩ := liveRow_eq_some hfound
      have hlive : row.live = true := by
        simp only [selects, Bool.and_eq_true] at hselects
        exact hselects.1.2
      intro now
      have hanswer : storedAnswer loc _ _ now = _ := storedAnswer_row h hrow now
      rw [if_pos hlive] at hanswer
      exact hanswer.symm
  | resolveCache _ | createCache _ | updateCache _ | deleteCache _ =>
    obtain ⟨-, rfl⟩ := Prod.mk.inj (Option.some.inj hstep)
    trivial
  | update settings ctx id req =>
    obtain ⟨-, rfl⟩ := Prod.mk.inj (Option.some.inj hstep)
    unfold updateStep
    split <;> trivial
  | updateLoaded settings ctx id req link =>
    rcases updateLoadedStep_cases u svc settings ctx id req link now w with
      ⟨e, heq⟩ | ⟨edit, -, -, heq⟩ <;>
      simp only [nextStep, heq, Option.some.injEq, Prod.mk.injEq] at hstep <;>
      obtain ⟨-, rfl⟩ := hstep <;> trivial
  | delete ctx id =>
    obtain ⟨-, rfl⟩ := Prod.mk.inj (Option.some.inj hstep)
    unfold deleteStep
    split <;> trivial
  | deleteLoaded ctx id edited =>
    rcases deleteLoadedStep_cases ctx id edited now w with ⟨e, heq⟩ | ⟨uid, -, -, heq⟩ <;>
      simp only [nextStep, heq, Option.some.injEq, Prod.mk.injEq] at hstep <;>
      obtain ⟨-, rfl⟩ := hstep <;> trivial
  | bulk ctx req =>
    rcases bulkStep_cases u ctx req now w with
      ⟨names, linkTags, next, heq, hnext⟩ | ⟨selected, set, changed, -, heq⟩ <;>
      simp only [nextStep, heq, Option.some.injEq, Prod.mk.injEq] at hstep <;>
      obtain ⟨-, rfl⟩ := hstep
    · rcases hnext with ⟨e, rfl⟩ | ⟨changed, rfl⟩ <;> trivial
    · trivial
  | evict changed aliases =>
    cases aliases <;>
    · obtain ⟨-, rfl⟩ := Prod.mk.inj (Option.some.inj hstep)
      trivial

end

/-! ## Steps of a run -/

section

variable {s t : Solo}

/-- Setting an entry of a link that answers as the tables do. -/
theorem Transparent.set (h : Transparent loc s) {offset : Instant → Int} {link : Link}
    {result : Result} (hset : cacheable offset link ∨ s.world.cache link.aliasName = none)
    (hanswer : ∀ now, cachedAnswer link now = storedAnswer loc s.world.store link.aliasName now)
    (hpending : ∀ other ≠ link.aliasName, ¬ Pending loc s.world.store other s.call) :
    Transparent loc { s with world := s.world.setLink offset link, call := .done result } := by
  have hstore : (s.world.setLink offset link).store = s.world.store := by
    unfold World.setLink
    split_ifs <;> rfl
  refine ⟨hstore ▸ h.tables, trivial, trivial, fun aliasName entry hentry => .inl fun now hnow => ?_⟩
  show cachedAnswer entry now = storedAnswer loc (s.world.setLink offset link).store aliasName now
  rw [hstore]
  have hother : aliasName ≠ link.aliasName → s.world.cache aliasName = some entry →
      cachedAnswer entry now = storedAnswer loc s.world.store aliasName now := by
    intro hne hold
    exact (h.fresh aliasName entry hold).resolve_right (hpending aliasName hne) now hnow
  replace hentry : (s.world.setLink offset link).cache aliasName = some entry := hentry
  unfold World.setLink at hentry
  by_cases hcacheable : cacheable offset link = true
  · rw [if_pos hcacheable] at hentry
    by_cases heq : aliasName = link.aliasName
    · subst heq
      have hnew : link = entry := by simpa using hentry
      exact hnew ▸ hanswer now
    · exact hother heq (by simpa [heq] using hentry)
  · rw [if_neg hcacheable] at hentry
    refine hother (fun heq => ?_) hentry
    rw [heq, hset.resolve_left hcacheable] at hentry
    cases hentry

/-- A step of the call in progress. -/
theorem transparent_next (h : Transparent loc s) (hok : SetsOK localOffset s .next) {w' : World}
    {call' : Call} (hstep : nextStep u loc svc localOffset s.clock s.world s.call = some (w', call')) :
    Transparent loc { s with world := w', call := call' } := by
  obtain ⟨htables, hrows⟩ := nextStep_tables h.tables hstep
  have hready := nextStep_ready h.tables h.ready hstep
  by_cases hcreate : ∃ link, s.call = .createCache link
  · obtain ⟨link, hcall⟩ := hcreate
    have hset := hok
    have hanswer := h.ready
    rw [hcall] at hstep hanswer
    simp only [SetsOK, hcall] at hset
    obtain ⟨rfl, rfl⟩ := Prod.mk.inj (Option.some.inj hstep)
    refine h.set hset hanswer fun other hother hpending => ?_
    rw [hcall] at hpending
    rcases hpending with howes | ⟨_, hsame, heq⟩
    · exact howes
    · cases hsame
      exact hother heq.symm
  have hpending : ∀ aliasName, Pending loc s.world.store aliasName s.call →
      Owes loc s.world.store aliasName s.call := fun aliasName hpending =>
    hpending.resolve_right fun ⟨link, hcall, _⟩ => hcreate ⟨link, hcall⟩
  cases nextStep_effect h.tables.keyed h.located hstep with
  | write touched hcache hcarries hstored hlocated howes =>
    refine ⟨htables, hlocated, hready, fun aliasName entry hentry => ?_⟩
    replace hentry : w'.cache aliasName = some entry := hentry
    rw [hcache] at hentry
    by_cases htouched : touched aliasName
    · exact .inr (.inl (howes aliasName (.inl htouched)))
    by_cases hmade : ∃ link, call' = .createCache link ∧ link.aliasName = aliasName
    · exact .inr (.inr hmade)
    rcases h.fresh aliasName entry hentry with hanswer | hold
    · refine .inl fun now hnow => ?_
      refine (hanswer now hnow).trans (storedAnswer_carries h.tables htables hcarries ?_ htouched now).symm
      rintro row hrow rfl
      exact (hrows row hrow).resolve_right hmade
    · exact .inr (.inl (howes aliasName (.inr (hpending aliasName hold))))
  | drop dropped hworld hlocated howes =>
    subst hworld
    refine ⟨htables, hlocated, hready, fun aliasName entry hentry => ?_⟩
    replace hentry : (s.world.dropLink dropped).cache aliasName = some entry := hentry
    by_cases heq : aliasName = dropped
    · simp [World.dropLink, heq] at hentry
    · have hold : s.world.cache aliasName = some entry := by
        simpa [World.dropLink, heq] using hentry
      refine (h.fresh aliasName entry hold).imp_right fun hold => ?_
      exact .inl (howes aliasName heq (hpending aliasName hold))
  | set offset link result hworld hcall hsets =>
    subst hworld hcall
    have hset := hok
    have hanswer := h.ready
    cases hphase : s.call with
    | resolveCache set =>
      simp only [hphase] at hsets hanswer
      obtain ⟨rfl, rfl⟩ := hsets
      refine h.set (.inr hanswer.2) hanswer.1 fun other hother hold => ?_
      have howes := hpending other hold
      rw [hphase] at howes
      exact howes
    | updateCache set =>
      simp only [SetsOK, hphase] at hsets hanswer hset
      obtain ⟨rfl, rfl⟩ := hsets
      refine h.set hset hanswer fun other hother hold => ?_
      have howes := hpending other hold
      rw [hphase] at howes
      exact hother howes.symm
    | createCache set => exact absurd ⟨set, hphase⟩ hcreate
    | _ =>
      rw [hphase] at hsets
      exact hsets.elim

/-- Between calls nothing is pending. -/
theorem Transparent.settled (h : Transparent loc s) (hfree : s.call.free) {aliasName : GoString}
    {entry : Link} (hentry : s.world.cache aliasName = some entry) :
    ∀ now ≥ s.clock, cachedAnswer entry now = storedAnswer loc s.world.store aliasName now := by
  refine (h.fresh aliasName entry hentry).resolve_right fun hpending => ?_
  rcases hpending with howes | ⟨link, hcall, -⟩
  · cases hphase : s.call <;> simp [hphase, Owes, Call.free] at howes hfree
  · simp [hcall, Call.free] at hfree

theorem transparent_step (h : Transparent loc s) {a : SoloAction} (hprecise : Precise a)
    (hok : SetsOK localOffset s a)
    (hstep : (soloCalls u loc svc localOffset).step s a = some t) : Transparent loc t := by
  cases a with
  | start request =>
    simp only [soloCalls] at hstep
    split_ifs at hstep with hfree
    obtain rfl := Option.some.inj hstep
    refine ⟨h.tables, ?_, ?_, fun aliasName entry hentry => .inl (h.settled hfree hentry)⟩
    · cases request <;> trivial
    · cases request with
      | create settings ctx req draws => exact hprecise
      | _ => trivial
  | next =>
    obtain ⟨⟨w', call'⟩, hnext, rfl⟩ := Option.map_eq_some_iff.mp hstep
    exact transparent_next h hok hnext
  | prune grace limit =>
    simp only [soloCalls] at hstep
    split_ifs at hstep with hfree
    obtain rfl := Option.some.inj hstep
    have hidle : Located (s.world.store.PruneExpiredLinks grace limit s.clock).2 s.call ∧
        ∀ w : World, Ready loc w s.call := by
      cases hphase : s.call with
      | idle | done result => exact ⟨trivial, fun _ => trivial⟩
      | _ => simp [hphase, Call.free] at hfree
    refine ⟨h.tables.cascade _, hidle.1, hidle.2 _, fun aliasName entry hentry => .inl ?_⟩
    intro now hnow
    refine (h.settled hfree hentry now hnow).trans ?_
    exact (storedAnswer_prune h.tables grace limit aliasName hnow).symm
  | expire dropped =>
    simp only [soloCalls] at hstep
    split_ifs at hstep with hfree
    obtain rfl := Option.some.inj hstep
    have hidle : ∀ w : World, Ready loc w s.call := by
      cases hphase : s.call with
      | idle | done result => exact fun _ => trivial
      | _ => simp [hphase, Call.free] at hfree
    refine ⟨h.tables, h.located, hidle _, fun aliasName entry hentry => .inl ?_⟩
    have hold : s.world.cache aliasName = some entry := by
      by_cases heq : aliasName = dropped
      · simp [World.dropLink, heq] at hentry
      · simpa [World.dropLink, heq] using hentry
    exact h.settled hfree hold
  | tick elapsed =>
    simp only [soloCalls] at hstep
    split_ifs at hstep with hfree
    obtain rfl := Option.some.inj hstep
    refine ⟨h.tables, h.located, h.ready, fun aliasName entry hentry => .inl fun now hnow => ?_⟩
    refine h.settled hfree hentry now (le_trans ?_ hnow)
    exact Int.le_add_of_nonneg_right (Int.natCast_nonneg elapsed)

end

/-! ## Runs -/

/-- A resolve, step by step. -/
theorem resolvesUncached_of_transparent {s : Solo} (h : Transparent loc s) (hfree : s.call.free)
    (aliasName : GoString) : ResolvesUncached u loc svc localOffset s aliasName := by
  let m := soloCalls u loc svc localOffset
  let looking : Solo := { s with call := .resolve aliasName }
  have hstart : m.step s (.start (.resolve aliasName)) = some looking := if_pos hfree
  have hlook : m.step looking .next =
      some { s with call := resolveStep aliasName s.clock s.world } := rfl
  cases hentry : s.world.cache aliasName with
  | some entry =>
    have hanswer := h.settled hfree hentry s.clock le_rfl
    refine ⟨1, _, if isUsable entry s.clock then .ok entry else .error .notFound,
      m.run_cons_eq_some.2 ⟨_, hstart, m.run_cons_eq_some.2 ⟨_, hlook, rfl⟩⟩, ?_, ?_⟩
    · simp [resolveStep, hentry]
    · refine Eq.trans ?_ hanswer
      unfold cachedAnswer
      split_ifs <;> rfl
  | none =>
    have hmiss : m.step looking .next = some { s with call := .resolveMiss aliasName } := by
      rw [hlook, resolveStep, hentry]
    have hread : m.step { s with call := .resolveMiss aliasName } .next =
        some { s with call := resolveMissStep loc aliasName s.clock s.world } := rfl
    by_cases hfound : ∃ link, s.world.store.GetLinkByAlias loc aliasName = .ok link ∧
        isUsable link s.clock
    · obtain ⟨link, hget, husable⟩ := hfound
      have hcall : resolveMissStep loc aliasName s.clock s.world = .resolveCache link := by
        simp [resolveMissStep, hget, husable]
      rw [hcall] at hread
      refine ⟨3, _, .ok link, m.run_cons_eq_some.2 ⟨_, hstart, m.run_cons_eq_some.2 ⟨_, hmiss,
        m.run_cons_eq_some.2 ⟨_, hread, m.run_cons_eq_some.2 ⟨_, rfl, rfl⟩⟩⟩⟩, rfl, ?_⟩
      simp [resolveUncached, hget, husable]
    · obtain ⟨e, hcall, hanswer⟩ : ∃ e, resolveMissStep loc aliasName s.clock s.world =
          .done (.resolved (.error e)) ∧
          resolveUncached loc s.world.store aliasName s.clock = .error e := by
        unfold resolveMissStep resolveUncached
        cases hget : s.world.store.GetLinkByAlias loc aliasName with
        | error e => exact ⟨e, rfl, rfl⟩
        | ok link =>
          have hunusable : ¬ isUsable link s.clock = true := fun husable => hfound ⟨link, hget, husable⟩
          exact ⟨.notFound, if_neg hunusable, if_neg hunusable⟩
      rw [hcall] at hread
      refine ⟨2, _, .error e, m.run_cons_eq_some.2 ⟨_, hstart, m.run_cons_eq_some.2 ⟨_, hmiss,
        m.run_cons_eq_some.2 ⟨_, hread, rfl⟩⟩⟩, rfl, ?_⟩
      rw [hanswer]

/-- The cache is transparent.  In every run from an empty cache in which no link that JSON
cannot carry is cached over an entry, and whose creates ask for expiries of whole
microseconds, every resolve answers what it would without the cache. -/
theorem cache_transparent {store : LinkStore} {clock : Instant} {as : List SoloAction} {s : Solo}
    (hschema : store.Schema) (hprecise : ∀ a ∈ as, Precise a)
    (hok : (soloCalls u loc svc localOffset).Along (SetsOK localOffset)
      { world := { store }, clock } as)
    (hrun : (soloCalls u loc svc localOffset).run { world := { store }, clock } as = some s)
    (hfree : s.call.free) (aliasName : GoString) :
    ResolvesUncached u loc svc localOffset s aliasName := by
  let m := soloCalls u loc svc localOffset
  have hinit : Transparent loc { world := { store }, clock } :=
    ⟨tables_of_schema hschema, trivial, trivial, fun _ _ hentry => by cases hentry⟩
  have htransparent : Transparent loc s :=
    m.run_invariant_along (C := fun s a => SetsOK localOffset s a ∧ Precise a)
      (fun _ _ _ h hC hstep => transparent_step h hC.2 hC.1 hstep) hinit
      (Machine.Along.and m hok (Machine.along_of_mem m hprecise _)) hrun
  exact resolvesUncached_of_transparent htransparent hfree aliasName

end

/-! ## Two runs -/

abbrev soloAscii : Machine Solo SoloAction :=
  soloCalls .ascii plainLocale ⟨lit "http://sho.rt"⟩ fun _ => 0

/-- Nothing has happened. -/
def newSolo : Solo where
  world := {}
  clock := 0

/-- A link `abc` is made. -/
def soloCreateAbc : List SoloAction :=
  .start (.create {} {} { destinationURL := lit "http://example.com/", aliasName := lit "abc" }
    fun _ => ⟨default, 0, none⟩) :: List.replicate 4 .next

/-- It is sent elsewhere, with an expiry in the year 10000. -/
def soloUpdateAbc : List SoloAction :=
  .start (.update {} {} (lit "00000000000000000000000000000000")
    { destinationURL := lit "http://example.org/"
      expiresAt := some (lit "9999-12-31T23:59:59-01:00") }) :: List.replicate 4 .next

/-- A run caches only links that JSON can carry. -/
def setsCacheable (s : Solo) : SoloAction → Bool
  | .next =>
    match s.call with
    | .createCache link | .updateCache link => cacheable (fun _ => 0) link
    | _ => true
  | _ => true

theorem setsOK_of_setsCacheable (s : Solo) (a : SoloAction) (h : setsCacheable s a) :
    SetsOK (fun _ => 0) s a := by
  cases a with
  | next =>
    simp only [setsCacheable] at h
    simp only [SetsOK]
    cases hphase : s.call with
    | createCache link | updateCache link =>
      rw [hphase] at h
      exact .inl h
    | _ => trivial
  | _ => trivial

theorem precise_soloCreateAbc : ∀ a ∈ soloCreateAbc, Precise a := by
  intro a ha
  rcases List.mem_cons.mp ha with rfl | hnext
  · intro t ht
    cases ht
  · rw [List.eq_of_mem_replicate hnext]
    trivial

theorem cache_transparent_created :
    ∃ s, soloAscii.run newSolo soloCreateAbc = some s ∧
      ResolvesUncached .ascii plainLocale ⟨lit "http://sho.rt"⟩ (fun _ => 0) s (lit "abc") := by
  have hruns : (soloAscii.run newSolo soloCreateAbc).map (fun s => s.call.free) = some true := by
    decide
  obtain ⟨s, hs, hfree⟩ := Option.map_eq_some_iff.mp hruns
  have hschema : LinkStore.Schema {} := by
    constructor <;> simp
  have hok : soloAscii.Along (SetsOK fun _ => 0) newSolo soloCreateAbc :=
    Machine.along_of_check _ setsOK_of_setsCacheable (by decide)
  exact ⟨s, hs, cache_transparent hschema precise_soloCreateAbc hok hs hfree (lit "abc")⟩

/-- What a call that has ended gives the visitor. -/
def soloAnswer : Call → Option (Except ServiceError Redirection)
  | .done (.resolved answer) => some (answer.map redirection)
  | _ => none

/-- The update leaves the entry of the create behind. -/
theorem stale_entry :
    ¬ ∀ (as : List SoloAction) (s : Solo) (aliasName : GoString), (∀ a ∈ as, Precise a) →
      soloAscii.run newSolo as = some s → s.call.free →
      ResolvesUncached .ascii plainLocale ⟨lit "http://sho.rt"⟩ (fun _ => 0) s aliasName := by
  intro hclaim
  have hruns : (soloAscii.run newSolo (soloCreateAbc ++ soloUpdateAbc)).map
      (fun s => (s.call.free,
        (soloAscii.run s [.start (.resolve (lit "abc"))]).map fun t => (soloAnswer t.call).isSome,
        (soloAscii.run s [.start (.resolve (lit "abc")), .next]).map fun t =>
          (soloAnswer t.call).bind (·.toOption),
        (soloAscii.run s [.start (.resolve (lit "abc")), .next, .next]).isSome,
        (storedAnswer plainLocale s.world.store (lit "abc") s.clock).toOption)) =
      some (true, some false,
        some (some ⟨lit "http://example.com/", 302, [], 2⟩), false,
        some ⟨lit "http://example.org/", 302, [], 2⟩) := by
    decide
  obtain ⟨s, hs, hpair⟩ := Option.map_eq_some_iff.mp hruns
  simp only [Prod.mk.injEq] at hpair
  obtain ⟨hfree, hstart, hcached, hended, hstored⟩ := hpair
  have hprecise : ∀ a ∈ soloCreateAbc ++ soloUpdateAbc, Precise a := by
    intro a ha
    rcases List.mem_append.mp ha with hcreate | hupdate
    · exact precise_soloCreateAbc a hcreate
    · rcases List.mem_cons.mp hupdate with rfl | hnext
      · trivial
      · rw [List.eq_of_mem_replicate hnext]
        trivial
  obtain ⟨n, t, answer, hrun, hdone, hanswer⟩ := hclaim _ s (lit "abc") hprecise hs hfree
  -- the resolve takes one step to its end, and no more
  rcases n with _ | _ | n
  · rw [show List.replicate 0 SoloAction.next = [] from rfl] at hrun
    rw [hrun] at hstart
    simp [hdone, soloAnswer] at hstart
  · rw [show List.replicate (0 + 1) SoloAction.next = [.next] from rfl] at hrun
    rw [hrun, Option.map_some, hdone] at hcached
    simp only [soloAnswer, Option.bind_some, Option.some.injEq] at hcached
    rw [hanswer] at hcached
    change (storedAnswer plainLocale s.world.store (lit "abc") s.clock).toOption = _ at hcached
    rw [hstored] at hcached
    exact absurd hcached (by decide)
  · have hsplit : (.start (.resolve (lit "abc")) :: List.replicate (n + 1 + 1) SoloAction.next) =
        [.start (.resolve (lit "abc")), .next, .next] ++ List.replicate n .next := rfl
    rw [hsplit] at hrun
    obtain ⟨v, hv, -⟩ := soloAscii.run_append_eq_some.1 hrun
    rw [hv] at hended
    cases hended

end Purels.Properties
