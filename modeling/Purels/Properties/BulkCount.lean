import Purels.Lib.Counts
import Purels.Service.LinkSpecs

/-!
# What a bulk edit reports

The number that `Bulk` returns, against the links of the caller it has changed.

* `requestedIDs`, `matchedLinks`: the live links of the caller that a request names.
* `appliedCount`: all of them, or for a tag edit those whose tags differ afterwards.
* `TagsWritten`, from `BulkTagLinks_ok`: a tag edit counts pairs of a link and a tag.
* `OneTagEach`: the edit adds or takes away at most one tag of every link.
* `bulk_count_iff` and `two_tags_counted`, a request for one link that reports two.
-/

namespace Purels.Properties

open Go Security Store LinkStore Service Lib

/-! ## The links of a request -/

/-- The identifiers that a request names. -/
def requestedIDs (req : BulkLinkRequest) : List Uuid :=
  req.ids.filterMap fun raw => Uuid.parse (trimSpace raw)

/-- The caller's live links among them. -/
def matchedLinks (ctx : Context) (req : BulkLinkRequest) (s : LinkStore) : List LinkRow :=
  s.links.filter (bulkSelects (requestedIDs req) ctx.ownerID)

/-- The link has a tag before or after, but not both. -/
def retagged (s t : LinkStore) (id : Uuid) : Bool :=
  (s.linkTags ++ t.linkTags).any fun pair =>
    pair.1 == id && s.linkTags.contains pair != t.linkTags.contains pair

/-- The request is about tags. -/
def editsTags (req : BulkLinkRequest) : Bool :=
  parseBulkAction req.action == some .tag || parseBulkAction req.action == some .untag

/-- How many links the action applied to. -/
def appliedCount (ctx : Context) (req : BulkLinkRequest) (s t : LinkStore) : Nat :=
  if editsTags req then (matchedLinks ctx req s).countP fun row => retagged s t row.id
  else (matchedLinks ctx req s).length

/-- The number is the links the action applied to, and no more than were asked for. -/
structure CountsLinks (ctx : Context) (req : BulkLinkRequest) (s t : LinkStore) (affected : Nat) :
    Prop where
  applied : affected = appliedCount ctx req s t
  requested : affected ≤ (requestedIDs req).dedup.length

/-- A tag edit writes the pair: it is missing and to be added, or there and to be deleted. -/
def writesTag (s : LinkStore) (add : Bool) (pair : Uuid × GoString) : Bool :=
  s.linkTags.contains pair != add

/-- No link gets, or loses, more than one tag. -/
def OneTagEach (u : Unicode) (ctx : Context) (req : BulkLinkRequest) (s : LinkStore) : Prop :=
  ∀ tags add, planBulk u req = .ok (.tag tags add) →
    ∀ row ∈ matchedLinks ctx req s, tags.countP (fun name => writesTag s add (row.id, name)) ≤ 1

/-! ## Identifiers -/

section

variable {u : Unicode} {ctx : Context} {req : BulkLinkRequest} {ids : List GoString}
  {uuids : List Uuid}

theorem mem_uuidArray (h : uuidArray ids = .ok uuids) (id : Uuid) :
    id ∈ uuids ↔ ∃ text ∈ ids, Uuid.parse text = some id := by
  unfold uuidArray at h
  induction ids generalizing uuids with
  | nil =>
    obtain rfl : [] = uuids := Except.ok.inj h
    simp
  | cons text ids ih =>
    rw [List.mapM_cons] at h
    obtain ⟨first, hfirst, hrest⟩ := bind_eq_ok.mp h
    obtain ⟨rest, hids, hpure⟩ := bind_eq_ok.mp hrest
    obtain rfl : first :: rest = uuids := Except.ok.inj hpure
    have hparse : Uuid.parse text = some first := by
      unfold uuidParam at hfirst
      split_ifs at hfirst
      · cases hfirst
      · split at hfirst
        · cases hfirst
        · rename_i parsed heq
          rw [heq, Except.ok.inj hfirst]
    rw [List.mem_cons, ih hids]
    simp only [List.mem_cons, exists_eq_or_imp, hparse, Option.some.injEq]
    exact or_congr_left eq_comm

/-- The identifiers the statement is given are the ones the request names. -/
theorem mem_requestedIDs (hids : normalizeIDs u req.ids = .ok ids)
    (huuids : uuidArray ids = .ok uuids) (id : Uuid) : id ∈ uuids ↔ id ∈ requestedIDs req := by
  rw [mem_uuidArray huuids, requestedIDs, List.mem_filterMap]
  constructor
  · rintro ⟨text, htext, hparse⟩
    obtain ⟨-, raw, hraw, rfl⟩ := (normalizeIDs_ok hids text).mp htext
    exact ⟨raw, hraw, hparse⟩
  · rintro ⟨raw, hraw, hparse⟩
    refine ⟨trimSpace raw, (normalizeIDs_ok hids _).mpr ⟨?_, raw, hraw, rfl⟩, hparse⟩
    intro hblank
    have hnone : Uuid.parse [] = none := by decide
    rw [hblank, hnone] at hparse
    cases hparse

theorem bulkSelects_requested (hids : normalizeIDs u req.ids = .ok ids)
    (huuids : uuidArray ids = .ok uuids) (owner : Option Uuid) :
    bulkSelects uuids owner = bulkSelects (requestedIDs req) owner := by
  have hmem := mem_requestedIDs hids huuids
  funext row
  rw [bulkSelects, bulkSelects]
  congr 2
  rw [Bool.eq_iff_iff, List.contains_iff_mem, List.contains_iff_mem]
  exact hmem row.id

/-- The links that match have identifiers of their own among those asked for. -/
theorem matchedLinks_length {s : LinkStore} (hs : s.Schema) :
    (matchedLinks ctx req s).length ≤ (requestedIDs req).dedup.length := by
  have hnodup : ((matchedLinks ctx req s).map LinkRow.id).Nodup :=
    hs.ids_nodup.sublist (List.filter_sublist.map LinkRow.id)
  have hsubset : (matchedLinks ctx req s).map LinkRow.id ⊆ (requestedIDs req).dedup := by
    intro id hid
    obtain ⟨row, hrow, rfl⟩ := List.mem_map.mp hid
    have hselects := (List.mem_filter.mp hrow).2
    rw [bulkSelects, Bool.and_eq_true, Bool.and_eq_true, List.contains_iff_mem] at hselects
    exact List.mem_dedup.mpr hselects.1.1
  have hle := (List.subperm_of_subset hnodup hsubset).length_le
  rwa [List.length_map] at hle

end

/-! ## Tags -/

/-- The pairs of a selected link and a tag of the request. -/
def tagPairs (rows : List LinkRow) (tags : List GoString) : List (Uuid × GoString) :=
  rows.flatMap fun row => tags.map fun name => (row.id, name)

theorem mem_tagPairs {rows : List LinkRow} {tags : List GoString} {pair : Uuid × GoString} :
    pair ∈ tagPairs rows tags ↔ (∃ row ∈ rows, row.id = pair.1) ∧ pair.2 ∈ tags := by
  simp only [tagPairs, List.mem_flatMap, List.mem_map]
  constructor
  · rintro ⟨row, hrow, name, hname, rfl⟩
    exact ⟨⟨row, hrow, rfl⟩, hname⟩
  · rintro ⟨⟨row, hrow, hid⟩, hname⟩
    exact ⟨row, hrow, pair.2, hname, by rw [hid]⟩

theorem nodup_tagPairs {rows : List LinkRow} {tags : List GoString}
    (hrows : (rows.map LinkRow.id).Nodup) (htags : tags.Nodup) : (tagPairs rows tags).Nodup := by
  refine List.nodup_flatMap.mpr ⟨fun row _ => htags.map (Prod.mk_right_injective row.id), ?_⟩
  refine (List.pairwise_map.mp hrows).imp fun {row other} hne => ?_
  rintro pair hrow hother
  obtain ⟨name, -, rfl⟩ := List.mem_map.mp hrow
  obtain ⟨name', -, heq⟩ := List.mem_map.mp hother
  exact hne (congrArg Prod.fst heq).symm

/-- What a tag edit of these links does: the number it reports, and who has which tag then. -/
structure TagsWritten (rows : List LinkRow) (tags : List GoString) (add : Bool) (s t : LinkStore)
    (affected : Nat) : Prop where
  count : affected = (tagPairs rows tags).countP (writesTag s add)
  tagged : ∀ pair, t.linkTags.contains pair =
    if (tagPairs rows tags).contains pair then add else s.linkTags.contains pair

section

variable {s t : LinkStore} {ids : List GoString} {uuids : List Uuid} {owner : Option Uuid}
  {tags : List GoString} {add : Bool} {affected : Nat}

theorem writesTag_true (pair : Uuid × GoString) :
    writesTag s true pair = !s.linkTags.contains pair := Bool.xor_true _

/-- The join rows that an added tag brings. -/
theorem newTagLinks_eq (selected : LinkRow → Bool) (htags : tags.Nodup) :
    s.newTagLinks selected tags =
      (tagPairs (s.links.filter selected) tags).filter (writesTag s true) := by
  rw [newTagLinks, htags.dedup]
  exact List.filter_congr fun pair _ => (writesTag_true pair).symm

theorem BulkTagLinks_ok (hs : s.Schema) (hkey : s.linkTags.Nodup) (htags : tags.Nodup)
    (huuids : uuidArray ids = .ok uuids)
    (h : s.BulkTagLinks ids owner tags add = (.ok affected, t)) :
    TagsWritten (s.links.filter (bulkSelects uuids owner)) tags add s t affected := by
  have hpairs : (tagPairs (s.links.filter (bulkSelects uuids owner)) tags).Nodup :=
    nodup_tagPairs (hs.ids_nodup.sublist (List.filter_sublist.map LinkRow.id)) htags
  unfold BulkTagLinks at h
  rw [huuids] at h
  dsimp only at h
  by_cases hfit : (!tags.all storableTag) = true
  · rw [if_pos hfit] at h
    cases (Prod.mk.inj h).1
  rw [if_neg hfit] at h
  cases add with
  | true =>
    rw [if_pos rfl] at h
    obtain ⟨hcount, rfl⟩ := Prod.mk.inj h
    have hnew := newTagLinks_eq (s := s) (bulkSelects uuids owner) htags
    refine ⟨?_, fun pair => ?_⟩
    · rw [← Except.ok.inj hcount, hnew, List.countP_eq_length_filter]
    · show (s.linkTags ++ s.newTagLinks (bulkSelects uuids owner) tags).contains pair = _
      rw [hnew, Bool.eq_iff_iff, List.contains_iff_mem, List.mem_append, List.mem_filter,
        writesTag_true]
      by_cases hpair : pair ∈ tagPairs (s.links.filter (bulkSelects uuids owner)) tags
      · by_cases hold : pair ∈ s.linkTags
        · simp [hpair, hold]
        · simp [hpair, hold]
      · simp [hpair]
  | false =>
    rw [if_neg Bool.false_ne_true] at h
    obtain ⟨hcount, rfl⟩ := Prod.mk.inj h
    -- the join rows that go are the pairs
    have hgone : (fun pair : Uuid × GoString =>
        s.links.any (fun row => row.id == pair.1 && bulkSelects uuids owner row) &&
          tags.contains pair.2) =
        fun pair => (tagPairs (s.links.filter (bulkSelects uuids owner)) tags).contains pair := by
      funext pair
      rw [Bool.eq_iff_iff, List.contains_iff_mem, mem_tagPairs, Bool.and_eq_true,
        List.any_eq_true, List.contains_iff_mem]
      refine and_congr_left fun _ => exists_congr fun row => ?_
      rw [Bool.and_eq_true, beq_iff_eq, List.mem_filter]
      tauto
    have hthere : writesTag s false = fun pair => s.linkTags.contains pair :=
      funext fun pair => Bool.xor_false _
    refine ⟨?_, fun pair => ?_⟩
    · rw [← Except.ok.inj hcount, hgone, hthere, countP_mem_comm hkey hpairs]
    · show (s.linkTags.filter fun pair => !(s.links.any (fun row => row.id == pair.1 &&
        bulkSelects uuids owner row) && tags.contains pair.2)).contains pair = _
      have hrow := congrFun hgone pair
      rw [Bool.eq_iff_iff, List.contains_iff_mem, List.mem_filter, hrow]
      by_cases hpair : pair ∈ tagPairs (s.links.filter (bulkSelects uuids owner)) tags
      · simp [hpair]
      · simp [hpair]

/-- The tags of a selected link differ when some pair of it was written. -/
theorem retagged_iff {rows : List LinkRow} (h : TagsWritten rows tags add s t affected)
    {row : LinkRow} (hrow : row ∈ rows) :
    retagged s t row.id = decide (0 < tags.countP fun name => writesTag s add (row.id, name)) := by
  rw [Bool.eq_iff_iff, decide_eq_true_eq, List.countP_pos_iff, retagged, List.any_eq_true]
  constructor
  · rintro ⟨pair, -, hpair⟩
    rw [Bool.and_eq_true, beq_iff_eq, bne_iff_ne, h.tagged pair] at hpair
    obtain ⟨hid, hdiffers⟩ := hpair
    split_ifs at hdiffers with hmem
    · rw [List.contains_iff_mem, mem_tagPairs] at hmem
      refine ⟨pair.2, hmem.2, ?_⟩
      rw [← hid, writesTag, bne_iff_ne]
      exact hdiffers
    · exact absurd rfl hdiffers
  · rintro ⟨name, hname, hwrites⟩
    have hmem : (row.id, name) ∈ tagPairs rows tags := mem_tagPairs.mpr ⟨⟨row, hrow, rfl⟩, hname⟩
    have htagged := h.tagged (row.id, name)
    rw [if_pos (List.contains_iff_mem.mpr hmem)] at htagged
    rw [writesTag] at hwrites
    refine ⟨(row.id, name), ?_, ?_⟩
    · rw [List.mem_append, ← List.contains_iff_mem, ← List.contains_iff_mem, htagged]
      cases add with
      | true => exact .inr rfl
      | false => exact .inl (by simpa using hwrites)
    · rw [htagged, beq_self_eq_true, Bool.true_and]
      exact hwrites

/-- The number a tag edit reports is the number of links that it changes exactly when it
changes none of them twice. -/
theorem TagsWritten.count_iff {rows : List LinkRow} (h : TagsWritten rows tags add s t affected) :
    affected = rows.countP (fun row => retagged s t row.id) ↔
      ∀ row ∈ rows, tags.countP (fun name => writesTag s add (row.id, name)) ≤ 1 := by
  rw [h.count, tagPairs, countP_flatMap_map, ← sum_eq_countP_iff]
  rw [List.countP_congr fun row hrow => by rw [retagged_iff h hrow]]

end

/-- A statement about tags is planned for the two actions on tags. -/
theorem planBulk_editsTags {u : Unicode} {req : BulkLinkRequest} {edit : BulkEdit}
    (h : planBulk u req = .ok edit) : editsTags req ↔ ∃ tags add, edit = .tag tags add := by
  have htags : ∀ adding, planBulk.planTags u req adding = .ok edit →
      ∃ tags add, edit = .tag tags add := by
    intro adding h
    unfold planBulk.planTags at h
    split at h
    · cases h
    · cases h
    · exact ⟨_, _, (Except.ok.inj h).symm⟩
  unfold editsTags
  unfold planBulk at h
  split at h
  all_goals rename_i haction; rw [haction]
  · cases h
  · obtain rfl := Except.ok.inj h
    simp
  · obtain rfl := Except.ok.inj h
    simp
  · obtain rfl := Except.ok.inj h
    simp
  · split at h
    · cases h
    · split at h
      · cases h
      · obtain rfl := Except.ok.inj h
        simp
  · exact iff_of_true rfl (htags true h)
  · exact iff_of_true rfl (htags false h)

/-- The number is the number of links exactly when no link gets or loses two tags. -/
theorem bulk_count_iff {u : Unicode} {ctx : Context} {req : BulkLinkRequest} {now : Instant}
    {s t : LinkStore} {affected : Nat} {aliases : List GoString} (hs : s.Schema)
    (hkey : s.linkTags.Nodup) (h : Bulk u ctx req now s = (.ok (affected, aliases), t)) :
    CountsLinks ctx req s t affected ↔ OneTagEach u ctx req s := by
  have hbound : (matchedLinks ctx req s).length ≤ (requestedIDs req).dedup.length :=
    matchedLinks_length hs
  obtain ⟨ids, uuids, edit, hids, huuids, hplan, hwrite⟩ := Bulk_ok h
  have hselects := bulkSelects_requested hids huuids ctx.ownerID
  have happlied : CountsLinks ctx req s t affected ↔ affected = appliedCount ctx req s t := by
    refine ⟨fun hcounts => hcounts.applied, fun heq => ⟨heq, le_trans ?_ hbound⟩⟩
    rw [heq, appliedCount]
    split_ifs
    · exact List.countP_le_length
    · exact le_rfl
  rw [happlied, appliedCount]
  rcases hwrite with ⟨tags, add, rfl, htags⟩ | ⟨hrows, hcount⟩
  · have hnormal := planBulk_tags hplan
    have hwritten := BulkTagLinks_ok hs hkey (NormalizeTags_limits hnormal).1 huuids htags
    rw [hselects] at hwritten
    rw [if_pos ((planBulk_editsTags hplan).mpr ⟨tags, add, rfl⟩), matchedLinks,
      hwritten.count_iff]
    constructor
    · intro hone tags' add' hplan' row hrow
      rw [hplan] at hplan'
      obtain ⟨rfl, rfl⟩ := BulkEdit.tag.inj (Except.ok.inj hplan')
      exact hone row hrow
    · intro hone row hrow
      exact hone tags add hplan row hrow
  · have hedit : ¬ editsTags req := fun htags =>
      have ⟨tags, add, htag⟩ := (planBulk_editsTags hplan).mp htags
      hrows tags add htag
    rw [if_neg hedit, matchedLinks, ← hselects]
    refine iff_of_true hcount fun tags add hplan' => ?_
    rw [hplan] at hplan'
    exact absurd (Except.ok.inj hplan') (hrows tags add)

/-! ## One link, two tags -/

def bulkCaller : Context := { user := some { id := default, username := lit "ann" } }

/-- One live link of the caller's. -/
def bulkStore : LinkStore where
  links := [{
    id := default
    aliasName := lit "abc"
    destinationURL := lit "https://a.example/"
    userID := some default }]

theorem bulkStore_schema : bulkStore.Schema where
  ids_nodup := List.nodup_singleton _
  aliases_nodup := List.nodup_singleton _
  aliases_fit := List.forall_mem_singleton.mpr (by decide)
  tags_linked := List.forall_mem_nil _
  rules_linked := List.forall_mem_nil _
  events_linked := List.forall_mem_nil _
  daily_linked := List.forall_mem_nil _

/-- The link is named twice, in two spellings. -/
def tagRequest (tags : List GoString) : BulkLinkRequest where
  action := lit "tag"
  ids := [Uuid.toText default, lit "00000000000000000000000000000000"]
  tags := tags

theorem one_tag_counted :
    CountsLinks bulkCaller (tagRequest [lit "red"]) bulkStore
      (Bulk .ascii bulkCaller (tagRequest [lit "red"]) 0 bulkStore).2 1 := by
  have hbulk : Bulk .ascii bulkCaller (tagRequest [lit "red"]) 0 bulkStore =
      (.ok (1, []), (Bulk .ascii bulkCaller (tagRequest [lit "red"]) 0 bulkStore).2) :=
    Prod.ext (by decide) rfl
  refine (bulk_count_iff bulkStore_schema List.nodup_nil hbulk).mpr fun tags add hplan row _ => ?_
  have hedit : planBulk .ascii (tagRequest [lit "red"]) = .ok (.tag [lit "red"] true) := by
    decide
  rw [hedit] at hplan
  obtain ⟨rfl, rfl⟩ := BulkEdit.tag.inj (Except.ok.inj hplan)
  exact List.countP_le_length

/-- Two new tags on the one link are reported as two links. -/
theorem two_tags_counted :
    (Bulk .ascii bulkCaller (tagRequest [lit "red", lit "blue"]) 0 bulkStore).1 = .ok (2, []) ∧
      (requestedIDs (tagRequest [lit "red", lit "blue"])).dedup.length = 1 ∧
      ¬ CountsLinks bulkCaller (tagRequest [lit "red", lit "blue"]) bulkStore
        (Bulk .ascii bulkCaller (tagRequest [lit "red", lit "blue"]) 0 bulkStore).2 2 := by
  refine ⟨by decide, by decide, fun hcounts => ?_⟩
  exact absurd hcounts.requested (by decide)

end Purels.Properties
