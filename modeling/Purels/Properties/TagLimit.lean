import Purels.Lib.Machine
import Purels.Properties.BulkCount
import Purels.Service.CsvSpecs

/-!
# How many tags a link has

Runs of the calls that write tags: creates, imports, updates and bulk edits.

* `TagsInLimit`: a link has at most twenty distinct tags, all of them normalized.
* `BulkLeavesRoom`: a bulk tag edit takes no link over the limit.
* `TagTables`: the invariant, with one lemma for each call.
* `tags_in_limit`, the run theorem, and `twenty_one_tags`, a link that a bulk edit has given
  one tag too many.
-/

namespace Purels.Properties

open Go Security Store LinkStore Service Lib

/-! ## The calls -/

/-- A call of the link service with whatever it draws from outside. -/
inductive TagOp where
  | create (settings : RuntimeSettingsInput) (ctx : Context) (req : CreateLinkRequest)
      (now : Instant) (draws : Fin aliasAttempts → Draw)
  | importCSV (ctx : Context) (reads : List Read) (outside : Nat → RowDraws)
  | update (settings : RuntimeSettingsInput) (ctx : Context) (id : GoString)
      (req : UpdateLinkRequest) (now : Instant)
  | bulk (ctx : Context) (req : BulkLinkRequest) (now : Instant)

section

variable (u : Unicode) (loc : DatabaseLocale) (svc : LinkService)

def TagOp.run (s : LinkStore) : TagOp → LinkStore
  | .create settings ctx req now draws => (Create u loc svc settings ctx req now draws s).2
  | .importCSV ctx reads outside => (ImportCSV u loc svc ctx reads outside s).2
  | .update settings ctx id req now => (Update u loc svc settings ctx id req now s).2
  | .bulk ctx req now => (Bulk u ctx req now s).2

def tagMachine : Machine LinkStore TagOp where
  step s op := some (op.run u loc svc s)

/-- The tags of a link are few, distinct and normalized. -/
structure TagsInLimit (tags : List GoString) : Prop where
  few : tags.length ≤ maxTagsPerLink
  distinct : tags.Nodup
  normal : ∀ name ∈ tags, NormalizeTags u [name] = .ok [name]

/-- A bulk tag edit whose statement is run brings none of its links over the limit. -/
def BulkLeavesRoom (s : LinkStore) : TagOp → Prop
  | .bulk ctx req _ => ∀ ids uuids tags, normalizeIDs u req.ids = .ok ids →
    uuidArray ids = .ok uuids → planBulk u req = .ok (.tag tags true) → tags.all storableTag →
    ∀ row ∈ matchedLinks ctx req s, (s.tagsOf loc row.id).length +
      tags.countP (fun name => writesTag s true (row.id, name)) ≤ maxTagsPerLink
  | _ => True

/-- The tables that tags are kept in. -/
structure TagTables (s : LinkStore) : Prop where
  ids : (s.links.map LinkRow.id).Nodup
  linked : ∀ t ∈ s.linkTags, t.1 ∈ s.links.map LinkRow.id
  key : s.linkTags.Nodup
  few : ∀ id, s.linkTags.countP (fun t => t.1 == id) ≤ maxTagsPerLink
  normal : ∀ t ∈ s.linkTags, NormalizeTags u [t.2] = .ok [t.2]

variable {u loc svc} {s t : LinkStore}

/-! ## One link -/

/-- A normalized tag is left as it is. -/
theorem NormalizeTags_fixed (hu : u.Separates) {raw tags : List GoString}
    (h : NormalizeTags u raw = .ok tags) {name : GoString} (hname : name ∈ tags) :
    NormalizeTags u [name] = .ok [name] := by
  obtain ⟨hfolded, hform, hshort⟩ := NormalizeTags_ok h name hname
  have htrim : trimSpace name = name := by
    apply trimSpace_of_not_space
    intro c hc
    have hplain := tag_plain hu hform c hc
    rw [isTagSeparator, Bool.or_eq_false_iff] at hplain
    exact hplain.2
  have hloop : normalizeTagsFrom u [] [name] = .ok [name] := by
    rw [normalizeTagsFrom_cons, htrim, hfolded, if_neg (tag_ne_nil hform),
      if_neg (not_lt.mpr hshort), if_neg (by simp [hform]), if_neg List.not_mem_nil]
    rfl
  rw [NormalizeTags, hloop]
  exact if_neg (by simp [maxTagsPerLink])

theorem length_tagsOf (id : Uuid) :
    (s.tagsOf loc id).length = s.linkTags.countP fun t => t.1 == id := by
  rw [tagsOf, List.length_insertionSort, List.length_map, List.countP_eq_length_filter]

/-- What the tables say of one link. -/
theorem TagTables.inLimit (h : TagTables u s) (id : Uuid) : TagsInLimit u (s.tagsOf loc id) where
  few := by
    rw [length_tagsOf]
    exact h.few id
  distinct := by
    rw [tagsOf, (List.perm_insertionSort _ _).nodup_iff]
    refine (h.key.filter _).map_on fun a ha b hb heq => ?_
    have hid := (List.mem_filter.mp ha).2
    have hid' := (List.mem_filter.mp hb).2
    exact Prod.ext ((beq_iff_eq.mp hid).trans (beq_iff_eq.mp hid').symm) heq
  normal name hname := h.normal (id, name) (mem_tagsOf.mp hname)

/-! ## Each call keeps the tables -/

theorem tagTables_empty : TagTables u {} where
  ids := List.nodup_nil
  linked := List.forall_mem_nil _
  key := List.nodup_nil
  few _ := Nat.zero_le _
  normal := List.forall_mem_nil _

theorem TagTables.sameRows (h : TagTables u s) (hst : SameRows s t) : TagTables u t := by
  obtain ⟨n, rfl⟩ := hst
  exact ⟨h.ids, h.linked, h.key, h.few, h.normal⟩

/-- Replacing the tags of one link by normalized ones. -/
theorem TagTables.setLinkTags (hu : u.Separates) (h : TagTables u s) {id : Uuid}
    (hid : id ∈ s.links.map LinkRow.id) {raw tags : List GoString}
    (hraw : NormalizeTags u raw = .ok tags) : TagTables u (s.setLinkTags id tags) := by
  obtain ⟨hnodup, hfew⟩ := NormalizeTags_limits hraw
  have hlinkTags : (s.setLinkTags id tags).linkTags =
      (s.linkTags.filter fun t => t.1 != id) ++ tags.map fun name => (id, name) := by
    rw [LinkStore.setLinkTags, hnodup.dedup]
  refine ⟨h.ids, fun t ht => ?_, ?_, fun other => ?_, fun t ht => ?_⟩
  · rcases s.mem_setLinkTags.mp ht with ⟨hold, -⟩ | ⟨rfl, -⟩
    · exact h.linked t hold
    · exact hid
  · rw [hlinkTags]
    refine (h.key.filter _).append (hnodup.map (Prod.mk_right_injective id)) ?_
    intro t hold hnew
    obtain ⟨name, -, rfl⟩ := List.mem_map.mp hnew
    simpa using (List.mem_filter.mp hold).2
  · rw [hlinkTags, List.countP_append, List.countP_filter, List.countP_map]
    by_cases hother : other = id
    · subst hother
      have hnone : s.linkTags.countP (fun t => t.1 == other && t.1 != other) = 0 :=
        List.countP_eq_zero.mpr fun t _ => by simp
      rw [hnone, Nat.zero_add]
      exact le_trans List.countP_le_length hfew
    · have hnew : tags.countP ((fun t : Uuid × GoString => t.1 == other) ∘ fun name =>
          (id, name)) = 0 :=
        List.countP_eq_zero.mpr fun name _ => by simpa using fun heq => hother heq.symm
      rw [hnew, Nat.add_zero]
      exact le_trans (List.countP_mono_left fun t _ hand => (Bool.and_eq_true_iff.mp hand).1)
        (h.few other)
  · rcases s.mem_setLinkTags.mp ht with ⟨hold, -⟩ | ⟨-, hname⟩
    · exact h.normal t hold
    · exact NormalizeTags_fixed hu hraw hname

/-- Only the links and the tag links matter. -/
theorem TagTables.congr (h : TagTables u s) (hlinks : t.links.map LinkRow.id = s.links.map LinkRow.id)
    (htags : t.linkTags = s.linkTags) : TagTables u t where
  ids := hlinks ▸ h.ids
  linked := by
    rw [hlinks, htags]
    exact h.linked
  key := htags ▸ h.key
  few := htags ▸ h.few
  normal := htags ▸ h.normal

theorem TagTables.create (hu : u.Separates) (h : TagTables u s) (settings : RuntimeSettingsInput)
    (ctx : Context) (req : CreateLinkRequest) (now : Instant)
    (draws : Fin aliasAttempts → Draw) :
    TagTables u (Create u loc svc settings ctx req now draws s).2 := by
  rcases Create_cases u loc svc settings ctx req now draws s with
    ⟨e, t, heq, hsame⟩ | ⟨checked, link, heq, -⟩ | ⟨checked, link, t, heq, hchecked, -, hins⟩
  · rw [heq]
    exact h.sameRows hsame
  · rw [heq]
    exact h
  rw [heq]
  obtain ⟨draw, hmade⟩ := hins.made
  obtain ⟨v, hv, hcreate⟩ := hins.inserted
  obtain ⟨-, -, -, hfree, -, -, rfl⟩ := v.CreateLink_fits hcreate
  have hbefore := h.sameRows hv
  have htags : NormalizeTags u req.tags = .ok link.tags := by
    rw [hmade]
    exact (checkCreate_iff.mp hchecked).tags
  -- the row is inserted before its tags are
  have hrow : TagTables u { v with links := v.links ++ [newRow link ctx.actorID] } := by
    refine ⟨?_, fun t ht => ?_, hbefore.key, hbefore.few, hbefore.normal⟩
    · rw [List.map_append, List.map_singleton]
      apply List.nodup_append_comm.mp
      refine List.nodup_cons.mpr ⟨fun hmem => ?_, hbefore.ids⟩
      obtain ⟨row, hrow, hid⟩ := List.mem_map.mp hmem
      exact (hfree row hrow).2 hid
    · rw [List.map_append]
      exact List.mem_append_left _ (hbefore.linked t ht)
  have hid : link.id ∈ (v.links ++ [newRow link ctx.actorID]).map LinkRow.id := by simp [newRow]
  have htagged := hrow.setLinkTags hu hid htags
  refine htagged.congr ?_ ?_
  · rw [insertLink_links]
    rfl
  · unfold LinkStore.insertLink
    split <;> rfl

theorem TagTables.update (hu : u.Separates) (h : TagTables u s) (settings : RuntimeSettingsInput)
    (ctx : Context) (id : GoString) (req : UpdateLinkRequest) (now : Instant) :
    TagTables u (Update u loc svc settings ctx id req now s).2 := by
  rcases Update_cases u loc svc settings ctx id req now s with
    ⟨e, heq⟩ | ⟨link, edit, hget, -, hplan, -, heq⟩
  · rw [heq]
    exact h
  rw [heq]
  obtain ⟨uid, row, -, hfound, rfl⟩ := GetLink_ok hget
  have hid : edit.link.id ∈ s.links.map LinkRow.id := by
    rw [hplan.id]
    exact List.mem_map_of_mem (liveRow_eq_some hfound).1
  have hids : ∀ selected, (s.updateLinks selected (editRow edit.link now)).links.map LinkRow.id =
      s.links.map LinkRow.id := by
    intro selected
    show (s.links.map _).map LinkRow.id = _
    rw [List.map_map]
    refine List.map_congr_left fun row _ => ?_
    rw [Function.comp_apply]
    split_ifs <;> rfl
  have hrows : TagTables u (s.updateLinks (selects edit.link.id ctx.ownerID)
      (editRow edit.link now)) := h.congr (hids _) rfl
  cases htags : edit.tags with
  | none =>
    refine hrows.congr ?_ ?_
    · rw [editLink_links]
      rfl
    · unfold editLink
      cases edit.rules <;> rfl
  | some tags =>
    obtain ⟨raw, hraw⟩ := hplan.tags_checked tags htags
    refine (hrows.setLinkTags hu ((hids _).symm ▸ hid) hraw).congr ?_ ?_
    · rw [editLink_links]
      rfl
    · unfold editLink
      cases edit.rules <;> rfl

theorem TagTables.importRows (hu : u.Separates) (ctx : Context) (columns : Columns)
    (outside : Nat → RowDraws) (line : Nat) (report : ImportReport) (reads : List Read)
    (h : TagTables u s) :
    TagTables u (importRows u loc svc ctx columns outside line report reads s).2 := by
  induction reads generalizing line report s with
  | nil => exact h
  | cons read reads ih =>
    cases read with
    | failed message => exact ih _ _ h
    | record record =>
      rw [Service.importRows]
      split_ifs
      · exact h
      · exact ih _ _ h
      · dsimp only
        split
        · exact ih _ _ h
        · rename_i req _
          have hcreate : TagTables u (Create u loc svc (outside line).settings ctx req
              (outside line).now (outside line).draws s).2 := h.create hu _ ctx req _ _
          split
          · rename_i hres
            rw [hres] at hcreate
            exact ih _ _ hcreate
          · rename_i hres
            rw [hres] at hcreate
            exact ih _ _ hcreate

theorem TagTables.importCSV (hu : u.Separates) (h : TagTables u s) (ctx : Context)
    (reads : List Read) (outside : Nat → RowDraws) :
    TagTables u (ImportCSV u loc svc ctx reads outside s).2 := by
  unfold ImportCSV
  split
  · exact h
  · exact h
  · split
    · exact h
    · exact h.importRows hu _ _ _ _ _ _

/-- Fewer tag links. -/
theorem TagTables.sublist (h : TagTables u s) (hlinks : t.links.map LinkRow.id = s.links.map LinkRow.id)
    (htags : t.linkTags.Sublist s.linkTags) : TagTables u t where
  ids := hlinks ▸ h.ids
  linked pair hpair := hlinks ▸ h.linked pair (htags.subset hpair)
  key := h.key.sublist htags
  few id := le_trans (htags.countP_le) (h.few id)
  normal pair hpair := h.normal pair (htags.subset hpair)

/-- The pairs that are written for one link are as many as the tags it gets. -/
theorem countP_tagPairs_le {rows : List LinkRow} {tags : List GoString}
    (hrows : (rows.map LinkRow.id).Nodup) (htags : tags.Nodup) (id : Uuid)
    (writes : Uuid × GoString → Bool) :
    ((tagPairs rows tags).filter writes).countP (fun t => t.1 == id) ≤
      tags.countP fun name => writes (id, name) := by
  rw [List.countP_eq_length_filter, List.countP_eq_length_filter, List.filter_filter]
  have hnodup : (((tagPairs rows tags).filter fun t => t.1 == id && writes t).map
      Prod.snd).Nodup := by
    refine ((nodup_tagPairs hrows htags).filter _).map_on fun a ha b hb heq => ?_
    have hid := (Bool.and_eq_true_iff.mp (List.mem_filter.mp ha).2).1
    have hid' := (Bool.and_eq_true_iff.mp (List.mem_filter.mp hb).2).1
    exact Prod.ext ((beq_iff_eq.mp hid).trans (beq_iff_eq.mp hid').symm) heq
  have hsubset : ((tagPairs rows tags).filter fun t => t.1 == id && writes t).map Prod.snd ⊆
      tags.filter fun name => writes (id, name) := by
    intro name hname
    obtain ⟨⟨first, second⟩, hpair, rfl⟩ := List.mem_map.mp hname
    obtain ⟨hmem, hwrites⟩ := List.mem_filter.mp hpair
    rw [Bool.and_eq_true, beq_iff_eq] at hwrites
    obtain ⟨rfl, hwrites⟩ := hwrites
    exact List.mem_filter.mpr ⟨(mem_tagPairs.mp hmem).2, hwrites⟩
  have hle := (List.subperm_of_subset hnodup hsubset).length_le
  rwa [List.length_map] at hle

theorem TagTables.bulk (hu : u.Separates) (h : TagTables u s) (ctx : Context)
    (req : BulkLinkRequest) (now : Instant)
    (hroom : BulkLeavesRoom u loc s (.bulk ctx req now)) :
    TagTables u (Bulk u ctx req now s).2 := by
  obtain ⟨hids, hsame | ⟨ids, tags, add, hnames, hplan, htags⟩⟩ := Bulk_writes u ctx req now s
  · exact h.congr hids hsame
  have hnormal := planBulk_tags hplan
  have hnodup := (NormalizeTags_limits hnormal).1
  unfold BulkTagLinks at htags
  cases huuids : uuidArray ids with
  | error e =>
    rw [huuids] at htags
    exact h.congr hids htags
  | ok uuids =>
    rw [huuids] at htags
    dsimp only at htags
    split_ifs at htags with hfit hadd
    · exact h.congr hids htags
    · subst hadd
      rw [newTagLinks_eq _ hnodup, bulkSelects_requested hnames huuids] at htags
      have hrows : ((matchedLinks ctx req s).map LinkRow.id).Nodup :=
        h.ids.sublist (List.filter_sublist.map LinkRow.id)
      refine ⟨hids ▸ h.ids, fun t ht => ?_, ?_, fun id => ?_, fun t ht => ?_⟩
      · rw [htags] at ht
        rw [hids]
        rcases List.mem_append.mp ht with hold | hnew
        · exact h.linked t hold
        · obtain ⟨⟨row, hrow, hid⟩, -⟩ := mem_tagPairs.mp (List.mem_filter.mp hnew).1
          rw [← hid]
          exact List.mem_map_of_mem (List.mem_filter.mp hrow).1
      · rw [htags]
        refine h.key.append ((nodup_tagPairs hrows hnodup).filter _) ?_
        intro t hold hnew
        have hmissing := (List.mem_filter.mp hnew).2
        rw [writesTag_true, Bool.not_eq_true', List.contains_eq_mem,
          decide_eq_false_iff_not] at hmissing
        exact hmissing hold
      · rw [htags, List.countP_append]
        by_cases hmatched : ∃ row ∈ matchedLinks ctx req s, row.id = id
        · obtain ⟨row, hrow, rfl⟩ := hmatched
          have hleft := hroom ids uuids tags hnames huuids hplan (by simpa using hfit) row hrow
          rw [length_tagsOf] at hleft
          have hnew := countP_tagPairs_le hrows hnodup row.id (writesTag s true)
          rw [matchedLinks] at hnew
          omega
        · have hnone : ((tagPairs (matchedLinks ctx req s) tags).filter (writesTag s true)).countP
              (fun t => t.1 == id) = 0 := by
            refine List.countP_eq_zero.mpr fun t ht heq => hmatched ?_
            obtain ⟨⟨row, hrow, hid⟩, -⟩ := mem_tagPairs.mp (List.mem_filter.mp ht).1
            exact ⟨row, hrow, hid.trans (beq_iff_eq.mp heq)⟩
          rw [matchedLinks] at hnone
          rw [hnone, Nat.add_zero]
          exact h.few id
      · rw [htags] at ht
        rcases List.mem_append.mp ht with hold | hnew
        · exact h.normal t hold
        · exact NormalizeTags_fixed hu hnormal (mem_tagPairs.mp (List.mem_filter.mp hnew).1).2
    · exact h.sublist hids (htags ▸ List.filter_sublist)

/-! ## Runs -/

theorem TagTables.step (hu : u.Separates) (h : TagTables u s) {op : TagOp}
    (hroom : BulkLeavesRoom u loc s op) : TagTables u (op.run u loc svc s) := by
  cases op with
  | create settings ctx req now draws => exact h.create hu settings ctx req now draws
  | importCSV ctx reads outside => exact h.importCSV hu ctx reads outside
  | update settings ctx id req now => exact h.update hu settings ctx id req now
  | bulk ctx req now => exact h.bulk hu ctx req now hroom

/-- Where no bulk edit takes a link over the limit, every link that a run leaves is in it. -/
theorem tags_in_limit (hu : u.Separates) {ops : List TagOp}
    (hroom : (tagMachine u loc svc).Along (BulkLeavesRoom u loc) {} ops)
    (hrun : (tagMachine u loc svc).run {} ops = some t) :
    ∀ row ∈ t.links, TagsInLimit u (t.tagsOf loc row.id) := by
  have htables : TagTables u t := by
    refine Machine.run_invariant_along (tagMachine u loc svc) (I := TagTables u) ?_
      tagTables_empty hroom hrun
    intro v op w hv hop hstep
    obtain rfl := Option.some.inj hstep
    exact hv.step hu hop
  exact fun row _ => htables.inLimit row.id

end

/-! ## A link with twenty tags -/

/-- No alias is drawn. -/
def tagDraws : Fin aliasAttempts → Draw := fun _ => ⟨default, 0, none⟩

/-- A link with the alias `abc` and these tags. -/
def createTagged (tags : List GoString) : TagOp :=
  .create {} {} { destinationURL := lit "http://a.io/", aliasName := lit "abc", tags := tags } 0
    tagDraws

def moreRequest : BulkLinkRequest where
  action := lit "tag"
  ids := [Uuid.toText default]
  tags := [lit "more"]

/-- One more tag for it. -/
def tagMore : TagOp := .bulk {} moreRequest 0

def tagService : LinkService := ⟨lit "http://sho.rt"⟩

/-- The store with the link and one tag. -/
def taggedStore : LinkStore :=
  (createTagged [lit "red"]).run .ascii plainLocale tagService {}

theorem tags_in_limit_two :
    ∃ t, (tagMachine .ascii plainLocale tagService).run {} [createTagged [lit "red"], tagMore] =
        some t ∧
      ∀ row ∈ t.links, TagsInLimit .ascii (t.tagsOf plainLocale row.id) := by
  have hroom : (tagMachine .ascii plainLocale tagService).Along
      (BulkLeavesRoom .ascii plainLocale) {} [createTagged [lit "red"], tagMore] := by
    refine ⟨trivial, fun s hs => ⟨?_, fun _ _ => trivial⟩⟩
    obtain rfl := Option.some.inj hs
    intro ids uuids tags _ _ hplan _ row hrow
    have hedit : planBulk .ascii moreRequest = .ok (.tag [lit "more"] true) := by decide
    rw [hedit] at hplan
    obtain ⟨rfl, -⟩ := BulkEdit.tag.inj (Except.ok.inj hplan)
    have hall : (matchedLinks {} moreRequest taggedStore).all fun row =>
        decide ((taggedStore.tagsOf plainLocale row.id).length + 1 ≤ maxTagsPerLink) := by
      decide
    have hleft := of_decide_eq_true (List.all_eq_true.mp hall row hrow)
    have hone : [lit "more"].countP (fun name => writesTag taggedStore true (row.id, name)) ≤ 1 :=
      List.countP_le_length
    exact le_trans (Nat.add_le_add_left hone _) hleft
  exact ⟨_, rfl, tags_in_limit Unicode.ascii_separates hroom rfl⟩

/-- The letters from `a` to `t`. -/
def twentyTags : List GoString := (List.range 20).map fun n => [UInt8.ofNat (0x61 + n)]

/-- A bulk edit adds a tag to a link that has twenty. -/
theorem twenty_one_tags :
    ¬ ∀ (ops : List TagOp) (t : LinkStore),
      (tagMachine .ascii plainLocale tagService).run {} ops = some t →
        ∀ row ∈ t.links, TagsInLimit .ascii (t.tagsOf plainLocale row.id) := by
  intro hclaim
  have hlinks := hclaim [createTagged twentyTags, tagMore] _ rfl
  have hmany : (tagMore.run .ascii plainLocale tagService ((createTagged twentyTags).run .ascii
      plainLocale tagService {})).links.any fun row =>
        ((tagMore.run .ascii plainLocale tagService ((createTagged twentyTags).run .ascii
          plainLocale tagService {})).tagsOf plainLocale row.id).length == 21 := by
    decide
  obtain ⟨row, hrow, hlength⟩ := List.any_eq_true.mp hmany
  have hfew := (hlinks row hrow).few
  rw [beq_iff_eq.mp hlength] at hfew
  exact absurd hfew (by decide)

end Purels.Properties
