import Purels.Lib.Machine
import Purels.Service.CsvSpecs

/-!
# Importing what was exported

A link that the service has stored, exported as one row of a CSV file and imported where its
alias is free.

* `libraryMachine`: creates, updates and bulk edits under one denylist.
* `Catalogued`: what they leave in the tables, `catalogued_of_run`.
* `Recreates`: the import has made a link with the same content.
* `Portable` and `csv_round_trip_iff`: the links that come back.
-/

namespace Purels.Properties

open Go Security Store LinkStore Service Lib

/-! ## The operations -/

/-- An operation of the link service with the runtime snapshot it reads and whatever it draws
from outside. -/
inductive LibraryOp where
  | create (settings : RuntimeSettingsInput) (ctx : Context) (req : CreateLinkRequest)
      (now : Instant) (draws : Fin aliasAttempts → Draw)
  | update (settings : RuntimeSettingsInput) (ctx : Context) (id : GoString)
      (req : UpdateLinkRequest) (now : Instant)
  | bulk (ctx : Context) (req : BulkLinkRequest) (now : Instant)

/-- The snapshot it reads has this denylist. -/
def LibraryOp.Under (denylist : List GoString) : LibraryOp → Prop
  | .create settings .. | .update settings .. => settings.destinationDenylist = denylist
  | .bulk .. => True

section

variable (u : Unicode) (loc : DatabaseLocale) (svc : LinkService)

/-- The link service, one whole call a step. -/
def libraryMachine : Machine LinkStore LibraryOp where
  step s op := some <|
    match op with
    | .create settings ctx req now draws => (Create u loc svc settings ctx req now draws s).2
    | .update settings ctx id req now => (Update u loc svc settings ctx id req now s).2
    | .bulk ctx req now => (Bulk u ctx req now s).2

/-- Rows and tags are as the service stores them. -/
structure Catalogued (denylist : List GoString) (s : LinkStore) : Prop where
  rows : ∀ row ∈ s.links, RowStored u denylist row
  tags : ∀ t ∈ s.linkTags, TagStored u t.2

/-! ## What comes back -/

/-- A live link has the content of the given one; its tags as a set. -/
def Recreates (s : LinkStore) (link : Link) : Prop :=
  ∃ row ∈ s.links, row.live ∧ row.aliasName = link.aliasName ∧
    row.destinationURL = link.destinationURL ∧ row.title = link.title ∧
    (∀ name, name ∈ s.tagsOf loc row.id ↔ name ∈ link.tags) ∧
    row.redirectCode = link.redirectCode ∧ row.interstitialSeconds = link.interstitialSeconds

/-- What an import can read back and takes: an alias that a caller may choose, a destination
without white space at its end, a title without a carriage return before a newline, and no
more tags than a request may carry; and a destination that is not the link itself. -/
structure Portable (settings : RuntimeSettingsInput) (link : Link) : Prop where
  aliasName : NormalizeAlias u link.aliasName = .ok link.aliasName
  destination : trimSpace link.destinationURL = link.destinationURL
  title : ¬ [0x0D, 0x0A] <:+: link.title
  tags : link.tags.dedup.length ≤ maxTagsPerLink
  elsewhere : isSelfDestination u svc settings link link.destinationURL = false

end

variable {u : Unicode} {loc : DatabaseLocale} {svc : LinkService} {denylist : List GoString}

/-! ## Catalogued values -/

theorem NormalizeTitle_ok {raw title : GoString} (h : NormalizeTitle raw = .ok title) :
    title = trimSpace raw ∧ (runes title).length ≤ maxTitleLength := by
  unfold NormalizeTitle at h
  dsimp only at h
  split_ifs at h with hlong
  obtain rfl := Except.ok.inj h
  exact ⟨rfl, not_lt.mp hlong⟩

/-- A normalized title is left alone. -/
theorem NormalizeTitle_stored {raw title : GoString} (h : NormalizeTitle raw = .ok title) :
    NormalizeTitle title = .ok title := by
  obtain ⟨rfl, hshort⟩ := NormalizeTitle_ok h
  unfold NormalizeTitle
  dsimp only
  rw [trimSpace_trimSpace, if_neg (not_lt.mpr hshort)]

/-- Normalized tags that fit their column are stored tags. -/
theorem tagStored_of_normalized {raw tags : List GoString} (h : NormalizeTags u raw = .ok tags)
    {name : GoString} (hname : name ∈ tags) (hfits : storableTag name) : TagStored u name := by
  obtain ⟨hfolded, hform, hshort⟩ := NormalizeTags_ok h name hname
  exact ⟨hfolded, hform, hshort, hfits⟩

theorem interstitialSeconds_ok {requested : Option Int} {seconds : Int}
    (h : interstitialSeconds requested = .ok seconds) :
    0 ≤ seconds ∧ seconds ≤ MaxInterstitialSeconds := by
  unfold interstitialSeconds at h
  split at h
  · obtain rfl := Except.ok.inj h
    exact ⟨by decide, by decide⟩
  · split_ifs at h with hrange
    obtain rfl := Except.ok.inj h
    omega

theorem storableColumns_iff {link : Link} : storableColumns link ↔
    (storableText link.destinationURL ∧ (runes link.destinationURL).length ≤ 8192) ∧
      (storableText link.title ∧ (runes link.title).length ≤ 255) ∧
      (storableText link.domain ∧ (runes link.domain).length ≤ 255) ∧
      (link.redirectCode = 301 ∨ link.redirectCode = 302) := by
  simp only [storableColumns, Bool.and_eq_true, Bool.or_eq_true, decide_eq_true_eq, beq_iff_eq]
  tauto

/-! ## Aliases -/

/-- Every alias a create takes is made of letters, digits, underscores and hyphens. -/
theorem mayTake_spec {settings : RuntimeSettingsInput} {req : CreateLinkRequest}
    {draws : List Draw} {aliasName : GoString} (h : MayTake settings req draws aliasName) :
    aliasName ≠ [] ∧ ∀ c ∈ aliasName, isAliasByte c := by
  unfold MayTake at h
  split_ifs at h
  · exact aliasPattern_spec h.2
  · obtain ⟨draw, -, t, hnext⟩ := h
    exact nextAlias_spec hnext

/-! ## Each operation stores such values -/

theorem catalogued_empty : Catalogued u denylist {} where
  rows := List.forall_mem_nil _
  tags := List.forall_mem_nil _

theorem Catalogued.sameRows {s t : LinkStore} (h : Catalogued u denylist s) (hst : SameRows s t) :
    Catalogued u denylist t := by
  obtain ⟨n, rfl⟩ := hst
  exact ⟨h.rows, h.tags⟩

/-- The row of a created link. -/
theorem rowStored_new {settings : RuntimeSettingsInput}
    (hdenylist : settings.destinationDenylist = denylist) {req : CreateLinkRequest}
    {checked : CheckedLink} (hchecked : CreateChecked u settings req checked) {aliasName : GoString}
    (halias : aliasName ≠ [] ∧ ∀ c ∈ aliasName, isAliasByte c) {draw : Draw}
    {owner : Option Uuid} {s t : LinkStore}
    (hinsert : s.CreateLink (newLink checked aliasName draw) owner = (.ok (), t)) :
    RowStored u denylist (newRow (newLink checked aliasName draw) owner) := by
  obtain ⟨hcolumns, hfits, hshort, -⟩ := s.CreateLink_fits hinsert
  obtain ⟨hdestination, htitle, -, hcode⟩ := storableColumns_iff.mp hcolumns
  exact {
    alias_ne := halias.1
    alias_bytes := halias.2
    alias_fits := ⟨hfits, hshort⟩
    destination := by
      show checkDestination u denylist checked.destinationURL = .ok ()
      rw [hchecked.destinationURL, ← hdenylist]
      exact hchecked.destination
    destination_fits := hdestination
    title := NormalizeTitle_stored hchecked.title
    title_fits := htitle
    redirectCode := hcode
    delay := interstitialSeconds_ok hchecked.interstitial }

theorem Catalogued.create {s : LinkStore} (h : Catalogued u denylist s)
    {settings : RuntimeSettingsInput}
    (hdenylist : settings.destinationDenylist = denylist) (ctx : Context)
    (req : CreateLinkRequest) (now : Instant) (draws : Fin aliasAttempts → Draw) :
    Catalogued u denylist (Create u loc svc settings ctx req now draws s).2 := by
  rcases Create_cases u loc svc settings ctx req now draws s with
    ⟨e, t, heq, hsame⟩ | ⟨checked, link, heq, -, -⟩ |
    ⟨checked, link, t, heq, hcheck, htake, ⟨draw, hmade⟩, -, v, hsame, hins⟩
  · rw [heq]
    exact h.sameRows hsame
  · rw [heq]
    exact h
  · rw [heq]
    have hv := h.sameRows hsame
    have hchecked := checkCreate_iff.mp hcheck
    obtain ⟨-, -, -, -, htags, -, rfl⟩ := v.CreateLink_fits hins
    rw [hmade] at hins htags ⊢
    refine ⟨fun row hrow => ?_, fun t ht => ?_⟩
    · rw [insertLink_links, List.mem_append, List.mem_singleton] at hrow
      rcases hrow with hold | rfl
      · exact hv.rows row hold
      · exact rowStored_new hdenylist hchecked (mayTake_spec htake) hins
    · rcases v.mem_insertLink_linkTags.mp ht with ⟨hold, -⟩ | ⟨-, hname⟩
      · exact hv.tags t hold
      · exact tagStored_of_normalized hchecked.tags hname (List.all_eq_true.mp htags _ hname)

/-- The row of an edited link. -/
theorem rowStored_edit {settings : RuntimeSettingsInput}
    (hdenylist : settings.destinationDenylist = denylist) {req : UpdateLinkRequest} {link : Link}
    {edit : LinkEdit} (hplan : Plans u svc settings req link edit)
    (hcolumns : storableColumns edit.link) {old row : LinkRow} (hold : RowStored u denylist old)
    (hrow : RowStored u denylist row) (hdestination : link.destinationURL = old.destinationURL)
    (htitle : link.title = old.title)
    (hdelay : link.interstitialSeconds = old.interstitialSeconds) (now : Instant) :
    RowStored u denylist (editRow edit.link now row) := by
  obtain ⟨hdestinationFits, htitleFits, -, hcode⟩ := storableColumns_iff.mp hcolumns
  exact {
    alias_ne := hrow.alias_ne
    alias_bytes := hrow.alias_bytes
    alias_fits := hrow.alias_fits
    destination := by
      show checkDestination u denylist edit.link.destinationURL = .ok ()
      rcases hplan.destination with ⟨-, hsame⟩ | ⟨-, hnew, hcheck, -⟩
      · rw [hsame, hdestination]
        exact hold.destination
      · rw [hnew, ← hdenylist]
        exact hcheck
    destination_fits := hdestinationFits
    title := by
      show NormalizeTitle edit.link.title = .ok edit.link.title
      rcases hplan.title_checked with hsame | ⟨raw, hraw⟩
      · rw [hsame, htitle]
        exact hold.title
      · exact NormalizeTitle_stored hraw
    title_fits := htitleFits
    redirectCode := hcode
    delay := by
      show 0 ≤ edit.link.interstitialSeconds ∧
        edit.link.interstitialSeconds ≤ MaxInterstitialSeconds
      rcases hplan.interstitial_checked with hsame | ⟨requested, hrequested⟩
      · rw [hsame, hdelay]
        exact hold.delay
      · exact interstitialSeconds_ok hrequested }

theorem Catalogued.update {s : LinkStore} (h : Catalogued u denylist s)
    {settings : RuntimeSettingsInput}
    (hdenylist : settings.destinationDenylist = denylist) (ctx : Context) (id : GoString)
    (req : UpdateLinkRequest) (now : Instant) :
    Catalogued u denylist (Update u loc svc settings ctx id req now s).2 := by
  rcases Update_cases u loc svc settings ctx id req now s with
    ⟨e, heq⟩ | ⟨link, edit, hget, -, hplan, hupdate, heq⟩
  · rw [heq]
    exact h
  rw [heq]
  obtain ⟨uid, old, -, hfound, rfl⟩ := GetLink_ok hget
  have hold := h.rows old (liveRow_eq_some hfound).1
  have hfits : storableColumns edit.link ∧ (edit.tags.getD []).all storableTag := by
    rcases s.UpdateLink_cases edit.link edit.tags edit.rules ctx.ownerID now with
      ⟨e, he⟩ | ⟨-, hcolumns, -, htags, -⟩
    · rw [he] at hupdate
      cases (Prod.mk.inj hupdate).1
    · exact ⟨hcolumns, htags⟩
  refine ⟨fun row hrow => ?_, fun t ht => ?_⟩
  · rw [editLink_links] at hrow
    obtain ⟨was, hwas, rfl⟩ := List.mem_map.mp hrow
    split_ifs
    · exact rowStored_edit hdenylist hplan hfits.1 hold (h.rows was hwas) rfl rfl rfl now
    · exact h.rows was hwas
  · rcases s.mem_editLink_linkTags ht with hstay | ⟨new, hnew, hname⟩
    · exact h.tags t hstay
    · obtain ⟨raw, hraw⟩ := hplan.tags_checked new hnew
      have htags := hfits.2
      rw [hnew, Option.getD_some] at htags
      exact tagStored_of_normalized hraw hname (List.all_eq_true.mp htags _ hname)

theorem Catalogued.bulk {s : LinkStore} (h : Catalogued u denylist s) (ctx : Context)
    (req : BulkLinkRequest) (now : Instant) : Catalogued u denylist (Bulk u ctx req now s).2 := by
  refine ⟨?_, fun t ht => ?_⟩
  · rcases Bulk_cases u ctx req now s with
      ⟨res, names, linkTags, heq, -⟩ | ⟨selected, set, hset, heq⟩
    · rw [heq]
      exact h.rows
    · rw [heq]
      intro row hrow
      obtain ⟨was, hwas, rfl⟩ := List.mem_map.mp hrow
      have hcat := h.rows was hwas
      split_ifs
      · have hsets := hset was
        exact {
          alias_ne := hsets.aliasName ▸ hcat.alias_ne
          alias_bytes := hsets.aliasName ▸ hcat.alias_bytes
          alias_fits := hsets.aliasName ▸ hcat.alias_fits
          destination := hsets.destinationURL ▸ hcat.destination
          destination_fits := hsets.destinationURL ▸ hcat.destination_fits
          title := hsets.title ▸ hcat.title
          title_fits := hsets.title ▸ hcat.title_fits
          redirectCode := hsets.redirectCode ▸ hcat.redirectCode
          delay := hsets.interstitialSeconds ▸ hcat.delay }
      · exact hcat
  · rcases Bulk_linkTags u ctx req now s t ht with hold | ⟨raw, tags, hraw, hname, hfits⟩
    · exact h.tags t hold
    · exact tagStored_of_normalized hraw hname hfits

/-- In every run under one denylist, rows and tags are as the service stores them. -/
theorem catalogued_of_run {ops : List LibraryOp} (hops : ∀ op ∈ ops, op.Under denylist)
    {s : LinkStore}
    (hrun : (libraryMachine u loc svc).run {} ops = some s) : Catalogued u denylist s := by
  refine (libraryMachine u loc svc).run_invariant_along (I := Catalogued u denylist) ?_
    catalogued_empty
    ((libraryMachine u loc svc).along_of_mem hops {}) hrun
  intro s op t hs hop hstep
  obtain rfl := Option.some.inj hstep
  cases op with
  | create settings ctx req now draws => exact hs.create hop ctx req now draws
  | update settings ctx id req now => exact hs.update hop ctx id req now
  | bulk ctx req now => exact hs.bulk ctx req now

/-! ## The import -/

section

variable {settings : RuntimeSettingsInput} {row : LinkRow} {tags : List GoString}

/-- A title comes back when no carriage return stands before a newline in it. -/
theorem title_of_trimmed {title : GoString} (h : trimSpace (trimSpace (crlf title)) = title) :
    ¬ [0x0D, 0x0A] <:+: title := by
  rw [trimSpace_trimSpace] at h
  have hinfix := trimSpace_infix (crlf title)
  rw [h] at hinfix
  exact crlf_eq_self_iff.mp ((crlf_sublist title).antisymm hinfix.sublist)

/-- The checked request of a link that comes back. -/
def carriedOver (row : LinkRow) (tags : List GoString) : CheckedLink where
  destinationURL := row.destinationURL
  title := row.title
  tags := tags
  rules := []
  domain := []
  redirectCode := row.redirectCode
  expiresAt := []
  interstitial := row.interstitialSeconds

/-- The request of a portable link passes the checks, with the values of the link. -/
theorem checked_of_portable (hu : u.Separates) (hdenylist : settings.destinationDenylist = denylist)
    (hrow : RowStored u denylist row) (htags : ∀ name ∈ tags, TagStored u name)
    (hdestination : trimSpace row.destinationURL = row.destinationURL)
    (htitle : ¬ [0x0D, 0x0A] <:+: row.title) (hfew : tags.dedup.length ≤ maxTagsPerLink) :
    ∃ kept, (∀ name, name ∈ kept ↔ name ∈ tags) ∧
      CreateChecked u settings (importedRequest row tags) (carriedOver row kept) := by
  obtain ⟨kept, hkept, hsame⟩ : ∃ kept, NormalizeTags u tags = .ok kept ∧
      ∀ name, name ∈ kept ↔ name ∈ tags := by
    rcases NormalizeTags_stored hu htags with ⟨-, hok⟩ | ⟨hmany, -⟩
    · exact hok
    · exact absurd hfew hmany
  have hcrlf : trimSpace (crlf row.title) = row.title := by
    rw [crlf_eq_self_iff.mpr htitle]
    exact (NormalizeTitle_ok hrow.title).1.symm
  refine ⟨kept, hsame, ?_⟩
  exact {
    destination := by
      show checkDestination u settings.destinationDenylist (trimSpace row.destinationURL) = .ok ()
      rw [hdestination, hdenylist]
      exact hrow.destination
    destinationURL := hdestination.symm
    title := by
      show NormalizeTitle (trimSpace (crlf row.title)) = .ok row.title
      rw [hcrlf]
      exact hrow.title
    tags := hkept
    rules := rfl
    domain := rfl
    redirectCode := by
      show row.redirectCode = if row.redirectCode = 0 then 302 else row.redirectCode
      rcases hrow.redirectCode with hcode | hcode <;> rw [hcode] <;> rfl
    redirectCode_allowed := hrow.redirectCode
    expiresAt := rfl
    interstitial := by
      have hrange : ¬ (row.interstitialSeconds < 0 ∨
          row.interstitialSeconds > MaxInterstitialSeconds) := by
        have := hrow.delay
        omega
      show (if row.interstitialSeconds < 0 ∨ row.interstitialSeconds > MaxInterstitialSeconds
        then _ else _) = _
      rw [if_neg hrange]
      rfl }

/-- The import of a portable link is a create that succeeds. -/
theorem recreates_of_portable (hu : u.Separates) {s : LinkStore} (hs : Catalogued u denylist s)
    (hrow : row ∈ s.links) (hdenylist : settings.destinationDenylist = denylist)
    (hquota : settings.maxLinksPerUser ≤ 0) {draws : Fin aliasAttempts → Draw} {target : LinkStore}
    (hfree : ∀ other ∈ target.links, other.aliasName ≠ row.aliasName ∧ other.id ≠ (draws 0).id)
    (h : Portable u svc settings (s.toLink loc row)) (ctx : Context) (now : Instant) :
    Recreates loc (Create u loc svc settings ctx (importedRequest row (s.tagsOf loc row.id)) now
      draws target).2 (s.toLink loc row) := by
  have hcat := hs.rows row hrow
  have htags : ∀ name ∈ s.tagsOf loc row.id, TagStored u name := fun name hname =>
    hs.tags _ (s.mem_tagsOf.mp hname)
  obtain ⟨kept, hsame, hchecked⟩ :=
    checked_of_portable hu hdenylist hcat htags h.destination h.title h.tags
  have hquota' : checkQuota settings ctx target = .ok () := by
    unfold checkQuota
    split
    · rw [if_pos (.inl hquota)]
    · rfl
  have hguard : rejectSelf u svc settings
      (newLink (carriedOver row kept) row.aliasName (draws 0)) = .ok () := by
    have hother : isSelfDestination u svc settings
        (newLink (carriedOver row kept) row.aliasName (draws 0)) row.destinationURL = false :=
      (isSelfDestination_congr rfl row.destinationURL).trans h.elsewhere
    unfold rejectSelf
    rw [if_neg (by rw [Bool.not_eq_true]; exact hother), if_neg (by exact Bool.false_ne_true)]
  have hinsert : target.CreateLink (newLink (carriedOver row kept) row.aliasName (draws 0))
      ctx.actorID = (.ok (), target.insertLink
        (newLink (carriedOver row kept) row.aliasName (draws 0)) ctx.actorID) :=
    target.CreateLink_ok
      (storableColumns_iff.mpr ⟨hcat.destination_fits, hcat.title_fits,
        ⟨rfl, Nat.zero_le _⟩, hcat.redirectCode⟩)
      hcat.alias_fits hfree
      (List.all_eq_true.mpr fun name hname => (htags name ((hsame name).mp hname)).storable) rfl
  rw [Create_named_ok hcat.alias_ne hchecked h.aliasName hquota' hguard hinsert]
  refine ⟨newRow (newLink (carriedOver row kept) row.aliasName (draws 0)) ctx.actorID, ?_, rfl, rfl,
    rfl, rfl, fun name => ?_, rfl, rfl⟩
  · rw [insertLink_links]
    exact List.mem_append_right _ List.mem_cons_self
  · exact (target.mem_tagsOf_insertLink).trans (hsame name)

/-- A link that the import has made anew is portable. -/
theorem portable_of_recreates (hu : u.Separates) {s : LinkStore} (hs : Catalogued u denylist s)
    (hrow : row ∈ s.links) {draws : Fin aliasAttempts → Draw} {target : LinkStore}
    (hfree : ∀ other ∈ target.links, other.aliasName ≠ row.aliasName ∧ other.id ≠ (draws 0).id)
    {ctx : Context} {now : Instant}
    (h : Recreates loc (Create u loc svc settings ctx (importedRequest row (s.tagsOf loc row.id)) now
      draws target).2 (s.toLink loc row)) :
    Portable u svc settings (s.toLink loc row) := by
  have hcat := hs.rows row hrow
  have htags : ∀ name ∈ s.tagsOf loc row.id, TagStored u name := fun name hname =>
    hs.tags _ (s.mem_tagsOf.mp hname)
  obtain ⟨made, hmade, -, halias, hdestination, htitle, -, -, -⟩ := h
  have hnamed : (importedRequest row (s.tagsOf loc row.id)).aliasName ≠ [] := hcat.alias_ne
  rcases Create_named_cases u loc svc settings ctx now draws target hnamed with
    ⟨e, heq⟩ | ⟨checked, hchecked, hnormal, hguard, heq⟩
  · rw [heq] at hmade
    exact absurd halias (hfree made hmade).1
  · rw [heq, insertLink_links] at hmade
    rcases List.mem_append.mp hmade with hold | hnew
    · exact absurd halias (hfree made hold).1
    obtain rfl := List.mem_singleton.mp hnew
    have hurl : trimSpace row.destinationURL = row.destinationURL :=
      hchecked.destinationURL.symm.trans hdestination
    have htrimmed : checked.title = trimSpace (trimSpace (crlf row.title)) :=
      (NormalizeTitle_ok hchecked.title).1
    have hself := (rejectSelf_ok hguard).1
    exact {
      aliasName := hnormal
      destination := hurl
      title := title_of_trimmed (htrimmed.symm.trans htitle)
      tags := by
        rcases NormalizeTags_stored hu htags with ⟨hfew, -⟩ | ⟨-, e, herror⟩
        · exact hfew
        · have hok : NormalizeTags u (s.tagsOf loc row.id) = .ok checked.tags := hchecked.tags
          rw [herror] at hok
          cases hok
      elsewhere := by
        have hsame : isSelfDestination u svc settings (s.toLink loc row) checked.destinationURL =
            false := (isSelfDestination_congr rfl _).trans hself
        exact hdestination ▸ hsame }

end

/-- Every exported record is the row of a live link. -/
theorem row_of_exported {s : LinkStore} {settings : RuntimeSettingsInput} {ctx : Context}
    {filter : ListFilter} {now : Instant} {records : List (List GoString)}
    (h : ExportCSV loc settings ctx filter now s = .ok (exportHeader :: records))
    {record : List GoString} (hrecord : record ∈ records) :
    ∃ row ∈ s.links, row.live ∧ record = exportCells row (s.tagsOf loc row.id) := by
  unfold ExportCSV ExportLinks at h
  split at h
  · cases h
  rename_i ranks hranks
  split_ifs at hranks
  obtain rfl := Except.ok.inj hranks
  obtain rfl := (List.cons.inj (Except.ok.inj h)).2
  obtain ⟨rank, hrank, rfl⟩ := List.mem_map.mp hrecord
  obtain ⟨entry, hentry, rfl⟩ := List.mem_map.mp hrank
  have hfound := List.mem_of_mem_take hentry
  rw [filteredLinks, List.mem_insertionSort] at hfound
  obtain ⟨row, hrow, rfl⟩ := List.mem_map.mp hfound
  obtain ⟨hmem, hvisible⟩ := List.mem_filter.mp (List.mem_filter.mp hrow).1
  exact ⟨row, hmem, (Bool.and_eq_true_iff.mp hvisible).1, rfl⟩

/-- A stored link, exported and imported where its alias is free, is created again with the same
content exactly when it is portable. -/
theorem csv_round_trip_iff (hu : u.Separates) {ops : List LibraryOp}
    (hops : ∀ op ∈ ops, op.Under denylist) {s : LinkStore}
    (hrun : (libraryMachine u loc svc).run {} ops = some s) {exporter : Context}
    {settings : RuntimeSettingsInput} {filter : ListFilter} {now : Instant}
    {records : List (List GoString)}
    (hexport : ExportCSV loc settings exporter filter now s = .ok (exportHeader :: records))
    (importer : Context) (outside : Nat → RowDraws)
    (hdenylist : (outside 1).settings.destinationDenylist = denylist)
    (hquota : (outside 1).settings.maxLinksPerUser ≤ 0) {record : List GoString}
    (hrecord : record ∈ records) :
    ∃ row ∈ s.links, row.live ∧ record = exportCells row (s.tagsOf loc row.id) ∧
      ∀ target : LinkStore, (∀ other ∈ target.links,
          other.aliasName ≠ row.aliasName ∧ other.id ≠ ((outside 1).draws 0).id) →
        (Recreates loc (ImportCSV u loc svc importer (readText (exportText [exportHeader, record]))
            outside target).2 (s.toLink loc row) ↔
          Portable u svc (outside 1).settings (s.toLink loc row)) := by
  have hcat : Catalogued u denylist s := catalogued_of_run hops hrun
  obtain ⟨row, hrow, hlive, rfl⟩ := row_of_exported hexport hrecord
  refine ⟨row, hrow, hlive, rfl, fun target hfree => ?_⟩
  rw [ImportCSV_exportText hu (hcat.rows row hrow) fun name hname =>
    hcat.tags _ (s.mem_tagsOf.mp hname)]
  exact ⟨portable_of_recreates hu hcat hrow hfree,
    fun h => recreates_of_portable hu hcat hrow hdenylist hquota hfree h importer _⟩

/-! ## Two links to `a.io` -/

/-- What a create draws when it draws nothing. -/
def undrawn : Fin aliasAttempts → Draw := fun _ => ⟨default, 0, none⟩

/-- A create of a link to `a.io` with a title. -/
def titledCreate : LibraryOp :=
  .create {} {} { destinationURL := lit "http://a.io/", aliasName := lit "abc", title := lit "a, \"b\"" }
    0 undrawn

/-- The row of that link. -/
def titledRow : LinkRow where
  id := default
  aliasName := lit "abc"
  destinationURL := lit "http://a.io/"
  title := lit "a, \"b\""

/-- A title with a comma and quotes comes back. -/
theorem csv_round_trip_titled :
    ∃ row, Recreates plainLocale (ImportCSV .ascii plainLocale ⟨lit "http://sho.rt"⟩ {}
      (readText (exportText [exportHeader, exportCells titledRow []])) (fun _ => ⟨{}, 0, undrawn⟩)
      {}).2 (({ links := [titledRow] } : LinkStore).toLink plainLocale row) := by
  have hrun : (libraryMachine .ascii plainLocale ⟨lit "http://sho.rt"⟩).run {} [titledCreate] =
      some { links := [titledRow] } := by
    decide
  have hexport : ExportCSV plainLocale {} {} {} 0 { links := [titledRow] } =
      .ok (exportHeader :: [exportCells titledRow []]) := by
    decide
  have hops : ∀ op ∈ [titledCreate], op.Under [] := by
    intro op hop
    rw [List.mem_singleton.mp hop]
    rfl
  obtain ⟨row, hrow, -, -, hiff⟩ := csv_round_trip_iff Unicode.ascii_separates hops hrun hexport {}
    (fun _ => ⟨{}, 0, undrawn⟩) rfl (by decide) List.mem_cons_self
  obtain rfl := List.mem_singleton.mp hrow
  refine ⟨titledRow, (hiff {} (List.forall_mem_nil _)).mpr ?_⟩
  exact ⟨by decide, by decide, by decide, by decide, by decide⟩

/-- The first link of a deployment that counts its aliases. -/
def firstRow : LinkRow where
  id := default
  aliasName := lit "1"
  destinationURL := lit "http://a.io/"

/-- Its alias is too short to be imported. -/
theorem first_alias_lost :
    ¬ ∀ (ops : List LibraryOp) (s : LinkStore),
      (libraryMachine .ascii plainLocale ⟨lit "http://sho.rt"⟩).run {} ops = some s →
      ∀ row ∈ s.links, row.live →
        Recreates plainLocale (ImportCSV .ascii plainLocale ⟨lit "http://sho.rt"⟩ {}
          (readText (exportText [exportHeader, exportCells row (s.tagsOf plainLocale row.id)]))
          (fun _ => ⟨{}, 0, undrawn⟩) {}).2 (s.toLink plainLocale row) := by
  intro hclaim
  have hrun : (libraryMachine .ascii plainLocale ⟨lit "http://sho.rt"⟩).run {}
      [.create { aliasMode := lit "sequential" } {} { destinationURL := lit "http://a.io/" } 0
        undrawn] = some { links := [firstRow], aliasSeq := 2 } := by
    decide
  obtain ⟨row, hrow, -⟩ := hclaim _ _ hrun firstRow List.mem_cons_self rfl
  have hnone : (ImportCSV .ascii plainLocale ⟨lit "http://sho.rt"⟩ {}
      (readText (exportText [exportHeader, exportCells firstRow []]))
      (fun _ => ⟨{}, 0, undrawn⟩) {}).2.links = [] := by
    decide
  exact absurd (hnone ▸ hrow) List.not_mem_nil

end Purels.Properties
