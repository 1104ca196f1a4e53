import Purels.Properties.LinkSteps

/-!
# Updates beside other edits

An update reads its link, applies the request and writes every column back.

* `LinkState` and `Columns`: the rows of one link, and what an edit can write.
* `Keeps`: the columns a request does not name are as they were.
* `Overwrites`: an update has loaded the link before another edit wrote it, and
  will write a column of that edit back to what it has loaded.
* `update_keeps_iff`, for every run, and `bulk_disable_lost`, a run in which a new
  title enables a link that a bulk edit has just disabled.
-/

namespace Purels.Properties

open Go Store LinkStore Service Lib

/-! ## The columns of a link -/

/-- The rows of a link in the three tables an edit writes. -/
structure LinkState where
  rows : List LinkRow
  tags : List (Uuid × GoString)
  rules : List RuleRow
  deriving DecidableEq

def linkState (s : LinkStore) (id : Uuid) : LinkState where
  rows := s.links.filter (·.id == id)
  tags := s.linkTags.filter (·.1 == id)
  rules := s.rules.filter (·.linkID == id)

/-- The columns an update can write. -/
structure Columns where
  destinationURL : GoString
  title : GoString
  redirectCode : Int
  status : LinkStatus
  expiresAt : Option Instant
  domain : Option GoString
  interstitialSeconds : Int
  tags : List (Uuid × GoString)
  rules : List RuleRow
  deriving DecidableEq

def columnsOf (state : LinkState) (row : LinkRow) : Columns where
  destinationURL := row.destinationURL
  title := row.title
  redirectCode := row.redirectCode
  status := row.status
  expiresAt := row.expiresAt
  domain := row.domain
  interstitialSeconds := row.interstitialSeconds
  tags := state.tags
  rules := state.rules

/-- The columns that the request does not name are the same. -/
structure Keeps (req : UpdateLinkRequest) (c c' : Columns) : Prop where
  destinationURL : req.destinationURL = [] → c'.destinationURL = c.destinationURL
  title : req.title = none → c'.title = c.title
  redirectCode : req.redirectCode = 0 → c'.redirectCode = c.redirectCode
  status : req.status = [] → c'.status = c.status
  expiresAt : req.expiresAt = none → c'.expiresAt = c.expiresAt
  domain : req.domain = none → c'.domain = c.domain
  interstitialSeconds : req.interstitialSeconds = none →
    c'.interstitialSeconds = c.interstitialSeconds
  tags : req.tags = none → c'.tags = c.tags
  rules : req.rules = none → c'.rules = c.rules

/-- The link is there afterwards, with those columns. -/
def Kept (req : UpdateLinkRequest) (before after : LinkState) : Prop :=
  ∀ row ∈ before.rows, ∃ row' ∈ after.rows,
    Keeps req (columnsOf before row) (columnsOf after row')

section

variable (u : Unicode) (loc : DatabaseLocale) (svc : LinkService) (localOffset : Instant → Int)

/-- The request passes the checks of an update of the link, and the database takes
its values. -/
def Passes (settings : RuntimeSettingsInput) (req : UpdateLinkRequest) (link : Link) : Prop :=
  ∃ edit, planUpdate u svc settings req link = .ok edit ∧ storableColumns edit.link ∧
    (edit.tags.getD []).all storableTag ∧ (edit.rules.getD []).all storableRule

/-- The call holds a link that differs from its row in a column the request does
not name, and will write that column back. -/
def Overwrites (s : LinkStore) : Call → Prop
  | .updateLoaded settings ctx _ req link =>
    Passes u svc settings req link ∧ ∃ row ∈ s.links, selects link.id ctx.ownerID row ∧
      ¬ Keeps req (columnsOf (linkState s link.id) row)
        (columnsOf (linkState s link.id) (editRow link 0 row))
  | _ => False

/-- The call is an update of the link by the request. -/
def Updating (req : UpdateLinkRequest) (id : Uuid) : Call → Prop
  | .update _ _ text named => named = req ∧ uuidParam text = .ok id
  | .updateLoaded _ _ _ named link => named = req ∧ link.id = id
  | .updateWritten _ text => uuidParam text = .ok id
  | .updateCache link => link.id = id
  | _ => False

/-- A step of a process other than `i` is not an edit of the link. -/
def OthersLeave (i : ℕ) (id : Uuid) (s : Pool World Call) (a : ℕ × Action) : Prop :=
  a.1 ≠ i → ∀ t, (linkCalls u loc svc localOffset).machine.step s a = some t →
    linkState t.shared.store id = linkState s.shared.store id

variable {u loc svc localOffset}

/-! ## What an update writes -/

theorem mem_linkState {s : LinkStore} {id : Uuid} {row : LinkRow} :
    row ∈ (linkState s id).rows ↔ row ∈ s.links ∧ row.id = id := by
  simp [linkState]

/-- Writing back what was loaded from the row itself changes nothing. -/
theorem editRow_toLink {s : LinkStore} {row : LinkRow} (h : Stored row) (state : LinkState) :
    columnsOf state (editRow (s.toLink loc row) 0 row) = columnsOf state row := by
  obtain ⟨hexpiry, hdomain⟩ := h
  have hwritten : (editRow (s.toLink loc row) 0 row).domain = row.domain := by
    cases hrow : row.domain with
    | none => simp [editRow, toLink, hrow]
    | some domain =>
      have hne : domain ≠ [] := fun hnil => hdomain (by rw [hrow, hnil])
      simp [editRow, toLink, hrow, hne]
  simp only [columnsOf, hwritten]
  simp only [editRow, toLink, hexpiry]

/-- Replacing the tags of a link replaces its rows of the join table. -/
theorem linkState_editLink_tags {s : LinkStore} {link : Link} {rules : Option (List LinkRule)}
    {owner : Option Uuid} {now : Instant} :
    (linkState (s.editLink link none rules owner now) link.id).tags =
      (linkState s link.id).tags := by
  cases rules <;> rfl

theorem linkState_editLink_rules {s : LinkStore} {link : Link} {tags : Option (List GoString)}
    {owner : Option Uuid} {now : Instant} :
    (linkState (s.editLink link tags none owner now) link.id).rules =
      (linkState s link.id).rules := by
  cases tags <;> rfl

/-- Outside the request, what an edit writes is what the link was loaded with. -/
theorem keeps_edit_iff (s : LinkStore) (row : LinkRow) (owner : Option Uuid) (now : Instant)
    {settings : RuntimeSettingsInput} {req : UpdateLinkRequest} {link : Link} {edit : LinkEdit}
    (hplan : planUpdate u svc settings req link = .ok edit) :
    Keeps req (columnsOf (linkState s link.id) row)
      (columnsOf (linkState (s.editLink edit.link edit.tags edit.rules owner now) link.id)
        (editRow edit.link now row)) ↔
    Keeps req (columnsOf (linkState s link.id) row)
      (columnsOf (linkState s link.id) (editRow link 0 row)) := by
  have hedit := planUpdate_ok hplan
  have htags : req.tags = none →
      (linkState (s.editLink edit.link edit.tags edit.rules owner now) link.id).tags =
        (linkState s link.id).tags := by
    intro hnone
    rw [hedit.tags hnone, ← hedit.id]
    exact linkState_editLink_tags
  have hrules : req.rules = none →
      (linkState (s.editLink edit.link edit.tags edit.rules owner now) link.id).rules =
        (linkState s link.id).rules := by
    intro hnone
    rcases hedit.rules with ⟨-, hsame⟩ | ⟨raw, rules, hsome, -⟩
    · rw [hsame, ← hedit.id]
      exact linkState_editLink_rules
    · simp [hsome] at hnone
  have hdestination : req.destinationURL = [] → edit.link.destinationURL = link.destinationURL := by
    intro hnil
    rcases hedit.destination with ⟨-, hsame⟩ | ⟨hne, -⟩
    · exact hsame
    · exact absurd hnil hne
  constructor
  · intro h
    exact {
      destinationURL := fun hnil => (hdestination hnil).symm.trans (h.destinationURL hnil)
      title := fun hnone => (hedit.title hnone).symm.trans (h.title hnone)
      redirectCode := fun hzero => (hedit.redirectCode hzero).symm.trans (h.redirectCode hzero)
      status := fun hnil => (hedit.status hnil).symm.trans (h.status hnil)
      expiresAt := fun hnone => by
        have := h.expiresAt hnone
        simpa only [columnsOf, editRow, hedit.expiresAt hnone] using this
      domain := fun hnone => by
        have := h.domain hnone
        simpa only [columnsOf, editRow, hedit.domain hnone] using this
      interstitialSeconds := fun hnone =>
        (hedit.interstitial hnone).symm.trans (h.interstitialSeconds hnone)
      tags := fun _ => rfl
      rules := fun _ => rfl }
  · intro h
    exact {
      destinationURL := fun hnil => (hdestination hnil).trans (h.destinationURL hnil)
      title := fun hnone => (hedit.title hnone).trans (h.title hnone)
      redirectCode := fun hzero => (hedit.redirectCode hzero).trans (h.redirectCode hzero)
      status := fun hnil => (hedit.status hnil).trans (h.status hnil)
      expiresAt := fun hnone => by
        have := h.expiresAt hnone
        simpa only [columnsOf, editRow, hedit.expiresAt hnone] using this
      domain := fun hnone => by
        have := h.domain hnone
        simpa only [columnsOf, editRow, hedit.domain hnone] using this
      interstitialSeconds := fun hnone =>
        (hedit.interstitial hnone).trans (h.interstitialSeconds hnone)
      tags := htags
      rules := hrules }

/-- Whether a call overwrites depends on the rows of its link. -/
theorem overwrites_congr {s s' : LinkStore} {settings : RuntimeSettingsInput} {ctx : Context}
    {text : GoString} {req : UpdateLinkRequest} {link : Link}
    (h : linkState s' link.id = linkState s link.id) :
    Overwrites u svc s' (.updateLoaded settings ctx text req link) ↔
      Overwrites u svc s (.updateLoaded settings ctx text req link) := by
  have hrow : ∀ row, selects link.id ctx.ownerID row → (row ∈ s'.links ↔ row ∈ s.links) := by
    intro row hselects
    have hid : row.id = link.id := by
      simp only [selects, Bool.and_eq_true, beq_iff_eq] at hselects
      exact hselects.1.1
    have hiff : row ∈ (linkState s' link.id).rows ↔ row ∈ s'.links ∧ row.id = link.id :=
      mem_linkState
    rw [h, mem_linkState] at hiff
    tauto
  simp only [Overwrites, h]
  refine and_congr_right fun _ => exists_congr fun row => ?_
  constructor
  · rintro ⟨hmem, hselects, hnot⟩
    exact ⟨(hrow row hselects).1 hmem, hselects, hnot⟩
  · rintro ⟨hmem, hselects, hnot⟩
    exact ⟨(hrow row hselects).2 hmem, hselects, hnot⟩

/-- The write of an update keeps the other columns, unless it overwrites. -/
theorem kept_edit_iff {s : LinkStore} (hkeyed : s.Keyed) {settings : RuntimeSettingsInput}
    {ctx : Context} {text : GoString} {req : UpdateLinkRequest} {link : Link} {edit : LinkEdit}
    (hplan : planUpdate u svc settings req link = .ok edit) {row : LinkRow} {now : Instant}
    (hpasses : Passes u svc settings req link) (hrow : row ∈ s.links)
    (hselects : selects link.id ctx.ownerID row) :
    Kept req (linkState s link.id)
        (linkState (s.editLink edit.link edit.tags edit.rules ctx.ownerID now) link.id) ↔
      ¬ Overwrites u svc s (.updateLoaded settings ctx text req link) := by
  have hid : row.id = link.id := by
    simp only [selects, Bool.and_eq_true, beq_iff_eq] at hselects
    exact hselects.1.1
  have hedited : edit.link.id = link.id := (planUpdate_ok hplan).id
  have honly : ∀ other ∈ s.links, other.id = link.id → other = row :=
    fun other hother hotherID => hkeyed.eq_of_id hother hrow (hotherID.trans hid.symm)
  -- After the write the link has one row, the edited one.
  have hafter : ∀ row', row' ∈ (linkState (s.editLink edit.link edit.tags edit.rules ctx.ownerID
      now) link.id).rows ↔ row' = editRow edit.link now row := by
    intro row'
    rw [mem_linkState, editLink_links, List.mem_map, hedited]
    constructor
    · rintro ⟨⟨other, hother, rfl⟩, hotherID⟩
      have heq : other = row := by
        refine honly other hother ?_
        split_ifs at hotherID <;> exact hotherID
      rw [heq, if_pos hselects]
    · rintro rfl
      exact ⟨⟨row, hrow, by rw [if_pos hselects]⟩, hid⟩
  have hkeeps := keeps_edit_iff s row ctx.ownerID now hplan
  constructor
  · rintro hkept ⟨-, other, hother, hotherSelects, hnot⟩
    have heq : other = row := by
      simp only [selects, Bool.and_eq_true, beq_iff_eq] at hotherSelects
      exact honly other hother hotherSelects.1.1
    obtain ⟨row', hrow', hkeep⟩ := hkept row (mem_linkState.2 ⟨hrow, hid⟩)
    rw [(hafter row').1 hrow'] at hkeep
    exact hnot (heq ▸ hkeeps.1 hkeep)
  · intro hnot other hother
    obtain ⟨hmem, hotherID⟩ := mem_linkState.1 hother
    rw [honly other hmem hotherID]
    refine ⟨_, (hafter _).2 rfl, hkeeps.2 ?_⟩
    by_contra hkeep
    exact hnot ⟨hpasses, row, hrow, hselects, hkeep⟩

/-! ## Runs -/

/-- An update that passes its checks, and finds its row, writes it. -/
theorem updateLoadedStep_passes {settings : RuntimeSettingsInput} {ctx : Context} (text : GoString)
    {req : UpdateLinkRequest} {link : Link} {w : World} (now : Instant)
    (hpasses : Passes u svc settings req link)
    (hany : w.store.links.any (selects link.id ctx.ownerID)) :
    ∃ edit, planUpdate u svc settings req link = .ok edit ∧
      updateLoadedStep u svc settings ctx text req link now w =
        ({ w with store := w.store.editLink edit.link edit.tags edit.rules ctx.ownerID now },
          .updateWritten ctx text) := by
  obtain ⟨edit, hplan, hcolumns, htags, hrules⟩ := hpasses
  refine ⟨edit, hplan, ?_⟩
  have hwrite : w.store.UpdateLink edit.link edit.tags edit.rules ctx.ownerID now =
      (.ok (), w.store.editLink edit.link edit.tags edit.rules ctx.ownerID now) := by
    rw [← (planUpdate_ok hplan).id] at hany
    simp [UpdateLink, hcolumns, hany, htags, hrules]
  simp [updateLoadedStep, hplan, hwrite]

/-- An update that was written has passed its checks. -/
theorem passes_of_updateLoadedStep (u : Unicode) (svc : LinkService)
    (settings : RuntimeSettingsInput) (ctx : Context) (text : GoString) (req : UpdateLinkRequest)
    (link : Link) (now : Instant) (w : World) :
    (∃ e, updateLoadedStep u svc settings ctx text req link now w =
      (w, .done (.updated (.error e)))) ∨
    Passes u svc settings req link ∧ w.store.links.any (selects link.id ctx.ownerID) := by
  unfold updateLoadedStep
  split
  · exact .inl ⟨_, rfl⟩
  · rename_i edit hplan
    rcases w.store.UpdateLink_cases edit.link edit.tags edit.rules ctx.ownerID now with
      ⟨e, he⟩ | ⟨-, hcolumns, hany, htags, hrules⟩
    · rw [he]
      exact .inl ⟨e, rfl⟩
    · rw [(planUpdate_ok hplan).id] at hany
      exact .inr ⟨⟨edit, hplan, hcolumns, htags, hrules⟩, hany⟩

/-- How far an update of the link has come, since a state in which the link was as in
`before` and in which the update was bound to overwrite it or not. -/
def Progress (u : Unicode) (svc : LinkService) (req : UpdateLinkRequest) (id : Uuid)
    (before : LinkState) (overwrites : Prop) (s : LinkStore) : Call → Prop
  | .update _ _ text named => named = req ∧ uuidParam text = .ok id ∧ ¬ overwrites ∧
      linkState s id = before
  | .updateLoaded settings ctx text named link => named = req ∧ link.id = id ∧
      (Overwrites u svc s (.updateLoaded settings ctx text named link) ↔ overwrites) ∧
      linkState s id = before
  | .updateWritten ctx text => uuidParam text = .ok id ∧
      (Kept req before (linkState s id) ↔ ¬ overwrites) ∧
      (overwrites → ∃ row ∈ (linkState s id).rows, selects id ctx.ownerID row)
  | .updateCache _ | .done (.updated (.ok _)) => Kept req before (linkState s id) ↔ ¬ overwrites
  | .done (.updated (.error _)) => ¬ overwrites
  | _ => False

theorem Kept.refl (req : UpdateLinkRequest) (state : LinkState) : Kept req state state := by
  intro row hrow
  exact ⟨row, hrow, ⟨fun _ => rfl, fun _ => rfl, fun _ => rfl, fun _ => rfl, fun _ => rfl,
    fun _ => rfl, fun _ => rfl, fun _ => rfl, fun _ => rfl⟩⟩

section

variable {req : UpdateLinkRequest} {id : Uuid} {before : LinkState} {overwrites : Prop}
  {s s' : LinkStore} {call : Call}

/-- The update begins anywhere in its call. -/
theorem progress_start (h : Updating req id call) :
    Progress u svc req id (linkState s id) (Overwrites u svc s call) s call := by
  have hkept : Kept req (linkState s id) (linkState s id) := Kept.refl req _
  cases call with
  | update settings ctx text named => exact ⟨h.1, h.2, not_false, rfl⟩
  | updateLoaded settings ctx text named link => exact ⟨h.1, h.2, Iff.rfl, rfl⟩
  | updateWritten ctx text => exact ⟨h, iff_of_true hkept not_false, False.elim⟩
  | updateCache link => exact iff_of_true hkept not_false
  | _ => exact h.elim

/-- A step that leaves the link alone. -/
theorem progress_still (h : Progress u svc req id before overwrites s call)
    (hstate : linkState s' id = linkState s id) :
    Progress u svc req id before overwrites s' call := by
  cases call with
  | update settings ctx text named => exact ⟨h.1, h.2.1, h.2.2.1, hstate.trans h.2.2.2⟩
  | updateLoaded settings ctx text named link =>
    obtain ⟨hreq, rfl, hiff, hsame⟩ := h
    exact ⟨hreq, rfl, (overwrites_congr hstate).trans hiff, hstate.trans hsame⟩
  | updateWritten ctx text =>
    obtain ⟨htext, hkept, hrow⟩ := h
    rw [← hstate] at hkept hrow
    exact ⟨htext, hkept, hrow⟩
  | updateCache link =>
    rw [Progress, ← hstate] at h
    exact h
  | done result =>
    cases result with
    | updated res =>
      cases res with
      | ok link =>
        rw [Progress, ← hstate] at h
        exact h
      | error e => exact h
    | _ => exact h
  | _ => exact h

/-- The update reads its link.  Writing that back at once would change nothing. -/
theorem progress_read (hkeyed : s.Keyed) (hstored : ∀ row ∈ s.links, Stored row)
    {settings : RuntimeSettingsInput} {ctx : Context} {text : GoString} {w : World}
    (hw : w.store = s)
    (h : Progress u svc req id before overwrites s (.update settings ctx text req)) :
    Progress u svc req id before overwrites s (updateStep loc settings ctx text req w) := by
  obtain ⟨-, htext, hnot, hsame⟩ := h
  subst hw
  cases hget : w.store.GetLink loc text ctx.ownerID with
  | error e =>
    simp only [updateStep, hget]
    exact hnot
  | ok link =>
    simp only [updateStep, hget]
    obtain ⟨uid, row, huid, hrow, rfl⟩ := GetLink_ok hget
    obtain rfl : uid = id := by simpa [htext, eq_comm] using huid
    obtain ⟨hmem, hselects⟩ := liveRow_eq_some hrow
    have hid : row.id = uid := by
      simp only [selects, Bool.and_eq_true, beq_iff_eq] at hselects
      exact hselects.1.1
    refine ⟨rfl, hid, iff_of_false ?_ hnot, hsame⟩
    rintro ⟨-, other, hother, hotherSelects, hloses⟩
    obtain rfl : other = row := by
      simp only [selects, Bool.and_eq_true, beq_iff_eq] at hotherSelects
      exact hkeyed.eq_of_id hother hmem hotherSelects.1.1
    rw [editRow_toLink (hstored other hother)] at hloses
    exact hloses ⟨fun _ => rfl, fun _ => rfl, fun _ => rfl, fun _ => rfl, fun _ => rfl,
      fun _ => rfl, fun _ => rfl, fun _ => rfl, fun _ => rfl⟩

/-- The update writes its row, or ends in an error. -/
theorem progress_write {settings : RuntimeSettingsInput} {ctx : Context} {text : GoString}
    {link : Link} {w : World} (hkeyed : w.store.Keyed) (now : Instant)
    (hlocated : Located w.store (.updateLoaded settings ctx text req link))
    (h : Progress u svc req id before overwrites w.store
      (.updateLoaded settings ctx text req link)) :
    Progress u svc req id before overwrites
      (updateLoadedStep u svc settings ctx text req link now w).1.store
      (updateLoadedStep u svc settings ctx text req link now w).2 := by
  obtain ⟨-, rfl, hiff, hsame⟩ := h
  by_cases hpasses : Passes u svc settings req link ∧
      w.store.links.any (selects link.id ctx.ownerID)
  · obtain ⟨edit, hplan, heq⟩ := updateLoadedStep_passes text now hpasses.1 hpasses.2
    rw [heq]
    obtain ⟨row, hrow, hselects⟩ := List.any_eq_true.mp hpasses.2
    obtain ⟨located, hlocatedRow, huid, hlocatedID, -⟩ := hlocated
    have hedited : edit.link.id = link.id := (planUpdate_ok hplan).id
    refine ⟨hlocatedID ▸ huid, ?_, fun _ => ⟨editRow edit.link now row, ?_, hselects⟩⟩
    · rw [← hsame, ← hiff]
      exact kept_edit_iff hkeyed hplan hpasses.1 hrow hselects
    · rw [mem_linkState, editLink_links]
      refine ⟨List.mem_map.mpr ⟨row, hrow, ?_⟩, ?_⟩
      · rw [hedited, if_pos hselects]
      · simp only [selects, Bool.and_eq_true, beq_iff_eq] at hselects
        exact hselects.1.1
  · rcases passes_of_updateLoadedStep u svc settings ctx text req link now w with
      ⟨e, heq⟩ | hboth
    · rw [heq]
      intro hover
      obtain ⟨hpass, row, hrow, hselects, -⟩ := hiff.2 hover
      exact hpasses ⟨hpass, List.any_eq_true.mpr ⟨row, hrow, hselects⟩⟩
    · exact absurd hboth hpasses

end

/-- The update takes its next step. -/
theorem progress_next {i : ℕ} {req : UpdateLinkRequest} {id : Uuid} {before : LinkState}
    {overwrites : Prop} {v : Pool World Call} {w : World} {now : Instant} {call : Call}
    (hsound : Sound v)
    (h : Progress u svc req id before overwrites v.shared.store (v.locals i))
    (hstep : nextStep u loc svc localOffset now v.shared (v.locals i) = some (w, call)) :
    Progress u svc req id before overwrites w.store call := by
  have hlocated := hsound.located i
  cases hphase : v.locals i with
  | update settings ctx text named =>
    rw [hphase] at h hstep
    obtain ⟨rfl, rfl⟩ := Prod.mk.inj (Option.some.inj hstep)
    obtain rfl : named = req := h.1
    exact progress_read hsound.keyed hsound.stored rfl h
  | updateLoaded settings ctx text named link =>
    rw [hphase] at h hstep hlocated
    obtain ⟨hw, hcall⟩ := Prod.mk.inj (Option.some.inj hstep)
    obtain rfl : named = req := h.1
    rw [← hw, ← hcall]
    exact progress_write hsound.keyed now hlocated h
  | updateWritten ctx text =>
    rw [hphase] at h hstep
    obtain ⟨rfl, rfl⟩ := Prod.mk.inj (Option.some.inj hstep)
    obtain ⟨htext, hkept, hrow⟩ := h
    cases hget : v.shared.store.GetLink loc text ctx.ownerID with
    | ok link =>
      simp only [updateWrittenStep, hget]
      exact hkept
    | error e =>
      simp only [updateWrittenStep, hget]
      intro hover
      obtain ⟨row, hfound, hselects⟩ := hrow hover
      obtain ⟨hmem, rfl⟩ := mem_linkState.1 hfound
      rw [hsound.keyed.GetLink_eq hmem htext hselects] at hget
      cases hget
  | updateCache link =>
    rw [hphase] at h hstep
    obtain ⟨rfl, rfl⟩ := Prod.mk.inj (Option.some.inj hstep)
    have hstore : (v.shared.setLink localOffset link).store = v.shared.store := by
      rw [World.setLink]
      split_ifs <;> rfl
    rw [Progress, hstore]
    exact h
  | done result => simp [hphase, nextStep] at hstep
  | _ =>
    rw [hphase] at h
    exact h.elim

/-- An update keeps the columns its request does not name, or reports an error, exactly
when it does not overwrite.  `t` is any state of a run in which the update has begun:
in particular, the state in which another edit has just been written. -/
theorem update_keeps_iff {as bs : List (ℕ × Action)} {t w : Pool World Call} {i : ℕ}
    {req : UpdateLinkRequest} {id : Uuid} {res : Except ServiceError Link}
    (hrun : (linkCalls u loc svc localOffset).machine.run ⟨{}, fun _ => .idle⟩ as = some t)
    (hupdate : Updating req id (t.locals i))
    (hrest : (linkCalls u loc svc localOffset).machine.run t bs = some w)
    (honce : ∀ request, (i, .start request) ∉ bs)
    (hothers : (linkCalls u loc svc localOffset).machine.Along
      (OthersLeave u loc svc localOffset i id) t bs)
    (hdone : w.locals i = .done (.updated res)) :
    ((∃ e, res = .error e) ∨
      Kept req (linkState t.shared.store id) (linkState w.shared.store id)) ↔
    ¬ Overwrites u svc t.shared.store (t.locals i) := by
  have hnew : ∀ a ∈ bs, ∀ request, a ≠ (i, Action.start request) := by
    rintro a ha request rfl
    exact honce request ha
  have hprogress := Machine.run_invariant_along (linkCalls u loc svc localOffset).machine
    (I := fun v => Sound v ∧ Progress u svc req id (linkState t.shared.store id)
      (Overwrites u svc t.shared.store (t.locals i)) v.shared.store (v.locals i))
    (C := fun v a => OthersLeave u loc svc localOffset i id v a ∧
      ∀ request, a ≠ (i, .start request))
    (fun v a v' ⟨hsound, hprogress⟩ ⟨hothers, hnew⟩ hstep => by
      refine ⟨sound_step hsound hstep, ?_⟩
      obtain ⟨j, action⟩ := a
      obtain ⟨call, hcall, hlocal, hstill⟩ := Process.step_cases hstep
      by_cases hji : j = i
      · subst hji
        rw [hlocal]
        cases action with
        | start request => exact absurd rfl (hnew request)
        | drop aliasName =>
          obtain ⟨hshared, rfl⟩ := Prod.mk.inj (Option.some.inj hcall)
          rw [← hshared]
          exact hprogress
        | next now => exact progress_next hsound hprogress hcall
      · rw [hstill i (Ne.symm hji)]
        exact progress_still hprogress (hothers hji v' hstep))
    ⟨reachable_sound hrun, progress_start hupdate⟩
    (Machine.Along.and _ hothers (Machine.along_of_mem _ hnew t)) hrest
  obtain ⟨-, hprogress⟩ := hprogress
  rw [hdone] at hprogress
  cases res with
  | ok link =>
    have hiff : Kept req (linkState t.shared.store id) (linkState w.shared.store id) ↔
        ¬ Overwrites u svc t.shared.store (t.locals i) := hprogress
    rw [← hiff]
    constructor
    · rintro (⟨e, he⟩ | hkept)
      · cases he
      · exact hkept
    · exact .inr
  | error e => exact iff_of_true (.inl ⟨e, rfl⟩) hprogress

end

/-! ## A new title -/

def titleRequest : UpdateLinkRequest := { title := some (lit "t") }

/-- Process 1 has loaded `abc` for a new title when process 0 disables it. -/
def disabledSteps : List (ℕ × Action) :=
  createAbcSteps ++
    [(1, .start (.update {} {} (lit "00000000000000000000000000000000") titleRequest)),
      (1, .next 0),
      (0, .start (.bulk {} ⟨lit "disable", [lit "00000000000000000000000000000000"], [], none⟩)),
      (0, .next 0), (0, .next 0), (0, .next 0)]

/-- The call has loaded the link for the title. -/
def loadedForTitle : Call → Bool
  | .updateLoaded _ _ _ named link => named == titleRequest && link.id == default
  | _ => false

theorem updating_of_loaded {call : Call} (h : loadedForTitle call) :
    Updating titleRequest default call := by
  cases call with
  | updateLoaded settings ctx text named link =>
    simpa [loadedForTitle, Updating] using h
  | _ => simp [loadedForTitle] at h

def updateResult : Call → Option (Except ServiceError Link)
  | .done (.updated res) => some res
  | _ => none

theorem done_of_updateResult {call : Call} {res : Except ServiceError Link}
    (h : updateResult call = some res) : call = .done (.updated res) := by
  unfold updateResult at h
  split at h
  · rw [Option.some.inj h]
  · cases h

/-- The status of the link before and after the rest of the update. -/
theorem title_run : ∃ t w link, asciiCalls.run ⟨{}, fun _ => .idle⟩ disabledSteps = some t ∧
    Updating titleRequest default (t.locals 1) ∧
    asciiCalls.run t (List.replicate 3 (1, .next 0)) = some w ∧
    w.locals 1 = .done (.updated (.ok link)) ∧
    (linkState t.shared.store default).rows.map LinkRow.status = [.disabled] ∧
    (linkState w.shared.store default).rows.map LinkRow.status = [.active] := by
  have hruns : ((asciiCalls.run ⟨{}, fun _ => .idle⟩ disabledSteps).map fun t =>
      ((loadedForTitle (t.locals 1),
          (linkState t.shared.store default).rows.map LinkRow.status),
        (asciiCalls.run t (List.replicate 3 (1, .next 0))).map fun w =>
          ((updateResult (w.locals 1)).map Except.toBool,
            (linkState w.shared.store default).rows.map LinkRow.status))) =
      some ((true, [.disabled]), some (some true, [.active])) := by
    decide
  obtain ⟨t, ht, hpair⟩ := Option.map_eq_some_iff.mp hruns
  obtain ⟨hbefore, hrest⟩ := Prod.mk.inj hpair
  obtain ⟨hloaded, hdisabled⟩ := Prod.mk.inj hbefore
  obtain ⟨w, hw, hafter⟩ := Option.map_eq_some_iff.mp hrest
  obtain ⟨hdone, hactive⟩ := Prod.mk.inj hafter
  obtain ⟨res, hres, hok⟩ := Option.map_eq_some_iff.mp hdone
  cases res with
  | error e => cases hok
  | ok link =>
    exact ⟨t, w, link, ht, updating_of_loaded hloaded, hw, done_of_updateResult hres, hdisabled,
      hactive⟩

/-- The update overwrites. -/
theorem update_keeps_iff_title :
    ∃ t w res, asciiCalls.run ⟨{}, fun _ => .idle⟩ disabledSteps = some t ∧
      asciiCalls.run t (List.replicate 3 (1, .next 0)) = some w ∧
      (((∃ e, res = Except.error e) ∨ Kept titleRequest (linkState t.shared.store default)
          (linkState w.shared.store default)) ↔
        ¬ Overwrites .ascii ⟨lit "http://sho.rt"⟩ t.shared.store (t.locals 1)) ∧
      w.locals 1 = .done (.updated res) := by
  obtain ⟨t, w, link, ht, hupdating, hw, hdone, -, -⟩ := title_run
  have hothers : asciiCalls.Along (OthersLeave .ascii plainLocale ⟨lit "http://sho.rt"⟩
      (fun _ => 0) 1 default) t (List.replicate 3 (1, .next 0)) := by
    refine Machine.Along.imp _ ?_ (Machine.along_of_mem asciiCalls (C := fun a => a.1 = 1) ?_ t)
    · intro s a ha hne
      exact absurd ha hne
    · intro a ha
      rw [List.eq_of_mem_replicate ha]
  exact ⟨t, w, .ok link, ht, hw, update_keeps_iff ht hupdating hw (by simp) hothers hdone, hdone⟩

/-- The title enables the link again. -/
theorem bulk_disable_lost :
    ¬ ∀ (as bs : List (ℕ × Action)) (t w : Pool World Call) (i : ℕ) (req : UpdateLinkRequest)
        (id : Uuid) (res : Except ServiceError Link),
      asciiCalls.run ⟨{}, fun _ => .idle⟩ as = some t → Updating req id (t.locals i) →
      (∀ a ∈ bs, ∃ now, a = (i, .next now)) → asciiCalls.run t bs = some w →
      w.locals i = .done (.updated res) →
      (∃ e, res = .error e) ∨
        Kept req (linkState t.shared.store id) (linkState w.shared.store id) := by
  intro hclaim
  obtain ⟨t, w, link, ht, hupdating, hw, hdone, hdisabled, hactive⟩ := title_run
  rcases hclaim disabledSteps (List.replicate 3 (1, .next 0)) t w 1 titleRequest default (.ok link) ht
    hupdating (by simp) hw hdone with ⟨e, he⟩ | hkept
  · cases he
  · obtain ⟨row, hrow, hstatus⟩ : ∃ row ∈ (linkState t.shared.store default).rows,
        row.status = .disabled := by
      have hmem : LinkStatus.disabled ∈ (linkState t.shared.store default).rows.map
          LinkRow.status := by
        rw [hdisabled]
        exact List.mem_singleton_self _
      exact List.mem_map.mp hmem
    obtain ⟨row', hrow', hkeeps⟩ := hkept row hrow
    have hmem : row'.status ∈ (linkState w.shared.store default).rows.map LinkRow.status :=
      List.mem_map_of_mem hrow'
    rw [hactive, List.mem_singleton] at hmem
    have hsame : row'.status = row.status := hkeeps.status rfl
    rw [hmem, hstatus] at hsame
    cases hsame

end Purels.Properties
