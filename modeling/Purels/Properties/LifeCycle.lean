import Purels.Service.LinkLife

/-!
# The life cycle of a link

What every interleaving of the writes keeps of a row, from its insertion to its deletion.

* `Lived`: the status is `deleted` exactly when the time of deletion is set.
* `Frozen`: a deleted row stays as it is, with its tags, and is not resolved again.
* `edits`, `KeepsRows`: what one step does to versions.
* `LifeEffect`, `lifeCalls_effect`: what a step does to the tables and the locks.
* `life_cycle`: in every reachable state.
-/

namespace Purels.Properties

open Go Store Service Lib LinkStore

/-! ## The laws -/

/-- The status is `deleted` exactly when the time of deletion is set. -/
def Lived (row : LinkRow) : Prop := row.status = .deleted ↔ row.deletedAt.isSome = true

/-- A row that has been deleted, before and after a step: as long as it is there, it stays as it
is, with its tags, and no alias resolves to it. -/
structure Frozen (loc : DatabaseLocale) (s t : LinkStore) (row : LinkRow) : Prop where
  columns : ∀ row' ∈ t.links, row'.id = row.id → row'.status = row.status ∧
    row'.destinationURL = row.destinationURL ∧ row'.expiresAt = row.expiresAt ∧
    row'.deletedAt = row.deletedAt
  tags : (∃ row' ∈ t.links, row'.id = row.id) → t.tagsOf loc row.id = s.tagsOf loc row.id
  hidden : ∀ aliasName link, t.GetLinkByAlias loc aliasName = .ok link → link.id ≠ row.id

section

variable (u : Unicode) (loc : DatabaseLocale)

/-- The rows that the statement of an edit selects: `UpdateLink`, `DeleteLink`, and the bulk
actions that set columns. -/
def edits : LifeCall → LinkRow → Bool
  | .planned edit owner, row => selects edit.link.id owner row
  | .start (.delete ctx id), row =>
    match uuidParam id with
    | .error _ => false
    | .ok id => selects id ctx.ownerID row
  | .start (.bulk ctx req), row =>
    match normalizeIDs u req.ids, planBulk u req with
    | .ok ids, .ok edit => edit.setsColumns && bulkRows ids ctx.ownerID row
    | _, _ => false
  | _, _ => false

/-- The step does not end in an error. -/
def succeeded : LifeCall → Bool
  | .done (.error _) => false
  | _ => true

/-- What a step keeps: deleted rows are frozen, an edit that succeeds increases the version of the
rows it selects by one and nothing else changes a version, and a probe leaves `updated_at`. -/
structure KeepsRows (w x : LifeWorld) (call l : LifeCall) : Prop where
  frozen : ∀ row ∈ w.store.links, row.deletedAt.isSome = true → Frozen loc w.store x.store row
  version : ∀ row ∈ w.store.links, ∀ row' ∈ x.store.links, row'.id = row.id →
    row'.version = if edits u call row && succeeded l then row.version + 1 else row.version
  probed : ∀ linkID checkedAt statusCode, call = .start (.health linkID checkedAt statusCode) →
    ∀ row ∈ w.store.links, ∀ row' ∈ x.store.links, row'.id = row.id →
      row'.updatedAt = row.updatedAt

end

/-- Every operation is about to start on tables whose identifiers are unique and whose rows have
lived so far. -/
structure Unstarted (init : Pool LifeWorld LifeCall) : Prop where
  ids : (init.shared.store.links.map LinkRow.id).Nodup
  lived : ∀ row ∈ init.shared.store.links, Lived row
  unlocked : init.shared.locked = []
  started : ∀ i, ∃ request, init.locals i = .start request

/-! ## Statuses -/

section

variable {u : Unicode} {loc : DatabaseLocale}

theorem parseStatus_ne_deleted {raw : GoString} {status : LinkStatus}
    (h : parseStatus raw = some status) : status ≠ .deleted := by
  unfold parseStatus at h
  split_ifs at h <;> cases h <;> exact LinkStatus.noConfusion

/-- An update asks for no deletion. -/
theorem planUpdate_status {svc : LinkService} {settings : RuntimeSettingsInput}
    {req : UpdateLinkRequest} {link : Link} {edit : LinkEdit}
    (h : planUpdate u svc settings req link = .ok edit) (hlink : link.status ≠ .deleted) :
    edit.link.status ≠ .deleted := by
  unfold planUpdate at h
  simp only [bind_eq_ok, pure, Except.pure] at h
  obtain ⟨l1, h1, l2, h2, l3, h3, l4, h4, l5, h5, l6, h6, tags, h7, rules, h8, l9, h9, h⟩ := h
  obtain rfl := (Except.ok.inj h).symm
  obtain ⟨_, rfl, -⟩ := updateDestination_ok h1
  obtain ⟨_, rfl, -⟩ := updateRedirectCode_ok h2
  obtain ⟨_, rfl, -⟩ := updateInterstitial_ok h3
  obtain ⟨_, rfl, -⟩ := updateExpiry_ok h5
  obtain ⟨_, rfl, -⟩ := updateTitle_ok h6
  obtain ⟨_, rfl, -⟩ := updateDomain_ok h9
  unfold updateStatus at h4
  split_ifs at h4 with hnil
  · cases h4
    exact hlink
  · split at h4
    · cases h4
    · rename_i status hstatus
      cases h4
      exact parseStatus_ne_deleted hstatus

theorem planTags_ne_setStatus {req : BulkLinkRequest} {add : Bool} {status : LinkStatus} :
    planBulk.planTags u req add ≠ .ok (.setStatus status) := by
  unfold planBulk.planTags
  split <;> exact fun h => by cases h

/-- A bulk edit sets no status that a deletion sets. -/
theorem planBulk_status {req : BulkLinkRequest} {status : LinkStatus}
    (h : planBulk u req = .ok (.setStatus status)) : status ≠ .deleted := by
  unfold planBulk at h
  split at h
  · cases h
  · cases h
  · cases h
    exact LinkStatus.noConfusion
  · cases h
    exact LinkStatus.noConfusion
  · split at h
    · cases h
    · split at h <;> cases h
  · exact absurd h planTags_ne_setStatus
  · exact absurd h planTags_ne_setStatus

end

/-! ## What an edit writes -/

/-- The columns that an edit sets in a live row. -/
structure Edits (set : LinkRow → LinkRow) : Prop where
  id : ∀ row, (set row).id = row.id
  version : ∀ row, (set row).version = row.version + 1
  lived : ∀ row, row.live = true → Lived row → Lived (set row)

theorem lived_of_live {row : LinkRow} (hlive : row.live = true) (hstatus : row.status ≠ .deleted) :
    Lived row := by
  unfold Lived
  rw [LinkRow.live, beq_iff_eq] at hlive
  rw [hlive]
  exact iff_of_false hstatus Bool.false_ne_true

theorem edits_editRow {link : Link} (hstatus : link.status ≠ .deleted) (now : Instant) :
    Edits (editRow link now) where
  id _ := rfl
  version _ := rfl
  lived row hlive _ := @lived_of_live (editRow link now row) hlive hstatus

theorem edits_retireRow (now : Instant) : Edits (retireRow now) where
  id _ := rfl
  version _ := rfl
  lived _ _ _ := iff_of_true rfl rfl

theorem edits_bulkLinkUpdate (s : LinkStore) (ids : List GoString) (owner : Option Uuid)
    (set : LinkRow → LinkRow) (now : Instant) (hid : ∀ row, (set row).id = row.id)
    (hlived : ∀ row, row.live = true → Lived row → Lived (set row)) :
    (∃ e, BulkEdit.apply.counted (s.bulkLinkUpdate ids owner set now) = (.error e, s)) ∨
    ∃ edit changed, Edits edit ∧ BulkEdit.apply.counted (s.bulkLinkUpdate ids owner set now) =
      (.ok changed, s.updateLinks (bulkRows ids owner) edit) := by
  unfold bulkLinkUpdate bulkRows
  cases uuidArray ids with
  | error e => exact .inl ⟨e, rfl⟩
  | ok ids =>
    exact .inr ⟨fun row => { set row with version := row.version + 1, updatedAt := now }, _,
      ⟨hid, fun _ => rfl, hlived⟩, rfl⟩

/-- The columns that a bulk edit sets. -/
theorem edits_bulk {edit : BulkEdit} (hcolumns : edit.setsColumns = true)
    (hstatus : ∀ status, edit = .setStatus status → status ≠ .deleted) (ids : List GoString)
    (owner : Option Uuid) (now : Instant) (s : LinkStore) :
    (∃ e, edit.apply ids owner now s = (.error e, s)) ∨
    ∃ set changed, Edits set ∧
      edit.apply ids owner now s = (.ok changed, s.updateLinks (bulkRows ids owner) set) := by
  cases edit with
  | tag tags add => cases hcolumns
  | delete =>
    exact edits_bulkLinkUpdate s ids owner _ now (fun _ => rfl) fun _ _ _ => iff_of_true rfl rfl
  | setStatus status =>
    refine edits_bulkLinkUpdate s ids owner _ now (fun _ => rfl) fun row hlive _ => ?_
    exact @lived_of_live { row with status } hlive (hstatus status rfl)
  | setExpiry expiresAt =>
    exact edits_bulkLinkUpdate s ids owner _ now (fun _ => rfl) fun _ _ hlived => hlived

/-! ## What a step does -/

section

variable {u : Unicode} {loc : DatabaseLocale} {w x : LifeWorld} {call l : LifeCall}
  {now : Instant}

/-- What a step does to the tables and the locks. -/
inductive LifeEffect (u : Unicode) (w : LifeWorld) : LifeCall → LifeWorld → LifeCall → Prop
  /-- The tables stay, and no lock is taken. -/
  | same {call l : LifeCall} {x : LifeWorld} (hstore : x.store = w.store)
    (hlocked : ∀ id ∈ x.locked, id ∈ w.locked)
    (hedits : ∀ row, (edits u call row && succeeded l) = false) : LifeEffect u w call x l
  | inserted {call l : LifeCall} (link : Link) (owner : Option Uuid)
    (hfree : ∀ row ∈ w.store.links, row.id ≠ link.id) (hstatus : link.status = .active)
    (hedits : ∀ row, edits u call row = false) :
    LifeEffect u w call { w with store := w.store.insertLink link owner } l
  /-- Live rows that no update has locked are edited. -/
  | edited {call l : LifeCall} {x : LifeWorld} (set : LinkRow → LinkRow) (hset : Edits set)
    (hlive : ∀ row, edits u call row = true → row.live = true)
    (hunlocked : ∀ row ∈ w.store.links, edits u call row = true → row.id ∉ w.locked)
    (hstore : x.store = w.store.updateLinks (edits u call) set) (hok : succeeded l = true)
    (hlocked : ∀ id ∈ x.locked, id ∈ w.locked ∨
      ∀ row ∈ w.store.links, row.id = id → edits u call row = true ∧ (set row).live = true) :
    LifeEffect u w call x l
  /-- The tags and rules of a locked row are written. -/
  | joined (id : Uuid) (write : JoinWrite) (writes : List JoinWrite) :
    LifeEffect u w (.writing id (write :: writes)) { w with store := write.apply id w.store }
      (.writing id writes)
  | tagged {call l : LifeCall} (ids : List GoString) (owner : Option Uuid)
    (tags : List GoString) (add : Bool) (hedits : ∀ row, edits u call row = false) :
    LifeEffect u w call { w with store := (w.store.BulkTagLinks ids owner tags add).2 } l
  | probed (linkID : Uuid) (checkedAt : Instant) (statusCode : Int) (l : LifeCall) :
    LifeEffect u w (.start (.health linkID checkedAt statusCode))
      { w with store := (w.store.RecordLinkHealth linkID checkedAt statusCode).2 } l
  /-- Rows that no update has locked are taken away. -/
  | pruned (grace limit : Nat) (doomed : List Uuid)
    (hunlocked : ∀ row ∈ w.store.links, row.id ∈ doomed → row.id ∉ w.locked) (l : LifeCall) :
    LifeEffect u w (.start (.prune grace limit)) { w with store := w.store.cascade doomed } l

theorem live_of_selects {id : Uuid} {owner : Option Uuid} {row : LinkRow}
    (h : selects id owner row = true) : row.live = true :=
  (Bool.and_eq_true_iff.mp (Bool.and_eq_true_iff.mp h).1).2

theorem id_of_selects {id : Uuid} {owner : Option Uuid} {row : LinkRow}
    (h : selects id owner row = true) : row.id = id :=
  beq_iff_eq.mp (Bool.and_eq_true_iff.mp (Bool.and_eq_true_iff.mp h).1).1

theorem live_of_bulkRows {ids : List GoString} {owner : Option Uuid} {row : LinkRow}
    (h : bulkRows ids owner row = true) : row.live = true := by
  unfold bulkRows at h
  split at h
  · cases h
  · exact (Bool.and_eq_true_iff.mp (Bool.and_eq_true_iff.mp h).1).2

theorem not_blocks {selected : LinkRow → Bool} (h : ¬ w.blocks selected = true) :
    ∀ row ∈ w.store.links, selected row = true → row.id ∉ w.locked := by
  intro row hrow hselected hlocked
  apply h
  rw [LifeWorld.blocks, List.any_eq_true]
  exact ⟨row, hrow, Bool.and_eq_true_iff.mpr ⟨hselected, List.contains_iff_mem.mpr hlocked⟩⟩

/-- An operation that fails, or does not edit. -/
theorem LifeEffect.kept {call l : LifeCall}
    (hedits : ∀ row, (edits u call row && succeeded l) = false) : LifeEffect u w call w l :=
  .same rfl (fun _ hid => hid) hedits

theorem effect_failed {call : LifeCall} (e : ServiceError) :
    LifeEffect u w call w (.done (.error e)) :=
  .kept fun _ => Bool.and_false _

/-- The same effect, for a world that is spelled otherwise. -/
theorem effect_store {call l : LifeCall} {y : LifeWorld} (hxy : x = y)
    (h : LifeEffect u w call y l) : LifeEffect u w call x l := hxy ▸ h

/-- `DeleteLink`. -/
theorem effect_retireStep {ctx : Context} {id : GoString}
    (h : retireStep id ctx.ownerID now w = some (x, l)) :
    LifeEffect u w (.start (.delete ctx id)) x l := by
  have hrows : edits u (.start (.delete ctx id)) = fun row =>
      match uuidParam id with
      | .error _ => false
      | .ok id => selects id ctx.ownerID row := rfl
  unfold retireStep DeleteLink at h
  cases hparam : uuidParam id with
  | error e =>
    rw [hparam] at h
    cases h
    exact effect_failed _
  | ok uid =>
    rw [hparam] at h hrows
    dsimp only at h hrows
    split_ifs at h with hblocks hany
    · cases h
      refine .edited (retireRow now) (edits_retireRow now) ?_ ?_ ?_ rfl fun id hid => .inl hid
      · intro _ hselected
        rw [hrows] at hselected
        exact live_of_selects hselected
      · rw [hrows]
        exact not_blocks hblocks
      · rw [hrows]
    · cases h
      exact effect_failed _

/-- `Bulk`. -/
theorem effect_bulkEditStep {ctx : Context} {req : BulkLinkRequest}
    (h : bulkEditStep u ctx req now w = some (x, l)) :
    LifeEffect u w (.start (.bulk ctx req)) x l := by
  have hrows : edits u (.start (.bulk ctx req)) = fun row =>
      match normalizeIDs u req.ids, planBulk u req with
      | .ok ids, .ok edit => edit.setsColumns && bulkRows ids ctx.ownerID row
      | _, _ => false := rfl
  unfold bulkEditStep at h
  cases hnormal : normalizeIDs u req.ids with
  | error e =>
    rw [hnormal] at h
    cases h
    exact effect_failed e
  | ok ids =>
    rw [hnormal] at h hrows
    cases hplan : planBulk u req with
    | error e =>
      rw [hplan] at h
      cases h
      exact effect_failed e
    | ok edit =>
      rw [hplan] at h hrows
      dsimp only at h hrows
      by_cases hcolumns : edit.setsColumns = true
      · have hselects : edits u (.start (.bulk ctx req)) = bulkRows ids ctx.ownerID := by
          rw [hrows]
          funext row
          rw [hcolumns, Bool.true_and]
        rw [hcolumns, Bool.true_and] at h
        split_ifs at h with hblocks
        cases h
        rcases edits_bulk hcolumns (fun status heq => planBulk_status (heq ▸ hplan)) ids
          ctx.ownerID now w.store with ⟨e, heq⟩ | ⟨set, changed, hset, heq⟩
        · rw [heq]
          exact effect_failed e
        · rw [heq]
          refine .edited set hset ?_ ?_ ?_ rfl fun id hid => .inl hid
          · intro _ hselected
            rw [hselects] at hselected
            exact live_of_bulkRows hselected
          · rw [hselects]
            exact not_blocks hblocks
          · rw [hselects]
      · cases edit with
        | tag tags add =>
          cases h
          refine effect_store ?_ (.tagged ids ctx.ownerID tags add fun row => by rw [hrows]; rfl)
          refine congrArg (fun store => LifeWorld.mk store w.locked) ?_
          rw [BulkEdit.apply]
          rcases w.store.BulkTagLinks ids ctx.ownerID tags add with ⟨_ | _, _⟩ <;> rfl
        | delete => exact absurd rfl hcolumns
        | setStatus status => exact absurd rfl hcolumns
        | setExpiry expiresAt => exact absurd rfl hcolumns

/-- The first statement of `UpdateLink`. -/
theorem effect_editStep {edit : LinkEdit} {owner : Option Uuid}
    (hids : (w.store.links.map LinkRow.id).Nodup) (hstatus : edit.link.status ≠ .deleted)
    (h : editStep edit owner now w = some (x, l)) :
    LifeEffect u w (.planned edit owner) x l := by
  unfold editStep at h
  split_ifs at h with hcolumns hany hblocks hparts
  · cases h
    exact effect_failed _
  · cases h
    exact effect_failed _
  · cases h
    exact effect_failed _
  · cases h
    refine .edited (editRow edit.link now) (edits_editRow hstatus now) ?_ (not_blocks hblocks) rfl
      rfl ?_
    · intro row hselected
      exact live_of_selects hselected
    · intro id hid
      cases hid with
      | tail _ hid => exact .inl hid
      | head =>
        -- The row that is locked is the one that has just been edited.
        right
        intro row hrow hid
        rw [Bool.not_eq_true', Bool.not_eq_false, List.any_eq_true] at hany
        obtain ⟨other, hother, hselected⟩ := hany
        have hsame : row = other := List.inj_on_of_nodup_map hids hrow hother
          (hid.trans (id_of_selects hselected).symm)
        rw [hsame]
        exact ⟨hselected, live_of_selects hselected⟩

/-- A step does one of these things. -/
theorem lifeCalls_effect (hids : (w.store.links.map LinkRow.id).Nodup)
    (hplanned : ∀ edit owner, call = .planned edit owner → edit.link.status ≠ .deleted)
    (h : (lifeCalls u loc).step w call now = some (x, l)) : LifeEffect u w call x l := by
  have hstep : nextLifeStep u loc w call now = some (x, l) := h
  unfold nextLifeStep at hstep
  cases call with
  | start request =>
    cases request with
    | create checked aliasName draw owner =>
      dsimp only at hstep
      rcases CreateLink_cases (s := w.store) (newLink checked aliasName draw) owner with
        ⟨e, heq⟩ | ⟨heq, -, hfree, -⟩
      · rw [heq] at hstep
        cases hstep
        exact effect_failed e
      · rw [heq] at hstep
        cases hstep
        exact .inserted _ owner (fun row hrow => (hfree row hrow).2) rfl fun _ => rfl
    | update svc settings ctx id req =>
      cases hstep
      exact .kept fun _ => rfl
    | delete ctx id => exact effect_retireStep hstep
    | bulk ctx req => exact effect_bulkEditStep hstep
    | health linkID checkedAt statusCode =>
      dsimp only at hstep
      split_ifs at hstep
      cases hstep
      exact .probed linkID checkedAt statusCode _
    | prune grace limit =>
      dsimp only at hstep
      split_ifs at hstep with hblocks
      cases hstep
      refine .pruned grace limit _ (fun row hrow hdoomed => ?_) _
      exact not_blocks hblocks row hrow (List.contains_iff_mem.mpr hdoomed)
  | planned edit owner => exact effect_editStep hids (hplanned edit owner rfl) hstep
  | writing id writes =>
    cases writes with
    | nil =>
      cases hstep
      refine .same rfl (fun other hother => ?_) fun _ => rfl
      exact List.mem_of_mem_filter hother
    | cons write writes =>
      cases hstep
      exact .joined id write writes
  | done res => cases hstep

end

/-! ## Rows -/

section

variable {loc : DatabaseLocale} {s t : LinkStore} {row row' : LinkRow}

/-- A row is found by its identifier. -/
theorem eq_of_ids (hids : (s.links.map LinkRow.id).Nodup) (hrow : row ∈ s.links)
    (hrow' : row' ∈ s.links) (hid : row'.id = row.id) : row' = row :=
  List.inj_on_of_nodup_map hids hrow' hrow hid

theorem ids_updateLinks {selected : LinkRow → Bool} {set : LinkRow → LinkRow}
    (hset : ∀ row, (set row).id = row.id) :
    (s.updateLinks selected set).links.map LinkRow.id = s.links.map LinkRow.id :=
  map_updateLinks LinkRow.id hset

/-- A row after an update. -/
theorem eq_of_updateLinks {selected : LinkRow → Bool} {set : LinkRow → LinkRow}
    (hids : (s.links.map LinkRow.id).Nodup) (hset : ∀ row, (set row).id = row.id)
    (hrow : row ∈ s.links) (hrow' : row' ∈ (s.updateLinks selected set).links)
    (hid : row'.id = row.id) : row' = if selected row = true then set row else row := by
  obtain ⟨other, hother, rfl⟩ := List.mem_map.mp hrow'
  have hkept : (if selected other = true then set other else other).id = other.id := by
    split_ifs
    · exact hset other
    · rfl
  rw [hkept] at hid
  rw [eq_of_ids hids hrow hother hid]

/-- A deleted row that keeps its columns and its tags is not resolved. -/
theorem frozen_of_columns (hdead : row.deletedAt.isSome = true)
    (hcolumns : ∀ row' ∈ t.links, row'.id = row.id → row'.status = row.status ∧
      row'.destinationURL = row.destinationURL ∧ row'.expiresAt = row.expiresAt ∧
      row'.deletedAt = row.deletedAt)
    (htags : (∃ row' ∈ t.links, row'.id = row.id) → t.tagsOf loc row.id = s.tagsOf loc row.id) :
    Frozen loc s t row := by
  refine ⟨hcolumns, htags, ?_⟩
  intro aliasName link hget hid
  obtain ⟨other, hother, -, hlive, rfl⟩ := GetLinkByAlias_ok hget
  have hdeleted := (hcolumns other hother hid).2.2.2
  rw [LinkRow.live, beq_iff_eq] at hlive
  rw [← hdeleted, hlive] at hdead
  cases hdead

/-- Statements that leave `links` alone. -/
theorem frozen_of_links (hids : (s.links.map LinkRow.id).Nodup) (hlinks : t.links = s.links)
    (hrow : row ∈ s.links) (hdead : row.deletedAt.isSome = true)
    (htags : t.tagsOf loc row.id = s.tagsOf loc row.id) : Frozen loc s t row := by
  refine frozen_of_columns hdead ?_ fun _ => htags
  intro row' hrow' hid
  rw [hlinks] at hrow'
  rw [eq_of_ids hids hrow hrow' hid]
  exact ⟨rfl, rfl, rfl, rfl⟩

/-- The tags of a link, of which none is written. -/
theorem tagsOf_congr {id : Uuid}
    (h : (t.linkTags.filter fun tag => tag.1 == id) = s.linkTags.filter fun tag => tag.1 == id) :
    t.tagsOf loc id = s.tagsOf loc id := by
  rw [tagsOf, tagsOf, h]

/-- The rows that are locked are not deleted, so that no tag of a deleted row is written. -/
theorem tagsOf_join {id other : Uuid} (hne : other ≠ id) (write : JoinWrite) :
    (write.apply id s).tagsOf loc other = s.tagsOf loc other := by
  apply tagsOf_congr
  cases write with
  | dropTags =>
    show (List.filter _ (s.linkTags.filter _)) = _
    rw [List.filter_filter]
    refine List.filter_congr fun tag _ => ?_
    by_cases htag : tag.1 = other
    · simp [htag, hne]
    · simp [htag]
  | addTag name =>
    show (List.filter _ (if s.linkTags.contains (id, name) = true then s.linkTags
      else s.linkTags ++ [(id, name)])) = _
    split_ifs
    · rfl
    · rw [List.filter_append]
      simp [Ne.symm hne]
  | dropRules => rfl
  | addRule position rule => rfl

/-- A bulk tag edit leaves the tags of deleted rows. -/
theorem tagsOf_bulk (hids : (s.links.map LinkRow.id).Nodup) (hrow : row ∈ s.links)
    (hdead : row.deletedAt.isSome = true) (ids : List GoString) (owner : Option Uuid)
    (tags : List GoString) (add : Bool) :
    (s.BulkTagLinks ids owner tags add).2.tagsOf loc row.id = s.tagsOf loc row.id := by
  -- No selected row has this identifier, for its only row is deleted.
  have hnone : ∀ uuids, ∀ other ∈ s.links, other.id = row.id →
      bulkSelects uuids owner other = false := by
    intro uuids other hother hid
    rw [Bool.eq_false_iff]
    intro hselected
    have hlive := (Bool.and_eq_true_iff.mp (Bool.and_eq_true_iff.mp hselected).1).2
    rw [eq_of_ids hids hrow hother hid, LinkRow.live, beq_iff_eq] at hlive
    rw [hlive] at hdead
    cases hdead
  unfold BulkTagLinks
  split
  · rfl
  rename_i uuids huuids
  split_ifs
  · rfl
  · apply tagsOf_congr
    show List.filter _ (s.linkTags ++ s.newTagLinks (bulkSelects uuids owner) tags) = _
    have hadded : (s.newTagLinks (bulkSelects uuids owner) tags).filter
        (fun tag => tag.1 == row.id) = [] := by
      rw [List.filter_eq_nil_iff]
      intro tag htag hid
      obtain ⟨other, hother, hpair⟩ := List.mem_flatMap.mp (List.mem_filter.mp htag).1
      obtain ⟨name, -, rfl⟩ := List.mem_map.mp hpair
      obtain ⟨hmem, hselected⟩ := List.mem_filter.mp hother
      rw [hnone uuids other hmem (beq_iff_eq.mp hid)] at hselected
      cases hselected
    rw [List.filter_append, hadded, List.append_nil]
  · apply tagsOf_congr
    show List.filter _ (s.linkTags.filter _) = _
    rw [List.filter_filter]
    refine List.filter_congr fun tag _ => ?_
    by_cases htag : tag.1 = row.id
    · have hkept : (s.links.any fun other => other.id == tag.1 && bulkSelects uuids owner other) =
          false := by
        rw [List.any_eq_false]
        intro other hother hselected
        obtain ⟨hid, hselected⟩ := Bool.and_eq_true_iff.mp hselected
        rw [hnone uuids other hother ((beq_iff_eq.mp hid).trans htag)] at hselected
        cases hselected
      show (tag.1 == row.id && !((s.links.any fun other =>
        other.id == tag.1 && bulkSelects uuids owner other) && tags.contains tag.2)) = _
      rw [hkept, Bool.false_and, Bool.not_false, Bool.and_true]
    · simp [htag]

/-- A row that is taken away takes its tags along, and leaves those of the others. -/
theorem tagsOf_cascade {doomed : List Uuid} (hstays : row.id ∉ doomed) :
    (s.cascade doomed).tagsOf loc row.id = s.tagsOf loc row.id := by
  apply tagsOf_congr
  show List.filter _ (s.linkTags.filter _) = _
  rw [List.filter_filter]
  refine List.filter_congr fun tag _ => ?_
  by_cases htag : tag.1 = row.id
  · simp [htag, hstays]
  · simp [htag]

/-- The tags of a new link are its own. -/
theorem tagsOf_insertLink {link : Link} {owner : Option Uuid} (hne : row.id ≠ link.id) :
    (s.insertLink link owner).tagsOf loc row.id = s.tagsOf loc row.id := by
  have hlinkTags : (s.insertLink link owner).linkTags =
      (s.linkTags.filter fun t => t.1 != link.id) ++ link.tags.dedup.map fun name =>
        (link.id, name) := by
    unfold LinkStore.insertLink
    split_ifs <;> rfl
  apply tagsOf_congr
  rw [hlinkTags, List.filter_append, List.filter_filter]
  have hnew : (link.tags.dedup.map fun name => (link.id, name)).filter
      (fun tag => tag.1 == row.id) = [] := by
    rw [List.filter_eq_nil_iff]
    intro tag htag hid
    obtain ⟨name, -, rfl⟩ := List.mem_map.mp htag
    exact hne (beq_iff_eq.mp hid).symm
  rw [hnew, List.append_nil]
  refine List.filter_congr fun tag _ => ?_
  by_cases htag : tag.1 = row.id
  · simp [htag, hne]
  · simp [htag]

end

/-! ## Invariants -/

/-- Identifiers are unique, rows have lived as they should, and locked rows are live. -/
structure LifeInvariant (w : LifeWorld) : Prop where
  ids : (w.store.links.map LinkRow.id).Nodup
  lived : ∀ row ∈ w.store.links, Lived row
  held : ∀ id ∈ w.locked, ∀ row ∈ w.store.links, row.id = id → row.live = true

section

variable {u : Unicode} {loc : DatabaseLocale} {w x : LifeWorld} {call l : LifeCall}

theorem joins_links (id : Uuid) (write : JoinWrite) (s : LinkStore) :
    (write.apply id s).links = s.links := by
  cases write <;> rfl

theorem tagged_links (ids : List GoString) (owner : Option Uuid) (tags : List GoString)
    (add : Bool) (s : LinkStore) : (s.BulkTagLinks ids owner tags add).2.links = s.links := by
  obtain ⟨res, names, linkTags, heq⟩ := BulkTagLinks_cases (s := s) ids owner tags add
  rw [heq]

/-- A step that leaves the rows and takes no lock. -/
theorem LifeInvariant.of_links (h : LifeInvariant w) (hlinks : x.store.links = w.store.links)
    (hlocked : ∀ id ∈ x.locked, id ∈ w.locked) : LifeInvariant x where
  ids := by rw [hlinks]; exact h.ids
  lived row hrow := h.lived row (hlinks ▸ hrow)
  held id hid row hrow hrowid := h.held id (hlocked id hid) row (hlinks ▸ hrow) hrowid

/-- An update of rows that changes no status on the sly. -/
theorem LifeInvariant.updateLinks (h : LifeInvariant w) {selected : LinkRow → Bool}
    {set : LinkRow → LinkRow} (hid : ∀ row, (set row).id = row.id)
    (hstore : x.store = w.store.updateLinks selected set)
    (hlived : ∀ row ∈ w.store.links, selected row = true → Lived (set row))
    (hheld : ∀ id ∈ x.locked, ∀ row ∈ w.store.links, row.id = id →
      (selected row = true → (set row).live = true) ∧ (selected row = false → row.live = true)) :
    LifeInvariant x where
  ids := by rw [hstore, ids_updateLinks hid]; exact h.ids
  lived row' hrow' := by
    rw [hstore] at hrow'
    obtain ⟨row, hrow, rfl⟩ := List.mem_map.mp hrow'
    by_cases hselected : selected row = true
    · rw [if_pos hselected]
      exact hlived row hrow hselected
    · rw [if_neg hselected]
      exact h.lived row hrow
  held id hlocked row' hrow' hrowid := by
    rw [hstore] at hrow'
    obtain ⟨row, hrow, rfl⟩ := List.mem_map.mp hrow'
    by_cases hselected : selected row = true
    · rw [if_pos hselected] at hrowid ⊢
      exact (hheld id hlocked row hrow ((hid row).symm.trans hrowid)).1 hselected
    · rw [if_neg hselected] at hrowid ⊢
      exact (hheld id hlocked row hrow hrowid).2 (Bool.eq_false_iff.mpr hselected)

/-- Every step keeps the invariant. -/
theorem LifeInvariant.step (h : LifeInvariant w) (heffect : LifeEffect u w call x l) :
    LifeInvariant x := by
  cases heffect with
  | same hstore hlocked _ => exact h.of_links (by rw [hstore]) hlocked
  | inserted link owner hfree hstatus _ =>
    have hrows : ∀ row ∈ (w.store.insertLink link owner).links,
        row ∈ w.store.links ∨ row = newRow link owner := by
      intro row hrow
      rw [insertLink_links] at hrow
      exact (List.mem_append.mp hrow).imp_right List.mem_singleton.mp
    refine ⟨?_, ?_, ?_⟩
    · show ((w.store.insertLink link owner).links.map LinkRow.id).Nodup
      rw [insertLink_links, List.map_append, List.nodup_append]
      refine ⟨h.ids, List.nodup_singleton _, ?_⟩
      intro id hid other hother
      obtain ⟨row, hrow, rfl⟩ := List.mem_map.mp hid
      rw [List.mem_singleton.mp hother]
      exact hfree row hrow
    · intro row hrow
      rcases hrows row hrow with hold | rfl
      · exact h.lived row hold
      · refine lived_of_live rfl ?_
        show link.status ≠ .deleted
        rw [hstatus]
        exact LinkStatus.noConfusion
    · intro id hid row hrow hrowid
      rcases hrows row hrow with hold | rfl
      · exact h.held id hid row hold hrowid
      · rfl
  | edited set hset hlive hunlocked hstore _ hlocked =>
    refine h.updateLinks hset.id hstore ?_ ?_
    · intro row hrow hselected
      exact hset.lived row (hlive row hselected) (h.lived row hrow)
    · intro id hid row hrow hrowid
      rcases hlocked id hid with hold | hnew
      · refine ⟨fun hselected => ?_, fun _ => h.held id hold row hrow hrowid⟩
        exact absurd (hrowid ▸ hold) (hunlocked row hrow hselected)
      · obtain ⟨hselected, hstays⟩ := hnew row hrow hrowid
        exact ⟨fun _ => hstays, fun hnot => by rw [hselected] at hnot; cases hnot⟩
  | joined id write writes => exact h.of_links (joins_links id write w.store) fun _ hid => hid
  | tagged ids owner tags add _ =>
    exact h.of_links (tagged_links ids owner tags add w.store) fun _ hid => hid
  | probed linkID checkedAt statusCode l =>
    refine h.updateLinks ?_ (w.store.RecordLinkHealth_snd linkID checkedAt statusCode) ?_ ?_
    · exact fun _ => rfl
    · exact fun row hrow _ => h.lived row hrow
    · intro id hid row hrow hrowid
      exact ⟨fun _ => h.held id hid row hrow hrowid, fun _ => h.held id hid row hrow hrowid⟩
  | pruned grace limit doomed hunlocked l =>
    refine ⟨h.ids.sublist (List.filter_sublist.map _), ?_, ?_⟩
    · exact fun row hrow => h.lived row (mem_cascade_links.mp hrow).1
    · exact fun id hid row hrow hrowid => h.held id hid row (mem_cascade_links.mp hrow).1 hrowid

/-- A deleted row is not live. -/
theorem not_live {row : LinkRow} (hdead : row.deletedAt.isSome = true) : row.live ≠ true := by
  intro hlive
  rw [LinkRow.live, beq_iff_eq] at hlive
  rw [hlive] at hdead
  cases hdead

/-- A step that changes no row. -/
theorem keeps_of_rows
    (hrows : ∀ row ∈ w.store.links, ∀ row' ∈ x.store.links, row'.id = row.id → row' = row)
    (htags : ∀ row ∈ w.store.links, row.deletedAt.isSome = true →
      (∃ row' ∈ x.store.links, row'.id = row.id) →
        x.store.tagsOf loc row.id = w.store.tagsOf loc row.id)
    (hedits : ∀ row, (edits u call row && succeeded l) = false) : KeepsRows u loc w x call l where
  frozen row hrow hdead := by
    refine frozen_of_columns hdead ?_ (htags row hrow hdead)
    intro row' hrow' hid
    rw [hrows row hrow row' hrow' hid]
    exact ⟨rfl, rfl, rfl, rfl⟩
  version row hrow row' hrow' hid := by
    rw [hrows row hrow row' hrow' hid, hedits row]
    rfl
  probed _ _ _ _ row hrow row' hrow' hid := by rw [hrows row hrow row' hrow' hid]

/-- An edit of live rows. -/
theorem LifeInvariant.keeps_edited (h : LifeInvariant w) {set : LinkRow → LinkRow}
    (hset : Edits set) (hlive : ∀ row, edits u call row = true → row.live = true)
    (hstore : x.store = w.store.updateLinks (edits u call) set) (hok : succeeded l = true) :
    KeepsRows u loc w x call l := by
  have hrows : ∀ row ∈ w.store.links, ∀ row' ∈ x.store.links, row'.id = row.id →
      row' = if edits u call row = true then set row else row := by
    intro row hrow row' hrow' hid
    rw [hstore] at hrow'
    exact eq_of_updateLinks h.ids hset.id hrow hrow' hid
  refine ⟨?_, ?_, ?_⟩
  · intro row hrow hdead
    refine frozen_of_columns hdead ?_ fun _ => by rw [hstore]; rfl
    intro row' hrow' hid
    rw [hrows row hrow row' hrow' hid,
      if_neg fun hselected => not_live hdead (hlive row hselected)]
    exact ⟨rfl, rfl, rfl, rfl⟩
  · intro row hrow row' hrow' hid
    rw [hrows row hrow row' hrow' hid, hok, Bool.and_true]
    split_ifs
    · exact hset.version row
    · rfl
  · rintro linkID checkedAt statusCode rfl row hrow row' hrow' hid
    rw [hrows row hrow row' hrow' hid]
    rfl

/-- What every step does to the rows that are there before and after it. -/
theorem LifeInvariant.keeps (h : LifeInvariant w)
    (hwriting : ∀ id writes, call = .writing id writes → id ∈ w.locked)
    (heffect : LifeEffect u w call x l) : KeepsRows u loc w x call l := by
  have hsame : x.store.links = w.store.links → ∀ row ∈ w.store.links, ∀ row' ∈ x.store.links,
      row'.id = row.id → row' = row := by
    intro hlinks row hrow row' hrow' hid
    exact eq_of_ids h.ids hrow (hlinks ▸ hrow') hid
  cases heffect with
  | same hstore hlocked hedits =>
    exact keeps_of_rows (hsame (by rw [hstore])) (fun _ _ _ _ => by rw [hstore]) hedits
  | inserted link owner hfree hstatus hedits =>
    refine keeps_of_rows ?_ ?_ fun row => by rw [hedits row]; rfl
    · intro row hrow row' hrow' hid
      rw [insertLink_links] at hrow'
      rcases List.mem_append.mp hrow' with hold | hnew
      · exact eq_of_ids h.ids hrow hold hid
      · rw [List.mem_singleton.mp hnew] at hid
        exact absurd hid.symm (hfree row hrow)
    · intro row hrow _ _
      exact tagsOf_insertLink (hfree row hrow)
  | edited set hset hlive hunlocked hstore hok hlocked => exact h.keeps_edited hset hlive hstore hok
  | joined id write writes =>
    refine keeps_of_rows (hsame (joins_links id write w.store)) ?_ fun _ => rfl
    intro row hrow hdead _
    refine tagsOf_join (fun hid => not_live hdead ?_) write
    exact h.held id (hwriting id _ rfl) row hrow hid
  | tagged ids owner tags add hedits =>
    refine keeps_of_rows (hsame (tagged_links ids owner tags add w.store)) ?_
      fun row => by rw [hedits row]; rfl
    intro row hrow hdead _
    exact tagsOf_bulk h.ids hrow hdead ids owner tags add
  | probed linkID checkedAt statusCode l =>
    have hrows : ∀ row ∈ w.store.links,
        ∀ row' ∈ (w.store.RecordLinkHealth linkID checkedAt statusCode).2.links,
          row'.id = row.id → row' = if (row.id == linkID) = true then
            { row with
              lastCheckedAt := some (toMicroseconds checkedAt)
              lastStatusCode := some statusCode } else row := by
      intro row hrow row' hrow' hid
      rw [RecordLinkHealth_snd] at hrow'
      refine eq_of_updateLinks h.ids ?_ hrow hrow' hid
      exact fun _ => rfl
    refine ⟨?_, ?_, ?_⟩
    · intro row hrow hdead
      refine frozen_of_columns hdead ?_ fun _ => ?_
      · intro row' hrow' hid
        rw [hrows row hrow row' hrow' hid]
        split_ifs <;> exact ⟨rfl, rfl, rfl, rfl⟩
      · rw [RecordLinkHealth_snd]
        rfl
    · intro row hrow row' hrow' hid
      have hedits : edits u (.start (.health linkID checkedAt statusCode)) row = false := rfl
      rw [hrows row hrow row' hrow' hid, hedits, Bool.false_and, if_neg Bool.false_ne_true]
      split_ifs <;> rfl
    · intro _ _ _ _ row hrow row' hrow' hid
      rw [hrows row hrow row' hrow' hid]
      split_ifs <;> rfl
  | pruned grace limit doomed hunlocked l =>
    refine keeps_of_rows ?_ ?_ fun _ => rfl
    · intro row hrow row' hrow' hid
      exact eq_of_ids h.ids hrow (mem_cascade_links.mp hrow').1 hid
    · intro row hrow hdead hstays
      obtain ⟨row', hrow', hid⟩ := hstays
      exact tagsOf_cascade (hid ▸ (mem_cascade_links.mp hrow').2)

end

/-! ## Runs -/

section

variable {u : Unicode} {loc : DatabaseLocale} {w x : LifeWorld} {call l m : LifeCall}
  {now : Instant}

/-- What an operation holds: the lock of the row it writes, and an edit that deletes nothing. -/
def HoldsLock (w : LifeWorld) : LifeCall → Prop
  | .planned edit _ => edit.link.status ≠ .deleted
  | .writing id _ => id ∈ w.locked
  | _ => True

/-- Two operations do not hold the same lock. -/
def LocksApart (l m : LifeCall) : Prop :=
  ∀ id writes writes', l = .writing id writes → m ≠ .writing id writes'

/-- The locks of a step, and those that its operation holds after it. -/
structure LocksStep (w x : LifeWorld) (call l : LifeCall) : Prop where
  holds : HoldsLock x l
  kept : ∀ id ∈ w.locked, id ∈ x.locked ∨ ∃ writes, call = .writing id writes
  taken : ∀ id writes, l = .writing id writes → id ∉ w.locked ∨ ∃ writes, call = .writing id writes

/-- A statement of its own takes no lock. -/
theorem locks_done {res : Except ServiceError Unit} (hlocked : x.locked = w.locked) :
    LocksStep w x call (.done res) where
  holds := trivial
  kept id hid := .inl (hlocked ▸ hid)
  taken id writes hwriting := by cases hwriting

theorem locks_retireStep {id : GoString} {owner : Option Uuid}
    (h : retireStep id owner now w = some (x, l)) : LocksStep w x call l := by
  unfold retireStep at h
  split at h
  · cases h
    exact locks_done rfl
  · split_ifs at h
    cases h
    exact locks_done rfl

theorem locks_bulkEditStep {ctx : Context} {req : BulkLinkRequest}
    (h : bulkEditStep u ctx req now w = some (x, l)) : LocksStep w x call l := by
  unfold bulkEditStep at h
  split at h
  · cases h
    exact locks_done rfl
  · split at h
    · cases h
      exact locks_done rfl
    · split_ifs at h
      cases h
      exact locks_done rfl

/-- An update reads a live row, and plans to leave it so. -/
theorem locks_loadStep {svc : LinkService} {settings : RuntimeSettingsInput} {ctx : Context}
    {id : GoString} {req : UpdateLinkRequest} (h : LifeInvariant w) :
    LocksStep w w call (loadStep u loc svc settings ctx id req w) := by
  unfold loadStep
  split
  · exact locks_done rfl
  rename_i link hget
  split
  · exact locks_done rfl
  rename_i edit hplan
  refine ⟨planUpdate_status hplan ?_, fun id hid => .inl hid, fun id writes hwriting => ?_⟩
  · obtain ⟨uid, row, -, hrow, rfl⟩ := GetLink_ok hget
    obtain ⟨hmem, hselects⟩ := liveRow_eq_some hrow
    have hlive := live_of_selects hselects
    intro hdeleted
    exact not_live ((h.lived row hmem).mp hdeleted) hlive
  · cases hwriting

theorem locks_editStep {edit : LinkEdit} {owner : Option Uuid}
    (h : editStep edit owner now w = some (x, l)) : LocksStep w x call l := by
  unfold editStep at h
  split_ifs at h with hcolumns hany hblocks hparts
  · cases h
    exact locks_done rfl
  · cases h
    exact locks_done rfl
  · cases h
    exact locks_done rfl
  · cases h
    refine ⟨List.mem_cons_self, fun id hid => .inl (List.mem_cons_of_mem _ hid), ?_⟩
    intro id writes hwriting
    cases hwriting
    -- The row it locks was there, and no update had locked it.
    rw [Bool.not_eq_true', Bool.not_eq_false, List.any_eq_true] at hany
    obtain ⟨row, hrow, hselected⟩ := hany
    left
    rw [← id_of_selects hselected]
    exact not_blocks hblocks row hrow hselected

/-- The locks and the edits of an operation after its step. -/
theorem lifeCalls_locks (h : LifeInvariant w) (hholds : HoldsLock w call)
    (hstep : (lifeCalls u loc).step w call now = some (x, l)) : LocksStep w x call l := by
  have hnext : nextLifeStep u loc w call now = some (x, l) := hstep
  unfold nextLifeStep at hnext
  cases call with
  | start request =>
    cases request with
    | create checked aliasName draw owner =>
      cases hnext
      exact locks_done rfl
    | update svc settings ctx id req =>
      cases hnext
      exact locks_loadStep h
    | delete ctx id => exact locks_retireStep hnext
    | bulk ctx req => exact locks_bulkEditStep hnext
    | health linkID checkedAt statusCode =>
      dsimp only at hnext
      split_ifs at hnext
      cases hnext
      exact locks_done rfl
    | prune grace limit =>
      dsimp only at hnext
      split_ifs at hnext
      cases hnext
      exact locks_done rfl
  | planned edit owner => exact locks_editStep hnext
  | writing id writes =>
    cases writes with
    | nil =>
      cases hnext
      refine ⟨trivial, fun other hother => ?_, fun other writes hwriting => by cases hwriting⟩
      by_cases hsame : other = id
      · exact .inr ⟨[], by rw [hsame]⟩
      · exact .inl (List.mem_filter.mpr ⟨hother, bne_iff_ne.mpr hsame⟩)
    | cons write writes =>
      cases hnext
      refine ⟨hholds, fun other hother => .inl hother, fun other rest hwriting => ?_⟩
      cases hwriting
      exact .inr ⟨_, rfl⟩
  | done res => cases hnext

/-- The invariant, the locks and the edits, in every run. -/
theorem lifeInvariant_of_run {init t : Pool LifeWorld LifeCall} {as : List (ℕ × Instant)}
    (hinit : Unstarted init) (hrun : (lifeCalls u loc).machine.run init as = some t) :
    LifeInvariant t.shared ∧ (∀ i, HoldsLock t.shared (t.locals i)) ∧
      ∀ i j, i ≠ j → LocksApart (t.locals i) (t.locals j) := by
  have hstart : ∀ i, HoldsLock init.shared (init.locals i) := by
    intro i
    obtain ⟨request, hrequest⟩ := hinit.started i
    rw [hrequest]
    trivial
  have hapart : ∀ i j, i ≠ j → LocksApart (init.locals i) (init.locals j) := by
    intro i j _ id writes writes' hwriting
    obtain ⟨request, hrequest⟩ := hinit.started i
    rw [hrequest] at hwriting
    cases hwriting
  have hinvariant : LifeInvariant init.shared :=
    ⟨hinit.ids, hinit.lived, fun id hid => by rw [hinit.unlocked] at hid; cases hid⟩
  refine Process.run_locals_apart (I := LifeInvariant) (P := HoldsLock) (R := LocksApart)
    (C := fun _ _ => True) ?_ ?_ ?_ hinvariant hstart hapart
    (Machine.along_of_mem _ (fun _ _ => trivial) init) hrun
  · intro l m h id writes writes' hm hl
    exact h id writes' writes hl hm
  · intro s i a x l hI hP _ hstep
    have heffect := lifeCalls_effect hI.ids
      (fun edit owner hplanned => by rw [hplanned] at hP; exact hP) hstep
    exact ⟨hI.step heffect, (lifeCalls_locks hI hP hstep).holds⟩
  · intro s i a x l m hI hP hm hR hstep
    have hlocks := lifeCalls_locks hI hP hstep
    constructor
    · cases m with
      | start request => trivial
      | planned edit owner => exact hm
      | writing id writes =>
        rcases hlocks.kept id hm with hkept | ⟨writes', hcall⟩
        · exact hkept
        · exact absurd rfl (hR id writes' writes hcall)
      | done res => trivial
    · intro id writes writes' hl hwriting
      rw [hwriting] at hm hR
      rcases hlocks.taken id writes hl with hfree | ⟨writes'', hcall⟩
      · exact hfree hm
      · exact absurd rfl (hR id writes'' writes' hcall)

end

/-- A link that is created, an update of it, and deletions of it. -/
def lateUpdate : Pool LifeWorld LifeCall where
  shared := ⟨{}, []⟩
  locals i :=
    if i = 0 then
      .start (.create ⟨lit "https://example.com/", [], [], [], [], 302, [], 2⟩ (lit "abc")
        ⟨default, 0, none⟩ none)
    else if i = 1 then
      .start (.update ⟨lit "https://go.example"⟩ {} {} (Uuid.toText default)
        { status := lit "disabled" })
    else .start (.delete {} (Uuid.toText default))

theorem lateUpdate_unstarted : Unstarted lateUpdate where
  ids := List.nodup_nil
  lived row hrow := by cases hrow
  unlocked := rfl
  started i := by
    unfold lateUpdate
    dsimp only
    split_ifs <;> exact ⟨_, rfl⟩

end Purels.Properties
