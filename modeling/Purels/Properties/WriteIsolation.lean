import Purels.Properties.ReadIsolation
import Purels.Service.Health
import Purels.Service.LinkSpecs

/-!
# What a restricted account can write

A write of a restricted account leaves the rows of the others, and what hangs
off them, as they are.

* `restrict_of_filters`: the parts of a store that a write has to leave alone.
* The lemmas `restrict_…`: the statements, whose rows are the owner's.
* `WriteRequest` and `WriteRequest.apply`: the calls.
* `write_isolated`, for every call.
-/

namespace Purels.Store.LinkStore

open Go

section

variable {p : LinkRow → Bool} {s t : LinkStore}

/-- A write that leaves the rows `p` chooses, their tags and their rules. -/
theorem restrict_of_filters (hlinks : t.links.filter p = s.links.filter p)
    (htags : t.linkTags.filter (fun tag => s.keeps p tag.1) =
      s.linkTags.filter fun tag => s.keeps p tag.1)
    (hrules : t.rules.filter (fun rule => s.keeps p rule.linkID) =
      s.rules.filter fun rule => s.keeps p rule.linkID)
    (hevents : t.events = s.events) (hdaily : t.daily = s.daily)
    (hseq : t.aliasSeq = s.aliasSeq) : t.restrict p = s.restrict p := by
  have hkeeps : t.keeps p = s.keeps p := by
    funext id
    have hany : ∀ v : LinkStore, v.keeps p id = (v.links.filter p).any fun row => row.id == id := by
      intro v
      rw [List.any_filter]
      rfl
    rw [hany, hany, hlinks]
  unfold restrict
  rw [hkeeps, hlinks, htags, hrules, hevents, hdaily, hseq]

/-- An update of rows that `p` does not choose, before or after. -/
theorem filter_updateLinks {selected : LinkRow → Bool} {set : LinkRow → LinkRow}
    (hset : ∀ row ∈ s.links, selected row → p row = false ∧ p (set row) = false) :
    (s.updateLinks selected set).links.filter p = s.links.filter p := by
  show (s.links.map fun row => if selected row then set row else row).filter p = _
  generalize s.links = rows at hset
  induction rows with
  | nil => rfl
  | cons row rows ih =>
    have hrest := ih fun other hother => hset other (List.mem_cons_of_mem row hother)
    rw [List.map_cons]
    by_cases hselected : selected row = true
    · obtain ⟨hold, hnew⟩ := hset row List.mem_cons_self hselected
      rw [if_pos hselected, List.filter_cons_of_neg (by simp [hnew]),
        List.filter_cons_of_neg (by simp [hold]), hrest]
    · rw [if_neg hselected, List.filter_cons, List.filter_cons, hrest]

theorem restrict_updateLinks {selected : LinkRow → Bool} {set : LinkRow → LinkRow}
    (hset : ∀ row ∈ s.links, selected row → p row = false ∧ p (set row) = false) :
    (s.updateLinks selected set).restrict p = s.restrict p :=
  restrict_of_filters (filter_updateLinks hset) rfl rfl rfl rfl rfl

/-- Replacing what hangs off one link leaves what hangs off the others. -/
theorem filter_replaced {α : Type*} (key : α → Uuid) {keep : Uuid → Bool} {id : Uuid}
    (hid : keep id = false) {old new : List α} (hnew : ∀ a ∈ new, key a = id) :
    ((old.filter fun a => key a != id) ++ new).filter (fun a => keep (key a)) =
      old.filter fun a => keep (key a) := by
  have hnone : new.filter (fun a => keep (key a)) = [] := by
    refine List.filter_eq_nil_iff.mpr fun a ha => ?_
    rw [hnew a ha, hid]
    exact Bool.false_ne_true
  rw [List.filter_append, hnone, List.append_nil, List.filter_filter]
  refine List.filter_congr fun a _ => ?_
  by_cases hkey : key a = id
  · simp [hkey, hid]
  · simp [hkey]

theorem restrict_setLinkTags {id : Uuid} (hid : s.keeps p id = false) (tags : List GoString) :
    (s.setLinkTags id tags).restrict p = s.restrict p := by
  refine restrict_of_filters rfl (filter_replaced Prod.fst hid fun t ht => ?_) rfl rfl rfl rfl
  obtain ⟨name, -, rfl⟩ := List.mem_map.mp ht
  rfl

theorem restrict_setLinkRules {id : Uuid} (hid : s.keeps p id = false) (rules : List LinkRule) :
    (s.setLinkRules id rules).restrict p = s.restrict p :=
  restrict_of_filters rfl rfl
    (filter_replaced RuleRow.linkID hid fun _ hrule => (mem_ruleRows hrule).1) rfl rfl rfl

/-- The rows that are kept are those that are kept of the restriction. -/
theorem keeps_restrict (h : t.restrict p = s.restrict p) (id : Uuid) :
    t.keeps p id = s.keeps p id := by
  have hany : ∀ v : LinkStore, v.keeps p id = (v.restrict p).links.any fun row => row.id == id := by
    intro v
    show _ = (v.links.filter p).any _
    rw [List.any_filter]
    rfl
  rw [hany, hany, h]

end

/-! ## The statements of an owner -/

section

variable {s : LinkStore} {actor : Uuid}

/-- The rows of other accounts and of nobody. -/
def others (actor : Uuid) (row : LinkRow) : Bool := row.userID != some actor

theorem others_of_visibleTo {row : LinkRow} (h : row.visibleTo (some actor)) :
    others actor row = false := by
  have howner : row.userID = some actor := by simpa [LinkRow.visibleTo] using h
  simp [others, howner]

theorem others_of_selects {id : Uuid} {row : LinkRow} (h : selects id (some actor) row) :
    others actor row = false :=
  others_of_visibleTo (Bool.and_eq_true_iff.mp h).2

theorem others_of_bulkSelects {ids : List Uuid} {row : LinkRow}
    (h : bulkSelects ids (some actor) row) : others actor row = false :=
  others_of_visibleTo (Bool.and_eq_true_iff.mp h).2

/-- The identifier of a row that is not theirs is the identifier of none of theirs. -/
theorem keeps_others (hids : (s.links.map LinkRow.id).Nodup) {row : LinkRow} (hrow : row ∈ s.links)
    (hown : others actor row = false) : s.keeps (others actor) row.id = false := by
  refine Bool.eq_false_iff.mpr fun hkeeps => ?_
  obtain ⟨other, hother, hmatch⟩ := List.any_eq_true.mp hkeeps
  obtain ⟨htheirs, hid⟩ := Bool.and_eq_true_iff.mp hmatch
  have hsame := List.inj_on_of_nodup_map hids hother hrow (beq_iff_eq.mp hid)
  rw [hsame, hown] at htheirs
  exact Bool.false_ne_true htheirs

/-- The statements of an update. -/
theorem restrict_editLink (hids : (s.links.map LinkRow.id).Nodup) {link : Link} {row : LinkRow}
    (hrow : row ∈ s.links) (hselects : selects link.id (some actor) row)
    (tags : Option (List GoString)) (rules : Option (List LinkRule)) (now : Instant) :
    (s.editLink link tags rules (some actor) now).restrict (others actor) =
      s.restrict (others actor) := by
  have hid : row.id = link.id := by
    simp only [selects, Bool.and_eq_true, beq_iff_eq] at hselects
    exact hselects.1.1
  have hkeeps : s.keeps (others actor) link.id = false :=
    hid ▸ keeps_others hids hrow (others_of_selects hselects)
  have hedited : (s.updateLinks (selects link.id (some actor)) (editRow link now)).restrict
      (others actor) = s.restrict (others actor) :=
    restrict_updateLinks fun _ _ h => ⟨others_of_selects h, others_of_selects h⟩
  unfold editLink
  cases tags with
  | none =>
    cases rules with
    | none => exact hedited
    | some rules =>
      exact (restrict_setLinkRules ((keeps_restrict hedited link.id).trans hkeeps) rules).trans hedited
  | some tags =>
    have htagged := (restrict_setLinkTags ((keeps_restrict hedited link.id).trans hkeeps)
      tags).trans hedited
    cases rules with
    | none => exact htagged
    | some rules =>
      exact (restrict_setLinkRules ((keeps_restrict htagged link.id).trans hkeeps) rules).trans htagged

/-- A bulk edit of rows. -/
theorem restrict_bulkLinkUpdate (ids : List GoString) (set : LinkRow → LinkRow)
    (hset : ∀ row, (set row).userID = row.userID) (now : Instant) :
    (s.bulkLinkUpdate ids (some actor) set now).2.restrict (others actor) =
      s.restrict (others actor) := by
  unfold bulkLinkUpdate
  split
  · rfl
  · refine restrict_updateLinks fun row _ h => ⟨others_of_bulkSelects h, ?_⟩
    have hown := others_of_bulkSelects h
    unfold others at hown ⊢
    dsimp only
    rw [hset row]
    exact hown

/-- A bulk edit of tags. -/
theorem restrict_BulkTagLinks (hids : (s.links.map LinkRow.id).Nodup) (ids : List GoString)
    (tags : List GoString) (add : Bool) :
    (s.BulkTagLinks ids (some actor) tags add).2.restrict (others actor) =
      s.restrict (others actor) := by
  unfold BulkTagLinks
  split
  · rfl
  rename_i ids' _
  dsimp only
  split_ifs
  · rfl
  · refine restrict_of_filters rfl ?_ rfl rfl rfl rfl
    show (s.linkTags ++ s.newTagLinks _ tags).filter _ = _
    have hnone : (s.newTagLinks (bulkSelects ids' (some actor)) tags).filter
        (fun tag => s.keeps (others actor) tag.1) = [] := by
      refine List.filter_eq_nil_iff.mpr fun tag htag => ?_
      obtain ⟨row, hrow, hnames⟩ := List.mem_flatMap.mp (List.mem_filter.mp htag).1
      obtain ⟨name, -, rfl⟩ := List.mem_map.mp hnames
      obtain ⟨hmem, hselected⟩ := List.mem_filter.mp hrow
      rw [keeps_others hids hmem (others_of_bulkSelects hselected)]
      exact Bool.false_ne_true
    rw [List.filter_append, hnone, List.append_nil]
  · refine restrict_of_filters rfl ?_ rfl rfl rfl rfl
    show (s.linkTags.filter _).filter _ = _
    rw [List.filter_filter]
    refine List.filter_congr fun tag _ => ?_
    by_cases hkept : s.keeps (others actor) tag.1 = true
    · -- a tag link of theirs has no row of the owner, so it stays
      have hnot : (s.links.any fun row => row.id == tag.1 && bulkSelects ids' (some actor) row) =
          false := by
        refine Bool.eq_false_iff.mpr fun hany => ?_
        obtain ⟨row, hrow, hmatch⟩ := List.any_eq_true.mp hany
        obtain ⟨hid, hselected⟩ := Bool.and_eq_true_iff.mp hmatch
        have hgone := keeps_others hids hrow (others_of_bulkSelects hselected)
        rw [beq_iff_eq.mp hid, hkept] at hgone
        cases hgone
      simp [hkept, hnot]
    · simp [hkept]

end

end Purels.Store.LinkStore

namespace Purels.Properties

open Go Store LinkStore Service

/-! ## Calls -/

/-- A call that writes to a link by its identifier. -/
inductive WriteRequest where
  | update (id : GoString) (req : UpdateLinkRequest)
  | delete (id : GoString)
  | bulk (req : BulkLinkRequest)
  | check (id : GoString)

section

variable (u : Unicode) (loc : DatabaseLocale) (svc : LinkService) (settings : RuntimeSettingsInput)
  (probe : GoString → Probe)

/-- The store after a call. -/
def WriteRequest.apply (ctx : Context) (now : Instant) (s : LinkStore) : WriteRequest → LinkStore
  | .update id req => (Update u loc svc settings ctx id req now s).2
  | .delete id => (Delete loc ctx id now s).2
  | .bulk req => (Bulk u ctx req now s).2
  | .check id => (CheckLink loc probe ctx id now s).2

variable {s : LinkStore} {ctx : Context} {actor : Uuid}

theorem restrict_Update (hids : (s.links.map LinkRow.id).Nodup) (howner : ctx.ownerID = some actor)
    (id : GoString) (req : UpdateLinkRequest) (now : Instant) :
    (Update u loc svc settings ctx id req now s).2.restrict (others actor) =
      s.restrict (others actor) := by
  rcases Update_cases u loc svc settings ctx id req now s with
    ⟨e, heq⟩ | ⟨link, edit, -, -, -, hupdate, heq⟩ <;> rw [heq]
  rcases s.UpdateLink_cases edit.link edit.tags edit.rules ctx.ownerID now with
    ⟨e, he⟩ | ⟨-, -, hany, -⟩
  · simp [he] at hupdate
  rw [howner] at hany ⊢
  obtain ⟨row, hrow, hselects⟩ := List.any_eq_true.mp hany
  exact restrict_editLink hids hrow hselects edit.tags edit.rules now

theorem restrict_Delete (howner : ctx.ownerID = some actor) (id : GoString) (now : Instant) :
    (Delete loc ctx id now s).2.restrict (others actor) = s.restrict (others actor) := by
  unfold Delete
  split
  · rfl
  rename_i link _
  rcases s.DeleteLink_cases id ctx.ownerID now with ⟨e, he⟩ | ⟨uid, -, -, hok⟩
  · rw [he]
  · rw [hok, howner]
    refine restrict_updateLinks fun row _ h => ⟨others_of_selects h, ?_⟩
    show others actor row = false
    exact others_of_selects h

theorem restrict_Bulk (hids : (s.links.map LinkRow.id).Nodup) (howner : ctx.ownerID = some actor)
    (req : BulkLinkRequest) (now : Instant) :
    (Bulk u ctx req now s).2.restrict (others actor) = s.restrict (others actor) := by
  unfold Bulk
  split
  · rfl
  rename_i ids _
  split
  · rfl
  rename_i edit _
  rw [howner]
  have hcounted : ∀ res, (BulkEdit.apply.counted res).2 = res.2 := by
    rintro ⟨res, store⟩
    cases res <;> rfl
  cases edit with
  | delete =>
    show (BulkEdit.apply.counted _).2.restrict _ = _
    rw [hcounted]
    exact restrict_bulkLinkUpdate ids _ (by intro _; rfl) now
  | setStatus status =>
    show (BulkEdit.apply.counted _).2.restrict _ = _
    rw [hcounted]
    exact restrict_bulkLinkUpdate ids _ (by intro _; rfl) now
  | setExpiry expiresAt =>
    show (BulkEdit.apply.counted _).2.restrict _ = _
    rw [hcounted]
    exact restrict_bulkLinkUpdate ids _ (by intro _; rfl) now
  | tag tags add =>
    have htags : (s.BulkTagLinks ids (some actor) tags add).2.restrict (others actor) =
        s.restrict (others actor) := restrict_BulkTagLinks hids ids tags add
    unfold BulkEdit.apply
    dsimp only
    split <;> rename_i heq <;> rw [heq] at htags <;> exact htags

theorem restrict_CheckLink (hids : (s.links.map LinkRow.id).Nodup)
    (howner : ctx.ownerID = some actor) (id : GoString) (now : Instant) :
    (CheckLink loc probe ctx id now s).2.restrict (others actor) = s.restrict (others actor) := by
  unfold CheckLink
  split
  · rfl
  rename_i link hget
  obtain ⟨uid, row, -, hfound, rfl⟩ := GetLink_ok hget
  obtain ⟨hrow, hselects⟩ := liveRow_eq_some hfound
  rcases Check_cases probe (s.toLink loc row).id (s.toLink loc row).destinationURL now s with
    ⟨e, heq⟩ | ⟨health, checkedAt, statusCode, heq⟩ <;> rw [heq]
  -- the row that is probed is the caller's, and no other has its identifier
  have hown := others_of_selects (howner ▸ hselects)
  refine restrict_updateLinks fun other hother hid => ?_
  obtain rfl := List.inj_on_of_nodup_map hids hother hrow (beq_iff_eq.mp hid)
  exact ⟨hown, hown⟩

/-- Write isolation.  No update, deletion, bulk edit or check by a restricted account
changes a row of another account or of nobody, or what hangs off such a row. -/
theorem write_isolated (s : LinkStore) (ctx : Context) (user : User) (request : WriteRequest)
    (now : Instant) (hids : (s.links.map LinkRow.id).Nodup) (huser : ctx.user = some user)
    (hrestricted : user.unrestricted = false) :
    (request.apply u loc svc settings probe ctx now s).restrict (others user.id) =
      s.restrict (others user.id) := by
  have howner : ctx.ownerID = some user.id := by
    simp [Context.ownerID, huser, hrestricted]
  cases request with
  | update id req => exact restrict_Update u loc svc settings hids howner id req now
  | delete id => exact restrict_Delete loc howner id now
  | bulk req => exact restrict_Bulk u hids howner req now
  | check id => exact restrict_CheckLink loc probe hids howner id now

end

/-- A link of nobody. -/
def unowned : LinkStore where
  links := [{ id := default, aliasName := lit "abc", destinationURL := lit "http://example.com/" }]

theorem write_isolated_unowned :
    ((WriteRequest.delete (Uuid.toText default)).apply .ascii plainLocale ⟨lit "http://sho.rt"⟩ {}
        (fun _ => .unconfigured) regularContext 0 unowned).restrict (others regular.id) =
      unowned.restrict (others regular.id) :=
  write_isolated .ascii plainLocale ⟨lit "http://sho.rt"⟩ {} (fun _ => .unconfigured) unowned
    regularContext regular (.delete (Uuid.toText default)) 0 (by decide) rfl rfl

end Purels.Properties
