import Purels.Service.ImportSteps
import Purels.Service.LinkSpecs
import Purels.Store.Upkeep

/-!
# The quota of links

The cap on the links of an account, over sequential runs of creates, imports, edits, deletes,
prunes and changes of the settings.

* `CountLinksByOwner` under every statement.
* `CreateCall`: one call of `Create`; `Create_quotaExceeded` and `checkCreate_quota`: which
  refusals are the quota's.
* `QuotaKept` and `quotaKept`: what one call keeps.
* `importCalls` and `Chained`: the calls of an import, one after the other.
* `step`, `run` and `quota_kept`: every call of every run, and what a run leaves.
-/

namespace Purels.Properties

open Go Security Store LinkStore Service

/-! ## The count of links -/

section

variable (owner : Uuid)

theorem CountLinksByOwner_sameRows {s t : LinkStore} (h : SameRows s t) :
    t.CountLinksByOwner owner = s.CountLinksByOwner owner := by
  obtain ⟨n, rfl⟩ := h
  rfl

/-- A new link counts for its account, and for no other. -/
theorem CountLinksByOwner_insertLink (s : LinkStore) (link : Link) (actor : Option Uuid) :
    (s.insertLink link actor).CountLinksByOwner owner =
      s.CountLinksByOwner owner + if actor = some owner then 1 else 0 := by
  have hlinks : (s.insertLink link actor).links = s.links ++ [newRow link actor] := by
    unfold LinkStore.insertLink
    dsimp only
    split_ifs <;> rfl
  unfold CountLinksByOwner
  rw [hlinks, List.countP_append, List.countP_singleton]
  simp [newRow, LinkRow.live]

/-- An edit that neither gives a row away nor revives it adds none to a count. -/
theorem CountLinksByOwner_updateLinks (s : LinkStore) (selected : LinkRow → Bool)
    {set : LinkRow → LinkRow}
    (hset : ∀ row, (set row).userID = row.userID ∧ ((set row).live → row.live)) :
    (s.updateLinks selected set).CountLinksByOwner owner ≤ s.CountLinksByOwner owner := by
  unfold CountLinksByOwner updateLinks
  rw [List.countP_map]
  refine List.countP_mono_left fun row _ hrow => ?_
  dsimp only [Function.comp_apply] at hrow
  split_ifs at hrow with hselected
  · rw [Bool.and_eq_true, (hset row).1] at hrow
    rw [Bool.and_eq_true]
    exact ⟨hrow.1, (hset row).2 hrow.2⟩
  · exact hrow

theorem CountLinksByOwner_cascade (s : LinkStore) (doomed : List Uuid) :
    (s.cascade doomed).CountLinksByOwner owner ≤ s.CountLinksByOwner owner :=
  List.filter_sublist.countP_le

theorem CountLinksByOwner_Update (u : Unicode) (loc : DatabaseLocale) (svc : LinkService)
    (settings : RuntimeSettingsInput) (ctx : Context) (id : GoString) (req : UpdateLinkRequest)
    (now : Instant) (s : LinkStore) :
    (Update u loc svc settings ctx id req now s).2.CountLinksByOwner owner ≤
      s.CountLinksByOwner owner := by
  rcases Update_cases u loc svc settings ctx id req now s with
    ⟨e, he⟩ | ⟨link, edit, -, -, -, -, hok⟩
  · rw [he]
  · have hlinks : (s.editLink edit.link edit.tags edit.rules ctx.ownerID now).links =
        (s.updateLinks (selects edit.link.id ctx.ownerID) (editRow edit.link now)).links := by
      unfold editLink
      cases edit.tags <;> cases edit.rules <;> rfl
    have hle : (s.updateLinks (selects edit.link.id ctx.ownerID)
        (editRow edit.link now)).CountLinksByOwner owner ≤ s.CountLinksByOwner owner :=
      CountLinksByOwner_updateLinks owner s _ fun row => ⟨rfl, fun h => h⟩
    rw [hok]
    unfold CountLinksByOwner at hle ⊢
    rw [hlinks]
    exact hle

theorem CountLinksByOwner_Delete (loc : DatabaseLocale) (ctx : Context) (id : GoString)
    (now : Instant) (s : LinkStore) :
    (Delete loc ctx id now s).2.CountLinksByOwner owner ≤ s.CountLinksByOwner owner := by
  unfold Delete
  split
  · exact le_rfl
  · rcases s.DeleteLink_cases id ctx.ownerID now with ⟨e, he⟩ | ⟨uid, -, -, hok⟩
    · rw [he]
    · rw [hok]
      exact CountLinksByOwner_updateLinks owner s _ fun row =>
        ⟨rfl, fun h => by simp [retireRow, LinkRow.live] at h⟩

theorem CountLinksByOwner_Bulk (u : Unicode) (ctx : Context) (req : BulkLinkRequest)
    (now : Instant) (s : LinkStore) :
    (Bulk u ctx req now s).2.CountLinksByOwner owner ≤ s.CountLinksByOwner owner := by
  rcases Bulk_cases u ctx req now s with
    ⟨res, names, linkTags, hres, -⟩ | ⟨selected, set, hset, hok⟩
  · rw [hres]
    exact le_rfl
  · rw [hok]
    exact CountLinksByOwner_updateLinks owner s _ fun row => ⟨(hset row).userID, (hset row).live⟩

end

/-! ## The refusals that are the quota's -/

/-- The result is not a refusal for quota. -/
def NotQuota {α : Type} (res : Except ServiceError α) : Prop := res ≠ .error .quotaExceeded

theorem notQuota_ok {α : Type} (a : α) : NotQuota (.ok a) := nofun

theorem notQuota_invalid {α : Type} (text : String) :
    NotQuota (.error (.invalid text) : Except _ α) :=
  nofun

/-- A failure that is passed on. -/
theorem NotQuota.error {α β : Type} {res : Except ServiceError α} (h : NotQuota res)
    {e : ServiceError} (he : res = .error e) : NotQuota (.error e : Except _ β) := by
  intro hquota
  cases hquota
  exact h he

section

variable (u : Unicode)

theorem notQuota_ValidateDestination (raw : GoString) : NotQuota (ValidateDestination u raw) := by
  unfold ValidateDestination
  split_ifs
  · exact notQuota_invalid _
  · exact notQuota_invalid _
  · split
    · exact notQuota_invalid _
    · split_ifs
      · exact notQuota_invalid _
      · exact notQuota_invalid _
      · exact notQuota_invalid _
      · exact notQuota_invalid _
      · exact notQuota_ok _

theorem notQuota_checkDestination (denylist : List GoString) (raw : GoString) :
    NotQuota (checkDestination u denylist raw) := by
  unfold checkDestination
  split
  · rename_i he
    exact (notQuota_ValidateDestination u raw).error he
  · split_ifs
    · exact notQuota_invalid _
    · exact notQuota_ok _

theorem notQuota_NormalizeTitle (title : GoString) : NotQuota (NormalizeTitle title) := by
  unfold NormalizeTitle
  dsimp only
  split_ifs
  · exact notQuota_invalid _
  · exact notQuota_ok _

theorem notQuota_normalizeTagsFrom (out tags : List GoString) :
    NotQuota (normalizeTagsFrom u out tags) := by
  induction tags generalizing out with
  | nil => exact notQuota_ok _
  | cons raw tags ih =>
    rw [normalizeTagsFrom_cons]
    split_ifs
    · exact ih out
    · exact notQuota_invalid _
    · nofun
    · exact ih out
    · exact ih _

theorem notQuota_NormalizeTags (tags : List GoString) : NotQuota (NormalizeTags u tags) := by
  unfold NormalizeTags
  split
  · rename_i he
    exact (notQuota_normalizeTagsFrom u [] tags).error he
  · split_ifs
    · exact notQuota_invalid _
    · exact notQuota_ok _

theorem notQuota_ruleValue (matchType : MatchType) (raw : GoString) :
    NotQuota (ruleValue u matchType raw) := by
  unfold ruleValue
  dsimp only
  by_cases hblank : trimSpace raw = []
  · rw [if_pos hblank]
    exact notQuota_invalid _
  rw [if_neg hblank]
  by_cases hlong : (runes (trimSpace raw)).length > maxRuleValueLength
  · rw [if_pos hlong]
    exact notQuota_invalid _
  rw [if_neg hlong]
  cases matchType with
  | uaContains => exact notQuota_ok _
  | device =>
    dsimp only
    split_ifs
    · exact notQuota_ok _
    · exact notQuota_invalid _

theorem notQuota_normalizeRule (denylist : List GoString) (index : Nat) (rule : LinkRuleInput) :
    NotQuota (normalizeRule u denylist index rule) := by
  unfold normalizeRule
  split
  · exact notQuota_invalid _
  split
  · rename_i he
    exact (notQuota_ruleValue u _ _).error he
  split
  · rename_i he
    exact (notQuota_checkDestination u _ _).error he
  · split_ifs
    · exact notQuota_invalid _
    · exact notQuota_ok _

theorem notQuota_normalizeRulesFrom (denylist : List GoString) (index : Nat)
    (rules : List LinkRuleInput) : NotQuota (normalizeRulesFrom u denylist index rules) := by
  induction rules generalizing index with
  | nil => exact notQuota_ok _
  | cons rule rules ih =>
    unfold normalizeRulesFrom
    split
    · rename_i he
      exact (notQuota_normalizeRule u denylist index rule).error he
    split
    · rename_i he
      exact (ih (index + 1)).error he
    · exact notQuota_ok _

theorem notQuota_normalizeRules (rules : List LinkRuleInput) (denylist : List GoString) :
    NotQuota (normalizeRules u rules denylist) := by
  unfold normalizeRules
  split_ifs
  · exact notQuota_invalid _
  · exact notQuota_normalizeRulesFrom u denylist 0 rules

theorem notQuota_normalizeDomain (raw : GoString) (allowedDomains : List GoString) :
    NotQuota (normalizeDomain u raw allowedDomains) := by
  unfold normalizeDomain
  dsimp only
  split_ifs
  · exact notQuota_ok _
  · exact notQuota_invalid _
  · exact notQuota_ok _
  · exact notQuota_invalid _

theorem notQuota_interstitialSeconds (requested : Option Int) :
    NotQuota (interstitialSeconds requested) := by
  unfold interstitialSeconds
  cases requested with
  | none => exact notQuota_ok _
  | some seconds =>
    dsimp only
    split_ifs
    · exact notQuota_invalid _
    · exact notQuota_ok _

/-- None of the checks at the head of `Create` refuses for quota. -/
theorem notQuota_checkCreate (settings : RuntimeSettingsInput) (req : CreateLinkRequest) :
    NotQuota (checkCreate u settings req) := by
  unfold checkCreate
  split
  · rename_i he
    exact (notQuota_checkDestination u _ _).error he
  split
  · rename_i he
    exact (notQuota_NormalizeTitle _).error he
  split
  · rename_i he
    exact (notQuota_NormalizeTags u _).error he
  split
  · rename_i he
    exact (notQuota_normalizeRules u _ _).error he
  split
  · rename_i he
    exact (notQuota_normalizeDomain u _ _).error he
  dsimp only
  by_cases hcode : (if req.redirectCode = 0 then 302 else req.redirectCode) ≠ 301 ∧
      (if req.redirectCode = 0 then 302 else req.redirectCode) ≠ 302
  · rw [if_pos hcode]
    exact notQuota_invalid _
  rw [if_neg hcode]
  split
  · rename_i he
    exact (notQuota_interstitialSeconds _).error he
  · exact notQuota_ok _

variable {u} {svc : LinkService} {settings : RuntimeSettingsInput}

theorem notQuota_insertLink (u : Unicode) (svc : LinkService) (settings : RuntimeSettingsInput)
    (link : Link) (owner : Option Uuid) (s : LinkStore) :
    NotQuota (insertLink u svc settings link owner s).1 := by
  unfold Service.insertLink
  split
  · rename_i he
    unfold rejectSelf at he
    split_ifs at he
    · cases he
      nofun
    · cases he
      nofun
  · unfold CreateLink
    split_ifs
    · nofun
    · nofun
    · nofun
    · exact notQuota_ok _

/-- Nor does the retry loop. -/
theorem notQuota_createAttempts (checked : CheckedLink) (owner : Option Uuid) (draws : List Draw)
    (s : LinkStore) : NotQuota (createAttempts u svc settings checked owner draws s).1 := by
  induction draws generalizing s with
  | nil => nofun
  | cons draw draws ih =>
    rw [createAttempts]
    split
    · rename_i he
      unfold nextAlias at he
      split_ifs at he
      · cases he
      · split at he
        · cases he
        · cases he
          exact notQuota_invalid _
    · split_ifs
      · exact ih _
      · dsimp only
        split
        · exact notQuota_ok _
        · rename_i e t he
          split_ifs
          · exact ih _
          · exact (notQuota_insertLink u svc settings _ _ _).error (congrArg Prod.fst he)

end

/-! ## One call -/

section

variable (u : Unicode) (loc : DatabaseLocale) (svc : LinkService)

/-- A call of `Create`. -/
structure CreateCall where
  settings : RuntimeSettingsInput
  ctx : Context
  req : CreateLinkRequest
  now : Instant
  draws : Fin aliasAttempts → Draw
  before : LinkStore

/-- What the call returns, and the tables it leaves. -/
def CreateCall.outcome (call : CreateCall) : Except ServiceError CreateResult × LinkStore :=
  Create u loc svc call.settings call.ctx call.req call.now call.draws call.before

/-- The account is subject to the cap of the settings. -/
def Restricted (settings : RuntimeSettingsInput) (ctx : Context) (user : User) : Prop :=
  ctx.user = some user ∧ user.unrestricted = false ∧ 0 < settings.maxLinksPerUser

/-- What a call keeps of the quota. -/
structure QuotaKept (call : CreateCall) : Prop where
  /-- A call that mints a link leaves its owner one more, and at most the cap. -/
  minted : ∀ link, (call.outcome u loc svc).1 = .ok ⟨link, true⟩ →
    ∀ user, Restricted call.settings call.ctx user →
      (call.outcome u loc svc).2.CountLinksByOwner user.id =
          call.before.CountLinksByOwner user.id + 1 ∧
        ((call.outcome u loc svc).2.CountLinksByOwner user.id : Int) ≤
          call.settings.maxLinksPerUser
  /-- A refused call writes no row, and nothing at all when the refusal is the quota's: at most
  it has drawn from the alias sequence. -/
  refused : ∀ e, (call.outcome u loc svc).1 = .error e →
    SameRows call.before (call.outcome u loc svc).2 ∧
      (e = .quotaExceeded → (call.outcome u loc svc).2 = call.before)
  /-- A call that finds a link to reuse is refused only by the checks at the head of `Create`,
  which know no quota. -/
  reused : ∀ existing, call.req.aliasName = [] →
    reuseLink loc call.settings call.ctx call.req.destinationURL call.now call.before =
      .ok (some existing) →
    (call.outcome u loc svc).1 ≠ .error .quotaExceeded ∧
      (call.outcome u loc svc).2 = call.before ∧
      ∀ checked, checkCreate u call.settings call.req = .ok checked →
        (call.outcome u loc svc).1 = .ok ⟨existing, false⟩

variable {u loc svc} {settings : RuntimeSettingsInput} {ctx : Context} {req : CreateLinkRequest}
  {now : Instant} {draws : Fin aliasAttempts → Draw} {s : LinkStore}

/-- A restricted account passes the check below the cap only. -/
theorem checkQuota_restricted {user : User} (h : Restricted settings ctx user)
    (hquota : checkQuota settings ctx s = .ok ()) :
    (s.CountLinksByOwner user.id : Int) < settings.maxLinksPerUser := by
  have hcap := h.2.2
  unfold checkQuota at hquota
  rw [h.1] at hquota
  dsimp only at hquota
  rw [if_neg (by rw [h.2.1]; simp; omega)] at hquota
  split_ifs at hquota with hfull
  omega

/-- Both ways to a new link pass the check. -/
theorem checkQuota_of_minted {link : Link}
    (h : (Create u loc svc settings ctx req now draws s).1 = .ok ⟨link, true⟩) :
    checkQuota settings ctx s = .ok () := by
  unfold Create at h
  split at h
  · cases h
  by_cases hnamed : req.aliasName ≠ []
  · rw [if_pos hnamed, createNamed] at h
    split at h
    · cases h
    split at h
    · cases h
    · assumption
  · rw [if_neg hnamed] at h
    split at h
    · cases h
    · cases h
    · split at h
      · cases h
      · assumption

/-- A call that the quota refuses is refused before it draws an alias. -/
theorem Create_quotaExceeded
    (h : (Create u loc svc settings ctx req now draws s).1 = .error .quotaExceeded) :
    (Create u loc svc settings ctx req now draws s).2 = s := by
  unfold Create at h ⊢
  split
  · rfl
  rename_i checked hchecked
  rw [hchecked] at h
  dsimp only at h
  by_cases hnamed : req.aliasName ≠ []
  · rw [if_pos hnamed] at h ⊢
    unfold createNamed at h ⊢
    split
    · rfl
    rename_i aliasName halias
    rw [halias] at h
    dsimp only at h
    split
    · rfl
    rename_i hquota
    rw [hquota] at h
    dsimp only at h ⊢
    have hinsert := notQuota_insertLink u svc settings (newLink checked aliasName (draws 0))
      ctx.actorID s
    split
    · rename_i e t he
      rw [he] at h hinsert
      exact absurd h (hinsert.error (by exact rfl))
    · rename_i t he
      rw [he] at h
      cases h
  · rw [if_neg hnamed] at h ⊢
    split
    · rfl
    · rfl
    rename_i hreuse
    rw [hreuse] at h
    dsimp only at h
    split
    · rfl
    rename_i hquota
    rw [hquota] at h
    exact absurd h (notQuota_createAttempts checked ctx.actorID (List.ofFn draws) s)

/-- The lookup comes before the check, so a link found is handed back whatever the count. -/
theorem Create_reused (u : Unicode) (svc : LinkService) (draws : Fin aliasAttempts → Draw)
    {existing : Link} (hunnamed : req.aliasName = [])
    (hreuse : reuseLink loc settings ctx req.destinationURL now s = .ok (some existing)) :
    (∃ e, checkCreate u settings req = .error e ∧
      Create u loc svc settings ctx req now draws s = (.error e, s)) ∨
    Create u loc svc settings ctx req now draws s = (.ok ⟨existing, false⟩, s) := by
  unfold Create
  cases hchecked : checkCreate u settings req with
  | error e => exact .inl ⟨e, rfl, rfl⟩
  | ok checked =>
    dsimp only
    rw [if_neg (not_not_intro hunnamed), hreuse]
    exact .inr rfl

/-- A call that mints a link adds it to the count of its account. -/
theorem Create_minted {link : Link} (owner : Uuid)
    (h : (Create u loc svc settings ctx req now draws s).1 = .ok ⟨link, true⟩) :
    (Create u loc svc settings ctx req now draws s).2.CountLinksByOwner owner =
      s.CountLinksByOwner owner + if ctx.actorID = some owner then 1 else 0 := by
  rcases Create_cases u loc svc settings ctx req now draws s with
    ⟨e, t, he, -⟩ | ⟨checked, found, hok, -⟩ | ⟨checked, made, t, hok, -, -, hinserts⟩
  · rw [he] at h
    cases h
  · rw [hok] at h
    cases h
  · obtain ⟨v, hsame, hcreate⟩ := hinserts.inserted
    obtain ⟨-, -, -, -, -, -, rfl⟩ := CreateLink_fits hcreate
    rw [hok]
    dsimp only
    rw [CountLinksByOwner_insertLink, CountLinksByOwner_sameRows owner hsame]

/-- Any other call leaves the rows as they are. -/
theorem Create_sameRows
    (h : ∀ link, (Create u loc svc settings ctx req now draws s).1 ≠ .ok ⟨link, true⟩) :
    SameRows s (Create u loc svc settings ctx req now draws s).2 := by
  rcases Create_cases u loc svc settings ctx req now draws s with
    ⟨e, t, he, hsame⟩ | ⟨checked, found, hok, -⟩ | ⟨checked, made, t, hok, -⟩
  · rw [he]
    exact hsame
  · rw [hok]
    exact SameRows.refl s
  · exact absurd (congrArg Prod.fst hok) (h made)

/-- Every call keeps the quota. -/
theorem quotaKept (call : CreateCall) : QuotaKept u loc svc call where
  minted link hmint user hrestricted := by
    have hactor : call.ctx.actorID = some user.id := by
      rw [Context.actorID, hrestricted.1, Option.map_some]
    have hcount := Create_minted user.id hmint
    have hbelow := checkQuota_restricted hrestricted (checkQuota_of_minted hmint)
    rw [if_pos hactor] at hcount
    refine ⟨hcount, ?_⟩
    show ((Create u loc svc call.settings call.ctx call.req call.now call.draws
      call.before).2.CountLinksByOwner user.id : Int) ≤ call.settings.maxLinksPerUser
    rw [hcount]
    omega
  refused e he := by
    refine ⟨Create_sameRows fun link hmint => ?_, fun hquota => ?_⟩
    · cases he.symm.trans hmint
    · subst hquota
      exact Create_quotaExceeded he
  reused existing hunnamed hreuse := by
    rcases Create_reused u svc call.draws hunnamed hreuse with
      ⟨e, hchecked, he⟩ | hok
    · unfold CreateCall.outcome
      rw [he]
      refine ⟨(notQuota_checkCreate u call.settings call.req).error hchecked, rfl, ?_⟩
      intro checked hok
      rw [hchecked] at hok
      cases hok
    · unfold CreateCall.outcome
      rw [hok]
      exact ⟨notQuota_ok _, rfl, fun _ _ => rfl⟩

end

/-! ## The calls of an import -/

section

variable (u : Unicode) (loc : DatabaseLocale) (svc : LinkService) (ctx : Context)
  (columns : Service.Columns) (outside : Nat → RowDraws)

/-- The call of one turn of the loop of an import, if it makes one. -/
def rowCall (draws : RowDraws) (report : ImportReport) (read : Read) (s : LinkStore) :
    List CreateCall :=
  match (importRow u loc svc ctx columns draws report read s).1 with
  | .called req _ => [⟨draws.settings, ctx, req, draws.now, draws.draws, s⟩]
  | _ => []

/-- The calls of the loop, in their order. -/
def rowCalls : Nat → ImportReport → List Read → LinkStore → List CreateCall
  | _, _, [], _ => []
  | line, report, read :: rows, s =>
    let turn := importRow u loc svc ctx columns (outside line) report read s
    rowCall u loc svc ctx columns (outside line) report read s ++
      if turn.1.stops then []
      else rowCalls (line + 1) (turn.1.record (line + 1) report) rows turn.2

/-- The calls of `ImportCSV`. -/
def importCalls (reads : List Read) (s : LinkStore) : List CreateCall :=
  match reads with
  | .record header :: rows =>
    match Service.columnsOf u header with
    | none => []
    | some columns => rowCalls u loc svc ctx columns outside 1 {} rows s
  | _ => []

/-- The calls lead from one store to another, each from where the one before it ended. -/
def Chained : LinkStore → List CreateCall → LinkStore → Prop
  | s, [], t => t = s
  | s, call :: calls, t => call.before = s ∧ Chained (call.outcome u loc svc).2 calls t

variable {u loc svc ctx columns outside}

theorem Chained.append {s t v : LinkStore} {calls more : List CreateCall}
    (h : Chained u loc svc s calls t) (h' : Chained u loc svc t more v) :
    Chained u loc svc s (calls ++ more) v := by
  induction calls generalizing s with
  | nil =>
    obtain rfl : t = s := h
    exact h'
  | cons call calls ih => exact ⟨h.1, ih h.2⟩

/-- A turn without a call leaves the store as it is. -/
theorem rowCall_chained (draws : RowDraws) (report : ImportReport) (read : Read) (s : LinkStore) :
    Chained u loc svc s (rowCall u loc svc ctx columns draws report read s)
      (importRow u loc svc ctx columns draws report read s).2 := by
  unfold rowCall importRow
  cases read with
  | failed message => exact rfl
  | record record =>
    dsimp only
    by_cases hcap : report.created + report.failed ≥ maxImportRows
    · rw [if_pos hcap]
      exact rfl
    rw [if_neg hcap]
    by_cases hblank : isBlankRow record = true
    · rw [if_pos hblank]
      exact rfl
    rw [if_neg hblank]
    cases rowRequest columns record with
    | error reason => exact rfl
    | ok req => exact ⟨rfl, rfl⟩

theorem rowCalls_chained (line : Nat) (report : ImportReport) (rows : List Read) (s : LinkStore) :
    Chained u loc svc s (rowCalls u loc svc ctx columns outside line report rows s)
      (importRows u loc svc ctx columns outside line report rows s).2 := by
  induction rows generalizing line report s with
  | nil => exact rfl
  | cons read rows ih =>
    rw [importRows_cons, rowCalls]
    split_ifs with hstops
    · rw [List.append_nil]
      exact rowCall_chained ..
    · exact (rowCall_chained ..).append (ih ..)

/-- An import is the calls it makes. -/
theorem importCalls_chained (reads : List Read) (s : LinkStore) :
    Chained u loc svc s (importCalls u loc svc ctx outside reads s)
      (ImportCSV u loc svc ctx reads outside s).2 := by
  unfold importCalls ImportCSV
  split
  · rename_i header rows
    dsimp only
    cases Service.columnsOf u header with
    | none => exact rfl
    | some columns => exact rowCalls_chained ..
  · rename_i hreads
    split
    · exact rfl
    · exact rfl
    · exact absurd rfl (hreads _ _)

/-- Calls that create in turn, for one owner whose calls all meet the cap. -/
theorem chained_bounded {s t : LinkStore} {calls : List CreateCall}
    (h : Chained u loc svc s calls t) {owner : Uuid} {bound : Int}
    (hall : ∀ call ∈ calls, call.ctx.actorID = some owner →
      ∃ user, user.id = owner ∧ Restricted call.settings call.ctx user ∧
        call.settings.maxLinksPerUser ≤ bound) :
    (t.CountLinksByOwner owner : Int) ≤ max (s.CountLinksByOwner owner : Int) bound := by
  induction calls generalizing s with
  | nil =>
    obtain rfl : t = s := h
    exact le_max_left _ _
  | cons call calls ih =>
    have hrest := ih h.2 fun other hother => hall other (List.mem_cons_of_mem call hother)
    have hcall : ((call.outcome u loc svc).2.CountLinksByOwner owner : Int) ≤
        max (s.CountLinksByOwner owner : Int) bound := by
      obtain rfl := h.1
      by_cases hmint : ∃ link, (call.outcome u loc svc).1 = .ok ⟨link, true⟩
      · obtain ⟨link, hlink⟩ := hmint
        by_cases hactor : call.ctx.actorID = some owner
        · obtain ⟨user, rfl, hrestricted, hcap⟩ := hall call List.mem_cons_self hactor
          have hkept := (quotaKept call).minted link hlink user hrestricted
          omega
        · have hcount := Create_minted owner hlink
          rw [if_neg hactor, Nat.add_zero] at hcount
          unfold CreateCall.outcome
          rw [hcount]
          exact le_max_left _ _
      · have hsame := Create_sameRows fun link hlink => hmint ⟨link, hlink⟩
        have hcount := CountLinksByOwner_sameRows owner hsame
        unfold CreateCall.outcome
        rw [hcount]
        exact le_max_left _ _
    omega

/-- Calls that create in turn under one cap write no link, or leave their owner within it. -/
theorem chained_within {s t : LinkStore} {calls : List CreateCall}
    (h : Chained u loc svc s calls t) {user : User} {cap : Int}
    (hall : ∀ call ∈ calls, Restricted call.settings call.ctx user ∧
      call.settings.maxLinksPerUser = cap) :
    t.links = s.links ∨ (t.CountLinksByOwner user.id : Int) ≤ cap := by
  induction calls generalizing s with
  | nil =>
    obtain rfl : t = s := h
    exact .inl rfl
  | cons call calls ih =>
    obtain ⟨hrestricted, hcap⟩ := hall call List.mem_cons_self
    have hrest := ih h.2 fun other hother => hall other (List.mem_cons_of_mem call hother)
    obtain rfl := h.1
    by_cases hmint : ∃ link, (call.outcome u loc svc).1 = .ok ⟨link, true⟩
    · obtain ⟨link, hlink⟩ := hmint
      have hkept := (quotaKept call).minted link hlink user hrestricted
      right
      rcases hrest with hsame | hwithin
      · rw [CountLinksByOwner, hsame]
        exact hcap ▸ hkept.2
      · exact hwithin
    · obtain ⟨n, hn⟩ := Create_sameRows fun link hlink => hmint ⟨link, hlink⟩
      have hlinks : (call.outcome u loc svc).2.links = call.before.links := by
        unfold CreateCall.outcome
        rw [hn]
      rcases hrest with hsame | hwithin
      · exact .inl (hsame.trans hlinks)
      · exact .inr hwithin

end

/-! ## Runs -/

/-- The tables and the settings in force. -/
structure QuotaWorld where
  store : LinkStore
  settings : RuntimeSettingsInput

/-- What may happen next, each to its end. -/
inductive QuotaStep where
  | create (ctx : Context) (req : CreateLinkRequest) (now : Instant)
      (draws : Fin aliasAttempts → Draw)
  /-- Of every row the clock and the draws of its call. -/
  | importCSV (ctx : Context) (reads : List Read) (now : Nat → Instant)
      (draws : Nat → Fin aliasAttempts → Draw)
  | update (ctx : Context) (id : GoString) (req : UpdateLinkRequest) (now : Instant)
  | delete (ctx : Context) (id : GoString) (now : Instant)
  | bulk (ctx : Context) (req : BulkLinkRequest) (now : Instant)
  | prune (grace limit : Nat) (now : Instant)
  /-- The settings are saved, the cap with them. -/
  | configure (settings : RuntimeSettingsInput)

section

variable (u : Unicode) (loc : DatabaseLocale) (svc : LinkService)

/-- What the rows of an import take from outside; the settings are those in force. -/
def QuotaWorld.rowDraws (w : QuotaWorld) (now : Nat → Instant)
    (draws : Nat → Fin aliasAttempts → Draw) (line : Nat) : RowDraws where
  settings := w.settings
  now := now line
  draws := draws line

/-- One step. -/
def quotaStep (w : QuotaWorld) : QuotaStep → QuotaWorld
  | .create ctx req now draws =>
    { w with store := (Create u loc svc w.settings ctx req now draws w.store).2 }
  | .importCSV ctx reads now draws =>
    { w with store := (ImportCSV u loc svc ctx reads (w.rowDraws now draws) w.store).2 }
  | .update ctx id req now =>
    { w with store := (Update u loc svc w.settings ctx id req now w.store).2 }
  | .delete ctx id now => { w with store := (Delete loc ctx id now w.store).2 }
  | .bulk ctx req now => { w with store := (Bulk u ctx req now w.store).2 }
  | .prune grace limit now => { w with store := (w.store.PruneExpiredLinks grace limit now).2 }
  | .configure settings => { w with settings := settings }

/-- The calls of `Create` in one step. -/
def createCalls (w : QuotaWorld) : QuotaStep → List CreateCall
  | .create ctx req now draws => [⟨w.settings, ctx, req, now, draws, w.store⟩]
  | .importCSV ctx reads now draws =>
    importCalls u loc svc ctx (w.rowDraws now draws) reads w.store
  | _ => []

def quotaRun (w : QuotaWorld) (steps : List QuotaStep) : QuotaWorld :=
  steps.foldl (quotaStep u loc svc) w

/-- The calls of `Create` in a run. -/
def runCalls : QuotaWorld → List QuotaStep → List CreateCall
  | _, [] => []
  | w, step :: steps =>
    createCalls u loc svc w step ++ runCalls (quotaStep u loc svc w step) steps

variable {u loc svc}

/-- The calls of an import are made by its account, under the settings of their rows. -/
theorem mem_importCalls {ctx : Context} {outside : Nat → RowDraws} {reads : List Read}
    {s : LinkStore} {call : CreateCall} (h : call ∈ importCalls u loc svc ctx outside reads s) :
    call.ctx = ctx ∧ ∃ line, call.settings = (outside line).settings := by
  have hrows : ∀ columns line report rows s,
      call ∈ rowCalls u loc svc ctx columns outside line report rows s →
      call.ctx = ctx ∧ ∃ line, call.settings = (outside line).settings := by
    intro columns line report rows
    induction rows generalizing line report with
    | nil => nofun
    | cons read rows ih =>
      intro s hcall
      rw [rowCalls] at hcall
      rcases List.mem_append.mp hcall with hfirst | hrest
      · unfold rowCall at hfirst
        split at hfirst
        · rw [List.mem_singleton.mp hfirst]
          exact ⟨rfl, line, rfl⟩
        · cases hfirst
      · split_ifs at hrest with hstops
        · cases hrest
        · exact ih _ _ _ hrest
  unfold importCalls at h
  split at h
  · split at h
    · cases h
    · exact hrows _ _ _ _ _ h
  · cases h

/-- A step creates by the calls it makes, and adds to no count otherwise. -/
theorem quotaStep_bounded (w : QuotaWorld) (step : QuotaStep) {owner : Uuid} {bound : Int}
    (hall : ∀ call ∈ createCalls u loc svc w step, call.ctx.actorID = some owner →
      ∃ user, user.id = owner ∧ Restricted call.settings call.ctx user ∧
        call.settings.maxLinksPerUser ≤ bound) :
    ((quotaStep u loc svc w step).store.CountLinksByOwner owner : Int) ≤
      max (w.store.CountLinksByOwner owner : Int) bound := by
  cases step with
  | create ctx req now draws =>
    have hchained : Chained u loc svc w.store
        (createCalls u loc svc w (.create ctx req now draws))
        (quotaStep u loc svc w (.create ctx req now draws)).store := ⟨rfl, rfl⟩
    exact chained_bounded hchained hall
  | importCSV ctx reads now draws => exact chained_bounded (importCalls_chained reads w.store) hall
  | update ctx id req now =>
    have hle := CountLinksByOwner_Update owner u loc svc w.settings ctx id req now
      w.store
    dsimp only [quotaStep]
    omega
  | delete ctx id now =>
    have hle := CountLinksByOwner_Delete owner loc ctx id now w.store
    dsimp only [quotaStep]
    omega
  | bulk ctx req now =>
    have hle := CountLinksByOwner_Bulk owner u ctx req now w.store
    dsimp only [quotaStep]
    omega
  | prune grace limit now =>
    have hle := CountLinksByOwner_cascade owner w.store
      ((w.store.prunable grace limit now).map LinkRow.id)
    dsimp only [quotaStep, PruneExpiredLinks]
    omega
  | configure settings => exact le_max_left _ _

/-- By induction on the run: an account whose calls all meet caps of at most `bound` has no more
links than that at its end, unless it had more at its start. -/
theorem quotaRun_bounded (w : QuotaWorld) (steps : List QuotaStep) {owner : Uuid} {bound : Int}
    (hall : ∀ call ∈ runCalls u loc svc w steps, call.ctx.actorID = some owner →
      ∃ user, user.id = owner ∧ Restricted call.settings call.ctx user ∧
        call.settings.maxLinksPerUser ≤ bound) :
    ((quotaRun u loc svc w steps).store.CountLinksByOwner owner : Int) ≤
      max (w.store.CountLinksByOwner owner : Int) bound := by
  induction steps generalizing w with
  | nil => exact le_max_left _ _
  | cons step steps ih =>
    have hstep := quotaStep_bounded w step fun call hcall =>
      hall call (List.mem_append_left _ hcall)
    have hrest := ih (quotaStep u loc svc w step) fun call hcall =>
      hall call (List.mem_append_right _ hcall)
    show ((quotaRun u loc svc (quotaStep u loc svc w step) steps).store.CountLinksByOwner
      owner : Int) ≤ max (w.store.CountLinksByOwner owner : Int) bound
    omega

/-- What an import keeps: one that is refused as a whole writes nothing, and any other writes no
link or leaves its owner within the cap. -/
structure ImportKept (u : Unicode) (loc : DatabaseLocale) (svc : LinkService) (w : QuotaWorld)
    (ctx : Context) (reads : List Read) (now : Nat → Instant)
    (draws : Nat → Fin aliasAttempts → Draw) : Prop where
  refused : ∀ e, (ImportCSV u loc svc ctx reads (w.rowDraws now draws) w.store).1 = .error e →
    (ImportCSV u loc svc ctx reads (w.rowDraws now draws) w.store).2 = w.store
  within : ∀ user, Restricted w.settings ctx user →
    (quotaStep u loc svc w (.importCSV ctx reads now draws)).store.links = w.store.links ∨
      ((quotaStep u loc svc w (.importCSV ctx reads now draws)).store.CountLinksByOwner
        user.id : Int) ≤ w.settings.maxLinksPerUser

theorem importKept (w : QuotaWorld) (ctx : Context) (reads : List Read) (now : Nat → Instant)
    (draws : Nat → Fin aliasAttempts → Draw) : ImportKept u loc svc w ctx reads now draws where
  refused e he := by
    unfold ImportCSV at he ⊢
    split
    · rfl
    · rfl
    · dsimp only at he ⊢
      split at he
      · rfl
      · cases he
  within user hrestricted := by
    refine chained_within (importCalls_chained reads w.store) fun call hcall => ?_
    obtain ⟨hctx, line, hsettings⟩ := mem_importCalls hcall
    have hcurrent : call.settings = w.settings := hsettings
    rw [hctx, hcurrent]
    exact ⟨hrestricted, rfl⟩

/-- In every run of creates and imports, of edits, deletes, prunes and changes of the settings, by
any accounts and from any tables, every call of `Create` keeps the quota: on its own, and as a row
of an import, and so does every import. -/
theorem quota_kept (u : Unicode) (loc : DatabaseLocale) (svc : LinkService) (w : QuotaWorld)
    (steps : List QuotaStep) :
    (∀ call ∈ runCalls u loc svc w steps, QuotaKept u loc svc call) ∧
    (∀ before ctx reads now draws after, steps = before ++ .importCSV ctx reads now draws :: after →
      ImportKept u loc svc (quotaRun u loc svc w before) ctx reads now draws) ∧
    ∀ owner bound, (∀ call ∈ runCalls u loc svc w steps, call.ctx.actorID = some owner →
        ∃ user, user.id = owner ∧ Restricted call.settings call.ctx user ∧
          call.settings.maxLinksPerUser ≤ bound) →
      ((quotaRun u loc svc w steps).store.CountLinksByOwner owner : Int) ≤
        max (w.store.CountLinksByOwner owner : Int) bound :=
  ⟨fun call _ => quotaKept call, fun _ ctx reads now draws _ _ => importKept _ ctx reads now draws,
    fun _ _ hall => quotaRun_bounded w steps hall⟩

end

end Purels.Properties
