import Purels.Lib.Results
import Purels.Service.Links

/-!
# What the link operations can do

One inversion lemma for each operation of the link service, so that a property
of all of them is proved from these without unfolding one again.

* `normalizeRules_ok`, `checkCreate_ok`: what has been checked of a destination.
* `Create_cases`: an error, a link handed back, or one insert.
* `planUpdate_ok`, `Update_cases`: an error, or one edit of the loaded link.
* `Bulk_cases`: tags at most, or one update of the selected rows.
-/

namespace Purels.Service

open Go Security Store Lib

variable {u : Unicode} {loc : DatabaseLocale} {svc : LinkService} {settings : RuntimeSettingsInput}

/-! ## Destinations -/

/-- The destinations a create request names. -/
def createDestinations (req : CreateLinkRequest) : List GoString :=
  req.destinationURL :: req.rules.map LinkRuleInput.destinationURL

/-- The destinations an update request names. -/
def updateDestinations (req : UpdateLinkRequest) : List GoString :=
  (if req.destinationURL = [] then [] else [req.destinationURL]) ++
    (req.rules.getD []).map LinkRuleInput.destinationURL

theorem checkDestination_ok {denylist : List GoString} {raw : GoString}
    (h : checkDestination u denylist raw = .ok ()) :
    ValidateDestination u raw = .ok () ∧ HostDenied u raw denylist = false := by
  unfold checkDestination at h
  split at h
  · simp at h
  · rename_i hvalid
    split_ifs at h with hdenied
    exact ⟨hvalid, by simpa using hdenied⟩

theorem normalizeRule_ok {denylist : List GoString} {index : Nat} {rule : LinkRuleInput}
    {out : LinkRule} (h : normalizeRule u denylist index rule = .ok out) :
    out.destinationURL = rule.destinationURL ∧
      checkDestination u denylist out.destinationURL = .ok () := by
  unfold normalizeRule at h
  split at h
  · simp at h
  split at h
  · simp at h
  split at h
  · simp at h
  rename_i hcheck
  split_ifs at h
  obtain rfl := (Except.ok.inj h).symm
  exact ⟨rfl, hcheck⟩

theorem normalizeRulesFrom_ok {denylist : List GoString} {index : Nat}
    {rules : List LinkRuleInput} {out : List LinkRule}
    (h : normalizeRulesFrom u denylist index rules = .ok out) :
    out.map LinkRule.destinationURL = rules.map LinkRuleInput.destinationURL ∧
      ∀ rule ∈ out, checkDestination u denylist rule.destinationURL = .ok () := by
  induction rules generalizing index out with
  | nil =>
    obtain rfl : [] = out := by simpa [normalizeRulesFrom] using h
    simp
  | cons rule rules ih =>
    rw [normalizeRulesFrom] at h
    split at h
    · simp at h
    rename_i hrule
    split at h
    · simp at h
    rename_i hrules
    obtain rfl := (Except.ok.inj h).symm
    obtain ⟨hdest, hcheck⟩ := normalizeRule_ok hrule
    obtain ⟨hdests, hchecks⟩ := ih hrules
    refine ⟨by simp [hdest, hdests], fun other hother => ?_⟩
    rcases List.mem_cons.mp hother with rfl | hother
    · exact hcheck
    · exact hchecks other hother

/-- Normalized rules lead where the submitted ones do, and every destination
among them has been checked. -/
theorem normalizeRules_ok {denylist : List GoString} {rules : List LinkRuleInput}
    {out : List LinkRule} (h : normalizeRules u rules denylist = .ok out) :
    out.map LinkRule.destinationURL = rules.map LinkRuleInput.destinationURL ∧
      ∀ rule ∈ out, checkDestination u denylist rule.destinationURL = .ok () := by
  unfold normalizeRules at h
  split_ifs at h
  exact normalizeRulesFrom_ok h

theorem normalizeRulesFrom_position {denylist : List GoString} {index : Nat}
    {rules : List LinkRuleInput} {out : List LinkRule}
    (h : normalizeRulesFrom u denylist index rules = .ok out) :
    ∀ i (hi : i < out.length), out[i].position = index + i := by
  induction rules generalizing index out with
  | nil =>
    obtain rfl : [] = out := by simpa [normalizeRulesFrom] using h
    exact fun i hi => absurd hi (Nat.not_lt_zero i)
  | cons rule rules ih =>
    rw [normalizeRulesFrom] at h
    split at h
    · simp at h
    rename_i head hrule
    split at h
    · simp at h
    rename_i tail hrules
    obtain rfl := (Except.ok.inj h).symm
    intro i hi
    cases i with
    | zero =>
      unfold normalizeRule at hrule
      split at hrule
      · simp at hrule
      split at hrule
      · simp at hrule
      split at hrule
      · simp at hrule
      split_ifs at hrule
      obtain rfl := (Except.ok.inj hrule).symm
      rfl
    | succ i =>
      have hrest := ih hrules i (by simpa using hi)
      rw [List.getElem_cons_succ, hrest]
      omega

/-- The position of a normalized rule is its index. -/
theorem normalizeRules_position {denylist : List GoString} {rules : List LinkRuleInput}
    {out : List LinkRule} (h : normalizeRules u rules denylist = .ok out) :
    ∀ i (hi : i < out.length), out[i].position = i := by
  unfold normalizeRules at h
  split_ifs at h
  intro i hi
  have hposition := normalizeRulesFrom_position h i hi
  omega

/-! ## Create -/

/-- What a checked request has passed, field by field. -/
structure CreateChecked (u : Unicode) (settings : RuntimeSettingsInput) (req : CreateLinkRequest)
    (checked : CheckedLink) : Prop where
  destination : checkDestination u settings.destinationDenylist req.destinationURL = .ok ()
  destinationURL : checked.destinationURL = req.destinationURL
  title : NormalizeTitle req.title = .ok checked.title
  tags : NormalizeTags u req.tags = .ok checked.tags
  rules : normalizeRules u req.rules settings.destinationDenylist = .ok checked.rules
  domain : normalizeDomain u req.domain settings.shortDomains = .ok checked.domain
  redirectCode : checked.redirectCode = if req.redirectCode = 0 then 302 else req.redirectCode
  redirectCode_allowed : checked.redirectCode = 301 ∨ checked.redirectCode = 302
  expiresAt : checked.expiresAt = req.expiresAt
  interstitial : interstitialSeconds req.interstitialSeconds = .ok checked.interstitial

theorem checkCreate_iff {req : CreateLinkRequest} {checked : CheckedLink} :
    checkCreate u settings req = .ok checked ↔ CreateChecked u settings req checked := by
  constructor
  · intro h
    unfold checkCreate at h
    split at h
    · cases h
    rename_i hdestination
    split at h
    · cases h
    rename_i title htitle
    split at h
    · cases h
    rename_i tags htags
    split at h
    · cases h
    rename_i rules hrules
    split at h
    · cases h
    rename_i domain hdomain
    dsimp only at h
    by_cases hcode : (if req.redirectCode = 0 then 302 else req.redirectCode) ≠ 301 ∧
        (if req.redirectCode = 0 then 302 else req.redirectCode) ≠ 302
    · rw [if_pos hcode] at h
      cases h
    · rw [if_neg hcode] at h
      split at h
      · cases h
      rename_i interstitial hinterstitial
      obtain rfl := Except.ok.inj h
      exact {
        destination := hdestination
        destinationURL := rfl
        title := htitle
        tags := htags
        rules := hrules
        domain := hdomain
        redirectCode := rfl
        redirectCode_allowed := by
          dsimp only
          omega
        expiresAt := rfl
        interstitial := hinterstitial }
  · intro h
    obtain ⟨destination, title, tags, rules, domain, code, expiresAt, interstitial⟩ := checked
    obtain ⟨hdestination, hurl, htitle, htags, hrules, hdomain, hcode, hallowed, hexpires,
      hinterstitial⟩ := h
    dsimp only at hurl htitle htags hrules hdomain hcode hallowed hexpires hinterstitial
    subst hurl hexpires
    have hpass : ¬ (code ≠ 301 ∧ code ≠ 302) := by omega
    unfold checkCreate
    rw [hdestination, htitle, htags, hrules, hdomain, hinterstitial, ← hcode]
    dsimp only
    rw [if_neg hpass]

theorem checkCreate_ok {req : CreateLinkRequest} {checked : CheckedLink}
    (h : checkCreate u settings req = .ok checked) :
    checkDestination u settings.destinationDenylist req.destinationURL = .ok () ∧
      checked.destinationURL = req.destinationURL ∧
      normalizeRules u req.rules settings.destinationDenylist = .ok checked.rules := by
  have hchecked := checkCreate_iff.mp h
  exact ⟨hchecked.destination, hchecked.destinationURL, hchecked.rules⟩

/-- The expiry of a checked request is the one it was given. -/
theorem checkCreate_expiresAt {req : CreateLinkRequest} {checked : CheckedLink}
    (h : checkCreate u settings req = .ok checked) : checked.expiresAt = req.expiresAt :=
  (checkCreate_iff.mp h).expiresAt

theorem rejectSelf_ok {link : Link} (h : rejectSelf u svc settings link = .ok ()) :
    isSelfDestination u svc settings link link.destinationURL = false ∧
      ∀ rule ∈ link.rules, isSelfDestination u svc settings link rule.destinationURL = false := by
  unfold rejectSelf at h
  split_ifs at h with hown hrules
  refine ⟨by simpa using hown, fun rule hrule => ?_⟩
  simpa using fun hself => hrules (List.any_eq_true.mpr ⟨rule, hrule, hself⟩)

/-- The stores that differ in the alias sequence only. -/
def SameRows (s t : LinkStore) : Prop := ∃ n, t = { s with aliasSeq := n }

theorem SameRows.refl (s : LinkStore) : SameRows s s := ⟨s.aliasSeq, rfl⟩

theorem SameRows.trans {s t v : LinkStore} (h : SameRows s t) (h' : SameRows t v) :
    SameRows s v := by
  obtain ⟨n, rfl⟩ := h
  obtain ⟨m, rfl⟩ := h'
  exact ⟨m, rfl⟩

/-- An alias the draws can give, whatever the sequence stands at. -/
def Coins (settings : RuntimeSettingsInput) (draws : List Draw) (aliasName : GoString) : Prop :=
  ∃ draw ∈ draws, ∃ t, (nextAlias settings draw t).1 = .ok aliasName

/-- An alias a create may end up with: the one it names, or one it draws. -/
def MayTake (settings : RuntimeSettingsInput) (req : CreateLinkRequest) (draws : List Draw)
    (aliasName : GoString) : Prop :=
  if req.aliasName ≠ [] then aliasName = req.aliasName ∧ aliasPattern aliasName
  else Coins settings draws aliasName

/-- A call that makes a link has run the loop guard on it and inserted it. -/
structure Inserts (u : Unicode) (svc : LinkService) (settings : RuntimeSettingsInput)
    (owner : Option Uuid) (checked : CheckedLink) (s : LinkStore) (link : Link)
    (s' : LinkStore) : Prop where
  /-- The link is `newLink` of what was checked. -/
  made : ∃ draw, link = newLink checked link.aliasName draw
  guarded : rejectSelf u svc settings link = .ok ()
  inserted : ∃ t, SameRows s t ∧ t.CreateLink link owner = (.ok (), s')

theorem insertLink_cases (u : Unicode) (svc : LinkService) (settings : RuntimeSettingsInput)
    (link : Link) (owner : Option Uuid) (s : LinkStore) :
    (∃ e, insertLink u svc settings link owner s = (.error e, s)) ∨
    (rejectSelf u svc settings link = .ok () ∧
      insertLink u svc settings link owner s = (.ok (), s.insertLink link owner) ∧
      s.CreateLink link owner = (.ok (), s.insertLink link owner)) := by
  unfold insertLink
  split
  · exact .inl ⟨_, rfl⟩
  · rename_i hguard
    rcases s.CreateLink_cases link owner with ⟨e, he⟩ | ⟨hok, -⟩
    · exact .inl ⟨e, he⟩
    · exact .inr ⟨hguard, hok, hok⟩

/-- Drawing an alias moves the sequence at most. -/
theorem nextAlias_sameRows (settings : RuntimeSettingsInput) (draw : Draw) (s : LinkStore) :
    SameRows s (nextAlias settings draw s).2 := by
  unfold nextAlias
  split_ifs
  · exact ⟨_, rfl⟩
  · split <;> exact SameRows.refl s

theorem createAttempts_cases {checked : CheckedLink} {owner : Option Uuid} {draws : List Draw}
    {s : LinkStore} :
    (∃ e t, createAttempts u svc settings checked owner draws s = (.error e, t) ∧ SameRows s t) ∨
    ∃ link t, createAttempts u svc settings checked owner draws s = (.ok ⟨link, true⟩, t) ∧
      Coins settings draws link.aliasName ∧ Inserts u svc settings owner checked s link t := by
  induction draws generalizing s with
  | nil => exact .inl ⟨_, s, rfl, SameRows.refl s⟩
  | cons draw draws ih =>
    have hsame := nextAlias_sameRows settings draw s
    rw [createAttempts]
    rcases hnext : nextAlias settings draw s with ⟨res, t⟩
    rw [hnext] at hsame
    -- A retry starts from the store with the sequence moved on.
    have hretry : (∃ e v, createAttempts u svc settings checked owner draws t = (.error e, v) ∧
          SameRows s v) ∨
        ∃ link v, createAttempts u svc settings checked owner draws t = (.ok ⟨link, true⟩, v) ∧
          Coins settings (draw :: draws) link.aliasName ∧
          Inserts u svc settings owner checked s link v := by
      rcases ih (s := t) with ⟨e, v, heq, hv⟩ |
        ⟨link, v, heq, ⟨other, hother, hcoins⟩, hmade, hguard, w, hw, hins⟩
      · exact .inl ⟨e, v, heq, hsame.trans hv⟩
      · exact .inr ⟨link, v, heq, ⟨other, by simp [hother], hcoins⟩, hmade, hguard, w,
          hsame.trans hw, hins⟩
    cases res with
    | error e => exact .inl ⟨e, t, rfl, hsame⟩
    | ok aliasName =>
      dsimp only
      split_ifs with hreserved
      · exact hretry
      · rcases insertLink_cases _ _ _ (newLink checked aliasName draw) owner t with ⟨e, heq⟩ | ⟨hguard, heq, hins⟩
        · rw [heq]
          dsimp only
          split_ifs
          · exact hretry
          · exact .inl ⟨e, t, rfl, hsame⟩
        · rw [heq]
          have hcoins : Coins settings (draw :: draws) aliasName :=
            ⟨draw, by simp, s, congrArg Prod.fst hnext⟩
          exact .inr ⟨_, _, rfl, hcoins, ⟨draw, rfl⟩, hguard, t, hsame, hins⟩

/-- `Create` fails, hands a link back, or makes one. -/
theorem Create_cases (u : Unicode) (loc : DatabaseLocale) (svc : LinkService)
    (settings : RuntimeSettingsInput) (ctx : Context) (req : CreateLinkRequest) (now : Instant)
    (draws : Fin aliasAttempts → Draw) (s : LinkStore) :
    (∃ e t, Create u loc svc settings ctx req now draws s = (.error e, t) ∧ SameRows s t) ∨
    (∃ checked link, Create u loc svc settings ctx req now draws s = (.ok ⟨link, false⟩, s) ∧
      checkCreate u settings req = .ok checked ∧
      reuseLink loc settings ctx req.destinationURL now s = .ok (some link)) ∨
    ∃ checked link t, Create u loc svc settings ctx req now draws s = (.ok ⟨link, true⟩, t) ∧
      checkCreate u settings req = .ok checked ∧
      MayTake settings req (List.ofFn draws) link.aliasName ∧
      Inserts u svc settings ctx.actorID checked s link t := by
  unfold Create
  split
  · exact .inl ⟨_, s, rfl, SameRows.refl s⟩
  rename_i checked hchecked
  split_ifs with halias
  · unfold createNamed
    split
    · exact .inl ⟨_, s, rfl, SameRows.refl s⟩
    rename_i aliasName hnormal
    have htake : MayTake settings req (List.ofFn draws) aliasName := by
      rw [MayTake, if_pos halias]
      exact NormalizeAlias_ok hnormal
    split
    · exact .inl ⟨_, s, rfl, SameRows.refl s⟩
    dsimp only
    rcases insertLink_cases _ _ _ (newLink checked aliasName (draws 0)) ctx.actorID s with ⟨e, heq⟩ | ⟨hguard, heq, hins⟩
    · rw [heq]
      exact .inl ⟨e, s, rfl, SameRows.refl s⟩
    · rw [heq]
      exact .inr (.inr
        ⟨checked, _, _, rfl, hchecked, htake, ⟨_, rfl⟩, hguard, s, SameRows.refl s, hins⟩)
  · split
    · exact .inl ⟨_, s, rfl, SameRows.refl s⟩
    · rename_i hreuse
      exact .inr (.inl ⟨checked, _, rfl, hchecked, hreuse⟩)
    · split
      · exact .inl ⟨_, s, rfl, SameRows.refl s⟩
      · rcases createAttempts_cases with ⟨e, t, heq, hsame⟩ | ⟨link, t, heq, hcoins, hins⟩
        · exact .inl ⟨e, t, heq, hsame⟩
        · have htake : MayTake settings req (List.ofFn draws) link.aliasName := by
            rwa [MayTake, if_neg halias]
          exact .inr (.inr ⟨checked, link, t, heq, hchecked, htake, hins⟩)

/-- `Create` with an alias of the caller's own fails and changes nothing, or inserts the link it
has checked. -/
theorem Create_named_cases (u : Unicode) (loc : DatabaseLocale) (svc : LinkService)
    (settings : RuntimeSettingsInput) (ctx : Context) {req : CreateLinkRequest} (now : Instant)
    (draws : Fin aliasAttempts → Draw) (s : LinkStore) (hnamed : req.aliasName ≠ []) :
    (∃ e, Create u loc svc settings ctx req now draws s = (.error e, s)) ∨
    ∃ checked, CreateChecked u settings req checked ∧
      NormalizeAlias u req.aliasName = .ok req.aliasName ∧
      rejectSelf u svc settings (newLink checked req.aliasName (draws 0)) = .ok () ∧
      Create u loc svc settings ctx req now draws s =
        (.ok ⟨newLink checked req.aliasName (draws 0), true⟩,
          s.insertLink (newLink checked req.aliasName (draws 0)) ctx.actorID) := by
  unfold Create
  split
  · exact .inl ⟨_, rfl⟩
  rename_i checked hchecked
  rw [if_pos hnamed]
  unfold createNamed
  split
  · exact .inl ⟨_, rfl⟩
  rename_i aliasName hnormal
  obtain rfl := (NormalizeAlias_ok hnormal).1
  split
  · exact .inl ⟨_, rfl⟩
  dsimp only
  rcases insertLink_cases u svc settings (newLink checked req.aliasName (draws 0)) ctx.actorID s
    with ⟨e, heq⟩ | ⟨hguard, heq, -⟩
  · rw [heq]
    exact .inl ⟨e, rfl⟩
  · rw [heq]
    exact .inr ⟨checked, checkCreate_iff.mp hchecked, hnormal, hguard, rfl⟩

/-- It does insert the link when every check lets it. -/
theorem Create_named_ok {ctx : Context} {req : CreateLinkRequest} {now : Instant}
    {draws : Fin aliasAttempts → Draw} {s : LinkStore} {checked : CheckedLink}
    (hnamed : req.aliasName ≠ []) (hchecked : CreateChecked u settings req checked)
    (halias : NormalizeAlias u req.aliasName = .ok req.aliasName)
    (hquota : checkQuota settings ctx s = .ok ())
    (hguard : rejectSelf u svc settings (newLink checked req.aliasName (draws 0)) = .ok ())
    (hinsert : s.CreateLink (newLink checked req.aliasName (draws 0)) ctx.actorID =
      (.ok (), s.insertLink (newLink checked req.aliasName (draws 0)) ctx.actorID)) :
    Create u loc svc settings ctx req now draws s =
      (.ok ⟨newLink checked req.aliasName (draws 0), true⟩,
        s.insertLink (newLink checked req.aliasName (draws 0)) ctx.actorID) := by
  unfold Create createNamed insertLink
  rw [checkCreate_iff.mpr hchecked]
  dsimp only
  rw [if_pos hnamed, halias]
  dsimp only
  rw [hquota]
  dsimp only
  rw [hguard]
  dsimp only
  rw [hinsert]

/-! ## Update -/

/-- The edit `planUpdate` makes: it is checked where the request names a field,
and leaves the loaded link alone where it does not. -/
structure Plans (u : Unicode) (svc : LinkService) (settings : RuntimeSettingsInput)
    (req : UpdateLinkRequest) (link : Link) (edit : LinkEdit) : Prop where
  id : edit.link.id = link.id
  aliasName : edit.link.aliasName = link.aliasName
  destination : (req.destinationURL = [] ∧ edit.link.destinationURL = link.destinationURL) ∨
    (req.destinationURL ≠ [] ∧ edit.link.destinationURL = req.destinationURL ∧
      checkDestination u settings.destinationDenylist req.destinationURL = .ok () ∧
      isSelfDestination u svc settings link req.destinationURL = false)
  redirectCode : req.redirectCode = 0 → edit.link.redirectCode = link.redirectCode
  interstitial : req.interstitialSeconds = none →
    edit.link.interstitialSeconds = link.interstitialSeconds
  status : req.status = [] → edit.link.status = link.status
  expiresAt : req.expiresAt = none → edit.link.expiresAt = link.expiresAt
  title : req.title = none → edit.link.title = link.title
  domain : req.domain = none → edit.link.domain = link.domain
  tags : req.tags = none → edit.tags = none
  title_checked : edit.link.title = link.title ∨ ∃ raw, NormalizeTitle raw = .ok edit.link.title
  interstitial_checked : edit.link.interstitialSeconds = link.interstitialSeconds ∨
    ∃ requested, interstitialSeconds requested = .ok edit.link.interstitialSeconds
  tags_checked : ∀ tags, edit.tags = some tags → ∃ raw, NormalizeTags u raw = .ok tags
  rules : (req.rules = none ∧ edit.rules = none) ∨
    ∃ raw rules, req.rules = some raw ∧ edit.rules = some rules ∧
      normalizeRules u raw settings.destinationDenylist = .ok rules ∧
      ∀ rule ∈ rules, isSelfDestination u svc settings link rule.destinationURL = false

theorem isSelfDestination_congr {link link' : Link} (h : link.aliasName = link'.aliasName)
    (destination : GoString) :
    isSelfDestination u svc settings link destination =
      isSelfDestination u svc settings link' destination := by
  unfold isSelfDestination
  rw [h]

/-! Each step of `planUpdate` sets one field, to the old value when the request
does not name it. -/

theorem updateDestination_ok {req : UpdateLinkRequest} {link out : Link}
    (h : updateDestination u svc settings req link = .ok out) :
    ∃ destinationURL, out = { link with destinationURL := destinationURL } ∧
      ((req.destinationURL = [] ∧ destinationURL = link.destinationURL) ∨
        (req.destinationURL ≠ [] ∧ destinationURL = req.destinationURL ∧
          checkDestination u settings.destinationDenylist req.destinationURL = .ok () ∧
          isSelfDestination u svc settings link req.destinationURL = false)) := by
  unfold updateDestination at h
  by_cases hnil : req.destinationURL = []
  · rw [if_pos hnil] at h
    exact ⟨_, (Except.ok.inj h).symm, .inl ⟨hnil, rfl⟩⟩
  · rw [if_neg hnil] at h
    split at h
    · simp at h
    rename_i hcheck
    split_ifs at h with hself
    exact ⟨_, (Except.ok.inj h).symm, .inr ⟨hnil, rfl, hcheck, by simpa using hself⟩⟩

theorem updateRedirectCode_ok {req : UpdateLinkRequest} {link out : Link}
    (h : updateRedirectCode req link = .ok out) :
    ∃ redirectCode, out = { link with redirectCode := redirectCode } ∧
      (req.redirectCode = 0 → redirectCode = link.redirectCode) := by
  unfold updateRedirectCode at h
  split_ifs at h with hzero
  · exact ⟨_, (Except.ok.inj h).symm, fun _ => rfl⟩
  · exact ⟨_, (Except.ok.inj h).symm, fun h0 => absurd h0 hzero⟩

theorem updateInterstitial_ok {req : UpdateLinkRequest} {link out : Link}
    (h : updateInterstitial req link = .ok out) :
    ∃ seconds, out = { link with interstitialSeconds := seconds } ∧
      ((req.interstitialSeconds = none ∧ seconds = link.interstitialSeconds) ∨
        ∃ requested, req.interstitialSeconds = some requested ∧
          interstitialSeconds (some requested) = .ok seconds) := by
  unfold updateInterstitial at h
  split at h
  · rename_i hnone
    exact ⟨_, (Except.ok.inj h).symm, .inl ⟨hnone, rfl⟩⟩
  · rename_i requested hsome
    split at h
    · simp at h
    · rename_i seconds hseconds
      exact ⟨_, (Except.ok.inj h).symm, .inr ⟨requested, hsome, hseconds⟩⟩

theorem updateStatus_ok {req : UpdateLinkRequest} {link out : Link}
    (h : updateStatus req link = .ok out) :
    ∃ status, out = { link with status := status } ∧ (req.status = [] → status = link.status) := by
  unfold updateStatus at h
  split_ifs at h with hnil
  · exact ⟨_, (Except.ok.inj h).symm, fun _ => rfl⟩
  · split at h
    · simp at h
    · exact ⟨_, (Except.ok.inj h).symm, fun h => absurd h hnil⟩

theorem updateExpiry_ok {req : UpdateLinkRequest} {link out : Link}
    (h : updateExpiry req link = .ok out) :
    ∃ expiresAt, out = { link with expiresAt := expiresAt } ∧
      (req.expiresAt = none → expiresAt = link.expiresAt) := by
  unfold updateExpiry at h
  split at h
  · exact ⟨_, (Except.ok.inj h).symm, fun _ => rfl⟩
  · split at h
    · simp at h
    · exact ⟨_, (Except.ok.inj h).symm, by simp_all⟩

theorem updateTitle_ok {req : UpdateLinkRequest} {link out : Link}
    (h : updateTitle req link = .ok out) :
    ∃ title, out = { link with title := title } ∧
      ((req.title = none ∧ title = link.title) ∨
        ∃ raw, req.title = some raw ∧ NormalizeTitle raw = .ok title) := by
  unfold updateTitle at h
  split at h
  · rename_i hnone
    exact ⟨_, (Except.ok.inj h).symm, .inl ⟨hnone, rfl⟩⟩
  · rename_i raw hsome
    split at h
    · simp at h
    · rename_i title htitle
      exact ⟨_, (Except.ok.inj h).symm, .inr ⟨raw, hsome, htitle⟩⟩

theorem updateDomain_ok {req : UpdateLinkRequest} {link out : Link}
    (h : updateDomain u settings req link = .ok out) :
    ∃ domain, out = { link with domain := domain } ∧
      (req.domain = none → domain = link.domain) := by
  unfold updateDomain at h
  split at h
  · exact ⟨_, (Except.ok.inj h).symm, fun _ => rfl⟩
  · split at h
    · simp at h
    · exact ⟨_, (Except.ok.inj h).symm, by simp_all⟩

theorem updateTags_ok {req : UpdateLinkRequest} {tags : Option (List GoString)}
    (h : updateTags u req = .ok tags) :
    (req.tags = none ∧ tags = none) ∨
      ∃ raw normal, req.tags = some raw ∧ tags = some normal ∧ NormalizeTags u raw = .ok normal := by
  unfold updateTags at h
  split at h
  · rename_i hnone
    exact .inl ⟨hnone, (Except.ok.inj h).symm⟩
  · rename_i raw hsome
    split at h
    · simp at h
    · rename_i normal hnormal
      exact .inr ⟨raw, normal, hsome, (Except.ok.inj h).symm, hnormal⟩

theorem updateRules_ok {req : UpdateLinkRequest} {link : Link} {out : Option (List LinkRule)}
    (h : updateRules u svc settings req link = .ok out) :
    (req.rules = none ∧ out = none) ∨
    ∃ raw rules, req.rules = some raw ∧ out = some rules ∧
      normalizeRules u raw settings.destinationDenylist = .ok rules ∧
      ∀ rule ∈ rules, isSelfDestination u svc settings link rule.destinationURL = false := by
  unfold updateRules at h
  split at h
  · rename_i hnone
    exact .inl ⟨hnone, (Except.ok.inj h).symm⟩
  rename_i raw hsome
  split at h
  · simp at h
  rename_i rules hrules
  split_ifs at h with hself
  refine .inr ⟨raw, rules, hsome, (Except.ok.inj h).symm, hrules, fun rule hrule => ?_⟩
  simpa using fun hbad => hself (List.any_eq_true.mpr ⟨rule, hrule, hbad⟩)

theorem planUpdate_ok {req : UpdateLinkRequest} {link : Link} {edit : LinkEdit}
    (h : planUpdate u svc settings req link = .ok edit) :
    Plans u svc settings req link edit := by
  unfold planUpdate at h
  simp only [bind_eq_ok, pure, Except.pure] at h
  obtain ⟨l1, h1, l2, h2, l3, h3, l4, h4, l5, h5, l6, h6, tags, h7, rules, h8, l9, h9, h⟩ := h
  obtain rfl := (Except.ok.inj h).symm
  obtain ⟨_, rfl, hdestination⟩ := updateDestination_ok h1
  obtain ⟨_, rfl, hcode⟩ := updateRedirectCode_ok h2
  obtain ⟨_, rfl, hinterstitial⟩ := updateInterstitial_ok h3
  obtain ⟨_, rfl, hstatus⟩ := updateStatus_ok h4
  obtain ⟨_, rfl, hexpiry⟩ := updateExpiry_ok h5
  obtain ⟨_, rfl, htitle⟩ := updateTitle_ok h6
  obtain ⟨_, rfl, hdomain⟩ := updateDomain_ok h9
  have htags := updateTags_ok h7
  exact {
    id := rfl
    aliasName := rfl
    destination := hdestination
    redirectCode := hcode
    interstitial := fun hnone => by
      rcases hinterstitial with ⟨-, hsame⟩ | ⟨requested, hsome, -⟩
      · exact hsame
      · rw [hsome] at hnone
        cases hnone
    status := hstatus
    expiresAt := hexpiry
    title := fun hnone => by
      rcases htitle with ⟨-, hsame⟩ | ⟨raw, hsome, -⟩
      · exact hsame
      · rw [hsome] at hnone
        cases hnone
    domain := hdomain
    tags := fun hnone => by
      rcases htags with ⟨-, hsame⟩ | ⟨raw, normal, hsome, -⟩
      · exact hsame
      · rw [hsome] at hnone
        cases hnone
    title_checked := htitle.imp And.right fun ⟨raw, _, hraw⟩ => ⟨raw, hraw⟩
    interstitial_checked := hinterstitial.imp And.right fun ⟨requested, _, h⟩ => ⟨some requested, h⟩
    tags_checked := fun tags hsome => by
      rcases htags with ⟨-, hnone⟩ | ⟨raw, normal, -, hnormal, hraw⟩
      · rw [hnone] at hsome
        cases hsome
      · obtain rfl : normal = tags := Option.some.inj (hnormal.symm.trans hsome)
        exact ⟨raw, hraw⟩
    rules := updateRules_ok h8 }

/-- `Update` fails and changes nothing, or loads a link and writes one edit of it. -/
theorem Update_cases (u : Unicode) (loc : DatabaseLocale) (svc : LinkService)
    (settings : RuntimeSettingsInput) (ctx : Context) (id : GoString) (req : UpdateLinkRequest)
    (now : Instant) (s : LinkStore) :
    (∃ e, Update u loc svc settings ctx id req now s = (.error e, s)) ∨
    ∃ link edit, s.GetLink loc id ctx.ownerID = .ok link ∧
      planUpdate u svc settings req link = .ok edit ∧
      Plans u svc settings req link edit ∧
      s.UpdateLink edit.link edit.tags edit.rules ctx.ownerID now =
        (.ok (), s.editLink edit.link edit.tags edit.rules ctx.ownerID now) ∧
      Update u loc svc settings ctx id req now s =
        ((s.editLink edit.link edit.tags edit.rules ctx.ownerID now).GetLink loc id ctx.ownerID,
          s.editLink edit.link edit.tags edit.rules ctx.ownerID now) := by
  unfold Update
  split
  · exact .inl ⟨_, rfl⟩
  rename_i link hget
  split
  · exact .inl ⟨_, rfl⟩
  rename_i edit hplan
  rcases s.UpdateLink_cases edit.link edit.tags edit.rules ctx.ownerID now with ⟨e, he⟩ | ⟨hok, -⟩
  · rw [he]
    exact .inl ⟨e, rfl⟩
  · rw [hok]
    exact .inr ⟨link, edit, hget, hplan, planUpdate_ok hplan, hok, rfl⟩

/-! ## Bulk -/

/-- What a bulk edit of a row leaves alone; it revives nothing. -/
structure BulkSets (row row' : LinkRow) : Prop where
  id : row'.id = row.id
  aliasName : row'.aliasName = row.aliasName
  destinationURL : row'.destinationURL = row.destinationURL
  title : row'.title = row.title
  redirectCode : row'.redirectCode = row.redirectCode
  interstitialSeconds : row'.interstitialSeconds = row.interstitialSeconds
  userID : row'.userID = row.userID
  version : row'.version = row.version + 1
  live : row'.live → row.live
  expiresAt : row'.expiresAt = row.expiresAt ∨
    ∃ expiresAt : Option Instant, row'.expiresAt = expiresAt.map toMicroseconds
  domain : row'.domain = row.domain

/-- `Bulk` writes tags at most, or updates the rows it selects and hands back
their aliases. -/
theorem Bulk_cases (u : Unicode) (ctx : Context) (req : BulkLinkRequest) (now : Instant)
    (s : LinkStore) :
    (∃ res names linkTags,
      Bulk u ctx req now s = (res, { s with tags := names, linkTags := linkTags }) ∧
      ∀ changed aliases, res = .ok (changed, aliases) → aliases = []) ∨
    ∃ selected set, (∀ row, BulkSets row (set row)) ∧
      Bulk u ctx req now s =
        (.ok (((s.links.filter selected).map LinkRow.aliasName).length,
          (s.links.filter selected).map LinkRow.aliasName), s.updateLinks selected set) := by
  unfold Bulk
  split
  · exact .inl ⟨_, s.tags, s.linkTags, rfl, by simp⟩
  rename_i ids _
  split
  · exact .inl ⟨_, s.tags, s.linkTags, rfl, by simp⟩
  rename_i edit _
  -- The three updates of rows write status, expiry and the deletion mark only.
  have hrows : ∀ set : LinkRow → LinkRow,
      (∀ row, BulkSets row { set row with version := row.version + 1, updatedAt := now }) →
      (∃ res names linkTags, BulkEdit.apply.counted (s.bulkLinkUpdate ids ctx.ownerID set now) =
        (res, { s with tags := names, linkTags := linkTags }) ∧
        ∀ changed aliases, res = .ok (changed, aliases) → aliases = []) ∨
      ∃ selected set', (∀ row, BulkSets row (set' row)) ∧
        BulkEdit.apply.counted (s.bulkLinkUpdate ids ctx.ownerID set now) =
          (.ok (((s.links.filter selected).map LinkRow.aliasName).length,
            (s.links.filter selected).map LinkRow.aliasName), s.updateLinks selected set') := by
    intro set hset
    rcases s.bulkLinkUpdate_cases ids ctx.ownerID set now with ⟨e, he⟩ | ⟨selected, hok⟩
    · exact .inl ⟨.error e, s.tags, s.linkTags, by rw [he]; rfl, by simp⟩
    · exact .inr ⟨selected, _, hset, by rw [hok]; rfl⟩
  cases edit with
  | delete =>
    exact hrows _ fun row =>
      ⟨rfl, rfl, rfl, rfl, rfl, rfl, rfl, rfl, by simp [LinkRow.live], .inl rfl, rfl⟩
  | setStatus status =>
    exact hrows _ fun row =>
      ⟨rfl, rfl, rfl, rfl, rfl, rfl, rfl, rfl, fun h => h, .inl rfl, rfl⟩
  | setExpiry expiresAt =>
    exact hrows _ fun row =>
      ⟨rfl, rfl, rfl, rfl, rfl, rfl, rfl, rfl, fun h => h, .inr ⟨expiresAt, rfl⟩, rfl⟩
  | tag tags add =>
    obtain ⟨res, names, linkTags, hres⟩ := s.BulkTagLinks_cases ids ctx.ownerID tags add
    refine .inl ?_
    rw [BulkEdit.apply, hres]
    cases res with
    | error e => exact ⟨_, names, linkTags, rfl, by simp⟩
    | ok touched => exact ⟨_, names, linkTags, rfl, by simp⟩

theorem planBulk_tags {req : BulkLinkRequest} {tags : List GoString} {add : Bool}
    (h : planBulk u req = .ok (.tag tags add)) : NormalizeTags u req.tags = .ok tags := by
  have hplan : ∀ adding, planBulk.planTags u req adding = .ok (.tag tags add) →
      NormalizeTags u req.tags = .ok tags := by
    intro adding h
    unfold planBulk.planTags at h
    split at h
    · cases h
    · cases h
    · rename_i normal _ hnormal
      rw [hnormal, (BulkEdit.tag.inj (Except.ok.inj h)).1]
  unfold planBulk at h
  split at h
  · cases h
  · cases h
  · cases h
  · cases h
  · split at h
    · cases h
    · split at h
      · cases h
      · cases h
  · exact hplan true h
  · exact hplan false h

/-- The identifiers of the links stay, and the tag links change by a tag edit only. -/
theorem Bulk_writes (u : Unicode) (ctx : Context) (req : BulkLinkRequest) (now : Instant)
    (s : LinkStore) :
    (Bulk u ctx req now s).2.links.map LinkRow.id = s.links.map LinkRow.id ∧
      ((Bulk u ctx req now s).2.linkTags = s.linkTags ∨
        ∃ ids tags add, normalizeIDs u req.ids = .ok ids ∧ planBulk u req = .ok (.tag tags add) ∧
          (Bulk u ctx req now s).2.linkTags =
            (s.BulkTagLinks ids ctx.ownerID tags add).2.linkTags) := by
  constructor
  · rcases Bulk_cases u ctx req now s with ⟨res, names, linkTags, heq, -⟩ |
      ⟨selected, set, hset, heq⟩
    · rw [heq]
    · rw [heq]
      show (s.links.map _).map LinkRow.id = _
      rw [List.map_map]
      refine List.map_congr_left fun row _ => ?_
      rw [Function.comp_apply]
      split_ifs
      · exact (hset row).id
      · rfl
  · unfold Bulk
    cases hids : normalizeIDs u req.ids with
    | error e => exact .inl rfl
    | ok ids =>
      dsimp only
      cases hplan : planBulk u req with
      | error e => exact .inl rfl
      | ok edit =>
        have hrows : ∀ set : LinkRow → LinkRow,
            (BulkEdit.apply.counted (s.bulkLinkUpdate ids ctx.ownerID set now)).2.linkTags =
              s.linkTags := by
          intro set
          rcases s.bulkLinkUpdate_cases ids ctx.ownerID set now with ⟨e, he⟩ | ⟨selected, hok⟩
          · rw [he]
            rfl
          · rw [hok]
            rfl
        cases edit with
        | delete => exact .inl (hrows _)
        | setStatus status => exact .inl (hrows _)
        | setExpiry expiresAt => exact .inl (hrows _)
        | tag tags add =>
          refine .inr ⟨ids, tags, add, rfl, rfl, ?_⟩
          unfold BulkEdit.apply
          dsimp only
          split <;> rename_i hwrite <;> rw [hwrite]

/-- The tag links after `Bulk`: those that were there, and new ones with normalized tags that
fit their column. -/
theorem Bulk_linkTags (u : Unicode) (ctx : Context) (req : BulkLinkRequest) (now : Instant)
    (s : LinkStore) : ∀ t ∈ (Bulk u ctx req now s).2.linkTags,
      t ∈ s.linkTags ∨ ∃ raw tags, NormalizeTags u raw = .ok tags ∧ t.2 ∈ tags ∧
        LinkStore.storableTag t.2 := by
  intro t ht
  rcases (Bulk_writes u ctx req now s).2 with hsame | ⟨ids, tags, add, -, hplan, htags⟩
  · exact .inl (hsame ▸ ht)
  · rw [htags] at ht
    rcases s.BulkTagLinks_linkTags ids ctx.ownerID tags add t ht with hold | ⟨hname, hfits⟩
    · exact .inl hold
    · exact .inr ⟨req.tags, tags, planBulk_tags hplan, hname, hfits⟩

/-! ## What a bulk request names -/

/-- The loop keeps what the request lists, without white space and without blanks. -/
theorem normalizeIDsFrom_ok {ids raw out : List GoString}
    (h : normalizeIDsFrom u ids raw = .ok out) (id : GoString) :
    id ∈ out ↔ id ∈ ids ∨ id ≠ [] ∧ ∃ candidate ∈ raw, trimSpace candidate = id := by
  induction raw generalizing ids with
  | nil =>
    obtain rfl := Except.ok.inj h
    simp
  | cons candidate raw ih =>
    rw [normalizeIDsFrom_cons] at h
    simp only [List.mem_cons, exists_eq_or_imp]
    split_ifs at h with hblank hmem hform
    · rw [ih h, hblank]
      constructor
      · rintro (hold | ⟨hne, hrest⟩)
        · exact .inl hold
        · exact .inr ⟨hne, .inr hrest⟩
      · rintro (hold | ⟨hne, rfl | hrest⟩)
        · exact .inl hold
        · exact absurd rfl hne
        · exact .inr ⟨hne, hrest⟩
    · rw [ih h]
      constructor
      · rintro (hold | ⟨hne, hrest⟩)
        · exact .inl hold
        · exact .inr ⟨hne, .inr hrest⟩
      · rintro (hold | ⟨hne, rfl | hrest⟩)
        · exact .inl hold
        · exact .inl hmem
        · exact .inr ⟨hne, hrest⟩
    · rw [ih h, List.mem_append, List.mem_singleton]
      constructor
      · rintro ((hold | rfl) | ⟨hne, hrest⟩)
        · exact .inl hold
        · exact .inr ⟨hblank, .inl rfl⟩
        · exact .inr ⟨hne, .inr hrest⟩
      · rintro (hold | ⟨hne, rfl | hrest⟩)
        · exact .inl (.inl hold)
        · exact .inl (.inr rfl)
        · exact .inr ⟨hne, hrest⟩

theorem normalizeIDs_ok {raw ids : List GoString} (h : normalizeIDs u raw = .ok ids)
    (id : GoString) : id ∈ ids ↔ id ≠ [] ∧ ∃ candidate ∈ raw, trimSpace candidate = id := by
  unfold normalizeIDs at h
  split_ifs at h
  split at h
  · cases h
  · cases h
  · rename_i out _ hout
    obtain rfl := Except.ok.inj h
    rw [normalizeIDsFrom_ok hout]
    simp

/-- The statement that a bulk request runs, and what it is given. -/
theorem Bulk_ok {ctx : Context} {req : BulkLinkRequest} {now : Instant} {s t : LinkStore}
    {affected : Nat} {aliases : List GoString}
    (h : Bulk u ctx req now s = (.ok (affected, aliases), t)) :
    ∃ ids uuids edit, normalizeIDs u req.ids = .ok ids ∧ LinkStore.uuidArray ids = .ok uuids ∧
      planBulk u req = .ok edit ∧
      ((∃ tags add, edit = .tag tags add ∧
          s.BulkTagLinks ids ctx.ownerID tags add = (.ok affected, t)) ∨
        (∀ tags add, edit ≠ .tag tags add) ∧
          affected = (s.links.filter (LinkStore.bulkSelects uuids ctx.ownerID)).length) := by
  unfold Bulk at h
  split at h
  · cases (Prod.mk.inj h).1
  rename_i ids hids
  split at h
  · cases (Prod.mk.inj h).1
  rename_i edit hplan
  have hrows : ∀ set, BulkEdit.apply.counted (s.bulkLinkUpdate ids ctx.ownerID set now) =
      (.ok (affected, aliases), t) → ∃ uuids, LinkStore.uuidArray ids = .ok uuids ∧
        affected = (s.links.filter (LinkStore.bulkSelects uuids ctx.ownerID)).length := by
    intro set hset
    unfold LinkStore.bulkLinkUpdate at hset
    split at hset
    · cases (Prod.mk.inj hset).1
    · rename_i uuids huuids
      obtain ⟨hcount, -⟩ := Prod.mk.inj (Except.ok.inj (Prod.mk.inj hset).1)
      exact ⟨uuids, huuids, by rw [← hcount, List.length_map]⟩
  cases edit with
  | delete =>
    obtain ⟨uuids, huuids, hcount⟩ := hrows _ h
    exact ⟨ids, uuids, _, hids, huuids, hplan, .inr ⟨fun _ _ => nofun, hcount⟩⟩
  | setStatus status =>
    obtain ⟨uuids, huuids, hcount⟩ := hrows _ h
    exact ⟨ids, uuids, _, hids, huuids, hplan, .inr ⟨fun _ _ => nofun, hcount⟩⟩
  | setExpiry expiresAt =>
    obtain ⟨uuids, huuids, hcount⟩ := hrows _ h
    exact ⟨ids, uuids, _, hids, huuids, hplan, .inr ⟨fun _ _ => nofun, hcount⟩⟩
  | tag tags add =>
    rw [BulkEdit.apply] at h
    split at h
    · cases (Prod.mk.inj h).1
    · rename_i touched t' hwrite
      obtain ⟨hcount, rfl⟩ := Prod.mk.inj h
      obtain ⟨rfl, -⟩ := Prod.mk.inj (Except.ok.inj hcount)
      cases huuids : LinkStore.uuidArray ids with
      | error e =>
        rw [LinkStore.BulkTagLinks, huuids] at hwrite
        cases (Prod.mk.inj hwrite).1
      | ok uuids => exact ⟨ids, uuids, _, hids, huuids, hplan, .inl ⟨tags, add, rfl, hwrite⟩⟩

/-! ## Normalized tags -/

theorem normalizeTagsFrom_ok {out raw tags : List GoString}
    (h : normalizeTagsFrom u out raw = .ok tags)
    (hout : ∀ name ∈ out, toLower u name = name ∧ tagPattern u name ∧
      (runes name).length ≤ maxTagLength) :
    ∀ name ∈ tags, toLower u name = name ∧ tagPattern u name ∧
      (runes name).length ≤ maxTagLength := by
  induction raw generalizing out with
  | nil =>
    obtain rfl := Except.ok.inj h
    exact hout
  | cons first raw ih =>
    rw [normalizeTagsFrom_cons] at h
    split_ifs at h with hempty hlong hform hmem
    · exact ih h hout
    · exact ih h hout
    · refine ih h fun name hname => ?_
      rcases List.mem_append.mp hname with hold | hnew
      · exact hout name hold
      · rw [List.mem_singleton.mp hnew]
        rw [Bool.not_eq_true', Bool.not_eq_false] at hform
        exact ⟨toLower_toLower u _, hform, not_lt.mp hlong⟩

/-- Normalized tags are in lower case, of the form, and short. -/
theorem NormalizeTags_ok {raw tags : List GoString} (h : NormalizeTags u raw = .ok tags) :
    ∀ name ∈ tags, toLower u name = name ∧ tagPattern u name ∧
      (runes name).length ≤ maxTagLength := by
  unfold NormalizeTags at h
  split at h
  · cases h
  rename_i out hout
  split_ifs at h
  obtain rfl := Except.ok.inj h
  exact normalizeTagsFrom_ok hout (List.forall_mem_nil _)

theorem normalizeTagsFrom_nodup {out raw tags : List GoString}
    (h : normalizeTagsFrom u out raw = .ok tags) (hout : out.Nodup) : tags.Nodup := by
  induction raw generalizing out with
  | nil =>
    obtain rfl := Except.ok.inj h
    exact hout
  | cons first raw ih =>
    rw [normalizeTagsFrom_cons] at h
    split_ifs at h with hempty hlong hform hmem
    · exact ih h hout
    · exact ih h hout
    · exact ih h (List.nodup_append_comm.mp (List.nodup_cons.mpr ⟨hmem, hout⟩))

/-- Normalized tags are distinct and few. -/
theorem NormalizeTags_limits {raw tags : List GoString} (h : NormalizeTags u raw = .ok tags) :
    tags.Nodup ∧ tags.length ≤ maxTagsPerLink := by
  unfold NormalizeTags at h
  split at h
  · cases h
  · rename_i out hout
    split_ifs at h with hmany
    obtain rfl := Except.ok.inj h
    exact ⟨normalizeTagsFrom_nodup hout List.nodup_nil, not_lt.mp hmany⟩

end Purels.Service
