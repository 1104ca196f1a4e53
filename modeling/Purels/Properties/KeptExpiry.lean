import Purels.Go.Fields
import Purels.Service.LinkSpecs

/-!
# The expiry a request states

Three entry points read `expires_at`: `Create` with `newLink`, `Update` and `Bulk` with
`parseExpiry`.

* `parseExpiry_ok_iff`: the strings `parseExpiry` reads.
* `Create_expiry`, `Update_expiry` and `Bulk_expiry`: what each entry point stores.
* `createAccepts`, `updateAccepts_iff` and `bulkAccepts_iff`: the strings each of them accepts.
* `ExpiryKept`, and `expiryKept_iff`: no string but a malformed one is dropped.
* `expiry_dropped`: a link meant to expire becomes a permanent one.
-/

namespace Purels.Properties

open Go Lib Security Service Store

/-! ## The strings -/

/-- A time has a digit, so that a blank string is none. -/
theorem parseRFC3339_eq_none_of_blank {raw : GoString} (h : trimSpace raw = []) :
    parseRFC3339 raw = none := by
  by_cases hdigits : 4 ≤ raw.length ∧ (raw.take 4).all isDigit
  · obtain ⟨b, rest, rfl⟩ : ∃ b rest, raw = b :: rest := by
      rcases raw with _ | ⟨b, rest⟩
      · simp at hdigits
      · exact ⟨b, rest, rfl⟩
    have hdigit : isDigit b := List.all_eq_true.mp hdigits.2 b (by simp)
    have hrange : b.toNat < 0x80 ∧ isSpace b.toNat = false := by
      simp only [isDigit, Bool.and_eq_true, decide_eq_true_eq] at hdigit
      refine ⟨by omega, ?_⟩
      simp only [isSpace, Bool.or_eq_false_iff, Bool.and_eq_false_iff, decide_eq_false_iff_not,
        beq_eq_false_iff_ne]
      omega
    have hmem : b ∈ trimSpace (b :: rest) :=
      (mem_trimSpace_iff hrange.1 hrange.2).mpr List.mem_cons_self
    rw [h] at hmem
    cases hmem
  · unfold parseRFC3339
    rw [guard, if_neg hdigits]
    rfl

/-- `parseExpiry` reads blank strings and RFC 3339 times. -/
theorem parseExpiry_ok_iff {raw : GoString} :
    (∃ expiresAt, parseExpiry raw = .ok expiresAt) ↔
      trimSpace raw = [] ∨ (parseRFC3339 raw).isSome := by
  unfold parseExpiry
  by_cases hblank : trimSpace raw = []
  · rw [if_pos hblank]
    exact iff_of_true ⟨none, rfl⟩ (.inl hblank)
  · rw [if_neg hblank]
    cases parseRFC3339 raw with
    | none => simp [hblank]
    | some t => simp

/-- What `newLink` makes of a string that `parseExpiry` reads. -/
theorem newLink_expiresAt {checked : CheckedLink} {expiresAt : Option Instant}
    (h : parseExpiry checked.expiresAt = .ok expiresAt) (aliasName : GoString) (draw : Draw) :
    (newLink checked aliasName draw).expiresAt = expiresAt := by
  show (if checked.expiresAt = [] then none else parseRFC3339 checked.expiresAt) = expiresAt
  unfold parseExpiry at h
  by_cases hblank : trimSpace checked.expiresAt = []
  · rw [if_pos hblank] at h
    rw [← Except.ok.inj h, parseRFC3339_eq_none_of_blank hblank, ite_self]
  · rw [if_neg hblank] at h
    have hne : checked.expiresAt ≠ [] := by
      intro hnil
      exact hblank (by rw [hnil]; rfl)
    rw [if_neg hne]
    split at h
    · cases h
    · rename_i t ht
      rw [ht, Except.ok.inj h]

/-! ## What is stored -/

section

variable {u : Unicode} {loc : DatabaseLocale} {svc : LinkService} {settings : RuntimeSettingsInput}
  {ctx : Context} {now : Instant} {s : LinkStore}

/-- `Create` makes nothing, or a link that keeps what `parseExpiry` reads. -/
theorem Create_expiry {req : CreateLinkRequest} {expiresAt : Option Instant}
    (h : parseExpiry req.expiresAt = .ok expiresAt) (draws : Fin aliasAttempts → Draw) :
    (∃ e t, Create u loc svc settings ctx req now draws s = (.error e, t) ∧ t.links = s.links) ∨
    (∃ link, Create u loc svc settings ctx req now draws s = (.ok ⟨link, false⟩, s)) ∨
    ∃ link t row, Create u loc svc settings ctx req now draws s = (.ok ⟨link, true⟩, t) ∧
      link.expiresAt = expiresAt ∧ t.links = s.links ++ [row] ∧ row.id = link.id ∧
      row.expiresAt = expiresAt.map toMicroseconds := by
  rcases Create_cases u loc svc settings ctx req now draws s with
    ⟨e, t, heq, n, rfl⟩ | ⟨-, link, heq, -⟩ | ⟨checked, link, t, heq, hchecked, -, hinserts⟩
  · exact .inl ⟨e, _, heq, rfl⟩
  · exact .inr (.inl ⟨link, heq⟩)
  · obtain ⟨⟨draw, hmade⟩, -, v, ⟨n, rfl⟩, hinsert⟩ := hinserts
    obtain ⟨-, -, -, -, -, -, rfl⟩ := LinkStore.CreateLink_fits hinsert
    have hexpiry : link.expiresAt = expiresAt := by
      rw [hmade]
      apply newLink_expiresAt
      rw [checkCreate_expiresAt hchecked]
      exact h
    refine .inr (.inr ⟨link, _, LinkStore.newRow link ctx.actorID, heq, hexpiry, ?_, rfl, ?_⟩)
    · rw [LinkStore.insertLink_links]
    · show link.expiresAt.map toMicroseconds = _
      rw [hexpiry]

theorem planUpdate_expiresAt {req : UpdateLinkRequest} {link : Link} {edit : LinkEdit}
    {raw : GoString} (hraw : req.expiresAt = some raw)
    (h : planUpdate u svc settings req link = .ok edit) :
    parseExpiry raw = .ok edit.link.expiresAt := by
  unfold planUpdate at h
  simp only [bind_eq_ok, pure, Except.pure] at h
  obtain ⟨l1, h1, l2, h2, l3, h3, l4, h4, l5, h5, l6, h6, tags, h7, rules, h8, l9, h9, h⟩ := h
  obtain rfl := (Except.ok.inj h).symm
  obtain ⟨_, rfl, -⟩ := updateTitle_ok h6
  obtain ⟨_, rfl, -⟩ := updateDomain_ok h9
  unfold updateExpiry at h5
  rw [hraw] at h5
  dsimp only at h5
  split at h5
  · cases h5
  · rename_i expiresAt hparse
    obtain rfl := Except.ok.inj h5
    exact hparse

/-- The link that `Update` returns has the expiry that `parseExpiry` reads. -/
theorem Update_expiry {id : GoString} {req : UpdateLinkRequest} {raw : GoString} {link : Link}
    (hraw : req.expiresAt = some raw)
    (h : (Update u loc svc settings ctx id req now s).1 = .ok link) :
    ∃ expiresAt, parseExpiry raw = .ok expiresAt ∧
      link.expiresAt = expiresAt.map toMicroseconds := by
  rcases Update_cases u loc svc settings ctx id req now s with
    ⟨e, heq⟩ | ⟨loaded, edit, hget, hplan, hplans, -, heq⟩
  · rw [heq] at h
    cases h
  · rw [heq] at h
    obtain ⟨uid, row, huid, hrow, hloaded⟩ := LinkStore.GetLink_ok hget
    obtain ⟨uid', row', huid', hrow', rfl⟩ := LinkStore.GetLink_ok h
    obtain rfl : uid = uid' := Except.ok.inj (huid.symm.trans huid')
    have hid : edit.link.id = uid := by
      rw [hplans.id, hloaded]
      have hselects := (LinkStore.liveRow_eq_some hrow).2
      rw [LinkStore.selects, Bool.and_eq_true, Bool.and_eq_true, beq_iff_eq] at hselects
      exact hselects.1.1
    obtain ⟨hmem, hselects⟩ := LinkStore.liveRow_eq_some hrow'
    rw [LinkStore.editLink_links] at hmem
    obtain ⟨old, -, hold⟩ := List.mem_map.mp hmem
    refine ⟨_, planUpdate_expiresAt hraw hplan, ?_⟩
    show row'.expiresAt = _
    by_cases hselected : LinkStore.selects edit.link.id ctx.ownerID old
    · rw [if_pos hselected] at hold
      rw [← hold]
      rfl
    · rw [if_neg hselected] at hold
      rw [hold, hid] at hselected
      exact absurd hselects hselected

/-- A bulk edit writes the expiry that `parseExpiry` reads into the rows it selects. -/
theorem Bulk_expiry {req : BulkLinkRequest} {raw : GoString} {affected : Nat}
    {aliases : List GoString} {t : LinkStore} (haction : req.action = lit "set_expiry")
    (hraw : req.expiresAt = some raw)
    (h : Bulk u ctx req now s = (.ok (affected, aliases), t)) :
    ∃ expiresAt uuids, parseExpiry raw = .ok expiresAt ∧ t.links = s.links.map fun row =>
      if LinkStore.bulkSelects uuids ctx.ownerID row then
        { row with
          expiresAt := expiresAt.map toMicroseconds, version := row.version + 1, updatedAt := now }
      else row := by
  have hset : parseBulkAction (lit "set_expiry") = some .setExpiry := by decide
  unfold Bulk at h
  split at h
  · cases (Prod.mk.inj h).1
  rename_i ids hids
  rw [planBulk, haction, hset, hraw] at h
  dsimp only at h
  cases hparse : parseExpiry raw with
  | error e =>
    rw [hparse] at h
    cases (Prod.mk.inj h).1
  | ok expiresAt =>
    rw [hparse] at h
    dsimp only [BulkEdit.apply, LinkStore.BulkSetExpiry, LinkStore.bulkLinkUpdate] at h
    cases huuids : LinkStore.uuidArray ids with
    | error e =>
      rw [huuids] at h
      cases (Prod.mk.inj h).1
    | ok uuids =>
      rw [huuids] at h
      exact ⟨expiresAt, uuids, rfl, congrArg LinkStore.links (Prod.mk.inj h).2.symm⟩

end

/-! ## The strings that are accepted -/

/-- Some call of `Create` makes a link with this string. -/
def CreateAccepts (raw : GoString) : Prop :=
  ∃ u loc svc settings ctx req now draws s link, req.expiresAt = raw ∧
    (Create u loc svc settings ctx req now draws s).1 = .ok ⟨link, true⟩

/-- Some call of `Update` goes through with this string. -/
def UpdateAccepts (raw : GoString) : Prop :=
  ∃ u loc svc settings ctx id req now s link, req.expiresAt = some raw ∧
    (Update u loc svc settings ctx id req now s).1 = .ok link

/-- Some `set_expiry` goes through with this string. -/
def BulkAccepts (raw : GoString) : Prop :=
  ∃ u ctx req now s res, req.action = lit "set_expiry" ∧ req.expiresAt = some raw ∧
    (Bulk u ctx req now s).1 = .ok res

/-- The link and the row of the examples below. -/
def plainDestination : GoString := lit "https://example.com/"

def plainRow : LinkRow where
  id := default
  aliasName := lit "launch"
  destinationURL := plainDestination

def plainLink (expiresAt : Option Instant) : Link where
  id := default
  aliasName := lit "launch"
  destinationURL := plainDestination
  expiresAt := expiresAt

/-- `Create` makes a link whatever the string says, without an expiry if it says none. -/
theorem Create_any_expiry (raw : GoString) :
    let req : CreateLinkRequest :=
      { destinationURL := plainDestination, aliasName := lit "launch", expiresAt := raw }
    let link := plainLink (if raw = [] then none else parseRFC3339 raw)
    Create .ascii plainLocale ⟨[]⟩ {} {} req 0 (fun _ => ⟨default, 0, none⟩) {} =
      (.ok ⟨link, true⟩, LinkStore.insertLink {} link none) := by
  intro req link
  let checked : CheckedLink := ⟨plainDestination, [], [], [], [], 302, raw, 2⟩
  have hlink : newLink checked (lit "launch") ⟨default, 0, none⟩ = link := rfl
  have hdestination : checkDestination .ascii [] plainDestination = .ok () := by decide
  have hchecked : CreateChecked .ascii {} req checked := by
    refine ⟨hdestination, rfl, ?_, rfl, rfl, rfl, rfl, .inr rfl, rfl, rfl⟩
    show NormalizeTitle [] = .ok []
    decide
  have halias : NormalizeAlias .ascii (lit "launch") = .ok (lit "launch") := by decide
  have hguard : rejectSelf .ascii ⟨[]⟩ {} link = .ok () := by
    have hself : isSelfDestination .ascii ⟨[]⟩ {} (plainLink none) plainDestination = false := by
      decide
    unfold rejectSelf
    rw [if_neg]
    · rfl
    · rw [isSelfDestination_congr (show link.aliasName = (plainLink none).aliasName from rfl)]
      exact Bool.eq_false_iff.mp hself
  have hinsert : LinkStore.CreateLink {} link none =
      (.ok (), LinkStore.insertLink {} link none) := by
    have hcolumns : LinkStore.storableColumns (plainLink none) := by decide
    have htext : storableText (lit "launch") ∧ (runes (lit "launch")).length ≤ 64 := by
      decide
    exact LinkStore.CreateLink_ok hcolumns htext (List.forall_mem_nil _) rfl rfl
  have hcreate : Create .ascii plainLocale ⟨[]⟩ {} {} req 0 (fun _ => ⟨default, 0, none⟩) {} =
      (.ok ⟨newLink checked (lit "launch") ⟨default, 0, none⟩, true⟩,
        LinkStore.insertLink {} (newLink checked (lit "launch") ⟨default, 0, none⟩) none) :=
    Create_named_ok (show lit "launch" ≠ [] by decide) hchecked halias rfl hguard hinsert
  rw [hlink] at hcreate
  exact hcreate

theorem createAccepts (raw : GoString) : CreateAccepts raw :=
  ⟨_, _, _, _, _, _, _, _, _, _, rfl, congrArg Prod.fst (Create_any_expiry raw)⟩

/-- `Update` accepts what `parseExpiry` reads. -/
theorem updateAccepts_iff {raw : GoString} :
    UpdateAccepts raw ↔ ∃ expiresAt, parseExpiry raw = .ok expiresAt := by
  constructor
  · rintro ⟨u, loc, svc, settings, ctx, id, req, now, s, link, hraw, h⟩
    obtain ⟨expiresAt, hparse, -⟩ := Update_expiry hraw h
    exact ⟨expiresAt, hparse⟩
  · rintro ⟨expiresAt, hparse⟩
    let req : UpdateLinkRequest := { expiresAt := some raw }
    let loaded := LinkStore.toLink plainLocale { links := [plainRow] } plainRow
    let edited := { loaded with expiresAt := expiresAt }
    have hparam : LinkStore.uuidParam (default : Uuid).toText = .ok default := by decide
    have hget : LinkStore.GetLink plainLocale { links := [plainRow] } (default : Uuid).toText none =
        .ok loaded := by
      unfold LinkStore.GetLink
      rw [hparam]
      rfl
    have hplan : planUpdate .ascii ⟨[]⟩ {} req loaded = .ok ⟨edited, none, none⟩ := by
      have hexpiry : updateExpiry req loaded = .ok edited := by
        unfold updateExpiry
        dsimp only [req]
        rw [hparse]
      simp only [planUpdate, bind_eq_ok]
      exact ⟨loaded, rfl, loaded, rfl, loaded, rfl, loaded, rfl, edited, hexpiry, edited, rfl, none,
        rfl, none, rfl, edited, rfl, rfl⟩
    have hwrite : LinkStore.UpdateLink { links := [plainRow] } edited none none none 0 =
        (.ok (), LinkStore.editLink { links := [plainRow] } edited none none none 0) := by
      have hcolumns : LinkStore.storableColumns loaded := by decide
      have hrow : [plainRow].any (LinkStore.selects default none) := by decide
      unfold LinkStore.UpdateLink
      rw [if_neg, if_neg, if_neg]
      · decide
      · show ¬ (!([plainRow].any (LinkStore.selects default none))) = true
        rw [hrow]
        decide
      · show ¬ (!LinkStore.storableColumns loaded) = true
        rw [hcolumns]
        decide
    refine ⟨.ascii, plainLocale, ⟨[]⟩, {}, {}, (default : Uuid).toText, req, 0,
      { links := [plainRow] }, LinkStore.toLink plainLocale
        (LinkStore.editLink { links := [plainRow] } edited none none none 0)
        (LinkStore.editRow edited 0 plainRow), rfl, ?_⟩
    unfold Update
    dsimp only [Context.ownerID]
    rw [hget]
    dsimp only
    rw [hplan]
    dsimp only
    rw [hwrite]
    dsimp only
    unfold LinkStore.GetLink
    rw [hparam]
    rfl

/-- And so does `set_expiry`. -/
theorem bulkAccepts_iff {raw : GoString} :
    BulkAccepts raw ↔ ∃ expiresAt, parseExpiry raw = .ok expiresAt := by
  constructor
  · rintro ⟨u, ctx, req, now, s, ⟨affected, aliases⟩, haction, hraw, h⟩
    obtain ⟨expiresAt, -, hparse, -⟩ := Bulk_expiry haction hraw (Prod.ext h rfl)
    exact ⟨expiresAt, hparse⟩
  · rintro ⟨expiresAt, hparse⟩
    let req : BulkLinkRequest :=
      { action := lit "set_expiry", ids := [(default : Uuid).toText], expiresAt := some raw }
    have hids : normalizeIDs .ascii [(default : Uuid).toText] = .ok [(default : Uuid).toText] := by
      decide
    have hset : parseBulkAction (lit "set_expiry") = some .setExpiry := by decide
    have huuids : LinkStore.uuidArray [(default : Uuid).toText] = .ok [default] := by
      decide
    refine ⟨.ascii, {}, req, 0, {}, (0, []), rfl, rfl, ?_⟩
    unfold Bulk
    rw [hids, planBulk, hset]
    dsimp only [req]
    rw [hparse]
    dsimp only [BulkEdit.apply, LinkStore.BulkSetExpiry, LinkStore.bulkLinkUpdate]
    rw [huuids]
    rfl

/-! ## The claim about a string -/

/-- The expiry of a string is kept: a create makes nothing, or a link with the instant that
`parseExpiry` reads, and the three entry points accept the string or refuse it together. -/
structure ExpiryKept (raw : GoString) : Prop where
  created : ∀ u loc svc settings ctx req now draws s link t, req.expiresAt = raw →
    Create u loc svc settings ctx req now draws s = (.ok ⟨link, true⟩, t) →
      ∃ expiresAt row, parseExpiry raw = .ok expiresAt ∧ link.expiresAt = expiresAt ∧
        t.links = s.links ++ [row] ∧ row.id = link.id ∧
        row.expiresAt = expiresAt.map toMicroseconds
  failed : ∀ u loc svc settings ctx req now draws s e t, req.expiresAt = raw →
    Create u loc svc settings ctx req now draws s = (.error e, t) → t.links = s.links
  update : CreateAccepts raw ↔ UpdateAccepts raw
  bulk : CreateAccepts raw ↔ BulkAccepts raw

/-- No string is dropped but one that is neither blank nor a time. -/
theorem expiryKept_iff (raw : GoString) :
    ExpiryKept raw ↔ trimSpace raw = [] ∨ (parseRFC3339 raw).isSome := by
  rw [← parseExpiry_ok_iff]
  constructor
  · intro h
    exact updateAccepts_iff.mp (h.update.mp (createAccepts raw))
  · rintro ⟨expiresAt, hparse⟩
    refine ⟨?_, ?_, ?_, ?_⟩
    · rintro u loc svc settings ctx req now draws s link t rfl hcreate
      rcases @Create_expiry u loc svc settings ctx now s req expiresAt hparse draws with
        ⟨e, t', heq, -⟩ | ⟨link', heq⟩ | ⟨link', t', row, heq, hexpiry, hlinks, hid, hrow⟩
      · rw [hcreate] at heq
        cases (Prod.mk.inj heq).1
      · rw [hcreate] at heq
        cases (Prod.mk.inj heq).1
      · rw [hcreate] at heq
        obtain ⟨hlink, rfl⟩ := Prod.mk.inj heq
        cases hlink
        exact ⟨expiresAt, row, hparse, hexpiry, hlinks, hid, hrow⟩
    · rintro u loc svc settings ctx req now draws s e t rfl hcreate
      rcases Create_cases u loc svc settings ctx req now draws s with
        ⟨e', t', heq, n, rfl⟩ | ⟨-, link, heq, -⟩ | ⟨-, link, t', heq, -⟩
      · rw [hcreate] at heq
        rw [(Prod.mk.inj heq).2]
      · rw [hcreate] at heq
        cases (Prod.mk.inj heq).1
      · rw [hcreate] at heq
        cases (Prod.mk.inj heq).1
    · exact iff_of_true (createAccepts raw) (updateAccepts_iff.mpr ⟨expiresAt, hparse⟩)
    · exact iff_of_true (createAccepts raw) (bulkAccepts_iff.mpr ⟨expiresAt, hparse⟩)

/-- A link with the expiry "tomorrow" is made, and it never expires; the same string is refused
by `Update` and by `set_expiry`. -/
theorem expiry_dropped :
    (Create .ascii plainLocale ⟨[]⟩ {} {}
        { destinationURL := plainDestination, aliasName := lit "launch",
          expiresAt := lit "tomorrow" } 0 (fun _ => ⟨default, 0, none⟩) {}).1 =
        .ok ⟨plainLink none, true⟩ ∧
      parseExpiry (lit "tomorrow") = .error (.invalid "expires_at must be RFC3339") ∧
      ¬ ExpiryKept (lit "tomorrow") := by
  have hnone : parseRFC3339 (lit "tomorrow") = none := by decide
  have hblank : trimSpace (lit "tomorrow") ≠ [] := by decide
  have hcreate := Create_any_expiry (lit "tomorrow")
  rw [hnone, ite_self] at hcreate
  have herror : parseExpiry (lit "tomorrow") = .error (.invalid "expires_at must be RFC3339") := by
    unfold parseExpiry
    rw [if_neg hblank, hnone]
  refine ⟨congrArg Prod.fst hcreate, herror, fun h => ?_⟩
  obtain ⟨expiresAt, -, hparse, -⟩ := h.created _ _ _ _ _ _ _ _ _ _ _ rfl hcreate
  rw [herror] at hparse
  cases hparse

end Purels.Properties
