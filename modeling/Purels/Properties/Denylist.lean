import Purels.Config.Runtime
import Purels.Properties.Hosts
import Purels.Service.LinkSpecs

/-!
# The destination denylist

A destination is accepted by one parser and denied by another.  This module
says which accepted destinations lead to a denied host all the same.

* `Accepted`: what `Create` or `Update` has taken as a destination.
* `accepted_not_denied_iff`: the denylist holds for a destination exactly when,
  if its host is on the list, its fragment decodes and a covering entry ends in a
  dot as the host does.
* `trailing_dot_accepted`: a denied host that is accepted.
-/

namespace Purels.Properties

open Go Security Store LinkStore Service Config

/-! ## Accepted destinations -/

section

variable (u : Unicode) (loc : DatabaseLocale)

/-- The destinations a successful `Create` took over from its request.  A link
that was handed back has none of the request's rules. -/
def takenOver (req : CreateLinkRequest) (result : CreateResult) : List GoString :=
  req.destinationURL ::
    if result.created then req.rules.map LinkRuleInput.destinationURL else []

/-- Some `Create` or `Update` under the denylist succeeds with the destination as
its link's or a rule's. -/
inductive Accepted (denylist : List GoString) (destination : GoString) : Prop
  | create (svc : LinkService) (settings : RuntimeSettingsInput) (ctx : Context)
      (req : CreateLinkRequest) (now : Instant) (draws : Fin aliasAttempts → Draw)
      (s t : LinkStore) (result : CreateResult)
      (hlist : settings.destinationDenylist = denylist)
      (hok : Create u loc svc settings ctx req now draws s = (.ok result, t))
      (hmem : destination ∈ takenOver req result)
  | update (svc : LinkService) (settings : RuntimeSettingsInput) (ctx : Context) (id : GoString)
      (req : UpdateLinkRequest) (now : Instant) (s t : LinkStore) (link : Link)
      (hlist : settings.destinationDenylist = denylist)
      (hok : Update u loc svc settings ctx id req now s = (.ok link, t))
      (hmem : destination ∈ updateDestinations req)

/-- The host the destination was accepted with is on the denylist, letter case
and one trailing dot aside. -/
def NamesDenied (denylist : List GoString) (destination : GoString) : Prop :=
  ∃ parsed, parseRequestURI u destination = some parsed ∧
    ∃ entry ∈ denylist, covers (trimDot entry) (trimDot (toLower u parsed.hostname))

/-- Some entry covers the host, dots as written. -/
def DotsAgree (denylist : List GoString) (destination : GoString) : Prop :=
  ∃ parsed, parseRequestURI u destination = some parsed ∧
    ∃ entry ∈ denylist, covers (trimDot entry) (trimDot (toLower u parsed.hostname)) ∧
      endsDot entry = endsDot (toLower u parsed.hostname)

variable {u loc}

theorem storableText_of_rule {rules : List LinkRule} {destination : GoString}
    (hrules : rules.all storableRule) (hmem : destination ∈ rules.map LinkRule.destinationURL) :
    storableText destination := by
  obtain ⟨rule, hrule, rfl⟩ := List.mem_map.mp hmem
  have hstorable := List.all_eq_true.mp hrules rule hrule
  simp only [storableRule, Bool.and_eq_true] at hstorable
  exact hstorable.1.1.2

theorem storableText_of_columns {link : Link} (h : storableColumns link) :
    storableText link.destinationURL := by
  simp only [storableColumns, Bool.and_eq_true] at h
  exact h.1.1.1.1.1.1

theorem storableText_of_reuse {settings : RuntimeSettingsInput} {ctx : Context}
    {destination : GoString} {now : Instant} {s : LinkStore} {link : Link}
    (h : reuseLink loc settings ctx destination now s = .ok (some link)) :
    storableText destination := by
  by_contra hbad
  have hbad' : (!storableText destination) = true := by simpa using hbad
  unfold reuseLink at h
  split at h
  · split_ifs at h
    · rw [FindLiveLinkByDestination, if_pos hbad'] at h
      simp at h
    · simp at h
  · simp at h

/-- An accepted destination has passed both checks, and is text the database
takes. -/
theorem accepted_checked {denylist : List GoString} {destination : GoString}
    (h : Accepted u loc denylist destination) :
    checkDestination u denylist destination = .ok () ∧ storableText destination := by
  rcases h with ⟨svc, settings, ctx, req, now, draws, s, t, result, rfl, hok, hmem⟩ |
    ⟨svc, settings, ctx, id, req, now, s, t, link, rfl, hok, hmem⟩
  · rcases Create_cases u loc svc settings ctx req now draws s with
      ⟨e, v, heq, -⟩ | ⟨checked, link, heq, hcheck, hreuse⟩ |
      ⟨checked, link, v, heq, hcheck, -, ⟨draw, hmade⟩, -, w, -, hins⟩
    · simp [heq] at hok
    · obtain rfl : (⟨link, false⟩ : CreateResult) = result := by
        simpa [heq] using congrArg Prod.fst hok
      obtain rfl : destination = req.destinationURL := by simpa [takenOver] using hmem
      exact ⟨(checkCreate_ok hcheck).1, storableText_of_reuse hreuse⟩
    · obtain rfl : (⟨link, true⟩ : CreateResult) = result := by
        simpa [heq] using congrArg Prod.fst hok
      obtain ⟨hdest, hown, hrules⟩ := checkCreate_ok hcheck
      obtain ⟨hmap, hchecks⟩ := normalizeRules_ok hrules
      rcases w.CreateLink_cases link ctx.actorID with ⟨e, he⟩ | ⟨-, hcolumns, -, hparts⟩
      · simp [he] at hins
      rw [hmade] at hcolumns hparts
      rcases List.mem_cons.mp hmem with rfl | hmem
      · exact ⟨hdest, hown ▸ storableText_of_columns hcolumns⟩
      · have hrule : destination ∈ checked.rules.map LinkRule.destinationURL := by
          simpa [hmap] using hmem
        obtain ⟨rule, hrule', rfl⟩ := List.mem_map.mp hrule
        exact ⟨hchecks rule hrule', storableText_of_rule hparts hrule⟩
  · rcases Update_cases u loc svc settings ctx id req now s with
      ⟨e, heq⟩ | ⟨loaded, edit, -, -, hplan, hedit, -⟩
    · simp [heq] at hok
    rcases s.UpdateLink_cases edit.link edit.tags edit.rules ctx.ownerID now with
      ⟨e, he⟩ | ⟨-, hcolumns, -, -, hparts⟩
    · simp [he] at hedit
    rcases List.mem_append.mp hmem with hmem | hmem
    · rcases hplan.destination with ⟨hnil, -⟩ | ⟨-, hown, hdest, -⟩
      · simp [hnil] at hmem
      · split_ifs at hmem
        · simp at hmem
        · obtain rfl : destination = req.destinationURL := by simpa using hmem
          exact ⟨hdest, hown ▸ storableText_of_columns hcolumns⟩
    · rcases hplan.rules with ⟨hnone, -⟩ | ⟨raw, rules, hraw, hsome, hrules, -⟩
      · simp [hnone] at hmem
      · obtain ⟨hmap, hchecks⟩ := normalizeRules_ok hrules
        have hrule : destination ∈ rules.map LinkRule.destinationURL := by
          simpa [hraw, hmap] using hmem
        obtain ⟨rule, hrule', rfl⟩ := List.mem_map.mp hrule
        rw [hsome] at hparts
        exact ⟨hchecks rule hrule', storableText_of_rule hparts hrule⟩

/-! ## A create that accepts what passes the checks -/

theorem equalFold_nil {host : GoString} (h : host ≠ []) : equalFold u host [] = false := by
  obtain ⟨b, rest, rfl⟩ := List.exists_cons_of_ne_nil h
  simp [equalFold, runes_cons]

/-- A deployment without an address is nobody's destination. -/
theorem isSelfDestination_nil (denylist : List GoString) (link : Link) (destination : GoString) :
    isSelfDestination u ⟨[]⟩ { destinationDenylist := denylist } link destination = false := by
  unfold isSelfDestination
  split
  · rfl
  · rename_i parsed _
    by_cases hnil : parsed.hostname = []
    · simp [hnil]
    · have hbase : Url.parse u [] = some {} := rfl
      have hname : ({} : Url).hostname = [] := rfl
      simp [isShortHost, hbase, hname, equalFold_nil hnil]

/-- A checked, storable destination is accepted by a plain create on an empty
store. -/
theorem accepted_of_checked {denylist : List GoString} {destination : GoString}
    (hcheck : checkDestination u denylist destination = .ok ())
    (hstore : storableText destination) : Accepted u loc denylist destination := by
  have hlen : (runes destination).length ≤ 8192 :=
    (length_runes_le destination).trans (ValidateDestination_ok (checkDestination_ok hcheck).1).1
  let draw : Draw := ⟨default, 0, some fun _ => 0⟩
  let checked : CheckedLink := ⟨destination, [], [], [], [], 302, [], 2⟩
  have hchecked : checkCreate u { destinationDenylist := denylist }
      { destinationURL := destination } = .ok checked := by
    unfold checkCreate
    rw [hcheck]
    rfl
  have hreserved : AliasReserved u (lit "00000000") = false := by
    rw [AliasReserved, toLower_ascii u (by decide +kernel)]
    decide
  have hguard : rejectSelf u ⟨[]⟩ { destinationDenylist := denylist }
      (newLink checked (lit "00000000") draw) = .ok () := by
    simp [rejectSelf, isSelfDestination_nil, newLink, checked]
  have hinsert : CreateLink {} (newLink checked (lit "00000000") draw) none =
      (.ok (), insertLink {} (newLink checked (lit "00000000") draw) none) := by
    have hempty : storableText [] = true := by decide
    have halias : storableText (lit "00000000") = true := by decide
    have halen : (runes (lit "00000000")).length = 8 := by decide
    simp [CreateLink, storableColumns, newLink, checked, hstore, hlen, hempty, halias, halen]
  have hattempts : ∀ draws, createAttempts u ⟨[]⟩ { destinationDenylist := denylist } checked none
      (draw :: draws) {} = (.ok ⟨newLink checked (lit "00000000") draw, true⟩,
        insertLink {} (newLink checked (lit "00000000") draw) none) := by
    intro draws
    have hnext : nextAlias { destinationDenylist := denylist } draw {} =
        (.ok (lit "00000000"), {}) := rfl
    rw [createAttempts, hnext]
    simp [hreserved, Service.insertLink, hguard, hinsert]
  have hcreate : Create u loc ⟨[]⟩ { destinationDenylist := denylist } {}
      { destinationURL := destination } 0 (fun _ => draw) {} =
      (.ok ⟨newLink checked (lit "00000000") draw, true⟩,
        insertLink {} (newLink checked (lit "00000000") draw) none) := by
    unfold Create
    rw [hchecked]
    exact hattempts _
  exact .create _ _ _ _ _ _ _ _ _ rfl hcreate (by simp [takenOver])

/-! ## When the denylist holds -/

/-- The condition under which denial sees what acceptance saw: a host on the list
comes with a fragment that decodes, and with an entry that ends in a dot exactly
when it does. -/
def DenialSees (u : Unicode) (denylist : List GoString) (destination : GoString) : Prop :=
  ValidateDestination u destination = .ok () → storableText destination →
    NamesDenied u denylist destination →
      fragmentDecodes destination ∧ DotsAgree u denylist destination

/-- What passes the denylist is not on it exactly when denial sees the host. -/
theorem accepted_not_denied_iff {field : String} {denylist : List GoString}
    (hnorm : normalizeRuntimeHosts u denylist field = .ok denylist) (destination : GoString) :
    (Accepted u loc denylist destination → ¬ NamesDenied u denylist destination) ↔
      DenialSees u denylist destination := by
  have hne : ∀ entry ∈ denylist, entry ≠ [] :=
    fun entry hentry => ((normalizeRuntimeHosts_normal u hnorm).2 entry hentry).ne_nil
  -- Denial of a valid destination, in the terms of the condition.
  have hdenied : ValidateDestination u destination = .ok () →
      (HostDenied u destination denylist = true ↔
        fragmentDecodes destination ∧ DotsAgree u denylist destination) := by
    intro hvalid
    obtain ⟨-, -, parsed, hparse, hhost, huser, -⟩ := ValidateDestination_ok hvalid
    rw [HostDenied_iff hparse hhost huser]
    refine and_congr_right fun _ => ?_
    constructor
    · rintro ⟨entry, hentry, hcovers⟩
      exact ⟨parsed, hparse, entry, hentry, (covers_iff_trimDot (hne entry hentry)).mp hcovers⟩
    · rintro ⟨parsed', hparse', entry, hentry, hcovers⟩
      obtain rfl : parsed = parsed' := by simpa [hparse] using hparse'
      exact ⟨entry, hentry, (covers_iff_trimDot (hne entry hentry)).mpr hcovers⟩
  constructor
  · intro hsafe hvalid hstore hnames
    rw [← hdenied hvalid]
    by_contra hpass
    refine hsafe (accepted_of_checked ?_ hstore) hnames
    simp [checkDestination, hvalid, hpass]
  · intro hsees haccepted hnames
    obtain ⟨hcheck, hstore⟩ := accepted_checked haccepted
    obtain ⟨hvalid, hpass⟩ := checkDestination_ok hcheck
    have hdeny := (hdenied hvalid).mpr (hsees hvalid hstore hnames)
    simp [hpass] at hdeny

end

theorem accepted_not_denied_iff_bitly :
    (Accepted .ascii plainLocale [lit "bit.ly"] (lit "http://bit.ly./x") →
        ¬ NamesDenied .ascii [lit "bit.ly"] (lit "http://bit.ly./x")) ↔
      DenialSees .ascii [lit "bit.ly"] (lit "http://bit.ly./x") :=
  have hnorm : normalizeRuntimeHosts .ascii [lit "bit.ly"] "destination_denylist" =
      .ok [lit "bit.ly"] := by decide
  accepted_not_denied_iff hnorm (lit "http://bit.ly./x")

/-- `http://bit.ly./x` is accepted although `bit.ly` is on the denylist. -/
theorem trailing_dot_accepted :
    ¬ ∀ (denylist : List GoString) (destination : GoString),
      normalizeRuntimeHosts .ascii denylist "destination_denylist" = .ok denylist →
      Accepted .ascii plainLocale denylist destination →
      ¬ NamesDenied .ascii denylist destination := by
  intro hclaim
  have haccepted : Accepted .ascii plainLocale [lit "bit.ly"] (lit "http://bit.ly./x") :=
    accepted_of_checked (by decide) (by decide)
  refine hclaim [lit "bit.ly"] (lit "http://bit.ly./x") (by decide) haccepted
    ⟨{ scheme := lit "http", host := lit "bit.ly.", path := lit "/x" }, by decide,
      lit "bit.ly", by simp, by decide⟩

end Purels.Properties
