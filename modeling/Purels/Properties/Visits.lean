import Purels.Http.Redirects

/-!
# Visits and previews

However many visits, previews and headers-only requests arrive, whatever they make the cache
hold: each is answered as the first would have been, a preview shows where the visit would go,
and exactly the visits are counted.

* `lookUpLink`, `answerTo`, `clickCounted`: what a request comes to in a given state.
* `Redirect_spec`: one request; `visits_accounted`: all of them.
-/

namespace Purels.Properties

open Go Http Store Service

section

variable (u : Unicode) (loc : DatabaseLocale) (localOffset : Instant → Int)
  (hash : GoString → Option (List UInt8))

/-! ## What a request comes to -/

/-- The link that a code resolves to. -/
def lookUpLink (w : World) (code : GoString) (now : Instant) : Except ServiceError Link :=
  (Resolve loc localOffset w code now).1

/-- The answer to a request. -/
def answerTo (w : World) (visit : Visit) : PageAnswer :=
  match redirectLookup visit.path with
  | .notFound => notFound visit
  | .preview code =>
    match lookUpLink loc localOffset w code visit.now with
    | .error _ => notFound visit
    | .ok link => previewAnswer u visit link
  | .resolve code =>
    match lookUpLink loc localOffset w code visit.now with
    | .error _ => notFound visit
    | .ok link => visitAnswer u visit link

/-- The link that a request visits. -/
def linkVisited (w : World) (visit : Visit) : Option Link :=
  match redirectLookup visit.path with
  | .resolve code => (lookUpLink loc localOffset w code visit.now).toOption
  | _ => none

/-- The event that a request leaves: that of a visit to a link of the tables, with texts that
the database takes. -/
def clickCounted (w : World) (visit : Visit) : Option ClickEvent :=
  if visit.method = .head then none
  else
    (linkVisited loc localOffset w visit).bind fun link =>
      if link.id ∈ w.store.links.map LinkRow.id ∧ storableText (truncate visit.userAgent 512) ∧
          storableText (truncate visit.referer 2048) then
        some (storedClick u hash link.id (ClientIP visit) visit.userAgent visit.referer
          visit.clickID visit.now)
      else none

/-- The first request previews what the second visits, for the same visitor. -/
structure Previews (preview visit : Visit) : Prop where
  code : ∃ code, redirectLookup preview.path = .preview code ∧
    redirectLookup visit.path = .resolve code
  get : preview.method = .get ∧ visit.method = .get
  settings : preview.settings = visit.settings
  userAgent : preview.userAgent = visit.userAgent
  rawQuery : preview.rawQuery = visit.rawQuery
  now : preview.now = visit.now

/-! ## Resolving -/

variable {u hash}

/-- A resolve leaves the cache alone, or fills the entry of its code from the tables. -/
theorem Resolve_cases (w : World) (code : GoString) (now : Instant) :
    (Resolve loc localOffset w code now).2 = w ∨
      ∃ link, w.cache code = none ∧ w.store.GetLinkByAlias loc code = .ok link ∧
        (Resolve loc localOffset w code now).2 =
          { w with cache := Function.update w.cache code (some link) } := by
  unfold Resolve
  cases hcache : w.cache code with
  | some link => exact Or.inl rfl
  | none =>
    cases hget : w.store.GetLinkByAlias loc code with
    | error e => exact Or.inl rfl
    | ok link =>
      dsimp only
      by_cases husable : isUsable link now
      · obtain ⟨row, -, halias, -, hlink⟩ := LinkStore.GetLinkByAlias_ok hget
        have hname : link.aliasName = code := by rw [hlink, ← halias]; rfl
        rw [husable, Bool.not_true, if_neg Bool.false_ne_true]
        unfold World.setLink
        split
        · exact Or.inr ⟨link, rfl, rfl, by rw [hname]⟩
        · exact Or.inl rfl
      · rw [Bool.not_eq_true] at husable
        rw [husable, Bool.not_false, if_pos rfl]
        exact Or.inl rfl

theorem Resolve_store (w : World) (code : GoString) (now : Instant) :
    (Resolve loc localOffset w code now).2.store = w.store := by
  rcases Resolve_cases loc localOffset w code now with
    h | ⟨link, -, -, h⟩
  · rw [h]
  · rw [h]

/-- What a code resolves to is what its entry or its row says. -/
theorem lookUpLink_eq (w : World) (code : GoString) (now : Instant) :
    lookUpLink loc localOffset w code now =
      match w.cache code with
      | some link => if isUsable link now then .ok link else .error .notFound
      | none =>
        match w.store.GetLinkByAlias loc code with
        | .error e => .error e
        | .ok link => if isUsable link now then .ok link else .error .notFound := by
  unfold lookUpLink Resolve
  cases w.cache code with
  | some link => rfl
  | none =>
    cases w.store.GetLinkByAlias loc code with
    | error e => rfl
    | ok link =>
      dsimp only
      cases isUsable link now with
      | false => rfl
      | true => rfl

/-- A resolve changes nothing for those that come after it. -/
theorem lookUpLink_Resolve (w : World) (code code' : GoString) (now now' : Instant) :
    lookUpLink loc localOffset (Resolve loc localOffset w code now).2 code' now' =
      lookUpLink loc localOffset w code' now' := by
  rcases Resolve_cases loc localOffset w code now with
    h | ⟨link, hnone, hget, h⟩
  · rw [h]
  · rw [h, lookUpLink_eq, lookUpLink_eq]
    dsimp only
    by_cases hcode : code' = code
    · subst hcode
      rw [Function.update_self, hnone, hget]
    · rw [Function.update_of_ne hcode]

/-! ## One request -/

variable {loc localOffset}

/-- Worlds in which every code resolves to the same answer alike. -/
theorem answerTo_congr {w w' : World}
    (h : ∀ code now, lookUpLink loc localOffset w' code now = lookUpLink loc localOffset w code now)
    (visit : Visit) :
    answerTo u loc localOffset w' visit = answerTo u loc localOffset w visit ∧
      linkVisited loc localOffset w' visit = linkVisited loc localOffset w visit := by
  unfold answerTo linkVisited
  cases redirectLookup visit.path with
  | notFound => exact ⟨rfl, rfl⟩
  | preview code =>
    dsimp only
    rw [h]
    exact ⟨rfl, rfl⟩
  | resolve code =>
    dsimp only
    rw [h]
    exact ⟨rfl, rfl⟩

/-- A visit adds its event when the tables have the link and take the texts. -/
theorem RecordClick_click (link : Link) (requestIP userAgent referrer : GoString) {id : Uuid}
    (now : Instant) {s : ClickTables} (hfresh : ∀ event ∈ s.events, event.id ≠ id) :
    (RecordClick u hash link requestIP userAgent referrer id now s).events = s.events ++
      (if link.id ∈ s.links ∧ storableText (truncate userAgent 512) ∧
          storableText (truncate referrer 2048) then
        some (storedClick u hash link.id requestIP userAgent referrer id now)
      else none).toList := by
  by_cases hlink : link.id ∈ s.links
  · rw [RecordClick_events u hash link requestIP userAgent referrer now hlink hfresh]
    by_cases htext : storableText (truncate userAgent 512) ∧ storableText (truncate referrer 2048)
    · rw [if_pos htext, if_pos ⟨hlink, htext⟩]
      rfl
    · rw [if_neg htext, if_neg fun h => htext h.2, Option.toList_none, List.append_nil]
  · rw [if_neg fun h => hlink h.1, Option.toList_none, List.append_nil]
    have hunknown : s.links.contains link.id = false := by
      simpa using hlink
    unfold RecordClick ClickTables.CreateClickEvent clickOf
    dsimp only
    rw [hunknown, Bool.not_false, Bool.true_or, if_pos rfl]
    split_ifs
    · rfl
    · rfl

/-- The event that a request adds, and the state it leaves: the same for those that come after. -/
theorem Redirect_spec (visit : Visit) (site : Site)
    (hfresh : ∀ event ∈ site.events, event.id ≠ visit.clickID) :
    (Redirect u loc localOffset hash visit site).1 = answerTo u loc localOffset site.world visit ∧
      (Redirect u loc localOffset hash visit site).2.events =
        site.events ++ (clickCounted u loc localOffset hash site.world visit).toList ∧
      (Redirect u loc localOffset hash visit site).2.world.store = site.world.store ∧
      ∀ code now, lookUpLink loc localOffset (Redirect u loc localOffset hash visit site).2.world
        code now = lookUpLink loc localOffset site.world code now := by
  unfold Redirect answerTo clickCounted linkVisited
  cases redirectLookup visit.path with
  | notFound => simp
  | preview code =>
    dsimp only
    have hstore := Resolve_store loc localOffset site.world code visit.now
    have hview := fun other time =>
      lookUpLink_Resolve loc localOffset site.world code other visit.now time
    have hlook : lookUpLink loc localOffset site.world code visit.now =
      (Resolve loc localOffset site.world code visit.now).1 := rfl
    rw [hlook]
    cases (Resolve loc localOffset site.world code visit.now).1 with
    | error e => exact ⟨rfl, by simp, hstore, hview⟩
    | ok link => exact ⟨rfl, by simp, hstore, hview⟩
  | resolve code =>
    dsimp only
    have hstore := Resolve_store loc localOffset site.world code visit.now
    have hview := fun other time =>
      lookUpLink_Resolve loc localOffset site.world code other visit.now time
    have hlook : lookUpLink loc localOffset site.world code visit.now =
      (Resolve loc localOffset site.world code visit.now).1 := rfl
    rw [hlook]
    cases (Resolve loc localOffset site.world code visit.now).1 with
    | error e => exact ⟨rfl, by simp [Except.toOption], hstore, hview⟩
    | ok link =>
      refine ⟨rfl, ?_, hstore, hview⟩
      dsimp only
      by_cases hhead : visit.method = .head
      · rw [if_pos hhead, if_pos hhead, Option.toList_none, List.append_nil]
        rfl
      · rw [if_neg hhead, if_neg hhead]
        refine (RecordClick_click link (ClientIP visit) visit.userAgent visit.referer visit.now
          hfresh).trans ?_
        dsimp only [Except.toOption, Option.bind_some]
        rw [← hstore]
        rfl

/-! ## All requests -/

/-- What a request counts does not depend on what the requests before it have cached. -/
theorem clickCounted_congr {w w' : World} (hstore : w'.store = w.store)
    (h : ∀ code now, lookUpLink loc localOffset w' code now = lookUpLink loc localOffset w code now)
    (visit : Visit) :
    clickCounted u loc localOffset hash w' visit = clickCounted u loc localOffset hash w visit := by
  unfold clickCounted
  rw [(answerTo_congr (u := u) h visit).2, hstore]

/-- The event of a request has the identifier that it drew. -/
theorem clickCounted_id {w : World} {visit : Visit} {event : ClickEvent}
    (h : clickCounted u loc localOffset hash w visit = some event) : event.id = visit.clickID := by
  unfold clickCounted at h
  split at h
  · cases h
  · obtain ⟨link, -, hevent⟩ := Option.bind_eq_some_iff.mp h
    split at hevent
    · rw [← Option.some.inj hevent]
      rfl
    · cases hevent

/-- The identifiers that the requests draw stay fresh. -/
theorem fresh_after {events after : List ClickEvent} {w : World} {visit : Visit}
    {visits : List Visit}
    (hfresh : (events.map ClickEvent.id ++ (visit :: visits).map Visit.clickID).Nodup)
    (hafter : after = events ++ (clickCounted u loc localOffset hash w visit).toList) :
    (after.map ClickEvent.id ++ visits.map Visit.clickID).Nodup := by
  rw [hafter]
  cases hcounted : clickCounted u loc localOffset hash w visit with
  | none =>
    rw [Option.toList_none, List.append_nil]
    refine hfresh.sublist (List.Sublist.append_left ?_ _)
    exact List.sublist_cons_self _ _
  | some event =>
    rw [List.map_append, Option.toList_some, List.map_singleton, clickCounted_id hcounted,
      List.append_assoc]
    exact hfresh

theorem serveAll_spec (site : Site) (visits : List Visit)
    (hfresh : (site.events.map ClickEvent.id ++ visits.map Visit.clickID).Nodup) :
    (serveAll u loc localOffset hash site visits).1 =
        visits.map (answerTo u loc localOffset site.world) ∧
      (serveAll u loc localOffset hash site visits).2.events =
        site.events ++ visits.filterMap (clickCounted u loc localOffset hash site.world) ∧
      ∀ code now, lookUpLink loc localOffset (serveAll u loc localOffset hash site visits).2.world
        code now = lookUpLink loc localOffset site.world code now := by
  induction visits generalizing site with
  | nil => simp [serveAll]
  | cons visit visits ih =>
    have hnew : ∀ event ∈ site.events, event.id ≠ visit.clickID := by
      intro event hevent heq
      refine (List.nodup_append.mp hfresh).2.2 _ (List.mem_map_of_mem hevent) _ ?_ heq
      exact List.mem_cons_self
    obtain ⟨hanswer, hevents, hstore, hview⟩ :=
      @Redirect_spec u loc localOffset hash visit site hnew
    obtain ⟨hanswers, hrest, hafter⟩ := ih _ (fresh_after hfresh hevents)
    unfold serveAll
    refine ⟨?_, ?_, fun code now => (hafter code now).trans (hview code now)⟩
    · rw [List.map_cons]
      refine List.cons_eq_cons.mpr ⟨hanswer, hanswers.trans ?_⟩
      exact List.map_congr_left fun other _ => (answerTo_congr hview other).1
    · refine hrest.trans ?_
      rw [hevents, List.append_assoc, List.filterMap_congr fun other _ =>
        clickCounted_congr hstore hview other]
      cases hcounted : clickCounted u loc localOffset hash site.world visit with
      | none =>
        rw [List.filterMap_cons_none hcounted]
        rfl
      | some event =>
        rw [List.filterMap_cons_some hcounted]
        rfl

theorem galleryPage_url {visit : Visit} (h : ¬ visit.method = .head)
    (aliasName destination : GoString) (interstitial : Bool) (seconds : Int) :
    (galleryPage u visit aliasName destination interstitial seconds).url = some destination := by
  unfold galleryPage
  rw [if_neg h]
  rfl

/-- A preview shows where the visit goes. -/
theorem url_of_previews {w : World} {preview visit : Visit} (h : Previews preview visit) :
    (answerTo u loc localOffset w preview).url = (answerTo u loc localOffset w visit).url := by
  obtain ⟨code, hpreview, hvisit⟩ := h.code
  have hget : ¬ preview.method = .head ∧ ¬ visit.method = .head := by
    rw [h.get.1, h.get.2]
    exact ⟨nofun, nofun⟩
  unfold answerTo
  rw [hpreview, hvisit, h.now]
  dsimp only
  cases lookUpLink loc localOffset w code visit.now with
  | error e =>
    unfold notFound
    rw [h.settings]
  | ok link =>
    have htarget : destination u preview link = destination u visit link := by
      unfold destination
      rw [h.settings, h.userAgent, h.rawQuery]
    dsimp only
    unfold previewAnswer visitAnswer
    dsimp only
    rw [galleryPage_url hget.1, htarget]
    by_cases hdelay : 0 < link.interstitialSeconds
    · rw [if_pos hdelay, galleryPage_url hget.2]
    · rw [if_neg hdelay]
      rfl

end

/-! ## A link that is looked at first -/

def teaserWorld : World where
  store := {
    links := [{ id := default, aliasName := lit "abc", destinationURL := lit "https://a.io" }] }

theorem teaser_digit (n : ℕ) : n % 16 < 16 := Nat.mod_lt n (Nat.succ_pos 15)

/-- A request for the link; `n` is for its identifier. -/
def teaserVisit (n : ℕ) (method : Method) (path : GoString) : Visit where
  method
  path
  now := 0
  clickID := Uuid.filled ⟨n % 16, teaser_digit n⟩

/-- A preview, the headers of the page, and the visit. -/
def teaserVisits : List Visit :=
  [teaserVisit 1 .get (lit "/abc+"), teaserVisit 2 .head (lit "/abc"),
    teaserVisit 3 .get (lit "/abc")]

end Purels.Properties
