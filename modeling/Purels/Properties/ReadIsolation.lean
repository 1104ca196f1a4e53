import Purels.Http.Reads

/-!
# What a restricted account can read

Two stores that differ only in the links of other accounts, and in what hangs
off them, are one store to a restricted account; except that `/links/expand`
looks an alias up among everyone's links.

* `restrict` leaves the chosen rows of a store and what hangs off them.
* The lemmas `…_restrict`: a statement of the store under an owner reads the
  same from the store restricted to rows that include the owner's.
* `handle_restrict`, the same for a request.
* `read_isolated_iff`: which requests cannot tell two such stores apart.
-/

namespace Purels.Store.LinkStore

open Go

/-! ## The part of a store that belongs to some links -/

/-- The identifier is that of a row `p` chooses. -/
def keeps (p : LinkRow → Bool) (s : LinkStore) (id : Uuid) : Bool :=
  s.links.any fun row => p row && row.id == id

/-- The rows `p` chooses and what hangs off them.  The vocabulary of tags is
shared, so it is not part of anyone's data. -/
def restrict (p : LinkRow → Bool) (s : LinkStore) : LinkStore where
  links := s.links.filter p
  linkTags := s.linkTags.filter fun t => s.keeps p t.1
  rules := s.rules.filter fun r => s.keeps p r.linkID
  events := s.events.filter fun e => s.keeps p e.linkID
  daily := s.daily.filter fun d => s.keeps p d.linkID
  aliasSeq := s.aliasSeq

variable {loc : DatabaseLocale} {countBots : Bool} {p : LinkRow → Bool} {s : LinkStore}
  {owner : Option Uuid} {row : LinkRow}

theorem keeps_id (hrow : row ∈ s.links) (hp : p row) : s.keeps p row.id :=
  List.any_eq_true.mpr ⟨row, hrow, by simp [hp]⟩

/-- What hangs off a row that is kept is kept. -/
theorem filter_keeps {α : Type*} (key : α → Uuid) (rows : List α) (hrow : row ∈ s.links)
    (hp : p row) :
    ((rows.filter fun a => s.keeps p (key a)).filter fun a => key a == row.id) =
      rows.filter fun a => key a == row.id := by
  rw [List.filter_filter]
  refine List.filter_congr fun a _ => ?_
  by_cases hkey : key a = row.id
  · simp [hkey, keeps_id hrow hp]
  · simp [hkey]

theorem tagsOf_restrict (hrow : row ∈ s.links) (hp : p row) :
    (s.restrict p).tagsOf loc row.id = s.tagsOf loc row.id := by
  unfold tagsOf
  rw [restrict, filter_keeps Prod.fst s.linkTags hrow hp]

theorem rulesOf_restrict (hrow : row ∈ s.links) (hp : p row) :
    (s.restrict p).rulesOf row.id = s.rulesOf row.id := by
  unfold rulesOf
  rw [restrict, filter_keeps RuleRow.linkID s.rules hrow hp]

theorem dailyOf_restrict (hrow : row ∈ s.links) (hp : p row) :
    (s.restrict p).dailyOf row.id = s.dailyOf row.id :=
  filter_keeps DailyRow.linkID s.daily hrow hp

theorem toLink_restrict (hrow : row ∈ s.links) (hp : p row) :
    (s.restrict p).toLink loc row = s.toLink loc row := by
  unfold toLink
  rw [tagsOf_restrict hrow hp, rulesOf_restrict hrow hp]

theorem clicksOf_restrict (hrow : row ∈ s.links) (hp : p row) :
    (s.restrict p).clicksOf countBots row.id = s.clicksOf countBots row.id := by
  unfold clicksOf
  rw [dailyOf_restrict hrow hp]

/-! ## Statements under an owner -/

/-- The links of a filtered list are in view. -/
theorem mem_filteredLinks {filter : ListFilter} {now : Instant} {entry : LinkRow × Int}
    (h : entry ∈ s.filteredLinks loc countBots filter now) :
    entry.1 ∈ s.visibleLinks filter.ownerID := by
  obtain ⟨row, hrow, rfl⟩ := List.mem_map.mp ((List.mem_insertionSort _).mp h)
  exact List.mem_of_mem_filter hrow

section

variable (hp : ∀ row : LinkRow, row.visibleTo owner → p row)
include hp

theorem visibleLinks_restrict : (s.restrict p).visibleLinks owner = s.visibleLinks owner := by
  unfold visibleLinks
  rw [restrict, List.filter_filter]
  refine List.filter_congr fun row _ => ?_
  by_cases hvisible : row.visibleTo owner
  · simp [hvisible, hp row hvisible]
  · simp [hvisible]

/-- A visible row is in the table and is kept. -/
theorem mem_visibleLinks (hrow : row ∈ s.visibleLinks owner) : row ∈ s.links ∧ p row := by
  obtain ⟨hmem, hvisible⟩ := List.mem_filter.mp hrow
  exact ⟨hmem, hp row (Bool.and_eq_true_iff.mp hvisible).2⟩

/-- A join with the visible links reads the same, whatever is joined. -/
theorem join_restrict {α β : Type*} (key : α → Uuid) (rows : List α) (f : α → LinkRow → β) :
    ((rows.filter fun a => s.keeps p (key a)).flatMap fun a =>
      (((s.restrict p).visibleLinks owner).filter fun row => row.id == key a).map (f a)) =
    rows.flatMap fun a => ((s.visibleLinks owner).filter fun row => row.id == key a).map (f a) := by
  rw [visibleLinks_restrict hp]
  induction rows with
  | nil => rfl
  | cons a rows ih =>
    by_cases hkept : s.keeps p (key a)
    · rw [List.filter_cons_of_pos (by simpa using hkept), List.flatMap_cons, List.flatMap_cons, ih]
    · -- Nothing visible has the key of a row that is dropped.
      have hnone : ((s.visibleLinks owner).filter fun row => row.id == key a) = [] := by
        refine List.filter_eq_nil_iff.mpr fun row hrow hid => hkept ?_
        obtain ⟨hmem, hprow⟩ := mem_visibleLinks hp hrow
        exact beq_iff_eq.mp hid ▸ keeps_id hmem hprow
      rw [List.filter_cons_of_neg (by simpa using hkept), List.flatMap_cons, hnone, ih]
      rfl

theorem visibleEvents_restrict : (s.restrict p).visibleEvents owner = s.visibleEvents owner :=
  join_restrict hp ClickEvent.linkID s.events Prod.mk

theorem visibleDaily_restrict : (s.restrict p).visibleDaily owner = s.visibleDaily owner :=
  join_restrict hp DailyRow.linkID s.daily fun row _ => row

theorem visibleTags_restrict : (s.restrict p).visibleTags owner = s.visibleTags owner :=
  join_restrict hp Prod.fst s.linkTags fun t _ => t.2

theorem ListTags_restrict : (s.restrict p).ListTags loc owner = s.ListTags loc owner := by
  unfold ListTags
  rw [visibleTags_restrict hp]

theorem liveRow_restrict (id : Uuid) : (s.restrict p).liveRow id owner = s.liveRow id owner := by
  have hfind : ∀ t : LinkStore, t.liveRow id owner =
      (t.visibleLinks owner).find? fun row => row.id == id := by
    intro t
    rw [visibleLinks, List.find?_filter]
    refine congrArg (t.links.find? ·) (funext fun row => ?_)
    rw [Bool.eq_iff_iff]
    simp only [selects, Bool.and_eq_true, decide_eq_true_eq]
    exact ⟨fun h => ⟨⟨h.1.2, h.2⟩, h.1.1⟩, fun h => ⟨⟨h.2, h.1.1⟩, h.1.2⟩⟩
  rw [hfind, hfind, visibleLinks_restrict hp]

theorem GetLink_restrict (id : GoString) :
    (s.restrict p).GetLink loc id owner = s.GetLink loc id owner := by
  unfold GetLink
  split
  · rfl
  · rename_i uid _
    rw [liveRow_restrict hp]
    split
    · rfl
    · rename_i row hrow
      obtain ⟨hmem, hselects⟩ := liveRow_eq_some hrow
      rw [toLink_restrict hmem (hp row (Bool.and_eq_true_iff.mp hselects).2)]

/-- Ranked rows in view are rendered alike. -/
theorem map_toRank_restrict {entries : List (LinkRow × Int)}
    (hmem : ∀ entry ∈ entries, entry.1 ∈ s.visibleLinks owner) :
    entries.map ((s.restrict p).toRank loc) = entries.map (s.toRank loc) := by
  refine List.map_congr_left fun entry hentry => ?_
  obtain ⟨hrow, hprow⟩ := mem_visibleLinks hp (hmem entry hentry)
  rw [toRank, toRank, toLink_restrict hrow hprow]

theorem matchesFilter_restrict (loc : DatabaseLocale) {filter : ListFilter} {now : Instant}
    (hrow : row ∈ s.visibleLinks owner) :
    (s.restrict p).matchesFilter loc filter now row = s.matchesFilter loc filter now row := by
  obtain ⟨hmem, hprow⟩ := mem_visibleLinks hp hrow
  have htags : (s.restrict p).linkTags.contains (row.id, filter.tag) =
      s.linkTags.contains (row.id, filter.tag) := by
    rw [Bool.eq_iff_iff, List.contains_iff_mem, List.contains_iff_mem]
    exact List.mem_filter.trans (and_iff_left (keeps_id hmem hprow))
  rw [matchesFilter, matchesFilter, htags]

theorem filteredLinks_restrict {filter : ListFilter} (howner : filter.ownerID = owner)
    {now : Instant} :
    (s.restrict p).filteredLinks loc countBots filter now =
      s.filteredLinks loc countBots filter now := by
  subst howner
  unfold filteredLinks
  rw [visibleLinks_restrict hp,
    List.filter_congr fun row hrow => matchesFilter_restrict hp loc hrow]
  refine congrArg _ (List.map_congr_left fun row hrow => ?_)
  obtain ⟨hmem, hprow⟩ := mem_visibleLinks hp (List.mem_of_mem_filter hrow)
  rw [clicksOf_restrict hmem hprow]

theorem ListLinks_restrict {filter : ListFilter} (howner : filter.ownerID = owner)
    {now : Instant} :
    (s.restrict p).ListLinks loc countBots filter now = s.ListLinks loc countBots filter now := by
  unfold ListLinks
  rw [filteredLinks_restrict hp howner]
  split_ifs
  · rfl
  · dsimp only
    rw [map_toRank_restrict hp fun entry hentry => ?_]
    exact howner ▸ mem_filteredLinks (List.mem_of_mem_drop (List.mem_of_mem_take hentry))

theorem ExportLinks_restrict {filter : ListFilter} (howner : filter.ownerID = owner) {limit : Nat}
    {now : Instant} :
    (s.restrict p).ExportLinks loc countBots filter limit now =
      s.ExportLinks loc countBots filter limit now := by
  unfold ExportLinks
  rw [filteredLinks_restrict hp howner]
  split_ifs
  · rfl
  · rw [map_toRank_restrict hp fun entry hentry => ?_]
    exact howner ▸ mem_filteredLinks (List.mem_of_mem_take hentry)

theorem TopLinks_restrict {bottom : Bool} {limit : Nat} {first stop : Int} :
    (s.restrict p).TopLinks loc countBots bottom limit first stop owner =
      s.TopLinks loc countBots bottom limit first stop owner := by
  unfold TopLinks
  dsimp only
  rw [visibleLinks_restrict hp, List.filterMap_congr fun row hrow => ?_]
  · refine map_toRank_restrict hp fun entry hentry => ?_
    obtain ⟨row, hrow, hsome⟩ :=
      List.mem_filterMap.mp ((List.mem_insertionSort _).mp (List.mem_of_mem_take hentry))
    split_ifs at hsome
    obtain rfl := Option.some.inj hsome
    exact hrow
  · obtain ⟨hmem, hprow⟩ := mem_visibleLinks hp hrow
    rw [dailyOf_restrict hmem hprow]

theorem Summary_restrict : (s.restrict p).Summary countBots owner = s.Summary countBots owner := by
  rw [Summary, Summary, visibleLinks_restrict hp, visibleDaily_restrict hp]

theorem trendClicks_restrict {first stop day : Int} :
    (s.restrict p).trendClicks countBots first stop owner day =
      s.trendClicks countBots first stop owner day := by
  rw [trendClicks, trendClicks, visibleDaily_restrict hp]

theorem countedEvents_restrict {start stop : Instant} :
    (s.restrict p).countedEvents countBots start stop owner =
      s.countedEvents countBots start stop owner := by
  rw [countedEvents, countedEvents, visibleEvents_restrict hp]

end

/-! ## Statements about one link -/

theorem DailyStats_restrict (hrow : row ∈ s.links) (hp : p row) {first stop : Int} :
    (s.restrict p).DailyStats countBots row.id first stop =
      s.DailyStats countBots row.id first stop := by
  rw [DailyStats, DailyStats, dailyOf_restrict hrow hp]

/-- The counted events of a row that is kept. -/
theorem eventsOf_restrict (hrow : row ∈ s.links) (hp : p row) {start stop : Instant} :
    ((s.restrict p).events.filter fun e => e.linkID == row.id && e.counted countBots start stop) =
      s.events.filter fun e => e.linkID == row.id && e.counted countBots start stop := by
  have hsplit : ∀ events : List ClickEvent, (events.filter fun e =>
      e.linkID == row.id && e.counted countBots start stop) =
        (events.filter fun e => e.linkID == row.id).filter
          (ClickEvent.counted countBots start stop) := by
    intro events
    rw [List.filter_filter]
    exact List.filter_congr fun e _ => Bool.and_comm ..
  rw [hsplit, hsplit, restrict, filter_keeps ClickEvent.linkID s.events hrow hp]

theorem LinkReferrers_restrict (hrow : row ∈ s.links) (hp : p row) {start stop : Instant}
    {limit : Nat} :
    (s.restrict p).LinkReferrers loc countBots row.id start stop limit =
      s.LinkReferrers loc countBots row.id start stop limit := by
  rw [LinkReferrers, LinkReferrers, eventsOf_restrict hrow hp]

/-- Selecting on the left of a join is selecting before it. -/
theorem filter_join {α β : Type*} (q : α → Bool) (rows : List α) (g : α → List β) :
    ((rows.flatMap fun a => (g a).map (Prod.mk a)).filter fun entry => q entry.1) =
      (rows.filter q).flatMap fun a => (g a).map (Prod.mk a) := by
  induction rows with
  | nil => rfl
  | cons a rows ih =>
    have hfilter : (((g a).map (Prod.mk a)).filter fun entry => q entry.1) =
        ((g a).filter fun _ => q a).map (Prod.mk a) := List.filter_map ..
    rw [List.flatMap_cons, List.filter_append, ih, hfilter]
    by_cases hq : q a
    · simp [hq]
    · simp [hq]

/-- The click log joins the link whoever owns it, so here identifiers have to be
unique. -/
theorem LinkClicks_restrict (hids : (s.links.map LinkRow.id).Nodup) (hrow : row ∈ s.links)
    (hp : p row) {start stop : Instant} {limit offset : Nat} :
    (s.restrict p).LinkClicks countBots row.id start stop limit offset =
      s.LinkClicks countBots row.id start stop limit offset := by
  have hjoin : ∀ t : LinkStore, ((t.visibleEvents none).filter fun entry =>
      entry.1.linkID == row.id && entry.1.counted countBots start stop) =
        (t.events.filter fun e => e.linkID == row.id && e.counted countBots start stop).flatMap
          fun e => ((t.visibleLinks none).filter fun r => r.id == row.id).map (Prod.mk e) := by
    intro t
    rw [visibleEvents, filter_join fun e : ClickEvent =>
      e.linkID == row.id && e.counted countBots start stop]
    refine List.flatMap_congr fun e he => ?_
    have hid := (List.mem_filter.mp he).2
    rw [Bool.and_eq_true, beq_iff_eq] at hid
    rw [hid.1]
  have hlinks : (((s.restrict p).visibleLinks none).filter fun r => r.id == row.id) =
      (s.visibleLinks none).filter fun r => r.id == row.id := by
    rw [visibleLinks, visibleLinks, restrict, List.filter_filter, List.filter_filter,
      List.filter_filter]
    refine List.filter_congr fun r hr => ?_
    by_cases hid : r.id = row.id
    · obtain rfl : r = row := List.inj_on_of_nodup_map hids hr hrow hid
      simp [hp]
    · simp [hid]
  unfold LinkClicks
  rw [hjoin, hjoin, hlinks, eventsOf_restrict hrow hp]

end Purels.Store.LinkStore

namespace Purels.Properties

open Go Store LinkStore Http

/-! ## Requests -/

/-- The row belongs to an account other than `u`. -/
def foreign (u : Uuid) (row : LinkRow) : Bool := row.userID.any (· != u)

/-- The stores differ in the links of accounts other than `u`, and in what hangs
off them. -/
def SameFor (u : Uuid) (s s' : LinkStore) : Prop :=
  s.restrict (fun row => !foreign u row) = s'.restrict fun row => !foreign u row

/-- The request expands a short code that an alias can be. -/
def Expands (server : Server) : ReadRequest → Prop
  | .expandLink query => ∃ code, shortCode server (query.get "url") = .ok code ∧
      storableText code ∧ (runes code).length ≤ 64
  | _ => False

variable {server : Server} {ctx : Context} {u : Uuid} {s : LinkStore} {p : LinkRow → Bool}

/-- What is rendered of a loaded link needs to agree for links in view only. -/
theorem withLink_restrict (howner : ctx.ownerID = some u)
    (hp : ∀ row : LinkRow, row.visibleTo (some u) → p row) {id : GoString}
    {render render' : Link → Response}
    (hrender : ∀ row ∈ s.links, p row → uuidParam id = .ok row.id →
      render (s.toLink server.loc row) = render' (s.toLink server.loc row)) :
    withLink server ctx (s.restrict p) id render = withLink server ctx s id render' := by
  unfold withLink Service.Get
  rw [howner, GetLink_restrict hp]
  cases hget : s.GetLink server.loc id (some u) with
  | error e => rfl
  | ok link =>
    obtain ⟨uid, row, huid, hrow, rfl⟩ := GetLink_ok hget
    obtain ⟨hmem, hselects⟩ := liveRow_eq_some hrow
    simp only [selects, Bool.and_eq_true, beq_iff_eq] at hselects
    exact hrender row hmem (hp row hselects.2) (hselects.1.1 ▸ huid)

/-- A code that no alias can be is not found anywhere. -/
theorem GetLinkByAlias_unfit
    (hfit : ∀ row ∈ s.links, storableText row.aliasName ∧ (runes row.aliasName).length ≤ 64)
    {code : GoString} (hunfit : ¬ (storableText code ∧ (runes code).length ≤ 64)) (loc : DatabaseLocale) :
    s.GetLinkByAlias loc code = .error (if storableText code then .notFound else .database) := by
  unfold GetLinkByAlias
  by_cases hstore : storableText code
  · have hnone : s.liveAlias code = none := by
      refine List.find?_eq_none.mpr fun row hrow hfound => hunfit ?_
      have halias : row.aliasName = code := by
        rw [Bool.and_eq_true, beq_iff_eq] at hfound
        exact hfound.1
      exact halias ▸ hfit row hrow
    simp [hstore, hnone]
  · simp [hstore]

/-- A request of a restricted account cannot tell a store from its restriction
to rows that include the account's, unless it expands a code. -/
theorem handle_restrict (hschema : s.Schema) (howner : ctx.ownerID = some u)
    (hp : ∀ row : LinkRow, row.visibleTo (some u) → p row) (now : Instant) {req : ReadRequest}
    (hreq : ¬ Expands server req) :
    handle server ctx now (s.restrict p) req = handle server ctx now s req := by
  cases req with
  | listLinks query =>
    simp only [handle, Http.ListLinks, Service.ListLinks, howner]
    rw [ListLinks_restrict hp rfl]
  | exportLinks query =>
    simp only [handle, Http.ExportLinks, Service.ExportCSV, howner]
    rw [ExportLinks_restrict hp rfl]
  | expandLink query =>
    simp only [handle, ExpandLink, Service.Expand]
    cases hcode : shortCode server (query.get "url") with
    | error message => rfl
    | ok code =>
      have hunfit : ¬ (storableText code ∧ (runes code).length ≤ 64) :=
        fun hfit => hreq ⟨code, hcode, hfit⟩
      dsimp only
      rw [GetLinkByAlias_unfit hschema.aliases_fit hunfit, GetLinkByAlias_unfit
        (fun row hrow => hschema.aliases_fit row (List.mem_of_mem_filter hrow)) hunfit]
  | getLink id => exact withLink_restrict howner hp fun _ _ _ _ => rfl
  | qrCode id query => exact withLink_restrict howner hp fun _ _ _ _ => rfl
  | listTags =>
    simp only [handle, Http.ListTags, Service.ListTags, howner]
    rw [ListTags_restrict hp]
  | linkStats id query =>
    refine withLink_restrict howner hp fun row hrow hprow hid => ?_
    simp only [Service.StatsService.LinkStats, hid, LinkTotalClicks]
    rw [clicksOf_restrict hrow hprow, DailyStats_restrict hrow hprow,
      LinkReferrers_restrict hrow hprow]
  | linkClicks id query =>
    refine withLink_restrict howner hp fun row hrow hprow hid => ?_
    simp only [Service.StatsService.LinkClicks, hid]
    rw [LinkClicks_restrict hschema.ids_nodup hrow hprow]
  | summary =>
    simp only [handle, Http.Summary, Service.StatsService.Summary, howner]
    rw [Summary_restrict hp]
  | topLinks query =>
    simp only [handle, Http.TopLinks, Service.StatsService.Top, howner]
    rw [TopLinks_restrict hp]
  | overview query =>
    simp only [handle, Http.Overview, Service.StatsService.Overview,
      Service.StatsService.GlobalTrend, howner, trendClicks_restrict hp, Summary_restrict hp,
      UniqueVisitors, GlobalReferrers, DeviceBreakdown, RecentClicks, countedEvents_restrict hp]

/-! ## Which requests are isolated -/

/-- A store with one link, of the account `v`. -/
def storeOf (v : Uuid) (aliasName : GoString) : LinkStore :=
  { links := [{ id := default, aliasName := aliasName, destinationURL := [], userID := some v }] }

theorem storeOf_schema (v : Uuid) {aliasName : GoString} (hstore : storableText aliasName)
    (hlen : (runes aliasName).length ≤ 64) : (storeOf v aliasName).Schema where
  ids_nodup := List.nodup_singleton _
  aliases_nodup := List.nodup_singleton _
  aliases_fit := by simp [storeOf, hstore, hlen]
  tags_linked := by simp [storeOf]
  rules_linked := by simp [storeOf]
  events_linked := by simp [storeOf]
  daily_linked := by simp [storeOf]

theorem empty_schema : LinkStore.Schema {} where
  ids_nodup := List.nodup_nil
  aliases_nodup := List.nodup_nil
  aliases_fit := by simp
  tags_linked := by simp
  rules_linked := by simp
  events_linked := by simp
  daily_linked := by simp

/-- There is another account. -/
theorem exists_ne_uuid (u : Uuid) : ∃ v : Uuid, v ≠ u := by
  by_cases h : u = Uuid.filled 0
  · exact ⟨Uuid.filled 1, fun h' => absurd (h'.trans h) (by decide)⟩
  · exact ⟨Uuid.filled 0, fun h' => h h'.symm⟩

/-- The account sees the same of the empty store and of someone else's link. -/
theorem sameFor_storeOf {u v : Uuid} (hne : v ≠ u) (aliasName : GoString) :
    SameFor u {} (storeOf v aliasName) := by
  simp [SameFor, restrict, storeOf, foreign, hne]

/-- A restricted account's request reads the same from any two stores that differ
in other accounts' links, exactly when it does not get to look up an alias. -/
theorem read_isolated_iff (server : Server) (ctx : Context) (user : User)
    (huser : ctx.user = some user) (hrestricted : user.unrestricted = false) (now : Instant)
    (req : ReadRequest) :
    (∀ s s' : LinkStore, s.Schema → s'.Schema → SameFor user.id s s' →
      serve server ctx now req s = serve server ctx now req s') ↔
    ¬ (ctx.hasScope .linksRead ∧ Expands server req) := by
  constructor
  · rintro hsame ⟨hscope, hexpands⟩
    cases req with
    | expandLink query =>
      obtain ⟨code, hcode, hstore, hlen⟩ := hexpands
      obtain ⟨v, hne⟩ := exists_ne_uuid user.id
      have hserve := hsame {} (storeOf v code) empty_schema (storeOf_schema v hstore hlen)
        (sameFor_storeOf hne code)
      have hrow : (storeOf v code).liveAlias code =
          some { id := default, aliasName := code, destinationURL := [], userID := some v } := by
        simp [storeOf, liveAlias, LinkRow.live]
      have hnone : LinkStore.liveAlias {} code = none := rfl
      simp [serve, ReadRequest.scope, hscope, handle, ExpandLink, hcode, Service.Expand,
        GetLinkByAlias, hstore, hnone, hrow] at hserve
    | _ => exact hexpands
  · intro hreq s s' hs hs' hsame
    unfold serve
    by_cases hscope : ctx.hasScope req.scope
    · have howner : ctx.ownerID = some user.id := by simp [Context.ownerID, huser, hrestricted]
      have hp : ∀ row : LinkRow, row.visibleTo (some user.id) → !foreign user.id row := by
        intro row hvisible
        have howned : row.userID = some user.id := by simpa [LinkRow.visibleTo] using hvisible
        simp [foreign, howned]
      have hexpands : ¬ Expands server req := by
        intro hexpands
        cases req with
        | expandLink query => exact hreq ⟨hscope, hexpands⟩
        | _ => exact hexpands
      rw [← handle_restrict hs howner hp now hexpands, ← handle_restrict hs' howner hp now hexpands,
        hsame]
    · simp [hscope]

/-! ## An expansion -/

/-- A deployment at `sho.rt`. -/
def serverShoRt : Server where
  u := .ascii
  loc := plainLocale
  zone := .utc
  links := ⟨lit "http://sho.rt"⟩
  settings := {}
  ipMode := []
  encodeQR _ _ := none
  trendRounds := 0

/-- A regular account with the scope of the reading routes. -/
def regular : User := { id := default, scopes := [.linksRead, .statsRead] }

def regularContext : Context := { user := some regular, scopes := regular.scopes }

theorem read_isolated_iff_summary :
    (∀ s s' : LinkStore, s.Schema → s'.Schema → SameFor regular.id s s' →
      serve serverShoRt regularContext 0 .summary s =
        serve serverShoRt regularContext 0 .summary s') ↔
    ¬ (regularContext.hasScope .linksRead ∧ Expands serverShoRt .summary) :=
  read_isolated_iff serverShoRt regularContext regular rfl rfl 0 .summary

/-- `/links/expand?url=abc` shows another account's link. -/
theorem expand_reads_foreign_link :
    ¬ ∀ (ctx : Context) (user : User), ctx.user = some user → user.unrestricted = false →
      ∀ (req : ReadRequest) (s s' : LinkStore), s.Schema → s'.Schema → SameFor user.id s s' →
      serve serverShoRt ctx 0 req s = serve serverShoRt ctx 0 req s' := by
  intro hclaim
  have hserve := hclaim regularContext regular rfl rfl (.expandLink [(lit "url", lit "abc")])
    {} (storeOf (Uuid.filled 2) (lit "abc")) empty_schema
    (storeOf_schema _ (by decide) (by decide)) (sameFor_storeOf (by decide) _)
  exact absurd hserve (by decide)

end Purels.Properties
