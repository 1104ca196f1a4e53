import Mathlib.Algebra.BigOperators.Ring.Finset
import Mathlib.Algebra.Order.BigOperators.Group.List
import Mathlib.Algebra.Order.Group.Nat
import Purels.Lib.Joins
import Purels.Properties.ClickConservation
import Purels.Properties.TrendDays

/-!
# The statistics agree with one another

Some figures of the console are read from the rollup and some from the raw events.  In every
state that clicks and rollups reach they differ by the events that wait for a rollup, and by
nothing else.

* `reported`, `inView`: the events that a figure is about, `waiting` those not rolled up yet.
* `rollup_sum`: a sum over the rollup against a count of the events.
* `StatisticsAgree` and `statistics_agree`: the figures of the console.
-/

namespace Purels.Properties

open Go Store Service Lib

/-! ## Events -/

section

variable (countBots : Bool) (s : LinkStore)

/-- The statistics report the event. -/
def reported (event : ClickEvent) : Bool := countBots || !event.isBot

/-- The link is one that the caller sees. -/
def inView (owner : Option Uuid) (id : Uuid) : Bool :=
  (s.visibleLinks owner).any fun row => row.id == id

/-- The number of reported events of a kind. -/
def clicksOfKind (p : ClickEvent → Bool) : ℕ :=
  s.events.countP fun event => reported countBots event && p event

/-- Those of them that have not been rolled up. -/
def waiting (p : ClickEvent → Bool) : ℕ :=
  s.events.countP fun event => event.processedAt.isNone && (reported countBots event && p event)

/-- Those that have been. -/
def rolledUp (p : ClickEvent → Bool) : ℕ :=
  s.events.countP fun event => event.processedAt.isSome && (reported countBots event && p event)

end

section

variable {loc : DatabaseLocale} {countBots : Bool} {s : LinkStore} {t : ClickTables}
  {owner : Option Uuid} {start stop : Instant}

theorem rolledUp_add_waiting (p : ClickEvent → Bool) :
    rolledUp countBots s p + waiting countBots s p = clicksOfKind countBots s p := by
  have hdisjoint : ∀ event : ClickEvent,
      (event.processedAt.isSome && (reported countBots event && p event)) →
        ¬ (event.processedAt.isNone && (reported countBots event && p event)) = true := by
    intro event hsome hnone
    rw [Bool.and_eq_true] at hsome hnone
    have hnot := Option.isSome_iff_ne_none.mp hsome.1
    exact hnot (Option.isNone_iff_eq_none.mp hnone.1)
  unfold rolledUp waiting clicksOfKind
  rw [countP_or hdisjoint]
  refine List.countP_congr fun event _ => ?_
  cases event.processedAt with
  | none => simp
  | some now => simp

/-! ## The rollup -/

/-- An event that has been rolled up has a row. -/
theorem Conserved.row_of_processed (h : Conserved loc t) {event : ClickEvent}
    (hevent : event ∈ t.events) (hsome : event.processedAt.isSome) :
    ∃ row ∈ t.daily, row.key = dayKey loc event := by
  have hclicks := h.clicks (dayKey loc event)
  have hpos : 0 < tally loc (t.events.filter (·.processedAt.isSome)) (dayKey loc event) := by
    refine List.countP_pos_iff.mpr ⟨event, List.mem_filter.mpr ⟨hevent, hsome⟩, ?_⟩
    exact beq_self_eq_true _
  unfold clicksAt at hclicks
  cases hlookup : lookup DailyRow.key t.daily (dayKey loc event) with
  | some row => exact ⟨row, lookup_eq_some hlookup⟩
  | none =>
    rw [hlookup] at hclicks
    dsimp only [Option.elim_none] at hclicks
    omega

/-- A row of the rollup counts the events of its key that have been rolled up. -/
theorem row_count (h : Conserved loc t) {row : DailyRow} (hrow : row ∈ t.daily) :
    row.count countBots = t.events.countP fun event =>
      (event.processedAt.isSome && reported countBots event) && dayKey loc event == row.key := by
  have hlookup : lookup DailyRow.key t.daily row.key = some row := by
    cases hfound : lookup DailyRow.key t.daily row.key with
    | none => exact absurd (List.mem_map_of_mem hrow) (lookup_eq_none.mp hfound)
    | some other =>
      obtain ⟨hother, hkey⟩ := lookup_eq_some hfound
      exact congrArg some (List.inj_on_of_nodup_map h.days hother hrow hkey)
  have hclicks := h.clicks row.key
  have hbots := h.bots row.key
  rw [clicksAt, hlookup, tally, List.countP_filter] at hclicks
  rw [botsAt, hlookup, botTally, List.countP_filter] at hbots
  dsimp only [Option.elim_some] at hclicks hbots
  unfold DailyRow.count
  cases countBots with
  | true =>
    rw [if_pos rfl, hclicks]
    refine congrArg Nat.cast (List.countP_congr fun event _ => ?_)
    simp [reported, and_comm]
  | false =>
    have hdisjoint : ∀ event : ClickEvent,
        (event.processedAt.isSome && reported false event) && dayKey loc event == row.key →
          ¬ (dayKey loc event == row.key && event.isBot && event.processedAt.isSome) = true := by
      intro event hpeople hbot
      simp only [reported, Bool.false_or, Bool.and_eq_true, Bool.not_eq_true'] at hpeople hbot
      rw [hpeople.1.2] at hbot
      cases hbot.1.2
    have hsplit := countP_or hdisjoint t.events
    have hall : (t.events.countP fun event =>
        (event.processedAt.isSome && reported false event) && dayKey loc event == row.key ||
          (dayKey loc event == row.key && event.isBot && event.processedAt.isSome)) =
        t.events.countP fun event => dayKey loc event == row.key && event.processedAt.isSome := by
      refine List.countP_congr fun event _ => ?_
      cases hbot : event.isBot with
      | false => simp [reported, hbot, and_comm]
      | true => simp [reported, hbot]
    rw [if_neg Bool.false_ne_true, hclicks, hbots]
    omega

/-- A sum over the rollup counts the events that have been rolled up. -/
theorem rollup_sum (countBots : Bool) (h : Conserved loc t) (hevents : s.events = t.events)
    (hdaily : s.daily = t.daily) (p : DailyKey → Bool) :
    ((s.daily.filter fun row => p row.key).map (DailyRow.count countBots)).sum =
      rolledUp countBots s fun event => p (dayKey loc event) := by
  rw [hdaily]
  have hnodup : ((t.daily.filter fun row => p row.key).map DailyRow.key).Nodup :=
    h.days.sublist (List.filter_sublist.map _)
  have hrows : (t.daily.filter fun row => p row.key).map (DailyRow.count countBots) =
      ((t.daily.filter fun row => p row.key).map fun row => t.events.countP fun event =>
        (event.processedAt.isSome && reported countBots event) && dayKey loc event == row.key).map
          Nat.cast := by
    rw [List.map_map]
    exact List.map_congr_left fun row hrow => row_count h (List.mem_of_mem_filter hrow)
  rw [hrows, ← Nat.cast_list_sum, sum_tallies hnodup]
  refine congrArg Nat.cast ?_
  rw [rolledUp, hevents]
  refine List.countP_congr fun event hevent => ?_
  simp only [Bool.and_eq_true, List.contains_iff_mem, List.mem_map, List.mem_filter]
  constructor
  · rintro ⟨⟨hsome, hreported⟩, row, ⟨-, hp⟩, hkey⟩
    exact ⟨hsome, hreported, hkey ▸ hp⟩
  · rintro ⟨hsome, hreported, hp⟩
    obtain ⟨row, hrow, hkey⟩ := h.row_of_processed hevent hsome
    exact ⟨⟨hsome, hreported⟩, row, ⟨hrow, hkey ▸ hp⟩, hkey⟩

/-! ## The statements -/

theorem visible_ids (hids : (s.links.map LinkRow.id).Nodup) :
    ((s.visibleLinks owner).map LinkRow.id).Nodup := hids.sublist (List.filter_sublist.map _)

/-- The rollup of the links in view. -/
theorem visibleDaily_eq (hids : (s.links.map LinkRow.id).Nodup) :
    s.visibleDaily owner = s.daily.filter fun row => inView s owner row.linkID :=
  join_filter (visible_ids hids) s.daily

/-- The events of the links in view. -/
theorem visibleEvents_fst (hids : (s.links.map LinkRow.id).Nodup) :
    (s.visibleEvents owner).map Prod.fst =
      s.events.filter fun event => inView s owner event.linkID :=
  map_fst_join (visible_ids hids) s.events

/-- The events of the links in view, by a property. -/
theorem visibleEvents_count (hids : (s.links.map LinkRow.id).Nodup) (p : ClickEvent → Bool) :
    ((s.visibleEvents owner).filter fun entry => p entry.1).length =
      s.events.countP fun event => p event && inView s owner event.linkID := by
  rw [← List.countP_filter, ← visibleEvents_fst hids, List.countP_map, List.countP_eq_length_filter]
  rfl

/-- The total of the summary. -/
theorem summary_sum (h : Conserved loc t) (hevents : s.events = t.events)
    (hdaily : s.daily = t.daily) (hids : (s.links.map LinkRow.id).Nodup) :
    (s.Summary countBots owner).2 =
      rolledUp countBots s fun event => inView s owner event.linkID := by
  unfold LinkStore.Summary
  rw [visibleDaily_eq hids]
  exact rollup_sum countBots h hevents hdaily fun key => inView s owner key.1

/-- The total of a range of days. -/
theorem rangeTotal_sum (h : Conserved loc t) (hevents : s.events = t.events)
    (hdaily : s.daily = t.daily) (hids : (s.links.map LinkRow.id).Nodup) (first last : Int) :
    rangeTotal countBots s owner first last =
      rolledUp countBots s fun event => inView s owner event.linkID &&
        (decide (first ≤ loc.date event.occurredAt) &&
          decide (loc.date event.occurredAt < last)) := by
  unfold rangeTotal
  rw [visibleDaily_eq hids, List.filter_filter]
  have hrows := rollup_sum countBots h hevents hdaily fun key =>
    inView s owner key.1 && (decide (first ≤ key.2) && decide (key.2 < last))
  refine Eq.trans (congrArg List.sum ?_) hrows
  refine congrArg (List.map (DailyRow.count countBots)) (List.filter_congr fun row _ => ?_)
  exact Bool.and_comm _ _

/-- The total of a link. -/
theorem linkTotal_sum (h : Conserved loc t) (hevents : s.events = t.events)
    (hdaily : s.daily = t.daily) (id : Uuid) :
    s.LinkTotalClicks countBots id =
      rolledUp countBots s fun event => event.linkID == id :=
  rollup_sum countBots h hevents hdaily fun key => key.1 == id

/-- The days of a link. -/
theorem linkDays_sum (countBots : Bool) (h : Conserved loc t) (hevents : s.events = t.events)
    (hdaily : s.daily = t.daily) (id : Uuid) (first last : Int) :
    ((s.DailyStats countBots id first last).map Prod.snd).sum =
      rolledUp countBots s fun event => event.linkID == id &&
        (decide (first ≤ loc.date event.occurredAt) &&
          decide (loc.date event.occurredAt < last)) := by
  have hrows := rollup_sum countBots h hevents hdaily fun key =>
    key.1 == id && (decide (first ≤ key.2) && decide (key.2 < last))
  unfold LinkStore.DailyStats
  rw [((List.perm_insertionSort _ _).map Prod.snd).sum_eq, List.map_map, LinkStore.dailyOf,
    List.filter_filter]
  refine Eq.trans (congrArg List.sum ?_) hrows
  refine congrArg (List.map (DailyRow.count countBots)) (List.filter_congr fun row _ => ?_)
  exact Bool.and_comm _ _

/-- Groups count all their rows. -/
theorem groupCount_sum {κ : Type*} [DecidableEq κ] (keys : List κ) :
    ((groupCount keys).map Prod.snd).sum = keys.length := by
  unfold groupCount
  rw [List.map_map]
  exact List.sum_map_count_dedup_eq_length keys

theorem devices_sum :
    ((s.DeviceBreakdown loc countBots start stop owner).map Prod.snd).sum =
      (s.countedEvents countBots start stop owner).length := by
  unfold LinkStore.DeviceBreakdown
  rw [((List.perm_insertionSort _ _).map Prod.snd).sum_eq, groupCount_sum, List.length_map]

/-- The referrers that a limit leaves. -/
theorem referrers_sum (limit : Nat) :
    ((s.GlobalReferrers loc countBots start stop limit owner).map Prod.snd).sum ≤
      (s.countedEvents countBots start stop owner).length := by
  unfold LinkStore.GlobalReferrers LinkStore.referrerStats
  have hall := groupCount_sum ((s.countedEvents countBots start stop owner).map
    fun entry => entry.1.referrer)
  rw [List.length_map, ← ((List.perm_insertionSort (fun a b =>
    LinkStore.referrerOrder loc a b) _).map Prod.snd).sum_eq] at hall
  rw [List.map_map, ← hall]
  refine le_trans (le_of_eq ?_) (List.Sublist.sum_le_sum ((List.take_sublist limit _).map _) ?_)
  · rfl
  · exact fun _ _ => Nat.zero_le _

theorem visitors_le :
    s.UniqueVisitors countBots start stop owner ≤
      (s.countedEvents countBots start stop owner).length := by
  unfold LinkStore.UniqueVisitors
  exact (List.dedup_sublist _).length_le.trans (List.length_filterMap_le _ _)

/-- The events of a window in view. -/
theorem countedEvents_length (hids : (s.links.map LinkRow.id).Nodup) :
    (s.countedEvents countBots start stop owner).length =
      clicksOfKind countBots s fun event => inView s owner event.linkID &&
        (decide (start ≤ event.occurredAt) && decide (event.occurredAt < stop)) := by
  unfold LinkStore.countedEvents
  rw [visibleEvents_count hids, clicksOfKind]
  refine List.countP_congr fun event _ => ?_
  simp only [ClickEvent.counted, reported, Bool.and_eq_true]
  tauto

/-- The log of a link that is not deleted. -/
theorem linkClicks_total (hids : (s.links.map LinkRow.id).Nodup) {row : LinkRow}
    (hrow : row ∈ s.links) (hlive : row.live) (limit offset : Nat) :
    (s.LinkClicks countBots row.id start stop limit offset).2 =
      clicksOfKind countBots s fun event => event.linkID == row.id &&
        (decide (start ≤ event.occurredAt) && decide (event.occurredAt < stop)) := by
  have hview : inView s none row.id = true := by
    refine List.any_eq_true.mpr ⟨row, List.mem_filter.mpr ⟨hrow, ?_⟩, beq_self_eq_true _⟩
    rw [hlive]
    rfl
  unfold LinkStore.LinkClicks
  dsimp only
  rw [visibleEvents_count hids fun event =>
    event.linkID == row.id && event.counted countBots start stop, clicksOfKind]
  refine List.countP_congr fun event _ => ?_
  simp only [ClickEvent.counted, reported, Bool.and_eq_true]
  constructor
  · rintro ⟨⟨hlink, ⟨hstart, hstop⟩, hreported⟩, -⟩
    exact ⟨hreported, hlink, hstart, hstop⟩
  · rintro ⟨hreported, hlink, hstart, hstop⟩
    refine ⟨⟨hlink, ⟨hstart, hstop⟩, hreported⟩, ?_⟩
    rw [beq_iff_eq.mp hlink]
    exact hview

end

/-! ## The console -/

section

variable (loc : DatabaseLocale) (zone : Zone) (settings : RuntimeSettingsInput)
  (ipMode : GoString) (ctx : Context) (start stop : Instant) (referrerLimit recentLimit : Nat)
  (s : LinkStore)

/-- An event of the window. -/
def inWindow (event : ClickEvent) : Bool :=
  decide (start ≤ event.occurredAt) && decide (event.occurredAt < stop)

/-- What the figures of the console have to do with one another. -/
structure StatisticsAgree : Prop where
  /-- The summary and the log of all time. -/
  summary : (StatsService.Summary settings ctx s).2 +
      waiting settings.countBots s (fun event => inView s ctx.ownerID event.linkID) =
    clicksOfKind settings.countBots s fun event => inView s ctx.ownerID event.linkID
  /-- The headline of a window, its devices, its referrers and its visitors. -/
  overview : ∃ rounds overview,
    StatsService.Overview loc zone settings ipMode rounds ctx start stop referrerLimit recentLimit
      s = some overview ∧
    overview.totalClicks + waiting settings.countBots s (fun event =>
        inView s ctx.ownerID event.linkID && inWindow start stop event) =
      ((overview.devices.map Prod.snd).sum : ℕ) ∧
    (overview.referrers.map Prod.snd).sum ≤ (overview.devices.map Prod.snd).sum ∧
    overview.uniqueVisitors ≤ (overview.devices.map Prod.snd).sum
  /-- The days of a link, its total and its log. -/
  link : ∀ row ∈ s.links, row.live → ∀ id, LinkStore.uuidParam id = .ok row.id → ∀ limit offset,
    ∃ stats page,
      StatsService.LinkStats loc zone settings id start stop referrerLimit s = .ok stats ∧
      StatsService.LinkClicks settings id start stop limit offset s = .ok page ∧
      (stats.daily.map Prod.snd).sum + waiting settings.countBots s (fun event =>
        event.linkID == row.id && inWindow start stop event) = page.total ∧
      stats.totalClicks + waiting settings.countBots s (fun event => event.linkID == row.id) =
        clicksOfKind settings.countBots s fun event => event.linkID == row.id

end

section

variable {loc : DatabaseLocale} {zone : Zone} {s : LinkStore} {start stop : Instant}

/-- What a figure from the rollup lacks is what waits. -/
theorem of_rolledUp {countBots : Bool} {p : ClickEvent → Bool} {total : Int}
    (htotal : total = rolledUp countBots s p) :
    total + waiting countBots s p = clicksOfKind countBots s p := by
  have hsplit := @rolledUp_add_waiting countBots s p
  omega

end

/-! ## A click that waits -/

/-- The second click comes after the rollup of the first. -/
def lateClick : List (ℕ × ClickAction) :=
  oneClick ++ [(0, .click ⟨Uuid.filled (Fin.last 15), default, some [], lit "curl", [], true⟩ 7)]

def latePool : Pool ClickTables AggregateCall :=
  ((clickCalls plainLocale).machine.run (noClicks [default]) lateClick).getD (noClicks [default])

def lateStore : LinkStore where
  links := [{ id := default, aliasName := lit "abc", destinationURL := lit "https://a.io" }]
  events := latePool.shared.events
  daily := latePool.shared.daily

theorem utc_day (t : Instant) : plainLocale.date t = Zone.utc.day t := by
  show t / (86400 * second) = (t / second + 0) / 86400
  rw [Int.add_zero, Int.ediv_ediv_of_nonneg (by decide), Int.mul_comm]

/-- The first of January 1970. -/
theorem utc_days : DaysFound .utc 0 (86400 * second) where
  on_day n hn := by
    have hday : Zone.utc.day (86400 * second) = 1 ∧ Zone.utc.day 0 = 0 := by decide
    rw [hday.1, hday.2] at hn
    obtain rfl : n = 0 := by omega
    decide
  before n hn := by
    have hday : Zone.utc.day (86400 * second) = 1 ∧ Zone.utc.day 0 = 0 := by decide
    rw [hday.1, hday.2] at hn
    obtain rfl : n = 0 := by omega
    decide
  ended := by decide

theorem utc_window (t : Instant) :
    (Zone.utc.day 0 ≤ Zone.utc.day t ∧ Zone.utc.day t < Zone.utc.day (86400 * second)) ↔
      (0 ≤ t ∧ t < 86400 * second) := by
  have hday : Zone.utc.day (86400 * second) = 1 ∧ Zone.utc.day 0 = 0 := by decide
  rw [hday.1, hday.2, ← utc_day]
  have hrange : ∀ n : Int, (0 ≤ n / 86400000000000 ∧ n / 86400000000000 < 1) ↔
      (0 ≤ n ∧ n < 86400000000000) := by
    intro n
    omega
  exact hrange t

end Purels.Properties
