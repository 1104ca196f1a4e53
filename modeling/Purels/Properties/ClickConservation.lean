import Mathlib.Data.List.Count
import Mathlib.Data.List.Perm.Basic
import Purels.Store.Clicks

/-!
# Clicks are conserved

Runs of any number of clicks and of transactions of `AggregateClicks`.

* `clicksAt`, `botsAt`: the rollup of a key.  `tally`, `botTally`: the events of a key.
* `scan_spec`: what the sums in memory are.
* `Owns`, `Wrote`: what an open transaction holds.
* `Conserved` and `Rollup`: the invariant, of the committed rows and of a pool.
* `clicks_conserved`, the run theorem.
-/

namespace Purels.Properties

open Go Store Lib

section

variable (loc : DatabaseLocale)

/-! ## Sums -/

/-- The clicks of a key in the rollup; without a row there are none. -/
def clicksAt (daily : List DailyRow) (key : DailyKey) : Int :=
  (lookup DailyRow.key daily key).elim 0 (·.clicks)

def botsAt (daily : List DailyRow) (key : DailyKey) : Int :=
  (lookup DailyRow.key daily key).elim 0 (·.botClicks)

/-- The events of a key. -/
def tally (events : List ClickEvent) (key : DailyKey) : Nat :=
  events.countP fun event => dayKey loc event == key

/-- Those of bots. -/
def botTally (events : List ClickEvent) (key : DailyKey) : Nat :=
  events.countP fun event => dayKey loc event == key && event.isBot

/-- The aggregates of the rows: one for each key that has a row, with its tallies. -/
structure Sums (rows : List ClickEvent) (counts : List ClickAggregate) : Prop where
  nodup : (counts.map (·.key)).Nodup
  item : ∀ item ∈ counts, item.count = tally loc rows item.key ∧
    item.botCount = botTally loc rows item.key
  covers : ∀ event ∈ rows, dayKey loc event ∈ counts.map (·.key)

variable {loc}

/-- A key without an aggregate has no row. -/
theorem Sums.tally_eq_zero {rows : List ClickEvent} {counts : List ClickAggregate}
    (h : Sums loc rows counts) {key : DailyKey} (hkey : key ∉ counts.map (·.key)) :
    tally loc rows key = 0 ∧ botTally loc rows key = 0 := by
  have hnot : ∀ event ∈ rows, ¬ (dayKey loc event == key) = true := by
    intro event hevent heq
    exact hkey (beq_iff_eq.mp heq ▸ h.covers event hevent)
  refine ⟨List.countP_eq_zero.mpr hnot, List.countP_eq_zero.mpr fun event hevent htrue => ?_⟩
  exact hnot event hevent (Bool.and_eq_true_iff.mp htrue).1

/-- One more row. -/
theorem Sums.countClick {rows : List ClickEvent} {counts : List ClickAggregate}
    (h : Sums loc rows counts) (event : ClickEvent) :
    Sums loc (rows ++ [event])
      (countClick counts event.linkID (loc.date event.occurredAt) event.isBot) := by
  have htally : ∀ key, tally loc (rows ++ [event]) key =
      tally loc rows key + if dayKey loc event = key then 1 else 0 := by
    intro key
    simp [tally, List.countP_append, List.countP_singleton]
  have hbots : ∀ key, botTally loc (rows ++ [event]) key =
      botTally loc rows key + if dayKey loc event = key ∧ event.isBot then 1 else 0 := by
    intro key
    simp [botTally, List.countP_append, List.countP_singleton]
  set key := dayKey loc event with hkey
  -- the aggregate of the event's key, or a new one, has the tallies so far
  obtain ⟨base, hbase, hbaseKey, hcount, hbot⟩ : ∃ base,
      (lookup ClickAggregate.key counts key).getD
        { linkID := event.linkID, day := loc.date event.occurredAt } = base ∧
      base.key = key ∧ base.count = tally loc rows key ∧ base.botCount = botTally loc rows key := by
    cases hlookup : lookup ClickAggregate.key counts key with
    | some item =>
      obtain ⟨hmem, hitem⟩ := lookup_eq_some hlookup
      obtain ⟨hcount, hbot⟩ := h.item item hmem
      exact ⟨item, rfl, hitem, hitem ▸ hcount, hitem ▸ hbot⟩
    | none =>
      obtain ⟨hcount, hbot⟩ := h.tally_eq_zero (lookup_eq_none.mp hlookup)
      exact ⟨_, rfl, rfl, by simp [hcount], by simp [hbot]⟩
  have hresult : Store.countClick counts event.linkID (loc.date event.occurredAt) event.isBot =
      put ClickAggregate.key counts (base.add event.isBot) := by
    rw [← hbase]
    rfl
  have hadded : (base.add event.isBot).key = key := hbaseKey
  rw [hresult]
  refine ⟨nodup_put h.nodup _, fun item hitem => ?_, fun other hother => ?_⟩
  · rw [htally, hbots]
    rcases mem_put hitem with rfl | ⟨hold, hne⟩
    · rw [hadded, if_pos rfl]
      show base.count + 1 = _ ∧ (if event.isBot then base.botCount + 1 else base.botCount) = _
      rw [hcount, hbot]
      refine ⟨by omega, ?_⟩
      by_cases hisBot : event.isBot <;> simp [hisBot]
    · rw [hadded] at hne
      obtain ⟨hitemCount, hitemBot⟩ := h.item item hold
      have hkeyNe : ¬ key = item.key := fun heq => hne heq.symm
      rw [if_neg hkeyNe, if_neg fun hand => hkeyNe hand.1]
      exact ⟨by omega, by omega⟩
  · refine mem_keys_put ?_
    rcases List.mem_append.mp hother with hold | hnew
    · exact .inr (h.covers other hold)
    · rw [List.mem_singleton.mp hnew, hadded]
      exact .inl rfl

/-- The sums a transaction makes in memory. -/
theorem scan_spec (rows : List ClickEvent) : Sums loc rows (scanClickAggregates loc rows) := by
  induction rows using List.reverseRecOn with
  | nil => exact ⟨List.nodup_nil, by simp [scanClickAggregates], by simp⟩
  | append_singleton rows event ih =>
    have hfold : scanClickAggregates loc (rows ++ [event]) =
        countClick (scanClickAggregates loc rows) event.linkID (loc.date event.occurredAt)
          event.isBot := by
      simp [scanClickAggregates]
    rw [hfold]
    exact ih.countClick event

/-! ## Open transactions -/

/-- The events a transaction has locked: they are there, unprocessed, and no other's. -/
structure Owns (s : ClickTables) (batch : List ClickEvent) : Prop where
  nodup : (batch.map (·.id)).Nodup
  there : ∀ event ∈ batch, event ∈ s.events
  fresh : ∀ event ∈ batch, event.processedAt = none
  locked : ∀ event ∈ batch, event.id ∈ s.lockedEvents

variable (loc)

/-- The rows a transaction has written, and the aggregates it has still to write. -/
structure Wrote (s : ClickTables) (batch : List ClickEvent) (remaining : List ClickAggregate)
    (written : List DailyRow) : Prop where
  nodup : (written.map (·.key) ++ remaining.map (·.key)).Nodup
  covers : ∀ event ∈ batch,
    dayKey loc event ∈ written.map (·.key) ++ remaining.map (·.key)
  item : ∀ item ∈ remaining, item.count = tally loc batch item.key ∧
    item.botCount = botTally loc batch item.key
  row : ∀ row ∈ written, row.clicks = clicksAt s.daily row.key + tally loc batch row.key ∧
    row.botClicks = botsAt s.daily row.key + botTally loc batch row.key
  locked : ∀ row ∈ written, row.key ∈ s.lockedDaily

/-- What a process holds. -/
def Holds (s : ClickTables) : AggregateCall → Prop
  | .idle => True
  | .selecting _ batch => Owns s batch
  | .upserting batch remaining written => Owns s batch ∧ Wrote loc s batch remaining written
  | .committing batch written marked =>
    Owns s batch ∧ Wrote loc s batch [] written ∧ marked.isSome

end

/-- The events a process has locked. -/
def batchOf : AggregateCall → List ClickEvent
  | .idle => []
  | .selecting _ batch | .upserting batch _ _ | .committing batch _ _ => batch

/-- The rows it has written. -/
def writtenOf : AggregateCall → List DailyRow
  | .idle | .selecting _ _ => []
  | .upserting _ _ written | .committing _ written _ => written

/-- Two transactions hold no event and no rollup row together. -/
structure Apart (call other : AggregateCall) : Prop where
  events : ∀ id ∈ (batchOf call).map (·.id), id ∉ (batchOf other).map (·.id)
  rows : ∀ key ∈ (writtenOf call).map (·.key), key ∉ (writtenOf other).map (·.key)

section

variable (loc : DatabaseLocale)

/-- The committed rows agree: the rollup of a key is the tally of its processed events,
and an event is processed exactly when it has been counted. -/
structure Conserved (s : ClickTables) : Prop where
  ids : (s.events.map (·.id)).Nodup
  days : (s.daily.map DailyRow.key).Nodup
  clicks : ∀ key, clicksAt s.daily key = tally loc (s.events.filter (·.processedAt.isSome)) key
  bots : ∀ key, botsAt s.daily key = botTally loc (s.events.filter (·.processedAt.isSome)) key
  once : s.counted.Nodup
  known : ∀ id ∈ s.counted, id ∈ s.events.map (·.id)
  counted : ∀ event ∈ s.events, event.processedAt.isSome ↔ event.id ∈ s.counted

/-- The invariant of a pool. -/
structure Rollup (s : Pool ClickTables AggregateCall) : Prop where
  conserved : Conserved loc s.shared
  holds : ∀ i, Holds loc s.shared (s.locals i)
  apart : ∀ i j, i ≠ j → Apart (s.locals i) (s.locals j)

variable {loc}

/-! ## Transactions of the others -/

/-- A step of another process that leaves the locked rows alone. -/
theorem Holds.mono {s t : ClickTables} {call : AggregateCall} (h : Holds loc s call)
    (hthere : ∀ event ∈ batchOf call, event ∈ s.events → event ∈ t.events)
    (hevents : ∀ event ∈ batchOf call, event.id ∈ s.lockedEvents → event.id ∈ t.lockedEvents)
    (hrows : ∀ row ∈ writtenOf call, row.key ∈ s.lockedDaily → row.key ∈ t.lockedDaily)
    (hdaily : ∀ row ∈ writtenOf call,
      lookup DailyRow.key t.daily row.key = lookup DailyRow.key s.daily row.key) :
    Holds loc t call := by
  have howns : ∀ batch, batchOf call = batch → Owns s batch → Owns t batch := by
    rintro batch rfl howns
    exact ⟨howns.nodup, fun event hevent => hthere event hevent (howns.there event hevent),
      howns.fresh, fun event hevent => hevents event hevent (howns.locked event hevent)⟩
  have hwrote : ∀ batch remaining written, writtenOf call = written →
      Wrote loc s batch remaining written → Wrote loc t batch remaining written := by
    rintro batch remaining written rfl hwrote
    refine ⟨hwrote.nodup, hwrote.covers, hwrote.item, fun row hrow => ?_, fun row hrow =>
      hrows row hrow (hwrote.locked row hrow)⟩
    rw [clicksAt, botsAt, hdaily row hrow]
    exact hwrote.row row hrow
  cases call with
  | idle => trivial
  | selecting batchSize batch => exact howns batch rfl h
  | upserting batch remaining written =>
    exact ⟨howns batch rfl h.1, hwrote batch remaining written rfl h.2⟩
  | committing batch written marked =>
    exact ⟨howns batch rfl h.1, hwrote batch [] written rfl h.2.1, h.2.2⟩

/-- What a process has locked is locked. -/
theorem Holds.locked {s : ClickTables} {call : AggregateCall} (h : Holds loc s call) :
    (∀ id ∈ (batchOf call).map (·.id), id ∈ s.lockedEvents) ∧
      ∀ key ∈ (writtenOf call).map (·.key), key ∈ s.lockedDaily := by
  have howns : ∀ batch, Owns s batch → ∀ id ∈ batch.map (·.id), id ∈ s.lockedEvents := by
    intro batch howns id hid
    obtain ⟨event, hevent, rfl⟩ := List.mem_map.mp hid
    exact howns.locked event hevent
  have hwrote : ∀ batch remaining written, Wrote loc s batch remaining written →
      ∀ key ∈ written.map (·.key), key ∈ s.lockedDaily := by
    intro batch remaining written hwrote key hkey
    obtain ⟨row, hrow, rfl⟩ := List.mem_map.mp hkey
    exact hwrote.locked row hrow
  cases call with
  | idle => exact ⟨List.forall_mem_nil _, List.forall_mem_nil _⟩
  | selecting batchSize batch => exact ⟨howns batch h, List.forall_mem_nil _⟩
  | upserting batch remaining written =>
    exact ⟨howns batch h.1, hwrote batch remaining written h.2⟩
  | committing batch written marked => exact ⟨howns batch h.1, hwrote batch [] written h.2.1⟩

theorem Apart.symm {call other : AggregateCall} (h : Apart call other) : Apart other call :=
  ⟨fun id hid hcall => h.events id hcall hid, fun key hkey hcall => h.rows key hcall hkey⟩

variable (loc) in
/-- What one step of a process keeps: the committed rows agree, the process holds what it
should, and so does every other. -/
structure StepKeeps (s t : ClickTables) (call call' : AggregateCall) : Prop where
  conserved : Conserved loc t
  holds : Holds loc t call'
  others : ∀ other, Holds loc s other → Apart call other → Holds loc t other ∧ Apart call' other

/-! ## Commits -/

/-- The events that a transaction marks are its batch. -/
theorem filter_perm_batch {s : ClickTables} {batch : List ClickEvent}
    (hids : (s.events.map (·.id)).Nodup) (howns : Owns s batch) :
    (s.events.filter fun event => (batch.map (·.id)).contains event.id).Perm batch := by
  refine (List.perm_ext_iff_of_nodup (hids.of_map.filter _) howns.nodup.of_map).mpr ?_
  intro event
  rw [List.mem_filter, List.contains_iff_mem]
  constructor
  · rintro ⟨hevent, hid⟩
    obtain ⟨other, hother, hsame⟩ := List.mem_map.mp hid
    have heq := List.inj_on_of_nodup_map hids (howns.there other hother) hevent hsame
    exact heq ▸ hother
  · intro hevent
    exact ⟨howns.there event hevent, List.mem_map_of_mem hevent⟩

/-- Marking events that are not processed yet adds them to those that are. -/
theorem countP_markProcessed {ids : List Uuid} (now : Instant) {events : List ClickEvent}
    (hfresh : ∀ event ∈ events, event.id ∈ ids → event.processedAt = none)
    {p : ClickEvent → Bool} (hp : ∀ event, p { event with processedAt := some now } = p event) :
    ((markProcessed ids now events).filter (·.processedAt.isSome)).countP p =
      (events.filter (·.processedAt.isSome)).countP p +
        (events.filter fun event => ids.contains event.id).countP p := by
  induction events with
  | nil => rfl
  | cons event events ih =>
    have hrest := ih fun other hother => hfresh other (List.mem_cons_of_mem event hother)
    rw [markProcessed, List.map_cons, ← markProcessed]
    by_cases hin : ids.contains event.id = true
    · have hnone := hfresh event List.mem_cons_self (List.contains_iff_mem.mp hin)
      simp only [List.filter_cons, hnone, hin, Option.isSome_some, Option.isSome_none,
        if_true, List.countP_cons, hp, hrest, Bool.false_eq_true, if_false]
      omega
    · simp only [if_neg hin, List.filter_cons]
      by_cases hdone : event.processedAt.isSome = true
      · simp only [if_pos hdone, List.countP_cons, hrest]
        omega
      · simp only [if_neg hdone, hrest]

/-- Marking a batch adds it to what is processed. -/
theorem countP_marked {s : ClickTables} {batch : List ClickEvent}
    (hids : (s.events.map (·.id)).Nodup) (howns : Owns s batch) (now : Instant)
    {p : ClickEvent → Bool} (hp : ∀ event, p { event with processedAt := some now } = p event) :
    ((markProcessed (batch.map (·.id)) now s.events).filter (·.processedAt.isSome)).countP p =
      (s.events.filter (·.processedAt.isSome)).countP p + batch.countP p := by
  have hperm := filter_perm_batch hids howns
  rw [countP_markProcessed now _ hp, hperm.countP_eq p]
  intro event hevent hid
  have hmem : event ∈ batch :=
    hperm.mem_iff.mp (List.mem_filter.mpr ⟨hevent, List.contains_iff_mem.mpr hid⟩)
  exact howns.fresh event hmem

/-- Publishing the written rows adds the batch to the rollup. -/
theorem daily_published {s : ClickTables} {batch : List ClickEvent} {written : List DailyRow}
    (hwrote : Wrote loc s batch [] written) (key : DailyKey) :
    clicksAt (written.foldl (put DailyRow.key) s.daily) key =
        clicksAt s.daily key + tally loc batch key ∧
      botsAt (written.foldl (put DailyRow.key) s.daily) key =
        botsAt s.daily key + botTally loc batch key := by
  have hnodup : (written.map DailyRow.key).Nodup := by
    simpa using hwrote.nodup
  unfold clicksAt botsAt
  rw [lookup_foldl_put hnodup]
  cases hlookup : lookup DailyRow.key written key with
  | some row =>
    obtain ⟨hrow, rfl⟩ := lookup_eq_some hlookup
    exact hwrote.row row hrow
  | none =>
    have hnot : ∀ event ∈ batch, ¬ (dayKey loc event == key) = true := by
      intro event hevent heq
      refine lookup_eq_none.mp hlookup ?_
      rw [← beq_iff_eq.mp heq]
      simpa using hwrote.covers event hevent
    have hzero : tally loc batch key = 0 := List.countP_eq_zero.mpr hnot
    have hzeroBots : botTally loc batch key = 0 :=
      List.countP_eq_zero.mpr fun event hevent htrue =>
        hnot event hevent (Bool.and_eq_true_iff.mp htrue).1
    rw [hzero, hzeroBots]
    exact ⟨(Int.add_zero _).symm, (Int.add_zero _).symm⟩

theorem markProcessed_ids (ids : List Uuid) (now : Instant) (events : List ClickEvent) :
    (markProcessed ids now events).map (·.id) = events.map (·.id) := by
  rw [markProcessed, List.map_map]
  refine List.map_congr_left fun event _ => ?_
  show (if ids.contains event.id then { event with processedAt := some now } else event).id = _
  split_ifs <;> rfl

/-- An event that is in no marked batch stays what it is. -/
theorem mem_markProcessed {ids : List Uuid} {now : Instant} {events : List ClickEvent}
    {event : ClickEvent} (hevent : event ∈ events) (hid : event.id ∉ ids) :
    event ∈ markProcessed ids now events :=
  List.mem_map.mpr ⟨event, hevent, if_neg fun hin => hid (List.contains_iff_mem.mp hin)⟩

/-- A commit keeps the committed rows in agreement. -/
theorem Conserved.commit {s : ClickTables} (h : Conserved loc s) {batch : List ClickEvent}
    {written : List DailyRow} (howns : Owns s batch) (hwrote : Wrote loc s batch [] written)
    (now : Instant) : Conserved loc (s.publish batch written (some now)) := by
  refine ⟨?_, nodup_foldl_put written h.days, fun key => ?_, fun key => ?_, ?_, ?_, ?_⟩
  · show ((markProcessed (batch.map (·.id)) now s.events).map (·.id)).Nodup
    rw [markProcessed_ids]
    exact h.ids
  · show clicksAt (written.foldl (put DailyRow.key) s.daily) key = _
    rw [(daily_published hwrote key).1, h.clicks key]
    have hcount := countP_marked h.ids howns now (p := fun event => dayKey loc event == key)
      fun event => rfl
    exact (congrArg Nat.cast hcount).symm
  · show botsAt (written.foldl (put DailyRow.key) s.daily) key = _
    rw [(daily_published hwrote key).2, h.bots key]
    have hcount := countP_marked h.ids howns now
      (p := fun event => dayKey loc event == key && event.isBot) fun event => rfl
    exact (congrArg Nat.cast hcount).symm
  · -- an event of the batch is not processed yet, so it has not been counted
    show (s.counted ++ batch.map (·.id)).Nodup
    refine List.nodup_append.mpr ⟨h.once, howns.nodup, fun id hid other hother hsame => ?_⟩
    obtain ⟨event, hevent, rfl⟩ := List.mem_map.mp hother
    have hprocessed := (h.counted event (howns.there event hevent)).mpr (hsame ▸ hid)
    rw [howns.fresh event hevent] at hprocessed
    cases hprocessed
  · intro id hid
    show id ∈ (markProcessed (batch.map (·.id)) now s.events).map (·.id)
    rw [markProcessed_ids]
    rcases List.mem_append.mp hid with hold | hnew
    · exact h.known id hold
    · obtain ⟨event, hevent, rfl⟩ := List.mem_map.mp hnew
      exact List.mem_map_of_mem (howns.there event hevent)
  · intro event hevent
    obtain ⟨old, hold, rfl⟩ := List.mem_map.mp hevent
    have hmem : ∀ id, id ∈ (s.publish batch written (some now)).counted ↔
        id ∈ s.counted ∨ id ∈ batch.map (·.id) := fun id => List.mem_append
    rw [hmem]
    split_ifs with hin
    · exact ⟨fun _ => .inr (List.contains_iff_mem.mp hin), fun _ => rfl⟩
    · rw [h.counted old hold]
      refine ⟨.inl, fun hor => hor.resolve_right fun hnew => hin ?_⟩
      exact List.contains_iff_mem.mpr hnew

/-- A commit without a batch changes no event. -/
theorem publish_none (s : ClickTables) (written : List DailyRow) (now : Instant) :
    s.publish [] written none = s.publish [] written (some now) := by
  have hsame : markProcessed [] now s.events = s.events := List.map_id' s.events
  simp only [ClickTables.publish, List.map_nil, hsame]

/-! ## What the others keep -/

/-- The end of a transaction releases its locks only. -/
theorem Holds.release {s : ClickTables} {call other : AggregateCall} (h : Holds loc s other)
    (hapart : Apart call other) : Holds loc (s.release (batchOf call) (writtenOf call)) other := by
  refine h.mono (fun _ _ hevent => hevent) ?_ ?_ fun _ _ => rfl
  · intro event hevent hlocked
    refine List.mem_filter.mpr ⟨hlocked, ?_⟩
    have hnot := hapart.symm.events event.id (List.mem_map_of_mem hevent)
    simpa using hnot
  · intro row hrow hlocked
    refine List.mem_filter.mpr ⟨hlocked, ?_⟩
    have hnot := hapart.symm.rows row.key (List.mem_map_of_mem hrow)
    simpa using hnot

/-- A commit publishes no row that another has locked. -/
theorem Holds.publish {s : ClickTables} {call other : AggregateCall} (h : Holds loc s other)
    (hapart : Apart call other) (hnodup : ((writtenOf call).map DailyRow.key).Nodup)
    (now : Instant) : Holds loc (s.publish (batchOf call) (writtenOf call) (some now)) other := by
  refine h.mono ?_ (fun _ _ hlocked => hlocked) (fun _ _ hlocked => hlocked) ?_
  · intro event hevent hthere
    exact mem_markProcessed hthere (hapart.symm.events event.id (List.mem_map_of_mem hevent))
  · intro row hrow
    show lookup DailyRow.key ((writtenOf call).foldl (put DailyRow.key) s.daily) row.key = _
    have hnone : lookup DailyRow.key (writtenOf call) row.key = none :=
      lookup_eq_none.mpr (hapart.symm.rows row.key (List.mem_map_of_mem hrow))
    rw [lookup_foldl_put hnodup, hnone, Option.none_or]

/-- A process that holds nothing is apart from all. -/
theorem apart_of_nil {call : AggregateCall} (hbatch : batchOf call = [])
    (hwritten : writtenOf call = []) (other : AggregateCall) : Apart call other := by
  refine ⟨?_, ?_⟩
  · rw [hbatch]
    exact List.forall_mem_nil _
  · rw [hwritten]
    exact List.forall_mem_nil _

/-! ## Steps -/

/-- A rollback leaves the committed rows as they are. -/
theorem rollback_keeps {s : ClickTables} (call : AggregateCall) (hs : Conserved loc s) :
    StepKeeps loc s (s.release (batchOf call) (writtenOf call)) call .idle where
  conserved := ⟨hs.ids, hs.days, hs.clicks, hs.bots, hs.once, hs.known, hs.counted⟩
  holds := trivial
  others other hother hapart := ⟨hother.release hapart, apart_of_nil rfl rfl other⟩

/-- A commit of a transaction that has written all its rows. -/
theorem commit_keeps {s : ClickTables} (call : AggregateCall) (hs : Conserved loc s)
    (howns : Owns s (batchOf call)) (hwrote : Wrote loc s (batchOf call) [] (writtenOf call))
    (now : Instant) :
    StepKeeps loc s
      ((s.publish (batchOf call) (writtenOf call) (some now)).release (batchOf call)
        (writtenOf call)) call .idle where
  conserved := by
    have h := hs.commit howns hwrote now
    exact ⟨h.ids, h.days, h.clicks, h.bots, h.once, h.known, h.counted⟩
  holds := trivial
  others other hother hapart := by
    have hnodup : ((writtenOf call).map DailyRow.key).Nodup := by
      simpa using hwrote.nodup
    exact ⟨(hother.publish hapart hnodup now).release hapart, apart_of_nil rfl rfl other⟩

/-- What a recorded click is. -/
theorem CreateClickEvent_cases {s t : ClickTables} {click : Click} {now : Instant}
    (h : s.CreateClickEvent click now = .ok t) :
    ∃ event : ClickEvent, event.processedAt = none ∧ event.id ∉ s.events.map (·.id) ∧
      t = { s with events := s.events ++ [event] } := by
  unfold ClickTables.CreateClickEvent at h
  dsimp only at h
  split_ifs at h with htext hknown
  refine ⟨_, rfl, ?_, (Except.ok.inj h).symm⟩
  intro hid
  obtain ⟨event, hevent, hsame⟩ := List.mem_map.mp hid
  refine hknown (Bool.or_eq_true_iff.mpr (.inr (List.any_eq_true.mpr ⟨event, hevent, ?_⟩)))
  exact beq_iff_eq.mpr hsame

/-- A click that is recorded is counted nowhere yet. -/
theorem click_keeps {s : ClickTables} (hs : Conserved loc s) {event : ClickEvent}
    (hnew : event.processedAt = none) (hid : event.id ∉ s.events.map (·.id)) :
    StepKeeps loc s { s with events := s.events ++ [event] } .idle .idle where
  conserved := by
    have hfilter : (s.events ++ [event]).filter (·.processedAt.isSome) =
        s.events.filter (·.processedAt.isSome) := by
      rw [List.filter_append, List.filter_cons_of_neg (by simp [hnew]), List.filter_nil,
        List.append_nil]
    refine ⟨?_, hs.days, fun key => ?_, fun key => ?_, hs.once, fun id hcounted => ?_, ?_⟩
    · show ((s.events ++ [event]).map (·.id)).Nodup
      rw [List.map_append]
      refine List.nodup_append.mpr ⟨hs.ids, by simp, fun id hold other hother hsame => hid ?_⟩
      have hlast : other = event.id := List.mem_singleton.mp hother
      rw [← hlast, ← hsame]
      exact hold
    · show clicksAt s.daily key = tally loc ((s.events ++ [event]).filter _) key
      rw [hfilter]
      exact hs.clicks key
    · show botsAt s.daily key = botTally loc ((s.events ++ [event]).filter _) key
      rw [hfilter]
      exact hs.bots key
    · show id ∈ (s.events ++ [event]).map (·.id)
      rw [List.map_append]
      exact List.mem_append_left _ (hs.known id hcounted)
    · intro other hother
      rcases List.mem_append.mp hother with hold | hlast
      · exact hs.counted other hold
      · rw [List.mem_singleton.mp hlast, hnew]
        refine ⟨fun hsome => absurd hsome Bool.false_ne_true, fun hcounted => ?_⟩
        exact absurd (hs.known event.id hcounted) hid
  holds := trivial
  others other hother _ := by
    refine ⟨hother.mono ?_ (fun _ _ h => h) (fun _ _ h => h) fun _ _ => rfl, ?_⟩
    · exact fun _ _ hthere => List.mem_append_left _ hthere
    · exact apart_of_nil rfl rfl other

/-- The SELECT locks an event that is not processed and that no other has locked. -/
theorem lock_keeps {s : ClickTables} (hs : Conserved loc s) {batchSize : Int}
    {batch : List ClickEvent} (howns : Owns s batch) {event : ClickEvent}
    (hevent : event ∈ s.events) (hfresh : event.processedAt = none)
    (hfree : event.id ∉ s.lockedEvents) :
    StepKeeps loc s { s with lockedEvents := event.id :: s.lockedEvents }
      (.selecting batchSize batch) (.selecting batchSize (batch ++ [event])) where
  conserved := ⟨hs.ids, hs.days, hs.clicks, hs.bots, hs.once, hs.known, hs.counted⟩
  holds := by
    refine ⟨?_, ?_, ?_, ?_⟩
    · rw [List.map_append]
      refine List.nodup_append.mpr ⟨howns.nodup, by simp, fun id hold other hother hsame => ?_⟩
      obtain ⟨old, hmem, rfl⟩ := List.mem_map.mp hold
      have hlast : other = event.id := List.mem_singleton.mp hother
      refine hfree ?_
      rw [← hlast, ← hsame]
      exact howns.locked old hmem
    · intro other hother
      rcases List.mem_append.mp hother with hold | hlast
      · exact howns.there other hold
      · exact List.mem_singleton.mp hlast ▸ hevent
    · intro other hother
      rcases List.mem_append.mp hother with hold | hlast
      · exact howns.fresh other hold
      · exact List.mem_singleton.mp hlast ▸ hfresh
    · intro other hother
      rcases List.mem_append.mp hother with hold | hlast
      · exact List.mem_cons_of_mem _ (howns.locked other hold)
      · rw [List.mem_singleton.mp hlast]
        exact List.mem_cons_self
  others other hother hapart := by
    refine ⟨hother.mono (fun _ _ h => h) ?_ (fun _ _ h => h) fun _ _ => rfl, ?_, hapart.rows⟩
    · exact fun _ _ hlocked => List.mem_cons_of_mem _ hlocked
    · intro id hid hin
      rw [batchOf, List.map_append] at hid
      rcases List.mem_append.mp hid with hold | hlast
      · exact hapart.events id hold hin
      · have hid : id = event.id := List.mem_singleton.mp hlast
        refine hfree ?_
        rw [← hid]
        exact hother.locked.1 id hin

/-- The sums in memory are what is to be written. -/
theorem selected_keeps {s : ClickTables} (hs : Conserved loc s) {batchSize : Int}
    {batch : List ClickEvent} (howns : Owns s batch) :
    StepKeeps loc s s (.selecting batchSize batch)
      (.upserting batch (scanClickAggregates loc batch) []) where
  conserved := hs
  holds := by
    have hsums : Sums loc batch (scanClickAggregates loc batch) := scan_spec batch
    refine ⟨howns, hsums.nodup, hsums.covers, hsums.item, ?_, ?_⟩
    · exact List.forall_mem_nil _
    · exact List.forall_mem_nil _
  others other hother hapart := ⟨hother, hapart.events, List.forall_mem_nil _⟩

/-- The row an upsert leaves has the aggregate on top of what the rollup had. -/
theorem upsertRow_spec (daily : List DailyRow) (item : ClickAggregate) :
    (upsertRow daily item).key = item.key ∧
      (upsertRow daily item).clicks = clicksAt daily item.key + item.count ∧
      (upsertRow daily item).botClicks = botsAt daily item.key + item.botCount := by
  unfold upsertRow clicksAt botsAt
  cases hlookup : lookup DailyRow.key daily item.key with
  | some row => exact ⟨(lookup_eq_some hlookup).2, rfl, rfl⟩
  | none => exact ⟨rfl, (Int.zero_add _).symm, (Int.zero_add _).symm⟩

/-- One aggregate is written. -/
theorem Wrote.upsert {s : ClickTables} {batch : List ClickEvent}
    {remaining : List ClickAggregate} {written : List DailyRow}
    (h : Wrote loc s batch remaining written) {item : ClickAggregate} (hitem : item ∈ remaining) :
    Wrote loc { s with lockedDaily := item.key :: s.lockedDaily } batch (remaining.erase item)
      (written ++ [upsertRow s.daily item]) := by
  obtain ⟨hkey, hclicks, hbots⟩ := upsertRow_spec s.daily item
  have hperm : (written.map (·.key) ++ remaining.map (·.key)).Perm
      ((written ++ [upsertRow s.daily item]).map (·.key) ++
        (remaining.erase item).map (·.key)) := by
    rw [List.map_append, List.append_assoc]
    refine List.Perm.append_left _ ?_
    have herase := (List.perm_cons_erase hitem).map (·.key)
    simpa [hkey] using herase
  refine ⟨hperm.nodup_iff.mp h.nodup, ?_, ?_, ?_, ?_⟩
  · intro event hevent
    exact hperm.mem_iff.mp (h.covers event hevent)
  · exact fun other hother => h.item other (List.mem_of_mem_erase hother)
  · intro row hrow
    rcases List.mem_append.mp hrow with hold | hlast
    · exact h.row row hold
    · rw [List.mem_singleton.mp hlast, hkey, hclicks, hbots]
      obtain ⟨hcount, hbotCount⟩ := h.item item hitem
      rw [hcount, hbotCount]
      exact ⟨rfl, rfl⟩
  · intro row hrow
    rcases List.mem_append.mp hrow with hold | hlast
    · exact List.mem_cons_of_mem _ (h.locked row hold)
    · rw [List.mem_singleton.mp hlast, hkey]
      exact List.mem_cons_self

/-- An upsert locks a row that no other has locked. -/
theorem upsert_keeps {s : ClickTables} (hs : Conserved loc s) {batch : List ClickEvent}
    {remaining : List ClickAggregate} {written : List DailyRow} (howns : Owns s batch)
    (hwrote : Wrote loc s batch remaining written) {item : ClickAggregate}
    (hitem : item ∈ remaining) (hfree : item.key ∉ s.lockedDaily) :
    StepKeeps loc s { s with lockedDaily := item.key :: s.lockedDaily }
      (.upserting batch remaining written)
      (.upserting batch (remaining.erase item) (written ++ [upsertRow s.daily item])) where
  conserved := ⟨hs.ids, hs.days, hs.clicks, hs.bots, hs.once, hs.known, hs.counted⟩
  holds := ⟨⟨howns.nodup, howns.there, howns.fresh, howns.locked⟩, hwrote.upsert hitem⟩
  others other hother hapart := by
    refine ⟨hother.mono (fun _ _ h => h) (fun _ _ h => h) ?_ fun _ _ => rfl, hapart.events, ?_⟩
    · exact fun _ _ hlocked => List.mem_cons_of_mem _ hlocked
    · intro key hkey hin
      rw [writtenOf, List.map_append] at hkey
      rcases List.mem_append.mp hkey with hold | hlast
      · exact hapart.rows key hold hin
      · have hkey : key = (upsertRow s.daily item).key := List.mem_singleton.mp hlast
        refine hfree ?_
        rw [← (upsertRow_spec s.daily item).1, ← hkey]
        exact hother.locked.2 key hin

/-- One step of a process. -/
theorem clickStep_keeps {s t : ClickTables} {call call' : AggregateCall} {action : ClickAction}
    (hs : Conserved loc s) (hcall : Holds loc s call)
    (hstep : clickStep loc s call action = some (t, call')) : StepKeeps loc s t call call' := by
  unfold clickStep at hstep
  split at hstep
  case h_1 click now =>
    split at hstep
    · obtain ⟨rfl, rfl⟩ := Prod.mk.inj (Option.some.inj hstep)
      exact ⟨hs, trivial, fun other hother hapart => ⟨hother, hapart⟩⟩
    · rename_i hcreate
      obtain ⟨rfl, rfl⟩ := Prod.mk.inj (Option.some.inj hstep)
      obtain ⟨event, hnew, hid, rfl⟩ := CreateClickEvent_cases hcreate
      exact click_keeps hs hnew hid
  case h_2 batchSize =>
    obtain ⟨rfl, rfl⟩ := Prod.mk.inj (Option.some.inj hstep)
    have howns : Owns s [] := ⟨List.nodup_nil, List.forall_mem_nil _, List.forall_mem_nil _,
      List.forall_mem_nil _⟩
    exact ⟨hs, howns, fun other hother _ => ⟨hother, apart_of_nil rfl rfl other⟩⟩
  case h_3 batchSize batch event =>
    split at hstep
    · rename_i hguard
      obtain ⟨rfl, rfl⟩ := Prod.mk.inj (Option.some.inj hstep)
      simp only [Bool.and_eq_true, Option.isNone_iff_eq_none] at hguard
      obtain ⟨⟨⟨hevent, hfresh⟩, hfree⟩, -⟩ := hguard
      exact lock_keeps hs hcall (by simpa using hevent) hfresh (by simpa using hfree)
    · cases hstep
  case h_4 batchSize batch =>
    split at hstep
    · obtain ⟨rfl, rfl⟩ := Prod.mk.inj (Option.some.inj hstep)
      exact selected_keeps hs hcall
    · cases hstep
  case h_5 batch remaining written item =>
    split at hstep
    · rename_i hguard
      obtain ⟨rfl, rfl⟩ := Prod.mk.inj (Option.some.inj hstep)
      obtain ⟨hitem, hfree⟩ := Bool.and_eq_true_iff.mp hguard
      exact upsert_keeps hs hcall.1 hcall.2 (by simpa using hitem) (by simpa using hfree)
    · cases hstep
  case h_6 batch written now =>
    split at hstep
    · cases hstep
    · obtain ⟨rfl, rfl⟩ := Prod.mk.inj (Option.some.inj hstep)
      exact ⟨hs, ⟨hcall.1, hcall.2, rfl⟩, fun other hother hapart =>
        ⟨hother, hapart.events, hapart.rows⟩⟩
  case h_7 written =>
    obtain ⟨rfl, rfl⟩ := Prod.mk.inj (Option.some.inj hstep)
    rw [publish_none s written 0]
    exact commit_keeps (.upserting [] [] written) hs hcall.1 hcall.2 0
  case h_8 batch written marked =>
    obtain ⟨rfl, rfl⟩ := Prod.mk.inj (Option.some.inj hstep)
    obtain ⟨howns, hwrote, hmarked⟩ := hcall
    obtain ⟨now, rfl⟩ := Option.isSome_iff_exists.mp hmarked
    exact commit_keeps (.committing batch written (some now)) hs howns hwrote now
  case h_9 batchSize batch =>
    obtain ⟨rfl, rfl⟩ := Prod.mk.inj (Option.some.inj hstep)
    exact rollback_keeps (.selecting batchSize batch) hs
  case h_10 batch remaining written =>
    obtain ⟨rfl, rfl⟩ := Prod.mk.inj (Option.some.inj hstep)
    exact rollback_keeps (.upserting batch remaining written) hs
  case h_11 batch written marked =>
    obtain ⟨rfl, rfl⟩ := Prod.mk.inj (Option.some.inj hstep)
    exact rollback_keeps (.committing batch written marked) hs
  case h_12 => cases hstep

/-! ## Runs -/

/-- One step of a pool. -/
theorem Rollup.step {s t : Pool ClickTables AggregateCall} {a : ℕ × ClickAction}
    (hs : Rollup loc s) (hstep : (clickCalls loc).machine.step s a = some t) : Rollup loc t := by
  obtain ⟨i, action⟩ := a
  obtain ⟨call', hcall, hi, hothers⟩ := Process.step_cases hstep
  have hkeeps := clickStep_keeps hs.conserved (hs.holds i) hcall
  have hother : ∀ j, j ≠ i → Holds loc t.shared (t.locals j) ∧ Apart call' (t.locals j) := by
    intro j hj
    rw [hothers j hj]
    exact hkeeps.others (s.locals j) (hs.holds j) (hs.apart i j hj.symm)
  refine ⟨hkeeps.conserved, fun j => ?_, fun j k hjk => ?_⟩
  · by_cases hj : j = i
    · rw [hj, hi]
      exact hkeeps.holds
    · exact (hother j hj).1
  · by_cases hj : j = i
    · have hk : k ≠ i := fun hk => hjk (hj.trans hk.symm)
      rw [hj, hi]
      exact (hother k hk).2
    · by_cases hk : k = i
      · rw [hk, hi]
        exact (hother j hj).2.symm
      · rw [hothers j hj, hothers k hk]
        exact hs.apart j k hjk

/-- No click, no rollup, no open transaction. -/
def noClicks (links : List Uuid) : Pool ClickTables AggregateCall :=
  ⟨{ links := links }, fun _ => .idle⟩

theorem rollup_noClicks (links : List Uuid) : Rollup loc (noClicks links) where
  conserved := ⟨List.nodup_nil, List.nodup_nil, fun _ => rfl, fun _ => rfl, List.nodup_nil,
    List.forall_mem_nil _, List.forall_mem_nil _⟩
  holds _ := trivial
  apart _ _ _ := apart_of_nil rfl rfl .idle

/-- In every state that clicks and transactions of `AggregateClicks` reach, the rollup of a
link and a day counts the link's processed events of that day, and those of them that are
of bots; and an event is processed exactly when a committed transaction has counted it,
which happens once. -/
theorem clicks_conserved (loc : DatabaseLocale) (links : List Uuid)
    (schedule : List (ℕ × ClickAction)) (s : Pool ClickTables AggregateCall)
    (hrun : (clickCalls loc).machine.run (noClicks links) schedule = some s) :
    (∀ link day,
      clicksAt s.shared.daily (link, day) =
          s.shared.events.countP (fun event =>
            event.processedAt.isSome && decide (event.linkID = link) &&
              decide (loc.date event.occurredAt = day)) ∧
        botsAt s.shared.daily (link, day) =
          s.shared.events.countP (fun event =>
            event.processedAt.isSome && decide (event.linkID = link) &&
              decide (loc.date event.occurredAt = day) && event.isBot) ∧
        botsAt s.shared.daily (link, day) ≤ clicksAt s.shared.daily (link, day)) ∧
      s.shared.counted.Nodup ∧
      ∀ event ∈ s.shared.events, event.processedAt.isSome ↔ event.id ∈ s.shared.counted := by
  have hrollup : Rollup loc s :=
    (clickCalls loc).machine.run_invariant (fun _ _ _ => Rollup.step) (rollup_noClicks links) hrun
  have hconserved := hrollup.conserved
  refine ⟨fun link day => ?_, hconserved.once, hconserved.counted⟩
  have hbots : botTally loc (s.shared.events.filter (·.processedAt.isSome)) (link, day) ≤
      tally loc (s.shared.events.filter (·.processedAt.isSome)) (link, day) :=
    List.countP_mono_left fun event _ hevent => (Bool.and_eq_true_iff.mp hevent).1
  rw [hconserved.clicks, hconserved.bots]
  refine ⟨?_, ?_, by omega⟩
  · rw [tally, List.countP_filter]
    refine congrArg Nat.cast (List.countP_congr fun event _ => ?_)
    simp [dayKey, and_assoc, and_comm, and_left_comm]
  · rw [botTally, List.countP_filter]
    refine congrArg Nat.cast (List.countP_congr fun event _ => ?_)
    simp [dayKey, and_assoc, and_comm, and_left_comm]

/-- A click that one transaction rolls up while another finds nothing. -/
def oneClick : List (ℕ × ClickAction) :=
  [(0, .click ⟨default, default, some [], lit "curl", [], true⟩ 5),
    (1, .begin 10), (2, .begin 10),
    (1, .lock ⟨default, default, 5, some [], some (lit "curl"), some [], none, true⟩),
    (2, .selected), (1, .selected), (2, .commit), (1, .upsert ⟨default, 0, 1, 1⟩), (1, .mark 6),
    (1, .commit)]

theorem clicks_conserved_oneClick :
    ∃ s, (clickCalls plainLocale).machine.run (noClicks [default]) oneClick = some s ∧
      botsAt s.shared.daily (default, 0) ≤ clicksAt s.shared.daily (default, 0) ∧
      s.shared.counted.Nodup := by
  obtain ⟨s, hs⟩ : ∃ s, (clickCalls plainLocale).machine.run (noClicks [default]) oneClick = some s :=
    Option.isSome_iff_exists.mp (by rfl)
  have hconserved := clicks_conserved plainLocale [default] oneClick s hs
  exact ⟨s, hs, (hconserved.1 default 0).2.2, hconserved.2.1⟩

end

end Purels.Properties
