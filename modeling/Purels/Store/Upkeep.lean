import Purels.Store.Writes

/-!
# Pruning and probing links

The statements of the worker: `PruneExpiredLinks`, which takes rows away,
`LinksDueForCheck` and `RecordLinkHealth`.

* `prunable`: the rows the subquery of a prune selects.
* `cascade`, `PruneExpiredLinks`: the deletion, with what goes with it.
* `isDue`, `LinksDueForCheck`: the links to probe, least recently probed first.
* `RecordLinkHealth`: the outcome of a probe.
* `mem_cascade_links`, `keyed_cascade`, `rulesOf_cascade`: what is left.
* `expired_of_doomed`: only expired rows go.
-/

namespace Purels.Store.LinkStore

open Go

/-- The rows the subquery of `PruneExpiredLinks` selects, the earliest expiry first.
The grace is in seconds, and the settings take no negative one. -/
def prunable (s : LinkStore) (grace limit : Nat) (now : Instant) : List LinkRow :=
  ((s.links.filter fun row =>
    row.expiresAt.any fun t => decide (t < toMicroseconds now - grace * second)).insertionSort
      fun a b => a.expiresAt.getD 0 ≤ b.expiresAt.getD 0).take limit

/-- The rows of other tables go with their link. -/
def cascade (s : LinkStore) (doomed : List Uuid) : LinkStore :=
  { s with
    links := s.links.filter fun row => !doomed.contains row.id
    linkTags := s.linkTags.filter fun t => !doomed.contains t.1
    rules := s.rules.filter fun rule => !doomed.contains rule.linkID
    events := s.events.filter fun event => !doomed.contains event.linkID
    daily := s.daily.filter fun row => !doomed.contains row.linkID }

/-- `PruneExpiredLinks`. -/
def PruneExpiredLinks (s : LinkStore) (grace limit : Nat) (now : Instant) : Nat × LinkStore :=
  let doomed := (s.prunable grace limit now).map LinkRow.id
  (doomed.length, s.cascade doomed)

/-- `domain.LinkTarget`. -/
structure LinkTarget where
  id : Uuid
  aliasName : GoString
  destinationURL : GoString

/-- An active link whose last probe is missing or too old. -/
def isDue (staleBefore : Instant) (row : LinkRow) : Bool :=
  row.live && row.status == .active &&
    row.lastCheckedAt.all fun t => decide (t < toMicroseconds staleBefore)

/-- `ORDER BY last_checked_at ASC NULLS FIRST`. -/
def checkedNoLater : Option Instant → Option Instant → Bool
  | none, _ => true
  | some _, none => false
  | some a, some b => decide (a ≤ b)

/-- The rows of `LinksDueForCheck`. -/
def dueRows (s : LinkStore) (staleBefore : Instant) (limit : Nat) : List LinkRow :=
  ((s.links.filter (isDue staleBefore)).insertionSort fun a b =>
    checkedNoLater a.lastCheckedAt b.lastCheckedAt).take limit

/-- `LinksDueForCheck`. -/
def LinksDueForCheck (s : LinkStore) (staleBefore : Instant) (limit : Nat) : List LinkTarget :=
  (s.dueRows staleBefore limit).map fun row => ⟨row.id, row.aliasName, row.destinationURL⟩

/-- `RecordLinkHealth`.  It is no edit: version and `updated_at` stay. -/
def RecordLinkHealth (s : LinkStore) (linkID : Uuid) (checkedAt : Instant) (statusCode : Int) :
    Except ServiceError Unit × LinkStore :=
  if s.links.any fun row => row.id == linkID then
    (.ok (), s.updateLinks (fun row => row.id == linkID) fun row =>
      { row with lastCheckedAt := some (toMicroseconds checkedAt), lastStatusCode := some statusCode })
  else (.error .notFound, s)

/-! ## What is left -/

variable {s : LinkStore} {doomed : List Uuid} {row : LinkRow}

theorem mem_cascade_links :
    row ∈ (s.cascade doomed).links ↔ row ∈ s.links ∧ row.id ∉ doomed := by
  rw [cascade, List.mem_filter]
  simp

theorem keyed_cascade (h : s.Keyed) (doomed : List Uuid) : (s.cascade doomed).Keyed where
  ids_nodup := h.ids_nodup.sublist (List.filter_sublist.map _)
  aliases_nodup := h.aliases_nodup.sublist (List.filter_sublist.map _)

/-- A link that stays keeps its rules. -/
theorem rulesOf_cascade {id : Uuid} (hid : id ∉ doomed) :
    (s.cascade doomed).rulesOf id = s.rulesOf id := by
  rw [rulesOf, rulesOf, cascade, List.filter_filter]
  refine congrArg (fun l : List RuleRow => (l.insertionSort _).map RuleRow.toRule) ?_
  refine List.filter_congr fun rule _ => ?_
  by_cases hrule : rule.linkID = id
  · simp [hrule, hid]
  · simp [hrule]

/-- Only rows whose expiry has passed go. -/
theorem expired_of_doomed (h : s.Keyed) {grace limit : Nat} {now : Instant} (hrow : row ∈ s.links)
    (hdoomed : row.id ∈ (s.prunable grace limit now).map LinkRow.id) :
    ∃ t, row.expiresAt = some t ∧ t < now := by
  obtain ⟨other, hother, hid⟩ := List.mem_map.mp hdoomed
  have hselected := (List.perm_insertionSort _ _).mem_iff.mp (List.mem_of_mem_take hother)
  obtain ⟨hmem, hexpired⟩ := List.mem_filter.mp hselected
  obtain rfl := h.eq_of_id hmem hrow hid
  obtain ⟨t, ht, hbefore⟩ := (Option.any_eq_true _ _).mp hexpired
  refine ⟨t, ht, ?_⟩
  have hround : (now / 1000 * 1000 : Int) ≤ now := Int.ediv_mul_le now (by decide)
  have hgrace : (0 : Int) ≤ grace * second := Int.mul_nonneg (Int.natCast_nonneg grace) (by decide)
  have hless : (t : Int) < now / 1000 * 1000 - grace * second := of_decide_eq_true hbefore
  exact Int.lt_of_lt_of_le hless (Int.le_trans (Int.sub_le_self _ hgrace) hround)

/-! ## Probes -/

theorem checkedNoLater_trans {a b c : Option Instant} (hab : checkedNoLater a b)
    (hbc : checkedNoLater b c) : checkedNoLater a c := by
  cases a with
  | none => rfl
  | some a =>
    cases b with
    | none => cases hab
    | some b =>
      cases c with
      | none => cases hbc
      | some c => exact decide_eq_true (le_trans (of_decide_eq_true hab) (of_decide_eq_true hbc))

theorem checkedNoLater_total (a b : Option Instant) : checkedNoLater a b ∨ checkedNoLater b a := by
  cases a with
  | none => exact .inl rfl
  | some a =>
    cases b with
    | none => exact .inr rfl
    | some b => exact (le_total a b).imp decide_eq_true decide_eq_true

/-- The selection before the limit is in order. -/
theorem pairwise_checkedNoLater (rows : List LinkRow) :
    (rows.insertionSort fun a b => checkedNoLater a.lastCheckedAt b.lastCheckedAt).Pairwise
      fun a b => checkedNoLater a.lastCheckedAt b.lastCheckedAt := by
  have : Std.Total fun a b : LinkRow => checkedNoLater a.lastCheckedAt b.lastCheckedAt = true :=
    ⟨fun _ _ => checkedNoLater_total _ _⟩
  have : IsTrans LinkRow fun a b => checkedNoLater a.lastCheckedAt b.lastCheckedAt :=
    ⟨fun _ _ _ => checkedNoLater_trans⟩
  exact List.pairwise_insertionSort _ rows

theorem mem_dueRows {staleBefore : Instant} {limit : Nat} (h : row ∈ s.dueRows staleBefore limit) :
    row ∈ s.links ∧ isDue staleBefore row := by
  have hmem := (List.perm_insertionSort _ _).mem_iff.mp (List.mem_of_mem_take h)
  exact List.mem_filter.mp hmem

/-- Recording a probe writes the health columns, of no row when there is none. -/
theorem RecordLinkHealth_snd (s : LinkStore) (linkID : Uuid) (checkedAt : Instant)
    (statusCode : Int) : (s.RecordLinkHealth linkID checkedAt statusCode).2 =
      s.updateLinks (fun row => row.id == linkID) fun row =>
        { row with
          lastCheckedAt := some (toMicroseconds checkedAt)
          lastStatusCode := some statusCode } := by
  unfold RecordLinkHealth
  split_ifs with hrow
  · rfl
  · have hsame : s.links.map (fun row => if row.id == linkID then
        { row with
          lastCheckedAt := some (toMicroseconds checkedAt)
          lastStatusCode := some statusCode } else row) = s.links := by
      refine (List.map_congr_left fun row hmem => ?_).trans (List.map_id' s.links)
      exact if_neg fun heq => hrow (List.any_eq_true.mpr ⟨row, hmem, heq⟩)
    rw [updateLinks, hsame]

end Purels.Store.LinkStore
