import Purels.Lib.Counts
import Purels.Security.Links
import Purels.Worker.Sweep

/-!
# The health sweep makes progress

Sweeps over the links of a store, one after the other.

* `CheckedSince`: the last probe of a row is not older than a time.
* `SelectionChecked`: a sweep has checked every link that it selected.
* `sweeps`: a first sweep and those after it, and `AllChecked`, the links then.
* `parse_of_destination`: a request can be made of an accepted destination exactly when its
  fragment decodes.
* `sweep_progress_iff`, and `sweep_stuck`, a link that is selected for ever.
-/

namespace Purels.Properties

open Go Security Store Service Worker LinkStore Lib

/-- The last probe was made at the time or after it. -/
def CheckedSince (start : Instant) (row : LinkRow) : Prop :=
  ∃ checkedAt, row.lastCheckedAt = some checkedAt ∧ toMicroseconds start ≤ checkedAt

section

variable (u : Unicode) (batch : Nat) (staleAfter : Int)

/-- Every link that the sweep selected has been checked by it. -/
def SelectionChecked (sweep : Sweep) (s : LinkStore) : Prop :=
  ∀ target ∈ s.LinksDueForCheck (sweep.start - staleAfter) batch,
    ∃ row ∈ (sweepHealth u batch staleAfter sweep s).links,
      row.id = target.id ∧ CheckedSince sweep.start row

/-- Sweeps one after the other. -/
def sweeps (later : List Sweep) (s : LinkStore) : LinkStore :=
  later.foldl (fun s sweep => sweepHealth u batch staleAfter sweep s) s

/-- Every live active link has a probe that is not older than the first sweep allows. -/
def AllChecked (first : Sweep) (s : LinkStore) : Prop :=
  ∀ row ∈ s.links, row.live → row.status = .active →
    CheckedSince (first.start - staleAfter) row

end

variable {u : Unicode} {batch : Nat} {staleAfter : Int} {s : LinkStore}

/-! ## Destinations -/

/-- A request can be made of an accepted destination when its fragment decodes. -/
theorem parse_of_destination {raw : GoString} (h : ValidateDestination u raw = .ok ()) :
    (Url.parse u raw).isSome ↔ fragmentDecodes raw := by
  obtain ⟨-, -, parsed, hparse, hhost, huser, -⟩ := ValidateDestination_ok h
  constructor
  · intro hsome
    by_contra hfrag
    rw [parse_eq_none_of_fragment u hfrag] at hsome
    cases hsome
  · intro hfrag
    obtain ⟨url, hurl, -⟩ := parse_of_parseRequestURI u hparse hhost huser hfrag
    rw [hurl]
    rfl

/-! ## One sweep -/

theorem not_checkedSince_of_due {start staleBefore : Instant} (hle : staleBefore ≤ start)
    {row : LinkRow} (hdue : isDue staleBefore row) : ¬ CheckedSince start row := by
  rintro ⟨checkedAt, hchecked, hsince⟩
  rw [isDue, Bool.and_eq_true, hchecked] at hdue
  have hbefore : checkedAt < toMicroseconds staleBefore := of_decide_eq_true hdue.2
  have hmono := toMicroseconds_mono hle
  exact absurd (lt_of_lt_of_le hbefore hmono) (not_lt.mpr hsince)

/-- The row that a target was read from. -/
theorem target_row {staleBefore : Instant} {target : LinkTarget}
    (h : target ∈ s.LinksDueForCheck staleBefore batch) :
    ∃ row ∈ s.dueRows staleBefore batch, target.id = row.id ∧
      target.destinationURL = row.destinationURL := by
  obtain ⟨row, hrow, rfl⟩ := List.mem_map.mp h
  exact ⟨row, hrow, rfl, rfl⟩

/-- A selected row is asked for when a request can be made of its destination. -/
theorem requested_iff (hs : (s.links.map LinkRow.id).Nodup) {staleBefore : Instant} {row : LinkRow}
    (hrow : row ∈ s.links) :
    Requested u (s.LinksDueForCheck staleBefore batch) row ↔
      row ∈ s.dueRows staleBefore batch ∧ (Url.parse u row.destinationURL).isSome := by
  constructor
  · rintro ⟨target, htarget, hid, hparse⟩
    obtain ⟨other, hother, hid', hdestination⟩ := target_row htarget
    obtain rfl : other = row :=
      List.inj_on_of_nodup_map hs (mem_dueRows hother).1 hrow (hid'.symm.trans hid)
    exact ⟨hother, hdestination ▸ hparse⟩
  · rintro ⟨hdue, hparse⟩
    exact ⟨_, List.mem_map_of_mem hdue, rfl, hparse⟩

/-- What a sweep may do to a row. -/
structure Swept (start : Instant) (row row' : LinkRow) : Prop where
  id : row'.id = row.id
  destinationURL : row'.destinationURL = row.destinationURL
  live : row'.live = row.live
  status : row'.status = row.status
  checked : row'.lastCheckedAt = row.lastCheckedAt ∨ CheckedSince start row'

/-- The rows after a sweep, by the rows that it selects. -/
theorem sweepHealth_rows (u : Unicode) (batch : Nat) (staleAfter : Int) (sweep : Sweep)
    (hs : (s.links.map LinkRow.id).Nodup) :
    ∃ f : LinkRow → LinkRow, (sweepHealth u batch staleAfter sweep s).links = s.links.map f ∧
      ∀ row ∈ s.links, Swept sweep.start row (f row) ∧
        (row ∈ s.dueRows (sweep.start - staleAfter) batch →
          (Url.parse u row.destinationURL).isSome → CheckedSince sweep.start (f row)) ∧
        (¬ (row ∈ s.dueRows (sweep.start - staleAfter) batch ∧
          (Url.parse u row.destinationURL).isSome) → f row = row) := by
  obtain ⟨f, hlinks, hf⟩ := sweepHealth_links (u := u) batch staleAfter sweep s
  refine ⟨f, hlinks, fun row hrow => ?_⟩
  obtain ⟨hrecorded, hkept⟩ := hf row
  rw [requested_iff hs hrow] at hrecorded hkept
  have hsince : RecordedBy sweep.start row (f row) → CheckedSince sweep.start (f row) := by
    rintro ⟨checkedAt, statusCode, hle, heq⟩
    exact ⟨checkedAt, by rw [heq], hle⟩
  refine ⟨?_, fun hdue hparse => hsince (hrecorded ⟨hdue, hparse⟩), hkept⟩
  by_cases hrequested : row ∈ s.dueRows (sweep.start - staleAfter) batch ∧
      (Url.parse u row.destinationURL).isSome
  · have hchecked := hsince (hrecorded hrequested)
    obtain ⟨checkedAt, statusCode, -, heq⟩ := hrecorded hrequested
    exact ⟨by rw [heq], by rw [heq], by rw [heq]; rfl, by rw [heq], .inr hchecked⟩
  · rw [hkept hrequested]
    exact ⟨rfl, rfl, rfl, rfl, .inl rfl⟩

theorem ids_of_swept {f : LinkRow → LinkRow} {start : Instant}
    (hf : ∀ row ∈ s.links, Swept start row (f row)) :
    (s.links.map f).map LinkRow.id = s.links.map LinkRow.id := by
  rw [List.map_map]
  exact List.map_congr_left fun row hrow => (hf row hrow).id

/-- A sweep checks what it selects exactly when all the destinations parse. -/
theorem selectionChecked_iff (hs : (s.links.map LinkRow.id).Nodup) (hstale : 0 ≤ staleAfter)
    (sweep : Sweep) : SelectionChecked u batch staleAfter sweep s ↔
      ∀ row ∈ s.dueRows (sweep.start - staleAfter) batch,
        (Url.parse u row.destinationURL).isSome := by
  obtain ⟨f, hlinks, hf⟩ := sweepHealth_rows u batch staleAfter sweep hs
  unfold SelectionChecked
  rw [hlinks]
  constructor
  · intro hchecked row hrow
    obtain ⟨hmem, hdue⟩ := mem_dueRows hrow
    obtain ⟨row', hrow', hid, hsince⟩ := hchecked _ (List.mem_map_of_mem hrow)
    obtain ⟨other, hother, rfl⟩ := List.mem_map.mp hrow'
    obtain ⟨hswept, -, hkept⟩ := hf other hother
    obtain rfl : other = row := List.inj_on_of_nodup_map hs hother hmem (hswept.id.symm.trans hid)
    by_contra hparse
    rw [hkept fun hrequested => hparse hrequested.2] at hsince
    exact not_checkedSince_of_due (Int.sub_le_self _ hstale) hdue hsince
  · intro hparse target htarget
    obtain ⟨row, hrow, hid, -⟩ := target_row htarget
    have hmem := (mem_dueRows hrow).1
    obtain ⟨hswept, hchecked, -⟩ := hf row hmem
    exact ⟨f row, List.mem_map_of_mem hmem, hswept.id.trans hid.symm,
      hchecked hrow (hparse row hrow)⟩

/-! ## Many sweeps -/

/-- No link becomes older. -/
theorem isDue_of_swept {start cutoff : Instant} (hle : cutoff ≤ start) {row row' : LinkRow}
    (h : Swept start row row') (hdue : isDue cutoff row') : isDue cutoff row := by
  rcases h.checked with hsame | hsince
  · rw [isDue, h.live, h.status, hsame] at hdue
    exact hdue
  · exact absurd hsince (not_checkedSince_of_due hle hdue)

/-- The oldest links are selected first. -/
theorem countP_dueRows {cutoff staleBefore : Instant} (hle : cutoff ≤ staleBefore) :
    (s.dueRows staleBefore batch).countP (isDue cutoff) =
      min batch (s.links.countP (isDue cutoff)) := by
  let old : LinkRow → Bool := fun row => row.lastCheckedAt.all fun t =>
    decide (t < toMicroseconds cutoff)
  have hmono : ∀ row, isDue cutoff row → isDue staleBefore row := by
    intro row hdue
    rw [isDue, Bool.and_eq_true] at hdue ⊢
    refine ⟨hdue.1, ?_⟩
    cases hchecked : row.lastCheckedAt with
    | none => rfl
    | some t =>
      rw [hchecked] at hdue
      have hbefore : t < toMicroseconds cutoff := of_decide_eq_true hdue.2
      exact decide_eq_true (lt_of_lt_of_le hbefore (toMicroseconds_mono hle))
  have hold : ∀ row, isDue staleBefore row → (isDue cutoff row ↔ old row) := by
    intro row hdue
    rw [isDue, Bool.and_eq_true] at hdue ⊢
    exact ⟨And.right, fun hold => ⟨hdue.1, hold⟩⟩
  have hlower : ∀ a b : LinkRow, checkedNoLater a.lastCheckedAt b.lastCheckedAt → old b → old a := by
    intro a b hab hb
    show a.lastCheckedAt.all _ = true
    cases ha : a.lastCheckedAt with
    | none => rfl
    | some t =>
      have hb' : b.lastCheckedAt.all (fun t => decide (t < toMicroseconds cutoff)) = true := hb
      cases hbt : b.lastCheckedAt with
      | none =>
        rw [ha, hbt] at hab
        cases hab
      | some t' =>
        rw [ha, hbt] at hab
        rw [hbt] at hb'
        exact decide_eq_true (lt_of_le_of_lt (of_decide_eq_true hab) (of_decide_eq_true hb'))
  have hselected : (s.dueRows staleBefore batch).countP (isDue cutoff) =
      (s.dueRows staleBefore batch).countP old :=
    List.countP_congr fun row hrow => hold row (mem_dueRows hrow).2
  have hall : s.links.countP (isDue cutoff) =
      (s.links.filter (isDue staleBefore)).countP old := by
    rw [List.countP_filter]
    refine List.countP_congr fun row _ => ?_
    rw [Bool.and_eq_true]
    constructor
    · intro hdue
      exact ⟨(hold row (hmono row hdue)).mp hdue, hmono row hdue⟩
    · rintro ⟨hrow, hdue⟩
      exact (hold row hdue).mpr hrow
  rw [hselected, dueRows, countP_take hlower (pairwise_checkedNoLater _), hall,
    (List.perm_insertionSort _ _).countP_eq]

/-- A sweep checks a batch of the old links, or all of them. -/
theorem countP_sweep {cutoff : Instant} (hs : (s.links.map LinkRow.id).Nodup) (sweep : Sweep)
    (hstale : 0 ≤ staleAfter) (hle : cutoff ≤ sweep.start - staleAfter)
    (hparse : ∀ row ∈ s.links, isDue cutoff row → (Url.parse u row.destinationURL).isSome) :
    (sweepHealth u batch staleAfter sweep s).links.countP (isDue cutoff) =
      s.links.countP (isDue cutoff) - batch := by
  obtain ⟨f, hlinks, hf⟩ := sweepHealth_rows u batch staleAfter sweep hs
  let selected : LinkRow → Bool := fun row =>
    decide (row ∈ s.dueRows (sweep.start - staleAfter) batch)
  have hbefore : cutoff ≤ sweep.start := le_trans hle (Int.sub_le_self _ hstale)
  have hleft : s.links.countP (isDue cutoff ∘ f) =
      (s.links.filter fun row => !selected row).countP (isDue cutoff) := by
    rw [List.countP_filter]
    refine List.countP_congr fun row hrow => ?_
    obtain ⟨hswept, hchecked, hkept⟩ := hf row hrow
    rw [Function.comp_apply, Bool.and_eq_true, Bool.not_eq_true', decide_eq_false_iff_not]
    constructor
    · intro hdue
      have hwas := isDue_of_swept hbefore hswept hdue
      refine ⟨hwas, fun hselected => ?_⟩
      have hsince := hchecked hselected (hparse row hrow hwas)
      exact not_checkedSince_of_due hbefore hdue hsince
    · rintro ⟨hdue, hother⟩
      rw [hkept fun hrequested => hother hrequested.1]
      exact hdue
  have hperm : (s.links.filter selected).Perm (s.dueRows (sweep.start - staleAfter) batch) := by
    have hnodup : s.links.Nodup := List.Nodup.of_map _ hs
    have hdueNodup : (s.dueRows (sweep.start - staleAfter) batch).Nodup :=
      ((List.perm_insertionSort _ _).nodup_iff.mpr (hnodup.filter _)).sublist
        (List.take_sublist _ _)
    refine (List.perm_ext_iff_of_nodup (hnodup.filter _) hdueNodup).mpr fun row => ?_
    rw [List.mem_filter, decide_eq_true_eq]
    exact and_iff_right_of_imp fun hrow => (mem_dueRows hrow).1
  have hsplit := s.links.countP_eq_countP_filter_add (isDue cutoff) selected
  have hcount : (s.dueRows (sweep.start - staleAfter) batch).countP (isDue cutoff) =
      min batch (s.links.countP (isDue cutoff)) := countP_dueRows hle
  rw [hlinks, List.countP_map, hleft]
  rw [hperm.countP_eq, hcount] at hsplit
  omega

/-- Sweep after sweep, the old links get fewer by a batch. -/
theorem countP_sweeps {cutoff : Instant} (hstale : 0 ≤ staleAfter) {later : List Sweep}
    (hle : ∀ sweep ∈ later, cutoff ≤ sweep.start - staleAfter)
    (hs : (s.links.map LinkRow.id).Nodup)
    (hparse : ∀ row ∈ s.links, isDue cutoff row → (Url.parse u row.destinationURL).isSome) :
    (sweeps u batch staleAfter later s).links.countP (isDue cutoff) =
      s.links.countP (isDue cutoff) - later.length * batch := by
  induction later generalizing s with
  | nil => rw [List.length_nil, Nat.zero_mul]; rfl
  | cons sweep later ih =>
    obtain ⟨hsweep, hrest⟩ := List.forall_mem_cons.mp hle
    have hbefore : cutoff ≤ sweep.start := le_trans hsweep (Int.sub_le_self _ hstale)
    obtain ⟨f, hlinks, hf⟩ := sweepHealth_rows u batch staleAfter sweep hs
    have hids : ((sweepHealth u batch staleAfter sweep s).links.map LinkRow.id).Nodup := by
      rw [hlinks, ids_of_swept fun row hrow => (hf row hrow).1]
      exact hs
    have hparse' : ∀ row ∈ (sweepHealth u batch staleAfter sweep s).links, isDue cutoff row →
        (Url.parse u row.destinationURL).isSome := by
      rw [hlinks]
      intro row' hrow' hdue
      obtain ⟨row, hrow, rfl⟩ := List.mem_map.mp hrow'
      have hswept := (hf row hrow).1
      rw [hswept.destinationURL]
      exact hparse row hrow (isDue_of_swept hbefore hswept hdue)
    have hcount : (sweepHealth u batch staleAfter sweep s).links.countP (isDue cutoff) =
        s.links.countP (isDue cutoff) - batch := countP_sweep hs sweep hstale hsweep hparse
    have hmany := ih hrest hids hparse'
    rw [List.length_cons, Nat.succ_mul]
    rw [hcount] at hmany
    exact hmany.trans (by omega)

/-- A link that no request can be made for is left as it is, by any number of sweeps. -/
theorem mem_sweeps_of_unparsed {row : LinkRow} (hparse : ¬ (Url.parse u row.destinationURL).isSome)
    (later : List Sweep) (hs : (s.links.map LinkRow.id).Nodup) (hrow : row ∈ s.links) :
    row ∈ (sweeps u batch staleAfter later s).links := by
  induction later generalizing s with
  | nil => exact hrow
  | cons sweep later ih =>
    obtain ⟨f, hlinks, hf⟩ := sweepHealth_rows u batch staleAfter sweep hs
    have hkept := (hf row hrow).2.2 fun hrequested => hparse hrequested.2
    refine ih ?_ ?_
    · rw [hlinks, ids_of_swept fun row hrow => (hf row hrow).1]
      exact hs
    · rw [hlinks]
      exact List.mem_map.mpr ⟨row, hrow, hkept⟩

theorem checkedSince_of_not_due {cutoff : Instant} {row : LinkRow} (hlive : row.live)
    (hactive : row.status = .active) (h : ¬ isDue cutoff row) : CheckedSince cutoff row := by
  rw [isDue, hlive, hactive] at h
  cases hchecked : row.lastCheckedAt with
  | none =>
    rw [hchecked] at h
    exact absurd rfl h
  | some t =>
    rw [hchecked] at h
    exact ⟨t, hchecked, not_lt.mp fun hlt => h (decide_eq_true hlt)⟩

/-- A sweep checks what it selects, and enough sweeps check every link, exactly when the
fragments of the destinations decode. -/
theorem sweep_progress_iff (hs : (s.links.map LinkRow.id).Nodup)
    (hvalid : ∀ row ∈ s.links, row.live → row.status = .active →
      ValidateDestination u row.destinationURL = .ok ())
    (hstale : 0 ≤ staleAfter) (first : Sweep) (later : List Sweep)
    (hlater : ∀ sweep ∈ later, first.start ≤ sweep.start)
    (hlong : s.links.countP (isDue (first.start - staleAfter)) ≤ (later.length + 1) * batch) :
    (SelectionChecked u batch staleAfter first s ↔
      ∀ row ∈ s.dueRows (first.start - staleAfter) batch, fragmentDecodes row.destinationURL) ∧
    (AllChecked staleAfter first (sweeps u batch staleAfter (first :: later) s) ↔
      ∀ row ∈ s.links, isDue (first.start - staleAfter) row →
        fragmentDecodes row.destinationURL) := by
  have hdecodes : ∀ row ∈ s.links, isDue (first.start - staleAfter) row →
      ((Url.parse u row.destinationURL).isSome ↔ fragmentDecodes row.destinationURL) := by
    intro row hrow hdue
    rw [isDue, Bool.and_eq_true, Bool.and_eq_true, beq_iff_eq] at hdue
    exact parse_of_destination (hvalid row hrow hdue.1.1 hdue.1.2)
  constructor
  · rw [selectionChecked_iff hs hstale]
    refine forall₂_congr fun row hrow => ?_
    obtain ⟨hmem, hdue⟩ := mem_dueRows hrow
    exact hdecodes row hmem hdue
  · constructor
    · intro hchecked row hrow hdue
      by_contra hfrag
      have hparse : ¬ (Url.parse u row.destinationURL).isSome := fun hsome =>
        hfrag ((hdecodes row hrow hdue).mp hsome)
      have hkept : row ∈ (sweeps u batch staleAfter (first :: later) s).links :=
        mem_sweeps_of_unparsed hparse (first :: later) hs hrow
      have hactive : row.live ∧ row.status = .active := by
        rw [isDue, Bool.and_eq_true, Bool.and_eq_true, beq_iff_eq] at hdue
        exact hdue.1
      exact not_checkedSince_of_due le_rfl hdue (hchecked row hkept hactive.1 hactive.2)
    · intro hfrag row hrow hlive hactive
      have hparse : ∀ row ∈ s.links, isDue (first.start - staleAfter) row →
          (Url.parse u row.destinationURL).isSome := fun row hrow hdue =>
        (hdecodes row hrow hdue).mpr (hfrag row hrow hdue)
      have hstart : ∀ sweep ∈ first :: later,
          first.start - staleAfter ≤ sweep.start - staleAfter := by
        intro sweep hsweep
        apply Int.sub_le_sub_right
        rcases List.mem_cons.mp hsweep with rfl | hmem
        · exact le_rfl
        · exact hlater sweep hmem
      have hcount : (sweeps u batch staleAfter (first :: later) s).links.countP
          (isDue (first.start - staleAfter)) =
          s.links.countP (isDue (first.start - staleAfter)) - (later.length + 1) * batch :=
        countP_sweeps hstale hstart hs hparse
      rw [Nat.sub_eq_zero_of_le hlong] at hcount
      exact checkedSince_of_not_due hlive hactive (List.countP_eq_zero.mp hcount row hrow)

/-! ## Two links, one at a time -/

/-- A sweep at this time; every destination answers. -/
def sweepAt (start : Instant) : Sweep where
  start := start
  checks _ := ⟨start, fun _ => .answered 200⟩
  later _ := le_rfl

/-- A link with this destination, which was never checked. -/
def uncheckedRow (aliasName destination : GoString) (id : Uuid) : LinkRow where
  id := id
  aliasName := aliasName
  destinationURL := destination

def twoLinks (destination : GoString) : LinkStore where
  links := [uncheckedRow (lit "abc") destination default,
    uncheckedRow (lit "def") (lit "https://b.example/") (Uuid.filled (Fin.last 15))]

theorem twoLinks_ids (destination : GoString) :
    ((twoLinks destination).links.map LinkRow.id).Nodup := by
  have hne : (default : Uuid) ≠ Uuid.filled (Fin.last 15) := by decide
  exact List.nodup_cons.mpr ⟨fun hmem => hne (List.mem_singleton.mp hmem), List.nodup_singleton _⟩

theorem twoLinks_valid {destination : GoString}
    (h : ValidateDestination .ascii destination = .ok ()) :
    ∀ row ∈ (twoLinks destination).links, row.live → row.status = .active →
      ValidateDestination .ascii row.destinationURL = .ok () := by
  intro row hrow _ _
  rcases List.mem_cons.mp hrow with rfl | hrow
  · exact h
  · rw [List.mem_singleton.mp hrow]
    decide

/-- A link whose fragment decodes, and two sweeps. -/
theorem sweep_progress_two :
    SelectionChecked .ascii 1 (60 * second) (sweepAt 0) (twoLinks (lit "https://a.example/#top")) ∧
      AllChecked (60 * second) (sweepAt 0) (sweeps .ascii 1 (60 * second)
        [sweepAt 0, sweepAt second] (twoLinks (lit "https://a.example/#top"))) := by
  have hlater : ∀ sweep ∈ [sweepAt second], (sweepAt 0).start ≤ sweep.start :=
    List.forall_mem_singleton.mpr (by decide)
  have hfrag : (twoLinks (lit "https://a.example/#top")).links.all fun row =>
      fragmentDecodes row.destinationURL := by
    decide
  have hiff := sweep_progress_iff (twoLinks_ids (lit "https://a.example/#top"))
    (twoLinks_valid (by decide)) (by decide : (0 : Int) ≤ 60 * second) (sweepAt 0)
    [sweepAt second] hlater
    (by decide : (twoLinks (lit "https://a.example/#top")).links.countP
      (isDue ((sweepAt 0).start - 60 * second)) ≤ ([sweepAt second].length + 1) * 1)
  exact ⟨hiff.1.mpr fun row hrow => List.all_eq_true.mp hfrag row (mem_dueRows hrow).1,
    hiff.2.mpr fun row hrow _ => List.all_eq_true.mp hfrag row hrow⟩

/-- The fragment of this destination does not decode: its link is selected for ever, and with a
batch of one no other link is checked. -/
theorem sweep_stuck :
    ValidateDestination .ascii (lit "https://a.example/?#%zz") = .ok () ∧
      ¬ SelectionChecked .ascii 1 (60 * second) (sweepAt 0)
        (twoLinks (lit "https://a.example/?#%zz")) ∧
      ∀ later : List Sweep, ¬ AllChecked (60 * second) (sweepAt 0) (sweeps .ascii 1 (60 * second)
        later (twoLinks (lit "https://a.example/?#%zz"))) := by
  have hids := twoLinks_ids (lit "https://a.example/?#%zz")
  have hstuck : ¬ (Url.parse .ascii (uncheckedRow (lit "abc") (lit "https://a.example/?#%zz")
      default).destinationURL).isSome := by
    decide
  refine ⟨by decide, fun hchecked => ?_, fun later hchecked => ?_⟩
  · refine hstuck ((selectionChecked_iff hids (by decide) (sweepAt 0)).mp hchecked _ ?_)
    exact List.mem_of_getElem? (by decide : (dueRows (twoLinks (lit "https://a.example/?#%zz"))
      ((sweepAt 0).start - 60 * second) 1)[0]? =
        some (uncheckedRow (lit "abc") (lit "https://a.example/?#%zz") default))
  · have hrow : uncheckedRow (lit "abc") (lit "https://a.example/?#%zz") default ∈
        (sweeps .ascii 1 (60 * second) later (twoLinks (lit "https://a.example/?#%zz"))).links :=
      mem_sweeps_of_unparsed hstuck later hids List.mem_cons_self
    obtain ⟨checkedAt, hnone, -⟩ := hchecked _ hrow rfl rfl
    cases hnone

end Purels.Properties
