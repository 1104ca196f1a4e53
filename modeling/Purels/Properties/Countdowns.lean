import Purels.Http.Countdown

/-!
# The countdown keeps its time

Events come in any order and at any times.  The page counts down while it is neither paused nor
left, and what it counts is the time that it runs.

* `CountdownSound`: how the variables of the script follow the time that the page has run.
* `countdown_timed`: the page is left after the time it announces, not long after it, and once
  only until it is shown again.
-/

namespace Purels.Properties

open Lib Http

/-- The time that passes while the page runs. -/
def runTime (s : Countdown) (a : PageEvent × ℕ) : ℕ := if s.running then a.2 - s.clock else 0

/-- A step that leaves the page. -/
def leaves (s : Countdown) (a : PageEvent × ℕ) : ℕ :=
  if !s.leaving && (countdown.step s a).any (·.leaving) then 1 else 0

/-- The page is shown again from the cache. -/
def shownAgain (a : PageEvent × ℕ) : Bool := a.1 == .pageshow true

/-- No event finds a timer that is overdue for longer. -/
def OnTime (lateness : ℕ) (s : Countdown) (a : PageEvent × ℕ) : Prop :=
  ∀ due ∈ s.timer, a.2 ≤ due + lateness

/-- How the variables follow the time that a page of this duration has run. -/
structure CountdownSound (duration : ℕ) (s : Countdown) (ran : ℕ) : Prop where
  timer : s.timer.isSome ↔ s.running
  due : ∀ due ∈ s.timer, due ≤ s.startedAt + s.remaining
  runs : s.running → s.startedAt ≤ s.clock ∧ 0 < s.remaining ∧
    duration + (s.clock - s.startedAt) = ran + s.remaining
  stands : ¬ s.running → s.remaining = duration - ran
  left : s.leaving → duration ≤ ran

section

variable {duration ran now : ℕ} {s t : Countdown} {as : List (PageEvent × ℕ)}

/-- What a running page has still to count at a later time. -/
theorem CountdownSound.remaining (h : CountdownSound duration s ran) (hrunning : s.running)
    (hnow : s.clock ≤ now) :
    s.remaining - (now - s.startedAt) = duration - (ran + (now - s.clock)) := by
  obtain ⟨hstarted, hpositive, hcounted⟩ := h.runs hrunning
  omega

/-- `tick` in the course of the countdown: the page is left, or counts on. -/
theorem tick_sound (hpaused : s.paused = false) (hleaving : s.leaving = false)
    (hremaining : s.remaining - (now - s.startedAt) = duration - ran) :
    CountdownSound duration { s.tick now with clock := now } ran := by
  have hnot : ¬ (s.paused || s.leaving) = true := by simp [hpaused, hleaving]
  by_cases hdone : duration - ran = 0
  · have htick : s.tick now = { s with
        remaining := 0, startedAt := now, leaving := true, timer := none } := by
      simp only [Countdown.tick, Countdown.updateRemaining, if_neg hnot, hremaining, hdone, if_true]
    rw [htick]
    refine ⟨?_, ?_, ?_, ?_, ?_⟩
    · simp [Countdown.running]
    · simp
    · simp [Countdown.running]
    · intro _
      exact hdone.symm
    · intro _
      show duration ≤ ran
      omega
  · have htick : s.tick now = { s with
        remaining := duration - ran, startedAt := now,
        timer := some (now + min 50 (duration - ran)) } := by
      simp only [Countdown.tick, Countdown.updateRemaining, if_neg hnot, hremaining, if_neg hdone]
    rw [htick]
    refine ⟨?_, ?_, ?_, ?_, ?_⟩
    · simp [Countdown.running, hpaused, hleaving]
    · intro due hdue
      obtain rfl := Option.some.inj hdue
      show now + min 50 (duration - ran) ≤ now + (duration - ran)
      omega
    · intro _
      show now ≤ now ∧ 0 < duration - ran ∧ duration + (now - now) = ran + (duration - ran)
      omega
    · simp [Countdown.running, hpaused, hleaving]
    · simp [hleaving]

/-- `pause`: the rest is kept. -/
theorem pause_sound (hpaused : s.paused = true) (htimer : s.timer = none)
    (hremaining : s.remaining = duration - ran) (hleft : s.leaving → duration ≤ ran) :
    CountdownSound duration s ran := by
  refine ⟨?_, ?_, ?_, ?_, hleft⟩
  · simp [htimer, Countdown.running, hpaused]
  · simp [htimer]
  · simp [Countdown.running, hpaused]
  · intro _
    exact hremaining

theorem running_iff : s.running ↔ s.paused = false ∧ s.leaving = false := by
  simp [Countdown.running]

/-- An event that a page passes over. -/
theorem CountdownSound.later (h : CountdownSound duration s ran) (hnow : s.clock ≤ now) :
    CountdownSound duration { s with clock := now } (ran + runTime s (.pagehide, now)) := by
  refine ⟨h.timer, h.due, fun hrunning => ?_, fun hrunning => ?_, fun hleaving => ?_⟩
  · obtain ⟨hstarted, hpositive, hcounted⟩ := h.runs hrunning
    have htime : runTime s (.pagehide, now) = now - s.clock := if_pos hrunning
    show s.startedAt ≤ now ∧ 0 < s.remaining ∧
      duration + (now - s.startedAt) = ran + runTime s (.pagehide, now) + s.remaining
    omega
  · have htime : runTime s (.pagehide, now) = 0 := if_neg hrunning
    rw [htime]
    exact h.stands hrunning
  · exact Nat.le_add_right_of_le (h.left hleaving)

/-- A page that is paused, or hidden. -/
theorem CountdownSound.pause (h : CountdownSound duration s ran) (hnow : s.clock ≤ now) :
    CountdownSound duration { s.pause now with clock := now }
      (ran + runTime s (.pagehide, now)) := by
  by_cases hrunning : s.running
  · obtain ⟨hpaused, hleaving⟩ := running_iff.mp hrunning
    have htime : runTime s (.pagehide, now) = now - s.clock := if_pos hrunning
    have hpause : s.pause now = { s with
        remaining := s.remaining - (now - s.startedAt), startedAt := now, paused := true,
        timer := none } := by
      simp [Countdown.pause, Countdown.updateRemaining, hpaused, hleaving]
    rw [hpause, htime]
    refine pause_sound rfl rfl (h.remaining hrunning hnow) ?_
    simp [hleaving]
  · have htime : runTime s (.pagehide, now) = 0 := if_neg hrunning
    have hpause : s.pause now = { s with paused := true, timer := none } := by
      have hboth : ¬ (!s.paused && !s.leaving) = true := hrunning
      simp only [Countdown.pause, if_neg hboth]
    rw [hpause, htime]
    exact pause_sound rfl rfl (h.stands hrunning) h.left

/-- The page is shown again, and waits. -/
theorem CountdownSound.shown (h : CountdownSound duration s ran) (hnow : s.clock ≤ now) :
    CountdownSound duration { { s with leaving := false }.pause now with clock := now }
      (ran + runTime s (.pagehide, now)) := by
  cases hleaving : s.leaving with
  | false =>
    have hsame : { s with leaving := false } = s := by rw [← hleaving]
    rw [hsame]
    exact h.pause hnow
  | true =>
    have hrunning : ¬ s.running := by simp [running_iff, hleaving]
    have htime : runTime s (.pagehide, now) = 0 := if_neg hrunning
    have hleft := h.left hleaving
    have hnothing : s.remaining = 0 := by
      rw [h.stands hrunning]
      omega
    have hpause : ∃ startedAt, { s with leaving := false }.pause now = { s with
        startedAt := startedAt, paused := true, leaving := false, timer := none } := by
      cases hpaused : s.paused with
      | false =>
        refine ⟨now, ?_⟩
        simp [Countdown.pause, Countdown.updateRemaining, hnothing]
      | true =>
        refine ⟨s.startedAt, ?_⟩
        simp [Countdown.pause]
    obtain ⟨startedAt, hpause⟩ := hpause
    rw [hpause, htime]
    refine pause_sound rfl rfl (h.stands hrunning) ?_
    simp

/-- The step lemma. -/
theorem CountdownSound.step {a : PageEvent × ℕ} (h : CountdownSound duration s ran)
    (hstep : countdown.step s a = some t) : CountdownSound duration t (ran + runTime s a) := by
  obtain ⟨event, now⟩ := a
  obtain ⟨hclock, hevent⟩ := Option.ite_none_left_eq_some.mp hstep
  obtain ⟨next, hnext, rfl⟩ := Option.map_eq_some_iff.mp hevent
  have hnow : s.clock ≤ now := Nat.le_of_not_lt hclock
  cases event with
  | timer =>
    simp only [onEvent] at hnext
    split at hnext
    · cases hnext
    · rename_i due htimer
      obtain ⟨-, heq⟩ := Option.ite_none_right_eq_some.mp hnext
      obtain rfl := Option.some.inj heq
      have hrunning : s.running := h.timer.mp (by rw [htimer]; rfl)
      obtain ⟨hpaused, hleaving⟩ := running_iff.mp hrunning
      have htime : runTime s (.timer, now) = now - s.clock := if_pos hrunning
      rw [htime]
      exact tick_sound hpaused hleaving (h.remaining hrunning hnow)
  | click =>
    obtain rfl := Option.some.inj hnext
    cases hpaused : s.paused with
    | false => exact h.pause hnow
    | true =>
      have hrunning : ¬ s.running := by simp [running_iff, hpaused]
      have htime : runTime s (.click, now) = 0 := if_neg hrunning
      cases hleaving : s.leaving with
      | true =>
        have hresume : s.resume now = s := if_pos hleaving
        rw [if_pos rfl, hresume]
        exact h.later hnow
      | false =>
        have hresume : s.resume now = { s with paused := false, startedAt := now }.tick now :=
          if_neg (by simp [hleaving])
        rw [if_pos rfl, hresume, htime]
        refine tick_sound rfl hleaving ?_
        simpa using h.stands hrunning
  | pagehide =>
    obtain rfl := Option.some.inj hnext
    exact h.pause hnow
  | pageshow persisted =>
    obtain rfl := Option.some.inj hnext
    cases persisted with
    | false => exact h.later hnow
    | true => exact h.shown hnow

/-! ## Runs -/

theorem clock_le {a : PageEvent × ℕ} (hstep : countdown.step s a = some t) : s.clock ≤ a.2 :=
  Nat.le_of_not_lt (Option.ite_none_left_eq_some.mp hstep).1

/-- The script begins with all of its time before it. -/
theorem load_sound {seconds : ℕ} (hload : load seconds now = some s) :
    CountdownSound (seconds * 1000) s 0 ∧ s.leaving = false := by
  obtain ⟨⟨hseconds, -⟩, hs⟩ := Option.ite_none_right_eq_some.mp hload
  have hpositive : seconds * 1000 ≠ 0 := by omega
  have htick : s = {
      remaining := seconds * 1000, startedAt := now, clock := now,
      timer := some (now + min 50 (seconds * 1000)) } := by
    rw [← Option.some.inj hs]
    simp [Countdown.tick, Countdown.updateRemaining, hpositive]
  rw [htick]
  refine ⟨⟨?_, ?_, ?_, ?_, ?_⟩, rfl⟩
  · simp [Countdown.running]
  · intro due hdue
    obtain rfl := Option.some.inj hdue
    show now + min 50 (seconds * 1000) ≤ now + seconds * 1000
    omega
  · intro _
    show now ≤ now ∧ 0 < seconds * 1000 ∧
      seconds * 1000 + (now - now) = 0 + seconds * 1000
    omega
  · simp [Countdown.running]
  · simp

/-- While no timer is late, the page does not run for longer than it announces and the timer is
late. -/
theorem CountdownSound.punctual {a : PageEvent × ℕ} {lateness : ℕ}
    (h : CountdownSound duration s ran) (hran : ran ≤ duration + lateness)
    (hontime : OnTime lateness s a) (hclock : s.clock ≤ a.2) :
    ran + runTime s a ≤ duration + lateness := by
  by_cases hrunning : s.running
  · have htime : runTime s a = a.2 - s.clock := if_pos hrunning
    obtain ⟨due, hdue⟩ := Option.isSome_iff_exists.mp (h.timer.mpr hrunning)
    have hearly := h.due due hdue
    have hlate := hontime due hdue
    obtain ⟨hstarted, hpositive, hcounted⟩ := h.runs hrunning
    omega
  · have htime : runTime s a = 0 := if_neg hrunning
    omega

theorem pause_leaving : (s.pause now).leaving = s.leaving := by
  simp only [Countdown.pause]
  split <;> rfl

/-- A page that is left comes back only when it is shown again. -/
theorem leaving_step {a : PageEvent × ℕ} (hstep : countdown.step s a = some t)
    (hleaving : s.leaving = true) (hagain : shownAgain a = false) : t.leaving = true := by
  obtain ⟨event, now⟩ := a
  obtain ⟨-, hevent⟩ := Option.ite_none_left_eq_some.mp hstep
  obtain ⟨next, hnext, rfl⟩ := Option.map_eq_some_iff.mp hevent
  show next.leaving = true
  cases event with
  | timer =>
    simp only [onEvent] at hnext
    split at hnext
    · cases hnext
    · obtain ⟨-, heq⟩ := Option.ite_none_right_eq_some.mp hnext
      obtain rfl := Option.some.inj heq
      simp [Countdown.tick, hleaving]
  | click =>
    obtain rfl := Option.some.inj hnext
    split
    · rw [Countdown.resume, if_pos hleaving, hleaving]
    · rw [pause_leaving, hleaving]
  | pagehide =>
    obtain rfl := Option.some.inj hnext
    rw [pause_leaving, hleaving]
  | pageshow persisted =>
    obtain rfl := Option.some.inj hnext
    cases persisted with
    | false => exact hleaving
    | true => cases hagain

/-- Each time the page is left it was there before. -/
theorem leaves_step {a : PageEvent × ℕ} (hstep : countdown.step s a = some t) :
    leaves s a + (if s.leaving then 1 else 0) ≤
      (if t.leaving then 1 else 0) + (if shownAgain a then 1 else 0) := by
  have hleaves : leaves s a = if !s.leaving && t.leaving then 1 else 0 := by
    rw [leaves, hstep, Option.any_some]
  rw [hleaves]
  cases hleaving : s.leaving with
  | false => simp
  | true =>
    cases hagain : shownAgain a with
    | true => simp
    | false => simp [leaving_step hstep hleaving hagain]

theorem leaves_run (hrun : countdown.run s as = some t) :
    countdown.spent leaves s as + (if s.leaving then 1 else 0) ≤
      (if t.leaving then 1 else 0) + as.countP shownAgain := by
  induction as generalizing s with
  | nil =>
    obtain rfl : s = t := by simpa using hrun
    simp [Machine.spent]
  | cons a as ih =>
    obtain ⟨v, hv, hrest⟩ := countdown.run_cons_eq_some.1 hrun
    have hfirst := leaves_step hv
    have hlater := ih hrest
    rw [Machine.spent, hv, List.countP_cons]
    dsimp only
    omega

/-- A page that announces a number of seconds and is loaded at some time, after any events: when
it is left, it has run for these seconds; as long as no timer is later than that, it has not run
for longer than them and the lateness; a timer is pending exactly while it runs; and it was left
once, and once more at most for each time that it was shown again from the cache. -/
theorem countdown_timed {seconds : ℕ} (hload : load seconds now = some s)
    (hrun : countdown.run s as = some t) :
    (t.leaving → seconds * 1000 ≤ countdown.spent runTime s as) ∧
      (∀ lateness, countdown.Along (OnTime lateness) s as →
        countdown.spent runTime s as ≤ seconds * 1000 + lateness) ∧
      (t.timer.isSome ↔ t.running) ∧
      countdown.spent leaves s as ≤ as.countP shownAgain + 1 := by
  obtain ⟨hsound, hthere⟩ := load_sound hload
  have hlast : CountdownSound (seconds * 1000) t (0 + countdown.spent runTime s as) :=
    countdown.run_spent (I := CountdownSound (seconds * 1000)) (C := fun _ _ => True)
      (fun v a w n hv _ hstep => hv.step hstep) hsound
      (Machine.along_of_mem countdown (fun _ _ => trivial) s) hrun
  rw [Nat.zero_add] at hlast
  refine ⟨hlast.left, fun lateness hontime => ?_, hlast.timer, ?_⟩
  · have hboth := countdown.run_spent (C := OnTime lateness)
      (I := fun v n => CountdownSound (seconds * 1000) v n ∧ n ≤ seconds * 1000 + lateness)
      (fun v a w n hv hon hstep => ⟨hv.1.step hstep, hv.1.punctual hv.2 hon (clock_le hstep)⟩)
      ⟨hsound, by omega⟩ hontime hrun
    rw [Nat.zero_add] at hboth
    exact hboth.2
  · have hcount := leaves_run hrun
    rw [hthere] at hcount
    split_ifs at hcount <;> omega

/-- A visitor pauses before the first half of the second is over, and goes on much later. -/
def pausedVisit : List (PageEvent × ℕ) :=
  [(.timer, 50), (.click, 400), (.click, 10000), (.timer, 10060), (.timer, 10700)]

theorem countdown_timed_pausedVisit :
    ∃ s t, load 1 0 = some s ∧ countdown.run s pausedVisit = some t ∧ t.leaving = true ∧
      1000 ≤ countdown.spent runTime s pausedVisit ∧
      countdown.spent runTime s pausedVisit ≤ 1600 ∧
      countdown.spent leaves s pausedVisit ≤ 1 := by
  have hload : load 1 0 =
      some { remaining := 1000, startedAt := 0, timer := some 50, clock := 0 } := by decide
  have hrun : countdown.run { remaining := 1000, startedAt := 0, timer := some 50, clock := 0 }
      pausedVisit =
        some { remaining := 0, startedAt := 10700, leaving := true, clock := 10700 } := by
    decide
  obtain ⟨hlong, hshort, -, hleaves⟩ := countdown_timed hload hrun
  refine ⟨_, _, hload, hrun, rfl, hlong rfl, hshort 600 ?_, hleaves⟩
  exact countdown.along_of_check (C := fun s a => s.timer.all fun due => a.2 ≤ due + 600)
    (fun s a h => by simpa [OnTime, Option.all_eq_true] using h) (by decide)

end

end Purels.Properties
