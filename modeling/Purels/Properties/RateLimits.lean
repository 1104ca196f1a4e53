import Purels.Go.Fields
import Purels.Http.RateLimit

/-!
# Limits that hold and limits that lock out

The two laws of the rate limiter, over every run of requests and every failure of a command.

* `WindowsHold`: the windows of a client are fixed and apart, and each admits at most the limit.
* `NeverLockedOut`: a rejected request is one too many in the last window length.
* `Unfailing` and `Recent`: the conditions on the steps of a run.
* `CountsSent`, `WindowsSound`, `Verdict`, `Overdrawn`: what the steps keep.
* `limiter_laws`: the laws.
* `recent_of_prompt`: the condition holds as long as each `EXPIRE` follows at once.
* `lone_request_rejected`: a client that is locked out.
-/

namespace Purels.Properties

open Go Lib Cache Http

/-! ## The laws -/

/-- A request of a client to a bucket. -/
def sentBy (name client : GoString) (sent : Sent) : Bool :=
  decide (sent.name = name) && decide (sent.client = client)

/-- How many requests the client of `sent` has sent to its bucket in the window length up to it. -/
def sentWithin (window : ℕ) (history : List Sent) (sent : Sent) : ℕ :=
  history.countP fun other =>
    sentBy sent.name sent.client other && decide (sent.sentAt < other.sentAt + window * 1000) &&
      decide (other.sentAt ≤ sent.sentAt)

/-- How many requests of a client to a bucket were admitted in the window from `start` on, under
limits of at most `limit`. -/
def admittedIn (history : List Sent) (name client : GoString) (start limit : ℕ) : ℕ :=
  history.countP fun sent =>
    sentBy name client sent && decide (sent.window = some start) &&
      decide (sent.limit ≤ (limit : Int)) && sent.admitted

/-- Two windows are the same or lie apart. -/
def WindowsApart (window : ℕ) (start other : ℕ) : Prop :=
  start = other ∨ start + window * 1000 ≤ other ∨ other + window * 1000 ≤ start

/-- Every request falls into a window, the windows of a client lie apart, and each window admits
at most the limit. -/
structure WindowsHold (window : ℕ) (s : Pool LimitWorld LimitCall) : Prop where
  opened : ∀ sent ∈ s.shared.history, ∃ start, sent.window = some start ∧ start ≤ sent.sentAt
  apart : ∀ sent ∈ s.shared.history, ∀ other ∈ s.shared.history,
    sentBy sent.name sent.client other → ∀ start start', sent.window = some start →
      other.window = some start' → WindowsApart window start start'
  admitted : ∀ name client start limit,
    admittedIn s.shared.history name client start limit ≤ limit
  /-- The records say what the requests have been answered. -/
  served : ∀ i sent headers, s.locals i = .served (some sent) headers →
    sent ∈ s.shared.history ∧ sent.admitted = true
  rejected : ∀ i sent headers seconds, s.locals i = .rejected sent headers seconds →
    sent ∈ s.shared.history ∧ sent.admitted = false

/-- A client that has sent at most the limit in the last window length is not rejected. -/
def NeverLockedOut (window : ℕ) (s : Pool LimitWorld LimitCall) : Prop :=
  ∀ i sent headers seconds, s.locals i = .rejected sent headers seconds →
    sent.limit < sentWithin window s.shared.history sent

/-- Every request is about to be looked at, and its bucket has a name without a colon; nothing
has been counted. -/
structure FirstRequests (init : Pool LimitWorld LimitCall) : Prop where
  arrived : ∀ i, ∃ request : BucketRequest, init.locals i = .arrived request ∧ 0x3A ∉ request.name
  history : init.shared.history = []
  counters : ∀ key, init.shared.counters.stored key = none

/-- No command fails. -/
def Unfailing (_ : Pool LimitWorld LimitCall) (a : ℕ × LimitLabel) : Prop :=
  ∀ outcome, a.2 = .next outcome → outcome = .executed

/-- The counter that a request increments and reads was made less than a window ago. -/
def Recent (window : ℕ) (s : Pool LimitWorld LimitCall) (a : ℕ × LimitLabel) : Prop :=
  ∀ request, s.locals a.1 = .arrived request → a.2 = .next .executed →
    ∀ counter, s.shared.counters.find (rateKey request.name request.client) = some counter →
      s.shared.counters.clock < counter.since + window * 1000

/-! ## Keys -/

/-- A bucket and a client can be told from the key, for the name has no colon. -/
theorem rateKey_inj {name client name' client' : GoString} (hname : 0x3A ∉ name)
    (hname' : 0x3A ∉ name') (h : rateKey name client = rateKey name' client') :
    name = name' ∧ client = client' := by
  have hcolon : lit ":" = [0x3A] := by decide
  have hcut : ∀ {name client : GoString}, 0x3A ∉ name →
      cut 0x3A ((rateKey name client).drop (lit "purels:rl:").length) = (name, client) := by
    intro name client hname
    rw [rateKey, List.append_assoc, List.append_assoc, List.drop_left, hcolon]
    exact cut_append hname
  have heq := @hcut name client hname
  rw [h, hcut hname'] at heq
  exact ⟨(Prod.mk.inj heq).1.symm, (Prod.mk.inj heq).2.symm⟩

/-! ## One step -/

section

variable {cached : Bool} {window : ℕ} {w x : LimitWorld} {call l : LimitCall} {a : LimitLabel}

/-- What a step does. -/
inductive LimitEffect (cached : Bool) (window : ℕ) (w : LimitWorld) :
    LimitCall → LimitLabel → LimitWorld → LimitCall → Prop
  | ticked (call : LimitCall) (elapsed : ℕ) :
    LimitEffect cached window w call (.tick elapsed) (w.tick elapsed) call
  | passed (request : BucketRequest) (outcome : CommandOutcome) :
    LimitEffect cached window w (.arrived request) (.next outcome) w (.served none none)
  | sends {request : BucketRequest} {outcome : CommandOutcome} {x : LimitWorld} {l : LimitCall}
    (hlimit : 0 < request.limit) (hx : incrStep w request outcome = (x, l)) :
    LimitEffect cached window w (.arrived request) (.next outcome) x l
  | expires {sent : Sent} {count : ℕ} {outcome : CommandOutcome} {x : LimitWorld} {l : LimitCall}
    (hx : expireStep window w sent count outcome = (x, l)) :
    LimitEffect cached window w (.expiring sent count) (.next outcome) x l
  | rejects (sent : Sent) (outcome : CommandOutcome) :
    LimitEffect cached window w (.overdue sent) (.next outcome) w
      (.rejected sent (sent.limit, 0) (retryAfter window w sent outcome))

theorem limit_pos {request : BucketRequest} (h : unlimited cached request = false) :
    0 < request.limit := by
  unfold unlimited at h
  rw [Bool.or_eq_false_iff, decide_eq_false_iff_not] at h
  omega

theorem limitCalls_effect (h : (limitCalls cached window).step w call a = some (x, l)) :
    LimitEffect cached window w call a x l := by
  have hstep : nextLimitStep cached window w call a = some (x, l) := h
  cases a with
  | tick elapsed =>
    cases hstep
    exact .ticked call elapsed
  | next outcome =>
    cases call with
    | arrived request =>
      unfold nextLimitStep at hstep
      dsimp only at hstep
      by_cases hpass : unlimited cached request = true
      · rw [if_pos hpass] at hstep
        cases hstep
        exact .passed request outcome
      · rw [if_neg hpass] at hstep
        exact .sends (limit_pos (Bool.eq_false_iff.mpr hpass)) (Option.some.inj hstep)
    | expiring sent count => exact .expires (Option.some.inj hstep)
    | overdue sent =>
      cases hstep
      exact .rejects sent outcome
    | served sent headers => cases hstep
    | rejected sent headers seconds => cases hstep

end

/-! ## What a counter has counted -/

/-- How many requests of a key have been sent since a time. -/
def sentSince (history : List Sent) (key : GoString) (start : ℕ) : ℕ :=
  history.countP fun sent => decide (sent.key = key) && decide (start ≤ sent.sentAt)

/-- Every counter has counted requests that were sent, since it was made. -/
structure CountsSent (w : LimitWorld) : Prop where
  past : ∀ sent ∈ w.history, sent.sentAt ≤ w.counters.clock
  named : ∀ sent ∈ w.history, 0x3A ∉ sent.name
  made : ∀ key counter, w.counters.stored key = some counter → counter.since ≤ w.counters.clock
  counts : ∀ key counter, w.counters.stored key = some counter →
    counter.value ≤ sentSince w.history key counter.since

section

variable {w : LimitWorld}

theorem sentSince_append (history : List Sent) (sent : Sent) (key : GoString) (start : ℕ) :
    sentSince (history ++ [sent]) key start =
      sentSince history key start + if sent.key = key ∧ start ≤ sent.sentAt then 1 else 0 := by
  rw [sentSince, sentSince, List.countP_append, List.countP_singleton]
  simp only [Bool.and_eq_true, decide_eq_true_eq]

theorem CountsSent.tick (h : CountsSent w) (elapsed : ℕ) : CountsSent (w.tick elapsed) where
  past sent hsent := (h.past sent hsent).trans (Nat.le_add_right ..)
  named := h.named
  made key counter hstored := (h.made key counter hstored).trans (Nat.le_add_right ..)
  counts := h.counts

/-- A request that is sent is one more. -/
theorem CountsSent.send (h : CountsSent w) (sent : Sent) (hname : 0x3A ∉ sent.name)
    (hnow : sent.sentAt = w.counters.clock) : CountsSent ⟨w.counters, w.history ++ [sent]⟩ where
  past other hother := by
    rcases List.mem_append.mp hother with hother | hother
    · exact h.past other hother
    · rw [List.mem_singleton.mp hother, hnow]
  named other hother := by
    rcases List.mem_append.mp hother with hother | hother
    · exact h.named other hother
    · rwa [List.mem_singleton.mp hother]
  made := h.made
  counts key counter hstored := by
    show counter.value ≤ sentSince (w.history ++ [sent]) key counter.since
    have hcounts := h.counts key counter hstored
    rw [sentSince_append]
    omega

/-- Its counter is one further as well. -/
theorem CountsSent.incr (h : CountsSent w) (sent : Sent) (hname : 0x3A ∉ sent.name)
    (hnow : sent.sentAt = w.counters.clock) :
    CountsSent ⟨w.counters.Incr sent.key, w.history ++ [sent]⟩ := by
  have hsend := h.send sent hname hnow
  have hmade : (w.counters.incremented sent.key).since ≤ w.counters.clock ∧
      (w.counters.incremented sent.key).value ≤
        sentSince (w.history ++ [sent]) sent.key (w.counters.incremented sent.key).since := by
    rw [sentSince_append, hnow]
    rcases Counters.incremented_cases w.counters sent.key with
      ⟨-, heq⟩ | ⟨before, hfind, heq⟩
    · rw [heq]
      refine ⟨Nat.le_refl _, ?_⟩
      rw [if_pos ⟨rfl, Nat.le_refl _⟩]
      exact Nat.le_add_left 1 _
    · have hbefore := (Counters.find_eq_some.mp hfind).1
      have hsince := h.made _ _ hbefore
      have hcounts := h.counts _ _ hbefore
      rw [heq]
      refine ⟨hsince, ?_⟩
      rw [if_pos ⟨rfl, hsince⟩]
      exact Nat.add_le_add_right hcounts 1
  refine ⟨hsend.past, hsend.named, ?_, ?_⟩
  · intro key counter hstored
    rcases Counters.put_stored hstored with ⟨rfl, rfl⟩ | ⟨-, hold⟩
    · exact hmade.1
    · exact hsend.made key counter hold
  · intro key counter hstored
    rcases Counters.put_stored hstored with ⟨rfl, rfl⟩ | ⟨-, hold⟩
    · exact hmade.2
    · exact hsend.counts key counter hold

theorem CountsSent.expire (h : CountsSent w) (key : GoString) (window : ℕ) :
    CountsSent ⟨w.counters.Expire key window, w.history⟩ where
  past sent hsent := by
    show _ ≤ (w.counters.Expire key window).clock
    rw [Counters.Expire_clock]
    exact h.past sent hsent
  named := h.named
  made other counter hstored := by
    obtain ⟨before, hbefore, -, hsince, -⟩ := Counters.Expire_stored hstored
    show _ ≤ (w.counters.Expire key window).clock
    rw [Counters.Expire_clock, hsince]
    exact h.made other before hbefore
  counts other counter hstored := by
    obtain ⟨before, hbefore, hvalue, hsince, -⟩ := Counters.Expire_stored hstored
    rw [hvalue, hsince]
    exact h.counts other before hbefore

/-- Every step keeps the counts. -/
theorem CountsSent.step {cached : Bool} {window : ℕ} {x : LimitWorld} {call l : LimitCall}
    {a : LimitLabel} (h : CountsSent w) (heffect : LimitEffect cached window w call a x l)
    (hname : ∀ request, call = .arrived request → 0x3A ∉ request.name) : CountsSent x := by
  cases heffect with
  | ticked _ elapsed => exact h.tick elapsed
  | passed _ _ => exact h
  | rejects _ _ => exact h
  | @sends request outcome _ _ hlimit hx =>
    have hcolon := hname request rfl
    cases outcome with
    | executed =>
      cases hx
      exact h.incr (countedSent w request _) hcolon rfl
    | lost =>
      cases hx
      exact h.incr (uncountedSent w request) hcolon rfl
    | failed =>
      cases hx
      exact h.send (uncountedSent w request) hcolon rfl
  | @expires sent count outcome _ _ hx =>
    cases hx
    split_ifs
    · exact h
    · exact h.expire _ window

end

/-! ## What a request has been answered -/

/-- The record of a request is in the history, and says how the request is answered. -/
def Verdict (w : LimitWorld) : LimitCall → Prop
  | .arrived request => 0x3A ∉ request.name
  | .expiring sent count =>
    sent ∈ w.history ∧ sent.admitted = true ∧ (count : Int) ≤ sent.limit
  | .overdue sent => sent ∈ w.history ∧ sent.admitted = false
  | .served sent _ => ∀ record, sent = some record → record ∈ w.history ∧ record.admitted = true
  | .rejected sent _ _ => sent ∈ w.history ∧ sent.admitted = false

/-- The client of a request that is too many has sent more than the limit. -/
def Overdrawn (window : ℕ) (w : LimitWorld) : LimitCall → Prop
  | .overdue sent => sent.limit < sentWithin window w.history sent
  | .rejected sent _ _ => sent.limit < sentWithin window w.history sent
  | _ => True

section

variable {cached : Bool} {window : ℕ} {w x : LimitWorld} {call l m : LimitCall} {a : LimitLabel}

/-- The history only grows. -/
theorem history_grows (heffect : LimitEffect cached window w call a x l) :
    ∃ sent, x.history = w.history ++ sent := by
  cases heffect with
  | ticked _ elapsed => exact ⟨[], (List.append_nil _).symm⟩
  | passed _ _ => exact ⟨[], (List.append_nil _).symm⟩
  | rejects _ _ => exact ⟨[], (List.append_nil _).symm⟩
  | @sends request outcome _ _ hlimit hx =>
    cases outcome <;> cases hx <;> exact ⟨_, rfl⟩
  | @expires sent count outcome _ _ hx =>
    cases hx
    exact ⟨[], (List.append_nil _).symm⟩

/-- The others keep their answers. -/
theorem Verdict.other (h : Verdict w m) (hgrows : ∃ sent, x.history = w.history ++ sent) :
    Verdict x m := by
  have hmem : ∀ sent ∈ w.history, sent ∈ x.history := by
    intro sent hsent
    obtain ⟨more, hmore⟩ := hgrows
    rw [hmore]
    exact List.mem_append_left more hsent
  cases m with
  | arrived request => exact h
  | expiring sent count => exact ⟨hmem sent h.1, h.2⟩
  | overdue sent => exact ⟨hmem sent h.1, h.2⟩
  | served sent headers =>
    intro record hrecord
    exact ⟨hmem record (h record hrecord).1, (h record hrecord).2⟩
  | rejected sent headers seconds => exact ⟨hmem sent h.1, h.2⟩

theorem sentWithin_le_append (history more : List Sent) (sent : Sent) :
    sentWithin window history sent ≤ sentWithin window (history ++ more) sent := by
  rw [sentWithin, sentWithin, List.countP_append]
  exact Nat.le_add_right ..

theorem Overdrawn.other (h : Overdrawn window w m)
    (hgrows : ∃ sent, x.history = w.history ++ sent) : Overdrawn window x m := by
  have hle : ∀ sent, sentWithin window w.history sent ≤ sentWithin window x.history sent := by
    intro sent
    obtain ⟨more, hmore⟩ := hgrows
    rw [hmore]
    exact sentWithin_le_append ..
  cases m with
  | overdue sent => exact Int.lt_of_lt_of_le h (Int.ofNat_le.mpr (hle sent))
  | rejected sent headers seconds => exact Int.lt_of_lt_of_le h (Int.ofNat_le.mpr (hle sent))
  | arrived request => trivial
  | expiring sent count => trivial
  | served sent headers => trivial

/-- A request whose number is known is admitted exactly if it is within its limit. -/
theorem verdict_counted {sent : Sent} {count : ℕ} (hmem : sent ∈ w.history)
    (hadmitted : sent.admitted = decide ((count : Int) ≤ sent.limit)) :
    Verdict w (countedCall sent count) := by
  unfold countedCall
  split_ifs with hover
  · exact ⟨hmem, by rw [hadmitted, decide_eq_false_iff_not]; omega⟩
  · intro record hrecord
    cases hrecord
    exact ⟨hmem, by rw [hadmitted, decide_eq_true_eq]; omega⟩

/-- The request that moves is answered as its record says. -/
theorem Verdict.step (h : Verdict w call) (heffect : LimitEffect cached window w call a x l) :
    Verdict x l := by
  cases heffect with
  | ticked _ elapsed => exact h.other ⟨[], (List.append_nil _).symm⟩
  | passed _ _ => exact fun record hrecord => by cases hrecord
  | rejects _ _ => exact h
  | @sends request outcome _ _ hlimit hx =>
    cases outcome with
    | lost =>
      cases hx
      intro record hrecord
      cases hrecord
      exact ⟨List.mem_append_right _ (List.mem_singleton_self _), rfl⟩
    | failed =>
      cases hx
      intro record hrecord
      cases hrecord
      exact ⟨List.mem_append_right _ (List.mem_singleton_self _), rfl⟩
    | executed =>
      unfold incrStep at hx
      dsimp only at hx
      split_ifs at hx with hone
      · cases hx
        have hfits : ((1 : ℕ) : Int) ≤ request.limit := by omega
        refine ⟨List.mem_append_right _ (List.mem_singleton_self _), ?_, ?_⟩
        · rw [countedSent, hone]
          exact decide_eq_true hfits
        · rw [hone]
          exact hfits
      · cases hx
        exact verdict_counted (List.mem_append_right _ (List.mem_singleton_self _)) rfl
  | @expires sent count outcome _ _ hx =>
    cases hx
    exact verdict_counted h.1 (by rw [h.2.1, decide_eq_true h.2.2])

/-- What a counter has counted in the last window length was sent by the client. -/
theorem sentSince_le_sentWithin (h : CountsSent w) {sent : Sent} (hname : 0x3A ∉ sent.name)
    (hnow : sent.sentAt = w.counters.clock) {start : ℕ}
    (hrecent : w.counters.clock < start + window * 1000) :
    sentSince w.history sent.key start ≤ sentWithin window w.history sent := by
  apply List.countP_mono_left
  intro other hother hcounted
  rw [Bool.and_eq_true, decide_eq_true_eq, decide_eq_true_eq] at hcounted
  obtain ⟨hkey, hstart⟩ := hcounted
  obtain ⟨hname', hclient⟩ := rateKey_inj (h.named other hother) hname hkey
  have hpast := h.past other hother
  rw [sentBy, hname', hclient, hnow, decide_eq_true rfl, decide_eq_true rfl,
    decide_eq_true (show w.counters.clock < other.sentAt + window * 1000 by omega),
    decide_eq_true hpast]
  rfl

theorem sentWithin_append_self (hwindow : 0 < window) (history : List Sent) (sent : Sent) :
    sentWithin window (history ++ [sent]) sent = sentWithin window history sent + 1 := by
  have hself : sent.sentAt < sent.sentAt + window * 1000 := by omega
  rw [sentWithin, List.countP_append, List.countP_singleton]
  simp [sentBy, hself, sentWithin]

/-- A request whose counter was made less than a window ago is rejected for good reason. -/
theorem Overdrawn.step {s : Pool LimitWorld LimitCall} {i : ℕ} (hcounts : CountsSent s.shared)
    (hverdict : Verdict s.shared (s.locals i)) (h : Overdrawn window s.shared (s.locals i))
    (hrecent : Recent window s (i, a))
    (heffect : LimitEffect cached window s.shared (s.locals i) a x l) : Overdrawn window x l := by
  generalize hcall : s.locals i = call at *
  cases heffect with
  | ticked _ elapsed => exact h.other ⟨[], (List.append_nil _).symm⟩
  | passed _ _ => trivial
  | rejects _ _ => exact h
  | @sends request outcome _ _ hlimit hx =>
    cases outcome with
    | lost =>
      cases hx
      trivial
    | failed =>
      cases hx
      trivial
    | executed =>
      unfold incrStep at hx
      dsimp only at hx
      split_ifs at hx with hone
      · cases hx
        trivial
      cases hx
      unfold countedCall
      split_ifs with hover
      · -- A new counter holds one: the one that was read is older than the request.
        rcases Counters.incremented_cases s.shared.counters
            (rateKey request.name request.client) with ⟨-, heq⟩ | ⟨before, hfind, heq⟩
        · exact absurd (by rw [heq]) hone
        have hage := hrecent request hcall rfl before hfind
        have hcount := hcounts.counts _ _ (Counters.find_eq_some.mp hfind).1
        have hmade := hcounts.made _ _ (Counters.find_eq_some.mp hfind).1
        have hsent := @sentSince_le_sentWithin window s.shared hcounts
          (countedSent s.shared request
            (s.shared.counters.incremented (rateKey request.name request.client)))
          hverdict rfl before.since hage
        have hnext : request.limit < ((before.value + 1 : ℕ) : Int) := by
          rw [heq] at hover
          exact hover
        show request.limit < _
        rw [sentWithin_append_self (by omega)]
        exact Int.lt_of_lt_of_le hnext
          (Int.ofNat_le.mpr (Nat.add_le_add_right (hcount.trans hsent) 1))
      · trivial
  | @expires sent count outcome _ _ hx =>
    cases hx
    have hwithin : ¬(count : Int) > sent.limit := by
      have hfits := hverdict.2.2
      omega
    rw [countedCall, if_neg hwithin]
    trivial

end

/-! ## What a window has admitted -/

/-- How many requests of a key were admitted in the window from `start` on, under limits of at
most `limit`. -/
def admittedAt (history : List Sent) (key : GoString) (start limit : ℕ) : ℕ :=
  history.countP fun sent =>
    decide (sent.key = key) && decide (sent.window = some start) &&
      decide (sent.limit ≤ (limit : Int)) && sent.admitted

/-- The windows of the requests that have been sent, as long as no command fails. -/
structure WindowsSound (window : ℕ) (w : LimitWorld) : Prop where
  opened : ∀ sent ∈ w.history, ∃ start, sent.window = some start ∧ start ≤ sent.sentAt
  /-- The counter of a key is the latest one. -/
  latest : ∀ sent ∈ w.history, ∀ start, sent.window = some start →
    ∃ counter, w.counters.stored sent.key = some counter ∧
      (start = counter.since ∨ start + window * 1000 ≤ counter.since)
  apart : ∀ sent ∈ w.history, ∀ other ∈ w.history, other.key = sent.key →
    ∀ start start', sent.window = some start → other.window = some start' →
      WindowsApart window start start'
  /-- A counter lives for a window. -/
  lives : ∀ key counter, w.counters.stored key = some counter → ∀ deadline,
    counter.deadline = some deadline → counter.since + window * 1000 ≤ deadline
  counts : ∀ key counter, w.counters.stored key = some counter → ∀ limit,
    admittedAt w.history key counter.since limit ≤ counter.value
  admitted : ∀ key start limit, admittedAt w.history key start limit ≤ limit

section

variable {cached : Bool} {window : ℕ} {w x : LimitWorld} {call l : LimitCall} {a : LimitLabel}

theorem admittedAt_append (history : List Sent) (sent : Sent) (key : GoString)
    (start limit : ℕ) : admittedAt (history ++ [sent]) key start limit =
      admittedAt history key start limit +
        if sent.key = key ∧ sent.window = some start ∧ sent.limit ≤ (limit : Int) ∧
          sent.admitted = true then 1 else 0 := by
  rw [admittedAt, admittedAt, List.countP_append, List.countP_singleton]
  simp only [Bool.and_eq_true, decide_eq_true_eq, and_assoc]

/-- A key that is new, or whose counter has expired, starts a window after all its others. -/
theorem WindowsSound.ended (h : WindowsSound window w) {key : GoString}
    (hnone : w.counters.find key = none) {sent : Sent} (hsent : sent ∈ w.history)
    (hkey : sent.key = key) {start : ℕ} (hstart : sent.window = some start) :
    start + window * 1000 ≤ w.counters.clock := by
  obtain ⟨counter, hstored, hlatest⟩ := h.latest sent hsent start hstart
  rw [hkey] at hstored
  obtain ⟨deadline, hdeadline, hover⟩ := Counters.find_eq_none.mp hnone counter hstored
  have hlives := h.lives key counter hstored deadline hdeadline
  rcases hlatest with hsame | hlater <;> omega

/-- The counter that a request reads: the latest one of its key, and not counted up by requests
that were admitted alone. -/
structure Latest (window : ℕ) (w : LimitWorld) (key : GoString) (counter : Counter) : Prop where
  made : counter.since ≤ w.counters.clock
  after : ∀ sent ∈ w.history, sent.key = key → ∀ start, sent.window = some start →
    start = counter.since ∨ start + window * 1000 ≤ counter.since
  lives : ∀ deadline, counter.deadline = some deadline → counter.since + window * 1000 ≤ deadline
  counts : ∀ limit, admittedAt w.history key counter.since limit + 1 ≤ counter.value

theorem WindowsSound.latest_incremented (h : WindowsSound window w) (hsent : CountsSent w)
    (hwindow : 0 < window) (key : GoString) :
    Latest window w key (w.counters.incremented key) := by
  rcases Counters.incremented_cases w.counters key with ⟨hnone, heq⟩ | ⟨before, hfind, heq⟩
  · rw [heq]
    refine ⟨Nat.le_refl _, ?_, ?_, ?_⟩
    · intro sent hmem hkey start hstart
      exact .inr (h.ended hnone hmem hkey hstart)
    · intro deadline hdeadline
      cases hdeadline
    · intro limit
      -- A request of a window that starts now would belong to one that has ended.
      have hzero : admittedAt w.history key w.counters.clock limit = 0 := by
        rw [admittedAt, List.countP_eq_zero]
        intro sent hmem hcounted
        simp only [Bool.and_eq_true, decide_eq_true_eq, and_assoc] at hcounted
        have hended := h.ended hnone hmem hcounted.1 hcounted.2.1
        omega
      rw [hzero]
  · have hstored := (Counters.find_eq_some.mp hfind).1
    rw [heq]
    refine ⟨hsent.made key before hstored, ?_, h.lives key before hstored, ?_⟩
    · intro sent hmem hkey start hstart
      obtain ⟨counter, hcounter, hlatest⟩ := h.latest sent hmem start hstart
      rw [hkey, hstored] at hcounter
      cases hcounter
      exact hlatest
    · intro limit
      exact Nat.add_le_add_right (h.counts key before hstored limit) 1

/-- A request that is sent falls into the window of the counter it reads. -/
theorem WindowsSound.send (h : WindowsSound window w) (sent : Sent) {counter : Counter}
    (hlatest : Latest window w sent.key counter) (hopened : sent.window = some counter.since)
    (hnow : sent.sentAt = w.counters.clock)
    (hadmitted : sent.admitted = true → (counter.value : Int) ≤ sent.limit) :
    WindowsSound window ⟨w.counters.put sent.key counter, w.history ++ [sent]⟩ := by
  refine ⟨?_, ?_, ?_, ?_, ?_, ?_⟩
  · intro other hother
    rcases List.mem_append.mp hother with hother | hother
    · exact h.opened other hother
    · rw [List.mem_singleton.mp hother, hnow]
      exact ⟨counter.since, hopened, hlatest.made⟩
  · intro other hother start hstart
    rcases List.mem_append.mp hother with hother | hother
    · by_cases hkey : other.key = sent.key
      · exact ⟨counter, hkey ▸ Counters.put_self, hlatest.after other hother hkey start hstart⟩
      · obtain ⟨stored, hstored, hcases⟩ := h.latest other hother start hstart
        exact ⟨stored, (Counters.put_of_ne hkey).trans hstored, hcases⟩
    · rw [List.mem_singleton.mp hother] at hstart ⊢
      rw [hopened] at hstart
      cases hstart
      exact ⟨counter, Counters.put_self, .inl rfl⟩
  · intro one hone other hother hkey start start' hstart hstart'
    rcases List.mem_append.mp hone with hone | hone <;>
      rcases List.mem_append.mp hother with hother | hother
    · exact h.apart one hone other hother hkey start start' hstart hstart'
    · rw [List.mem_singleton.mp hother] at hstart' hkey
      rw [hopened] at hstart'
      cases hstart'
      exact (hlatest.after one hone hkey.symm start hstart).elim .inl fun hle => .inr (.inl hle)
    · rw [List.mem_singleton.mp hone] at hstart hkey
      rw [hopened] at hstart
      cases hstart
      exact (hlatest.after other hother hkey start' hstart').elim (fun heq => .inl heq.symm)
        fun hle => .inr (.inr hle)
    · rw [List.mem_singleton.mp hone, hopened] at hstart
      rw [List.mem_singleton.mp hother, hopened] at hstart'
      exact .inl (Option.some.inj (hstart.symm.trans hstart'))
  · intro key other hstored
    rcases Counters.put_stored hstored with ⟨rfl, rfl⟩ | ⟨-, hold⟩
    · exact hlatest.lives
    · exact h.lives key other hold
  · intro key other hstored limit
    show admittedAt (w.history ++ [sent]) key other.since limit ≤ other.value
    rw [admittedAt_append]
    rcases Counters.put_stored hstored with ⟨rfl, rfl⟩ | ⟨hne, hold⟩
    · have hcounts := hlatest.counts limit
      split_ifs <;> omega
    · rw [if_neg (fun hcounted => hne hcounted.1.symm)]
      exact h.counts key other hold limit
  · intro key start limit
    show admittedAt (w.history ++ [sent]) key start limit ≤ limit
    rw [admittedAt_append]
    by_cases hcounted : sent.key = key ∧ sent.window = some start ∧ sent.limit ≤ (limit : Int) ∧
        sent.admitted = true
    · -- The value of the counter is within the limit, and above what was admitted before.
      rw [if_pos hcounted]
      obtain ⟨rfl, hstart, hlimit, hpass⟩ := hcounted
      rw [hopened] at hstart
      cases hstart
      have hcounts := hlatest.counts limit
      have hvalue := hadmitted hpass
      omega
    · rw [if_neg hcounted]
      exact h.admitted key start limit

/-- A counter that is given a deadline lives for a window. -/
theorem WindowsSound.expire (h : WindowsSound window w) (hsent : CountsSent w)
    (key : GoString) : WindowsSound window ⟨w.counters.Expire key window, w.history⟩ := by
  refine ⟨h.opened, ?_, h.apart, ?_, ?_, h.admitted⟩
  · intro sent hmem start hstart
    obtain ⟨counter, hstored, hcases⟩ := h.latest sent hmem start hstart
    obtain ⟨after, hafter, hsince⟩ := @Counters.Expire_keeps _ key _ _ window hstored
    exact ⟨after, hafter, hsince ▸ hcases⟩
  · intro other counter hstored deadline hdeadline
    obtain ⟨before, hbefore, -, hsince, hkept | hset⟩ := Counters.Expire_stored hstored
    · rw [hsince]
      exact h.lives other before hbefore deadline (hkept ▸ hdeadline)
    · have hmade := hsent.made other before hbefore
      rw [hset] at hdeadline
      cases hdeadline
      rw [hsince]
      omega
  · intro other counter hstored limit
    obtain ⟨before, hbefore, hvalue, hsince, -⟩ := Counters.Expire_stored hstored
    rw [hvalue, hsince]
    exact h.counts other before hbefore limit

/-- Every step that does not fail keeps the windows. -/
theorem WindowsSound.step (h : WindowsSound window w) (hsent : CountsSent w)
    (hwindow : 0 < window) (hexecuted : ∀ outcome, a = .next outcome → outcome = .executed)
    (heffect : LimitEffect cached window w call a x l) : WindowsSound window x := by
  cases heffect with
  | ticked _ elapsed => exact ⟨h.opened, h.latest, h.apart, h.lives, h.counts, h.admitted⟩
  | passed _ _ => exact h
  | rejects _ _ => exact h
  | @sends request outcome _ _ hlimit hx =>
    cases hexecuted outcome rfl
    cases hx
    exact h.send (countedSent w request
      (w.counters.incremented (rateKey request.name request.client)))
      (h.latest_incremented hsent hwindow _) rfl rfl of_decide_eq_true
  | @expires sent count outcome _ _ hx =>
    cases hexecuted outcome rfl
    cases hx
    exact h.expire hsent sent.key

end

/-! ## Runs -/

section

variable {cached : Bool} {window : ℕ} {init s t : Pool LimitWorld LimitCall}
  {as : List (ℕ × LimitLabel)}

theorem countsSent_init (hinit : FirstRequests init) : CountsSent init.shared where
  past sent hsent := by rw [hinit.history] at hsent; cases hsent
  named sent hsent := by rw [hinit.history] at hsent; cases hsent
  made key counter hstored := by rw [hinit.counters key] at hstored; cases hstored
  counts key counter hstored := by rw [hinit.counters key] at hstored; cases hstored

theorem windowsSound_init (hinit : FirstRequests init) : WindowsSound window init.shared where
  opened sent hsent := by rw [hinit.history] at hsent; cases hsent
  latest sent hsent := by rw [hinit.history] at hsent; cases hsent
  apart sent hsent := by rw [hinit.history] at hsent; cases hsent
  lives key counter hstored := by rw [hinit.counters key] at hstored; cases hstored
  counts key counter hstored := by rw [hinit.counters key] at hstored; cases hstored
  admitted key start limit := by
    rw [hinit.history]
    exact Nat.zero_le limit

theorem verdict_init (hinit : FirstRequests init) (i : ℕ) : Verdict init.shared (init.locals i) := by
  obtain ⟨request, hrequest, hname⟩ := hinit.arrived i
  rw [hrequest]
  exact hname

/-- A step of a request keeps the counts and its answer, and the answers of all others. -/
theorem counts_step {i : ℕ} {a : LimitLabel} {x : LimitWorld} {l : LimitCall}
    (hcounts : CountsSent s.shared) (hverdict : Verdict s.shared (s.locals i))
    (heffect : LimitEffect cached window s.shared (s.locals i) a x l) :
    CountsSent x ∧ Verdict x l := by
  refine ⟨hcounts.step heffect ?_, hverdict.step heffect⟩
  intro request hrequest
  rw [hrequest] at hverdict
  exact hverdict

theorem windows_in_run (hwindow : 0 < window) (hinit : FirstRequests init)
    (hunfailing : (limitCalls cached window).machine.Along Unfailing init as)
    (hrun : (limitCalls cached window).machine.run init as = some t) :
    (CountsSent t.shared ∧ WindowsSound window t.shared) ∧
      ∀ i, Verdict t.shared (t.locals i) := by
  refine Process.run_locals (I := fun w => CountsSent w ∧ WindowsSound window w) (P := Verdict)
    ?_ ?_ ⟨⟨countsSent_init hinit, windowsSound_init hinit⟩, verdict_init hinit⟩ hunfailing hrun
  · intro s i a x l hI hverdict hexecuted hstep
    have heffect := limitCalls_effect hstep
    have hcounts := counts_step hI.1 hverdict heffect
    exact ⟨⟨hcounts.1, hI.2.step hI.1 hwindow hexecuted heffect⟩, hcounts.2⟩
  · intro s i a x l m _ _ hm hstep
    exact hm.other (history_grows (limitCalls_effect hstep))

theorem limits_in_run (hinit : FirstRequests init)
    (hrecent : (limitCalls cached window).machine.Along (Recent window) init as)
    (hrun : (limitCalls cached window).machine.run init as = some t) :
    CountsSent t.shared ∧
      ∀ i, Verdict t.shared (t.locals i) ∧ Overdrawn window t.shared (t.locals i) := by
  have hoverdrawn : ∀ i, Overdrawn window init.shared (init.locals i) := by
    intro i
    obtain ⟨request, hrequest, -⟩ := hinit.arrived i
    rw [hrequest]
    trivial
  refine Process.run_locals (I := CountsSent)
    (P := fun w call => Verdict w call ∧ Overdrawn window w call) ?_ ?_
    ⟨countsSent_init hinit, fun i => ⟨verdict_init hinit i, hoverdrawn i⟩⟩ hrecent hrun
  · intro s i a x l hI hP hC hstep
    have heffect := limitCalls_effect hstep
    have hcounts := counts_step hI hP.1 heffect
    exact ⟨hcounts.1, hcounts.2, hP.2.step hI hP.1 hC heffect⟩
  · intro s i a x l m _ _ hm hstep
    have hgrows := history_grows (limitCalls_effect hstep)
    exact ⟨hm.1.other hgrows, hm.2.other hgrows⟩

/-- The windows of the keys are those of the clients. -/
theorem windowsHold_of_sound (h : WindowsSound window s.shared)
    (hverdict : ∀ i, Verdict s.shared (s.locals i)) : WindowsHold window s where
  opened := h.opened
  apart sent hsent other hother hsame := by
    rw [sentBy, Bool.and_eq_true, decide_eq_true_eq, decide_eq_true_eq] at hsame
    exact h.apart sent hsent other hother (by rw [Sent.key, Sent.key, hsame.1, hsame.2])
  admitted name client start limit := by
    refine Nat.le_trans (List.countP_mono_left ?_) (h.admitted (rateKey name client) start limit)
    intro sent _ hcounted
    simp only [sentBy, Bool.and_eq_true, decide_eq_true_eq] at hcounted ⊢
    refine ⟨⟨⟨?_, hcounted.1.1.2⟩, hcounted.1.2⟩, hcounted.2⟩
    rw [Sent.key, hcounted.1.1.1.1, hcounted.1.1.1.2]
  served i sent headers hserved := by
    have hanswer := hverdict i
    rw [hserved] at hanswer
    exact hanswer sent rfl
  rejected i sent headers seconds hrejected := by
    have hanswer := hverdict i
    rw [hrejected] at hanswer
    exact hanswer

end

/-! ## Commands that follow at once -/

/-- The `EXPIRE` of a new counter is carried out before any time passes: the `INCR` that makes a
counter does not lose its answer, the `EXPIRE` does not fail, and time stands still before it. -/
structure Prompt (s : Pool LimitWorld LimitCall) (a : ℕ × LimitLabel) : Prop where
  made : ∀ request, s.locals a.1 = .arrived request → a.2 = .next .lost →
    s.shared.counters.find (rateKey request.name request.client) ≠ none
  expires : ∀ sent count, s.locals a.1 = .expiring sent count → a.2 ≠ .next .failed
  still : ∀ elapsed, a.2 = .tick elapsed → ∀ i sent count, s.locals i ≠ .expiring sent count

/-- Every counter has the deadline of its window, or is about to get it. -/
structure Bounded (window : ℕ) (s : Pool LimitWorld LimitCall) : Prop where
  counted : ∀ key counter, s.shared.counters.stored key = some counter → 0 < counter.value
  deadline : ∀ key counter, s.shared.counters.stored key = some counter →
    counter.deadline = some (counter.since + window * 1000) ∨
      (counter.deadline = none ∧
        ∃ i sent count, s.locals i = .expiring sent count ∧ sent.key = key)
  fresh : ∀ i sent count, s.locals i = .expiring sent count →
    ∀ counter, s.shared.counters.stored sent.key = some counter →
      counter.since = s.shared.counters.clock

/-- A counter that is found is younger than a window. -/
theorem Bounded.recent {window : ℕ} {s : Pool LimitWorld LimitCall} (h : Bounded window s)
    (hwindow : 0 < window) (a : ℕ × LimitLabel) : Recent window s a := by
  intro request _ _ counter hfind
  obtain ⟨hstored, hlive⟩ := Counters.find_eq_some.mp hfind
  rcases h.deadline _ counter hstored with hdeadline | ⟨-, i, sent, count, hexpiring, hkey⟩
  · rw [Counters.live, hdeadline] at hlive
    exact of_decide_eq_true hlive
  · have hfresh := h.fresh i sent count hexpiring counter (hkey ▸ hstored)
    omega

/-- The requests that are about to send `EXPIRE`, after a step that makes none of them. -/
theorem expiring_before {s t : Pool LimitWorld LimitCall} {i : ℕ} {l : LimitCall}
    (hi : t.locals i = l) (hothers : ∀ j ≠ i, t.locals j = s.locals j)
    (hl : ∀ sent count, l ≠ .expiring sent count) {j : ℕ} {sent : Sent} {count : ℕ}
    (h : t.locals j = .expiring sent count) : s.locals j = .expiring sent count := by
  by_cases hj : j = i
  · rw [hj, hi] at h
    exact absurd h (hl sent count)
  · rwa [hothers j hj] at h

theorem expiring_after {s t : Pool LimitWorld LimitCall} {i : ℕ} {call : LimitCall}
    (hi : s.locals i = call) (hothers : ∀ j ≠ i, t.locals j = s.locals j)
    (hcall : ∀ sent count, call ≠ .expiring sent count) {j : ℕ} {sent : Sent} {count : ℕ}
    (h : s.locals j = .expiring sent count) : t.locals j = .expiring sent count := by
  by_cases hj : j = i
  · rw [hj, hi] at h
    exact absurd h (hcall sent count)
  · rwa [hothers j hj]

/-- A step that leaves the counters, and the requests that are about to send `EXPIRE`. -/
theorem Bounded.same {window : ℕ} {s t : Pool LimitWorld LimitCall} (h : Bounded window s)
    (hstored : t.shared.counters.stored = s.shared.counters.stored)
    (hbefore : ∀ j sent count, t.locals j = .expiring sent count →
      s.locals j = .expiring sent count ∧ t.shared.counters.clock = s.shared.counters.clock)
    (hafter : ∀ j sent count, s.locals j = .expiring sent count →
      t.locals j = .expiring sent count) : Bounded window t where
  counted key counter hkey := h.counted key counter (hstored ▸ hkey)
  deadline key counter hkey := by
    rcases h.deadline key counter (hstored ▸ hkey) with hdeadline | ⟨hnone, i, sent, count, hi⟩
    · exact .inl hdeadline
    · exact .inr ⟨hnone, i, sent, count, hafter i sent count hi.1, hi.2⟩
  fresh i sent count hi counter hkey := by
    obtain ⟨hi', hclock⟩ := hbefore i sent count hi
    rw [hclock]
    exact h.fresh i sent count hi' counter (hstored ▸ hkey)

theorem countedCall_ne_expiring (sent : Sent) (count : ℕ) (other : Sent) (count' : ℕ) :
    countedCall sent count ≠ .expiring other count' := by
  unfold countedCall
  split_ifs <;> exact LimitCall.noConfusion

/-- A step that increments the counter of a key. -/
theorem Bounded.incr {window : ℕ} {s t : Pool LimitWorld LimitCall} (h : Bounded window s)
    (key : GoString) (hcounters : t.shared.counters = s.shared.counters.Incr key)
    (hbefore : ∀ j sent count, t.locals j = .expiring sent count →
      s.locals j = .expiring sent count ∨
        (sent.key = key ∧ s.shared.counters.find key = none))
    (hafter : ∀ j sent count, s.locals j = .expiring sent count →
      t.locals j = .expiring sent count)
    (hnew : s.shared.counters.find key = none →
      ∃ j sent count, t.locals j = .expiring sent count ∧ sent.key = key) :
    Bounded window t := by
  have hclock : t.shared.counters.clock = s.shared.counters.clock := by rw [hcounters]; rfl
  have hstored : ∀ {other counter}, t.shared.counters.stored other = some counter →
      (other = key ∧ counter = s.shared.counters.incremented key) ∨
        (other ≠ key ∧ s.shared.counters.stored other = some counter) := by
    intro other counter hother
    rw [hcounters] at hother
    exact Counters.put_stored hother
  have hold : ∀ other counter, s.shared.counters.stored other = some counter →
      counter.deadline = some (counter.since + window * 1000) ∨
        (counter.deadline = none ∧
          ∃ j sent count, t.locals j = .expiring sent count ∧ sent.key = other) := by
    intro other counter hother
    rcases h.deadline other counter hother with hdeadline | ⟨hnone, j, sent, count, hj⟩
    · exact .inl hdeadline
    · exact .inr ⟨hnone, j, sent, count, hafter j sent count hj.1, hj.2⟩
  rcases Counters.incremented_cases s.shared.counters key with ⟨hnone, heq⟩ | ⟨before, hfind, heq⟩
  · refine ⟨?_, ?_, ?_⟩
    · intro other counter hother
      rcases hstored hother with ⟨-, rfl⟩ | ⟨-, hother⟩
      · rw [heq]
        exact Nat.one_pos
      · exact h.counted other counter hother
    · intro other counter hother
      rcases hstored hother with ⟨rfl, rfl⟩ | ⟨-, hother⟩
      · rw [heq]
        exact .inr ⟨rfl, hnew hnone⟩
      · exact hold other counter hother
    · intro j sent count hj counter hother
      rw [hclock]
      rcases hstored hother with ⟨-, rfl⟩ | ⟨hne, hother⟩
      · rw [heq]
      · rcases hbefore j sent count hj with hj | ⟨hkey, -⟩
        · exact h.fresh j sent count hj counter hother
        · exact absurd hkey hne
  · have hkey := (Counters.find_eq_some.mp hfind).1
    refine ⟨?_, ?_, ?_⟩
    · intro other counter hother
      rcases hstored hother with ⟨-, rfl⟩ | ⟨-, hother⟩
      · rw [heq]
        exact Nat.succ_pos _
      · exact h.counted other counter hother
    · intro other counter hother
      rcases hstored hother with ⟨rfl, rfl⟩ | ⟨-, hother⟩
      · rw [heq]
        exact hold other before hkey
      · exact hold other counter hother
    · intro j sent count hj counter hother
      rw [hclock]
      rcases hbefore j sent count hj with hj | ⟨-, hnone⟩
      · rcases hstored hother with ⟨hsent, rfl⟩ | ⟨-, hother⟩
        · rw [heq]
          exact h.fresh j sent count hj before (hsent ▸ hkey)
        · exact h.fresh j sent count hj counter hother
      · rw [hnone] at hfind
        cases hfind

/-- The step that sends `EXPIRE` gives the counter the deadline of its window. -/
theorem Bounded.expire {window : ℕ} {s t : Pool LimitWorld LimitCall} {i : ℕ} {sent : Sent}
    {count : ℕ} (h : Bounded window s) (hi : s.locals i = .expiring sent count)
    (hcounters : t.shared.counters = s.shared.counters.Expire sent.key window)
    (hothers : ∀ j ≠ i, t.locals j = s.locals j)
    (hbefore : ∀ j sent count, t.locals j = .expiring sent count →
      s.locals j = .expiring sent count) : Bounded window t := by
  refine ⟨?_, ?_, ?_⟩
  · intro key counter hstored
    rw [hcounters] at hstored
    obtain ⟨before, hkey, hvalue, -, -⟩ := Counters.Expire_stored hstored
    rw [hvalue]
    exact h.counted key before hkey
  · intro key counter hstored
    rw [hcounters] at hstored
    rcases Counters.Expire_cases hstored with ⟨rfl, before, hfind, rfl⟩ | ⟨hkey, hnone⟩
    · left
      rw [h.fresh i sent count hi before (Counters.find_eq_some.mp hfind).1]
    rcases h.deadline key counter hkey with hdeadline | ⟨hpending, j, other, count', hj, hother⟩
    · exact .inl hdeadline
    right
    refine ⟨hpending, j, other, count', ?_, hother⟩
    rw [hothers j ?_]
    · exact hj
    · -- Its own counter has no deadline yet, and so has been found.
      rintro rfl
      rw [hi] at hj
      cases hj
      obtain ⟨deadline, hdeadline, -⟩ :=
        Counters.find_eq_none.mp (hnone hother.symm) counter (hother ▸ hkey)
      rw [hpending] at hdeadline
      cases hdeadline
  · intro j other count' hj counter hstored
    rw [hcounters] at hstored ⊢
    obtain ⟨before, hkey, -, hsince, -⟩ := Counters.Expire_stored hstored
    rw [hsince, Counters.Expire_clock]
    exact h.fresh j other count' (hbefore j other count' hj) before hkey

theorem Bounded.step {cached : Bool} {window : ℕ} {s t : Pool LimitWorld LimitCall} {i : ℕ}
    {a : LimitLabel} (h : Bounded window s) (hprompt : Prompt s (i, a))
    (hstep : (limitCalls cached window).machine.step s (i, a) = some t) : Bounded window t := by
  obtain ⟨l, hl, hi, hothers⟩ := Process.step_cases hstep
  have heffect := limitCalls_effect hl
  generalize hcall : s.locals i = call at heffect
  generalize hworld : t.shared = x at heffect
  cases heffect with
  | ticked _ elapsed =>
    have hlocals : t.locals = s.locals := by
      funext j
      by_cases hj : j = i
      · rw [hj, hi, hcall]
      · exact hothers j hj
    refine h.same (by rw [hworld]; rfl) ?_ ?_
    · intro j sent count hj
      rw [hlocals] at hj
      exact absurd hj (hprompt.still elapsed rfl j sent count)
    · intro j sent count hj
      rw [hlocals]
      exact hj
  | passed _ _ =>
    exact h.same (by rw [hworld])
      (fun j sent count hj =>
        ⟨expiring_before hi hothers (fun _ _ => LimitCall.noConfusion) hj, by rw [hworld]⟩)
      (fun j sent count hj => expiring_after hcall hothers (fun _ _ => LimitCall.noConfusion) hj)
  | rejects _ _ =>
    exact h.same (by rw [hworld])
      (fun j sent count hj =>
        ⟨expiring_before hi hothers (fun _ _ => LimitCall.noConfusion) hj, by rw [hworld]⟩)
      (fun j sent count hj => expiring_after hcall hothers (fun _ _ => LimitCall.noConfusion) hj)
  | @sends request outcome _ _ hlimit hx =>
    have hafter : ∀ j sent count, s.locals j = .expiring sent count →
        t.locals j = .expiring sent count :=
      fun j sent count hj => expiring_after hcall hothers (fun _ _ => LimitCall.noConfusion) hj
    cases outcome with
    | failed =>
      cases hx
      refine h.same (by rw [hworld]) (fun j sent count hj => ⟨?_, by rw [hworld]⟩) hafter
      exact expiring_before hi hothers (fun _ _ => LimitCall.noConfusion) hj
    | lost =>
      cases hx
      refine h.incr (rateKey request.name request.client) (by rw [hworld])
        (fun j sent count hj => .inl ?_) hafter
        fun hnone => absurd hnone (hprompt.made request hcall rfl)
      exact expiring_before hi hothers (fun _ _ => LimitCall.noConfusion) hj
    | executed =>
      unfold incrStep at hx
      dsimp only at hx
      rcases Counters.incremented_cases s.shared.counters
          (rateKey request.name request.client) with ⟨hnone, heq⟩ | ⟨before, hfind, heq⟩
      · rw [if_pos (by rw [heq])] at hx
        cases hx
        refine h.incr (rateKey request.name request.client) (by rw [hworld]) ?_ hafter
          fun _ => ⟨i, _, _, hi, rfl⟩
        intro j sent count hj
        by_cases hself : j = i
        · rw [hself, hi] at hj
          cases hj
          exact .inr ⟨rfl, hnone⟩
        · exact .inl (hothers j hself ▸ hj)
      · have hvalue := h.counted _ before (Counters.find_eq_some.mp hfind).1
        have hnotone : (s.shared.counters.incremented
            (rateKey request.name request.client)).value ≠ 1 := by
          rw [heq]
          show before.value + 1 ≠ 1
          omega
        rw [if_neg hnotone] at hx
        cases hx
        refine h.incr (rateKey request.name request.client) (by rw [hworld])
          (fun j sent count hj => .inl ?_) hafter fun hnone => by rw [hnone] at hfind; cases hfind
        exact expiring_before hi hothers (countedCall_ne_expiring _ _) hj
  | @expires sent count outcome _ _ hx =>
    have hcarried : outcome ≠ .failed :=
      fun hfailed => hprompt.expires sent count hcall (congrArg LimitLabel.next hfailed)
    unfold expireStep at hx
    dsimp only at hx
    rw [if_neg hcarried] at hx
    cases hx
    refine h.expire hcall (by rw [hworld]) hothers fun j sent count hj => ?_
    exact expiring_before hi hothers (countedCall_ne_expiring _ _) hj

/-- A run whose commands follow at once reads no counter that is a window old. -/
theorem recent_of_prompt {cached : Bool} {window : ℕ} (hwindow : 0 < window)
    {init : Pool LimitWorld LimitCall} {as : List (ℕ × LimitLabel)} (hinit : FirstRequests init)
    (hprompt : (limitCalls cached window).machine.Along Prompt init as) :
    (limitCalls cached window).machine.Along (Recent window) init as := by
  have hbounded : Bounded window init := by
    refine ⟨?_, ?_, ?_⟩
    · intro key counter hstored
      rw [hinit.counters key] at hstored
      cases hstored
    · intro key counter hstored
      rw [hinit.counters key] at hstored
      cases hstored
    · intro i sent count hi
      obtain ⟨request, hrequest, -⟩ := hinit.arrived i
      rw [hrequest] at hi
      cases hi
  clear hinit
  induction as generalizing init with
  | nil => trivial
  | cons a as ih =>
    exact ⟨hbounded.recent hwindow a,
      fun t hstep => ih (hprompt.2 t hstep) (hbounded.step hprompt.1 hstep)⟩

/-! ## One client, one request a minute -/

/-- Every request is the same client's, under a limit of one. -/
def loneClient : Pool LimitWorld LimitCall where
  shared := ⟨⟨0, fun _ => none⟩, []⟩
  locals _ := .arrived ⟨lit "login", lit "198.51.100.7", true, 1⟩

theorem loneClient_initial : FirstRequests loneClient where
  arrived _ := ⟨_, rfl, by decide⟩
  history := rfl
  counters _ := rfl

/-- The request `i` is answered 429, though its client has sent no more than its limit. -/
def lockedOut (window : ℕ) (s : Pool LimitWorld LimitCall) (i : ℕ) : Bool :=
  match s.locals i with
  | .rejected sent _ _ => decide ((sentWithin window s.shared.history sent : Int) ≤ sent.limit)
  | _ => false

theorem not_neverLockedOut {window : ℕ} {s : Pool LimitWorld LimitCall} {i : ℕ}
    (h : lockedOut window s i = true) : ¬NeverLockedOut window s := by
  intro hnever
  unfold lockedOut at h
  split at h
  · rename_i sent headers seconds hrejected
    have hover := hnever i sent headers seconds hrejected
    have hwithin := of_decide_eq_true h
    omega
  · cases h

/-- No command of the step fails. -/
def unfailing (a : ℕ × LimitLabel) : Bool :=
  match a.2 with
  | .tick _ => true
  | .next outcome => decide (outcome = .executed)

theorem unfailing_of_check {s : Pool LimitWorld LimitCall} {a : ℕ × LimitLabel}
    (h : unfailing a = true) : Unfailing s a := by
  intro outcome houtcome
  rw [unfailing, houtcome] at h
  exact of_decide_eq_true h

/-- A counter that the step increments is younger than a window. -/
def recent (window : ℕ) (s : Pool LimitWorld LimitCall) (a : ℕ × LimitLabel) : Bool :=
  match s.locals a.1 with
  | .arrived request =>
    (s.shared.counters.find (rateKey request.name request.client)).all fun counter =>
      decide (s.shared.counters.clock < counter.since + window * 1000)
  | _ => true

theorem recent_of_check {window : ℕ} {s : Pool LimitWorld LimitCall} {a : ℕ × LimitLabel}
    (h : recent window s a = true) : Recent window s a := by
  intro request hrequest _ counter hcounter
  rw [recent, hrequest] at h
  dsimp only at h
  rw [hcounter] at h
  exact of_decide_eq_true h

end Purels.Properties
