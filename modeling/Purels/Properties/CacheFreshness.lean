import Purels.Properties.LinkSteps

/-!
# Redirects and the cache

What a resolve answers in a run of any number of calls, step by step.

* `rowAnswer`: what the row of an alias gives.
* `CacheOK`: the writes of the cache that leave no stale entry.
* `Coherent`, the invariant: an entry answers as the row does, or an edit still
  owes the cache a step, or the row has never been edited.
* `resolve_answers_row`, the run theorem, and `stale_redirect`, a run in which a
  resolve revives the link it has read before a deletion.
-/

namespace Purels.Properties

open Go Store LinkStore Service Lib

/-! ## Answers -/

/-- Where a redirect leads. -/
structure Target where
  destinationURL : GoString
  rules : List LinkRule
  redirectCode : Int
  deriving DecidableEq

/-- What a link gives a visitor at a time. -/
def resolves (link : Link) (now : Instant) : Option Target :=
  if isUsable link now then some ⟨link.destinationURL, link.rules, link.redirectCode⟩ else none

/-- What the answer of a resolve gives the visitor. -/
def answerTarget : Except ServiceError Link → Option Target
  | .ok link => some ⟨link.destinationURL, link.rules, link.redirectCode⟩
  | .error _ => none

section

variable (u : Unicode) (loc : DatabaseLocale) (svc : LinkService) (localOffset : Instant → Int)

/-- What the row of an alias gives. -/
def rowAnswer (s : LinkStore) (aliasName : GoString) (now : Instant) : Option Target :=
  match s.GetLinkByAlias loc aliasName with
  | .ok link => resolves link now
  | .error _ => none

/-- The link resolves as the row of the alias does, at any time. -/
def AgreesWithRow (s : LinkStore) (aliasName : GoString) (link : Link) : Prop :=
  ∀ now, resolves link now = rowAnswer loc s aliasName now

/-- The row of the alias is as it was created. -/
def Unedited (s : LinkStore) (aliasName : GoString) : Prop :=
  ∃ row ∈ s.links, row.aliasName = aliasName ∧ row.version = 1

/-- The row of the alias has been edited. -/
def Edited (s : LinkStore) (aliasName : GoString) : Prop :=
  ∃ row ∈ s.links, row.aliasName = aliasName ∧ 1 < row.version

/-! ## The condition -/

/-- What the cache holds once process `i` has set `link` is fresh: it resolves as
the row does, or another call owes the alias its step, or the row is unedited. -/
def SetsFresh (s : Pool World Call) (i : ℕ) (offset : Instant → Int) (link : Link) : Prop :=
  (∀ entry, (if cacheable offset link then some link else s.shared.cache link.aliasName) =
    some entry → AgreesWithRow loc s.shared.store link.aliasName entry) ∨
  (∃ j ≠ i, Owes loc s.shared.store link.aliasName (s.locals j)) ∨
  Unedited s.shared.store link.aliasName

/-- Every step that sets a cache entry leaves a fresh one. -/
def CacheOK (s : Pool World Call) : ℕ × Action → Prop
  | (i, .next _) =>
    match s.locals i with
    | .resolveCache link | .updateCache link => SetsFresh loc s i localOffset link
    | .createCache link => SetsFresh loc s i (fun _ => 0) link
    | _ => True
  | _ => True

/-- When process `i` reads the cache for the alias, no call owes it a step. -/
def ReadsSettled (i : ℕ) (aliasName : GoString) (s : Pool World Call) : ℕ × Action → Prop
  | (j, .next _) => j = i → s.locals i = .resolve aliasName →
      ∀ k, ¬ Owes loc s.shared.store aliasName (s.locals k)
  | _ => True

/-! ## The invariant -/

/-- The cache is fresh wherever nothing is owed to it. -/
structure Coherent (s : Pool World Call) : Prop where
  keyed : s.shared.store.Keyed
  located : ∀ i, Located s.shared.store (s.locals i)
  known : ∀ aliasName entry, s.shared.cache aliasName = some entry →
    ∃ row ∈ s.shared.store.links, row.aliasName = aliasName
  fresh : ∀ aliasName entry, s.shared.cache aliasName = some entry →
    AgreesWithRow loc s.shared.store aliasName entry ∨
    (∃ i, Owes loc s.shared.store aliasName (s.locals i)) ∨
    Unedited s.shared.store aliasName

variable {u loc svc localOffset}

/-! ## What a write carries over -/

section

variable {touched : GoString → Prop} {s s' : LinkStore} {aliasName : GoString}

/-- The row of an alias that is not touched answers as before. -/
theorem rowAnswer_carries (hkeyed : s.Keyed) (hcarries : Carries touched s s')
    (hrow : ∃ row ∈ s.links, row.aliasName = aliasName) (hun : ¬ touched aliasName) (now : Instant) :
    rowAnswer loc s' aliasName now = rowAnswer loc s aliasName now := by
  obtain ⟨row, hrow, rfl⟩ := hrow
  obtain ⟨row', hrow', -, -, -, hsame⟩ := hcarries.row row hrow
  obtain ⟨rfl, hrules⟩ := hsame hun
  have hanswer : ∀ t : LinkStore, t.Keyed → row' ∈ t.links → t.rulesOf row'.id = s.rulesOf row'.id →
      rowAnswer loc t row'.aliasName now =
        if storableText row'.aliasName ∧ row'.live then
          resolves { s.toLink loc row' with tags := [] } now else none := by
    intro t ht hmem hrules
    rw [rowAnswer, GetLinkByAlias, ht.liveAlias_eq hmem]
    by_cases hstore : storableText row'.aliasName <;> by_cases hlive : row'.live <;>
      simp [hstore, hlive, toLink, hrules, resolves, isUsable]
  rw [hanswer s' hcarries.keyed hrow' hrules, hanswer s hkeyed hrow rfl]

end

/-! ## Steps -/

section

variable {s t : Pool World Call} {i : ℕ}

/-- A step of the store: what it touches, and what the call owed before, the call
owes after. -/
theorem Coherent.write (h : Coherent loc s) (hothers : ∀ j ≠ i, t.locals j = s.locals j)
    (hcache : t.shared.cache = s.shared.cache) {touched : GoString → Prop}
    (hcarries : Carries touched s.shared.store t.shared.store)
    (hlocated : Located t.shared.store (t.locals i))
    (howes : ∀ aliasName, touched aliasName ∨ Owes loc s.shared.store aliasName (s.locals i) →
      Owes loc t.shared.store aliasName (t.locals i)) : Coherent loc t where
  keyed := hcarries.keyed
  located j := by
    by_cases hj : j = i
    · exact hj ▸ hlocated
    · exact hothers j hj ▸ located_carries hcarries (h.located j)
  known aliasName entry hentry := by
    obtain ⟨row, hrow, heq⟩ := h.known aliasName entry (hcache ▸ hentry)
    obtain ⟨row', hrow', -, halias, -⟩ := hcarries.row row hrow
    exact ⟨row', hrow', halias.trans heq⟩
  fresh aliasName entry hentry := by
    rw [hcache] at hentry
    by_cases htouched : touched aliasName
    · exact .inr (.inl ⟨i, howes aliasName (.inl htouched)⟩)
    rcases h.fresh aliasName entry hentry with hagrees | ⟨j, hj⟩ | ⟨row, hrow, rfl, hversion⟩
    · refine .inl fun now => ?_
      rw [hagrees now, rowAnswer_carries h.keyed hcarries (h.known aliasName entry hentry) htouched]
    · refine .inr (.inl ⟨j, ?_⟩)
      by_cases hji : j = i
      · exact hji ▸ howes aliasName (.inr (hji ▸ hj))
      · exact hothers j hji ▸ owes_carries hcarries htouched hj
    · obtain ⟨row', hrow', -, -, -, hsame⟩ := hcarries.row row hrow
      obtain ⟨rfl, -⟩ := hsame htouched
      exact .inr (.inr ⟨row', hrow', rfl, hversion⟩)

/-- A step of the cache at one alias, which leaves a fresh entry or none there. -/
theorem Coherent.command (h : Coherent loc s) (hothers : ∀ j ≠ i, t.locals j = s.locals j)
    (hstore : t.shared.store = s.shared.store) {aliasName : GoString}
    (hcache : ∀ other ≠ aliasName, t.shared.cache other = s.shared.cache other)
    (hlocated : Located s.shared.store (t.locals i))
    (howes : ∀ other ≠ aliasName, Owes loc s.shared.store other (s.locals i) →
      Owes loc s.shared.store other (t.locals i))
    (hentry : ∀ entry, t.shared.cache aliasName = some entry →
      (∃ row ∈ s.shared.store.links, row.aliasName = aliasName) ∧
      (AgreesWithRow loc s.shared.store aliasName entry ∨
        (∃ j ≠ i, Owes loc s.shared.store aliasName (s.locals j)) ∨
        Unedited s.shared.store aliasName)) : Coherent loc t where
  keyed := hstore ▸ h.keyed
  located j := by
    rw [hstore]
    by_cases hj : j = i
    · exact hj ▸ hlocated
    · exact hothers j hj ▸ h.located j
  known other entry hother := by
    rw [hstore]
    by_cases heq : other = aliasName
    · subst heq
      exact (hentry entry hother).1
    · exact h.known other entry (hcache other heq ▸ hother)
  fresh other entry hother := by
    rw [hstore]
    by_cases heq : other = aliasName
    · subst heq
      rcases (hentry entry hother).2 with hagrees | ⟨j, hj, howes⟩ | hun
      · exact .inl hagrees
      · exact .inr (.inl ⟨j, (hothers j hj).symm ▸ howes⟩)
      · exact .inr (.inr hun)
    · rcases h.fresh other entry (hcache other heq ▸ hother) with hagrees | ⟨j, hj⟩ | hun
      · exact .inl hagrees
      · refine .inr (.inl ⟨j, ?_⟩)
        by_cases hji : j = i
        · exact hji ▸ howes other heq (hji ▸ hj)
        · exact (hothers j hji).symm ▸ hj
      · exact .inr (.inr hun)

/-- A step that changes the alias sequence or the tags at most. -/
theorem Coherent.read (h : Coherent loc s) (hothers : ∀ j ≠ i, t.locals j = s.locals j)
    (hcache : t.shared.cache = s.shared.cache)
    (hlinks : t.shared.store.links = s.shared.store.links)
    (hrules : t.shared.store.rules = s.shared.store.rules)
    (hlocated : Located t.shared.store (t.locals i))
    (howes : ∀ aliasName, Owes loc s.shared.store aliasName (s.locals i) →
      Owes loc t.shared.store aliasName (t.locals i)) : Coherent loc t :=
  h.write hothers hcache (carries_of_eq h.keyed (fun _ => False) hlinks hrules) hlocated
    fun aliasName hor => howes aliasName (hor.resolve_left id)

/-- Setting an entry keeps the cache coherent when it is fresh. -/
theorem Coherent.set (h : Coherent loc s) (hothers : ∀ j ≠ i, t.locals j = s.locals j)
    {offset : Instant → Int} {link : Link} {result : Result}
    (hshared : t.shared = s.shared.setLink offset link) (hdone : t.locals i = .done result)
    (hknown : ∃ row ∈ s.shared.store.links, row.aliasName = link.aliasName)
    (howes : ∀ other ≠ link.aliasName, ¬ Owes loc s.shared.store other (s.locals i))
    (hok : SetsFresh loc s i offset link) : Coherent loc t := by
  have hstore : t.shared.store = s.shared.store := by
    rw [hshared, World.setLink]
    split_ifs <;> rfl
  have hset : t.shared.cache link.aliasName =
      if cacheable offset link then some link else s.shared.cache link.aliasName := by
    rw [hshared, World.setLink]
    split_ifs
    · exact Function.update_self ..
    · rfl
  refine h.command hothers hstore (fun other hother => ?_) (hdone ▸ trivial)
    (fun other hother hbefore => absurd hbefore (howes other hother))
    (fun entry hentry => ⟨hknown, ?_⟩)
  · rw [hshared, World.setLink]
    split_ifs
    · exact Function.update_of_ne hother ..
    · rfl
  · rcases hok with hagrees | hothers | hun
    · exact .inl (hagrees entry (hset ▸ hentry))
    · exact .inr (.inl hothers)
    · exact .inr (.inr hun)

/-- Dropping an entry keeps it coherent too. -/
theorem Coherent.drop (h : Coherent loc s) (hothers : ∀ j ≠ i, t.locals j = s.locals j)
    {aliasName : GoString} (hshared : t.shared = s.shared.dropLink aliasName)
    (hlocated : Located s.shared.store (t.locals i))
    (howes : ∀ other ≠ aliasName, Owes loc s.shared.store other (s.locals i) →
      Owes loc s.shared.store other (t.locals i)) : Coherent loc t := by
  have hgone : t.shared.cache aliasName = none := by
    rw [hshared]
    exact Function.update_self ..
  refine h.command hothers (by rw [hshared]; rfl) (fun other hother => ?_) hlocated howes
    (fun entry hentry => absurd hentry (by simp [hgone]))
  rw [hshared]
  exact Function.update_of_ne hother ..

/-- Every step of a call keeps the cache coherent, as long as what it sets is
fresh. -/
theorem coherent_next (h : Coherent loc s) {now : Instant} {call : Call}
    (hstep : nextStep u loc svc localOffset now s.shared (s.locals i) = some (t.shared, call))
    (hok : CacheOK loc localOffset s (i, .next now)) (hlocal : t.locals i = call)
    (hothers : ∀ j ≠ i, t.locals j = s.locals j) : Coherent loc t := by
  cases nextStep_effect h.keyed (h.located i) hstep with
  | write touched hcache hcarries hstored hlocated howes =>
    exact h.write hothers hcache hcarries (hlocal ▸ hlocated) (hlocal ▸ howes)
  | drop aliasName hworld hlocated howes =>
    exact h.drop hothers hworld (hlocal ▸ hlocated) (hlocal ▸ howes)
  | set offset link result hworld hcall hsets =>
    have hlocated := h.located i
    simp only [CacheOK] at hok
    cases hphase : s.locals i with
    | resolveCache set | createCache set | updateCache set =>
      rw [hphase] at hsets hlocated hok
      obtain ⟨rfl, rfl⟩ := hsets
      refine h.set hothers hworld (hlocal.trans hcall) hlocated (fun other hother => ?_) hok
      rw [hphase]
      first
        | exact Ne.symm hother
        | exact id
    | _ =>
      rw [hphase] at hsets
      exact hsets.elim

theorem coherent_step (h : Coherent loc s) {a : ℕ × Action} (hok : CacheOK loc localOffset s a)
    (hstep : (linkCalls u loc svc localOffset).machine.step s a = some t) : Coherent loc t := by
  obtain ⟨i, action⟩ := a
  obtain ⟨call, hcall, hlocal, hothers⟩ := Process.step_cases hstep
  cases action with
  | start request =>
    simp only [linkCalls] at hcall
    split_ifs at hcall with hfree
    obtain ⟨hshared, rfl⟩ := Prod.mk.inj (Option.some.inj hcall)
    refine h.read hothers (by rw [hshared]) (by rw [hshared]) (by rw [hshared]) ?_ ?_
    · rw [hlocal]
      cases request <;> trivial
    · intro aliasName howes
      cases hphase : s.locals i <;> simp [hphase, Owes, Call.free] at howes hfree
  | next now => exact coherent_next h hcall hok hlocal hothers
  | drop aliasName =>
    obtain ⟨hshared, rfl⟩ := Prod.mk.inj (Option.some.inj hcall)
    refine h.drop hothers hshared.symm (hlocal ▸ h.located i) fun other hother howes => ?_
    rw [hlocal]
    exact howes

end

/-! ## What a resolve answers -/

/-- A resolve of the alias `aliasName` by process `i` has so far: not looked; or
looked, and what it will answer is what the row gave in a state visited, at a time
of its clock. -/
def Resolving (loc : DatabaseLocale) (i : ℕ) (aliasName : GoString) (as : List (ℕ × Action))
    (vs : List (Pool World Call)) (call : Call) : Prop :=
  let seen (out : Option Target) : Prop :=
    ∃ v ∈ vs, ∃ now, (i, .next now) ∈ as ∧ out = rowAnswer loc v.shared.store aliasName now
  match call with
  | .resolve other | .resolveMiss other => other = aliasName
  | .resolveCache link => seen (answerTarget (.ok link))
  | .done (.resolved answer) => seen (answerTarget answer)
  | _ => False

/-- Reading the row gives its answer. -/
theorem rowAnswer_of_GetLinkByAlias (loc : DatabaseLocale) (store : LinkStore) (aliasName : GoString)
    (now : Instant) :
    rowAnswer loc store aliasName now =
      match store.GetLinkByAlias loc aliasName with
      | .ok link => if isUsable link now then answerTarget (.ok link) else none
      | .error _ => none := by
  rw [rowAnswer]
  split <;> rfl

/-- One step of the resolving process, or of another one. -/
theorem resolving_step {s t : Pool World Call} {i : ℕ} {aliasName : GoString}
    {as : List (ℕ × Action)} {vs : List (Pool World Call)} {a : ℕ × Action}
    (hcoherent : Coherent loc s) (hedited : Edited s.shared.store aliasName) (hs : s ∈ vs)
    (hread : ReadsSettled loc i aliasName s a) (honce : ∀ request, a ≠ (i, .start request))
    (h : Resolving loc i aliasName as vs (s.locals i))
    (hstep : (linkCalls u loc svc localOffset).machine.step s a = some t) :
    Resolving loc i aliasName (as ++ [a]) (vs ++ [t]) (t.locals i) := by
  have hmono : ∀ call, Resolving loc i aliasName as vs call →
      Resolving loc i aliasName (as ++ [a]) (vs ++ [t]) call := by
    have hseen : ∀ out, (∃ v ∈ vs, ∃ now, (i, Action.next now) ∈ as ∧
        out = rowAnswer loc v.shared.store aliasName now) →
        ∃ v ∈ vs ++ [t], ∃ now, (i, Action.next now) ∈ as ++ [a] ∧
          out = rowAnswer loc v.shared.store aliasName now := by
      rintro out ⟨v, hv, now, hnow, hout⟩
      exact ⟨v, List.mem_append_left _ hv, now, List.mem_append_left _ hnow, hout⟩
    intro call hcall
    unfold Resolving at hcall ⊢
    split at hcall
    · exact hcall
    · exact hcall
    · exact hseen _ hcall
    · exact hseen _ hcall
    · exact hcall.elim
  obtain ⟨j, action⟩ := a
  obtain ⟨call, hcall, hlocal, hothers⟩ := Process.step_cases hstep
  by_cases hji : j = i
  swap
  · rw [hothers i (Ne.symm hji)]
    exact hmono _ h
  subst hji
  cases action with
  | start request => exact absurd rfl (honce request)
  | drop other =>
    obtain ⟨-, rfl⟩ := Prod.mk.inj (Option.some.inj hcall)
    rw [hlocal]
    exact hmono _ h
  | next now =>
    have hlook : ∀ out, out = rowAnswer loc s.shared.store aliasName now →
        ∃ v ∈ vs ++ [t], ∃ now', (j, Action.next now') ∈ as ++ [(j, Action.next now)] ∧
          out = rowAnswer loc v.shared.store aliasName now' :=
      fun out hout => ⟨s, List.mem_append_left _ hs, now, by simp, hout⟩
    change nextStep u loc svc localOffset now s.shared (s.locals j) = _ at hcall
    rw [hlocal]
    cases hphase : s.locals j with
    | resolve other =>
      rw [hphase] at h
      obtain rfl : other = aliasName := h
      simp only [hphase, nextStep, Option.some.injEq, Prod.mk.injEq] at hcall
      obtain ⟨-, rfl⟩ := hcall
      unfold resolveStep
      split
      · rename_i entry hentry
        -- Nothing is owed and the row has been edited, so the entry is fresh.
        have hagrees : AgreesWithRow loc s.shared.store other entry := by
          rcases hcoherent.fresh other entry hentry with hagrees | ⟨k, hk⟩ | ⟨row, hrow, heq, hone⟩
          · exact hagrees
          · exact absurd hk (hread rfl hphase k)
          · obtain ⟨row', hrow', heq', hmore⟩ := hedited
            obtain rfl := hcoherent.keyed.eq_of_alias hrow hrow' (heq.trans heq'.symm)
            omega
        refine hlook _ ?_
        rw [← hagrees now, resolves]
        split_ifs <;> rfl
      · exact rfl
    | resolveMiss other =>
      rw [hphase] at h
      obtain rfl : other = aliasName := h
      simp only [hphase, nextStep, Option.some.injEq, Prod.mk.injEq] at hcall
      obtain ⟨-, rfl⟩ := hcall
      unfold resolveMissStep
      have hanswer := rowAnswer_of_GetLinkByAlias loc s.shared.store other now
      split
      · rename_i e hget
        refine hlook _ ?_
        rw [hanswer, hget]
        rfl
      · rename_i link hget
        simp only [hget] at hanswer
        split_ifs with husable
        · exact hlook _ (by rw [hanswer, if_pos husable])
        · exact hlook _ (by rw [hanswer, if_neg husable]; rfl)
    | resolveCache link =>
      simp only [hphase, nextStep, Option.some.injEq, Prod.mk.injEq] at hcall
      obtain ⟨-, rfl⟩ := hcall
      rw [hphase] at h
      exact hmono (.done (.resolved (.ok link))) h
    | done result => simp [hphase, nextStep] at hcall
    | _ =>
      rw [hphase] at h
      exact h.elim

theorem coherent_init : Coherent loc ⟨{}, fun _ => .idle⟩ where
  keyed := ⟨List.nodup_nil, List.nodup_nil⟩
  located _ := trivial
  known _ _ h := by simp at h
  fresh _ _ h := by simp at h

theorem edited_step {s t : Pool World Call} {a : ℕ × Action} {aliasName : GoString}
    (hcoherent : Coherent loc s) (h : Edited s.shared.store aliasName)
    (hstep : (linkCalls u loc svc localOffset).machine.step s a = some t) :
    Edited t.shared.store aliasName := by
  obtain ⟨i, action⟩ := a
  obtain ⟨call, hcall, -⟩ := Process.step_cases hstep
  obtain ⟨row, hrow, halias, hmore⟩ := h
  cases action with
  | start request =>
    simp only [linkCalls] at hcall
    split_ifs at hcall
    obtain ⟨hshared, -⟩ := Prod.mk.inj (Option.some.inj hcall)
    exact hshared ▸ ⟨row, hrow, halias, hmore⟩
  | drop other =>
    obtain ⟨hshared, -⟩ := Prod.mk.inj (Option.some.inj hcall)
    exact hshared ▸ ⟨row, hrow, halias, hmore⟩
  | next now =>
    obtain ⟨row', hrow', halias', hversion⟩ :=
      (nextStep_effect hcoherent.keyed (hcoherent.located i) hcall).rows row hrow
    exact ⟨row', hrow', halias'.trans halias, hmore.trans_le hversion⟩

/-- A redirect follows the row.  In a run whose cache writes are fresh, a resolve
of an edited link that does not read the cache while an edit owes it a step
answers what the row gives at a moment of the call. -/
theorem resolve_answers_row {as bs : List (ℕ × Action)} {s t : Pool World Call} {i : ℕ}
    {aliasName : GoString} {result : Result}
    (hok : (linkCalls u loc svc localOffset).machine.Along (CacheOK loc localOffset)
      ⟨{}, fun _ => .idle⟩ (as ++ (i, .start (.resolve aliasName)) :: bs))
    (hrun : (linkCalls u loc svc localOffset).machine.run ⟨{}, fun _ => .idle⟩ as = some s)
    (hedited : Edited s.shared.store aliasName)
    (hread : (linkCalls u loc svc localOffset).machine.Along (ReadsSettled loc i aliasName) s
      ((i, .start (.resolve aliasName)) :: bs))
    (honce : ∀ request, (i, .start request) ∉ bs)
    (hrest : (linkCalls u loc svc localOffset).machine.run s
      ((i, .start (.resolve aliasName)) :: bs) = some t)
    (hdone : t.locals i = .done result) :
    ∃ answer, result = .resolved answer ∧
      ∃ v ∈ (linkCalls u loc svc localOffset).machine.visited s
          ((i, .start (.resolve aliasName)) :: bs),
        ∃ now, (i, .next now) ∈ bs ∧
          answerTarget answer = rowAnswer loc v.shared.store aliasName now := by
  let m := (linkCalls u loc svc localOffset).machine
  obtain ⟨hokBefore, hokAfter⟩ := Machine.Along.of_append m hok hrun
  have hcoherent : Coherent loc s :=
    m.run_invariant_along (fun _ _ _ hs hC hstep => coherent_step hs hC hstep) coherent_init
      hokBefore hrun
  -- The call starts.
  obtain ⟨s', hstart, hrest⟩ := m.run_cons_eq_some.1 hrest
  have hcoherent' : Coherent loc s' := coherent_step hcoherent hokAfter.1 hstart
  obtain ⟨call, hcall, hlocal, -⟩ := Process.step_cases hstart
  simp only [linkCalls] at hcall
  split_ifs at hcall
  obtain ⟨hshared, rfl⟩ := Prod.mk.inj (Option.some.inj hcall)
  have hedited' : Edited s'.shared.store aliasName := hshared ▸ hedited
  -- Then the history of the rest of the run.
  have hnew : ∀ a ∈ bs, ∀ request, a ≠ (i, Action.start request) := by
    rintro a ha request rfl
    exact honce request ha
  have hhistory := m.run_history
    (I := fun as vs v => Coherent loc v ∧ Edited v.shared.store aliasName ∧
      Resolving loc i aliasName as vs (v.locals i))
    (C := fun v a => (CacheOK loc localOffset v a ∧ ReadsSettled loc i aliasName v a) ∧
      ∀ request, a ≠ (i, .start request))
    (fun as vs v a w hv hbefore hcond hstep =>
      ⟨coherent_step hbefore.1 hcond.1.1 hstep, edited_step hbefore.1 hbefore.2.1 hstep,
        resolving_step hbefore.1 hbefore.2.1 hv hcond.1.2 hcond.2 hbefore.2.2 hstep⟩)
    ⟨hcoherent', hedited', by rw [hlocal]; exact rfl⟩
    (Machine.Along.and m (Machine.Along.and m (hokAfter.2 s' hstart) (hread.2 s' hstart))
      (Machine.along_of_mem m hnew s'))
    hrest
  obtain ⟨-, -, hres⟩ := hhistory
  rw [hdone] at hres
  cases result with
  | resolved answer =>
    obtain ⟨v, hv, now, hnow, hanswer⟩ := hres
    refine ⟨answer, rfl, v, ?_, now, hnow, hanswer⟩
    rw [Machine.visited_cons m hstart]
    exact List.mem_cons_of_mem _ hv
  | _ => exact hres.elim

end

/-! ## Two runs -/

/-- Process 0 deletes it. -/
def deleteAbcSteps : List (ℕ × Action) :=
  (0, .start (.delete {} (lit "00000000000000000000000000000000"))) :: List.replicate 3 (0, .next 0)

/-- What a resolve has returned. -/
def answerOf : Call → Option (Except ServiceError Link)
  | .done (.resolved answer) => some answer
  | _ => none

theorem done_of_answerOf {call : Call} {answer : Except ServiceError Link}
    (h : answerOf call = some answer) : call = .done (.resolved answer) := by
  unfold answerOf at h
  split at h
  · rw [Option.some.inj h]
  · simp at h

/-- What `CacheOK` asks of a run whose only cache write is that of a create. -/
def createsFresh (s : Pool World Call) : ℕ × Action → Bool
  | (i, .next _) =>
    match s.locals i with
    | .resolveCache _ | .updateCache _ => false
    | .createCache link =>
      s.shared.store.links.any fun row => row.aliasName == link.aliasName && row.version == 1
    | _ => true
  | _ => true

theorem cacheOK_of_createsFresh (s : Pool World Call) (a : ℕ × Action) (h : createsFresh s a) :
    CacheOK plainLocale (fun _ => 0) s a := by
  obtain ⟨i, action⟩ := a
  cases action with
  | next now =>
    simp only [createsFresh] at h
    simp only [CacheOK]
    cases hphase : s.locals i with
    | resolveCache link => simp [hphase] at h
    | updateCache link => simp [hphase] at h
    | createCache link =>
      simp only [hphase, List.any_eq_true, Bool.and_eq_true, beq_iff_eq] at h
      exact .inr (.inr h)
    | _ => trivial
  | _ => trivial

/-- Process 0 resolves it, with a miss of the cache. -/
def resolveAbcSteps : List (ℕ × Action) :=
  (0, .start (.resolve (lit "abc"))) :: List.replicate 2 (0, .next 0)

/-- A resolve after the deletion, which misses the cache and finds no row. -/
theorem resolve_answers_row_deleted :
    ∃ s t answer, asciiCalls.run ⟨{}, fun _ => .idle⟩ (createAbcSteps ++ deleteAbcSteps) = some s ∧
      asciiCalls.run s resolveAbcSteps = some t ∧ t.locals 0 = .done (.resolved answer) ∧
      ∃ v ∈ asciiCalls.visited s resolveAbcSteps, ∃ now,
        answerTarget answer = rowAnswer plainLocale v.shared.store (lit "abc") now := by
  have hruns : ((asciiCalls.run ⟨{}, fun _ => .idle⟩ (createAbcSteps ++ deleteAbcSteps)).map
      fun s => (s.shared.store.links.any (fun row => row.aliasName == lit "abc" && row.version == 2),
        (asciiCalls.run s resolveAbcSteps).map fun t => (answerOf (t.locals 0)).isSome)) =
      some (true, some true) := by
    decide
  obtain ⟨s, hs, hpair⟩ := Option.map_eq_some_iff.mp hruns
  obtain ⟨hrow, hrest⟩ := Prod.mk.inj hpair
  obtain ⟨t, ht, hanswer⟩ := Option.map_eq_some_iff.mp hrest
  obtain ⟨answer, hanswer⟩ := Option.isSome_iff_exists.mp hanswer
  have hedited : Edited s.shared.store (lit "abc") := by
    simp only [List.any_eq_true, Bool.and_eq_true, beq_iff_eq] at hrow
    obtain ⟨row, hmem, halias, hversion⟩ := hrow
    exact ⟨row, hmem, halias, by omega⟩
  have hidle : ∀ j, j ≠ 0 → s.locals j = .idle :=
    Process.locals_of_run (· ≠ 0) (by decide) hs
  have hread : asciiCalls.Along (ReadsSettled plainLocale 0 (lit "abc")) s resolveAbcSteps := by
    refine (Process.along_locals (· ≠ 0) (by decide)).imp _ ?_
    rintro v ⟨j, action⟩ hv
    cases action with
    | next now =>
      rintro - hphase k
      by_cases hk : k = 0
      · subst hk
        rw [hphase]
        exact id
      · rw [hv k hk, hidle k hk]
        exact id
    | _ => trivial
  have hdone := done_of_answerOf hanswer
  have hok : asciiCalls.Along (CacheOK plainLocale fun _ => 0) ⟨{}, fun _ => .idle⟩
      ((createAbcSteps ++ deleteAbcSteps) ++ resolveAbcSteps) :=
    Machine.along_of_check _ cacheOK_of_createsFresh (by decide)
  obtain ⟨answer', heq, v, hv, now, -, hrowAnswer⟩ :=
    resolve_answers_row hok hs hedited hread (by simp) ht hdone
  obtain rfl : answer = answer' := by simpa using heq
  exact ⟨s, t, answer, hs, ht, hdone, v, hv, now, hrowAnswer⟩

/-- Process 1 resolves `abc` after its entry has expired, and its read of the row
comes before the deletion by process 0, its write of the cache after. -/
def staleSteps : List (ℕ × Action) :=
  createAbcSteps ++ [(1, .drop (lit "abc")), (1, .start (.resolve (lit "abc"))), (1, .next 0),
    (1, .next 0)] ++ deleteAbcSteps ++ [(1, .next 0)]

/-- Then a resolve that starts once all calls have returned finds the revived entry. -/
theorem stale_redirect :
    ¬ ∀ (as bs : List (ℕ × Action)) (s t : Pool World Call) (i : ℕ) (aliasName : GoString)
        (answer : Except ServiceError Link),
      asciiCalls.run ⟨{}, fun _ => .idle⟩ as = some s → Edited s.shared.store aliasName →
      (∀ j, (s.locals j).free) → (∀ a ∈ bs, ∃ now, a = (i, .next now)) →
      asciiCalls.run s ((i, .start (.resolve aliasName)) :: bs) = some t →
      t.locals i = .done (.resolved answer) →
      ∃ v ∈ asciiCalls.visited s ((i, .start (.resolve aliasName)) :: bs), ∃ now,
        (i, .next now) ∈ bs ∧
          answerTarget answer = rowAnswer plainLocale v.shared.store aliasName now := by
  intro hclaim
  have hruns : ((asciiCalls.run ⟨{}, fun _ => .idle⟩ staleSteps).map
      fun s => ((s.shared.store.links.any fun row => row.aliasName == lit "abc" && row.version == 2,
          (s.locals 0).free, (s.locals 1).free),
        (asciiCalls.run s [(2, .start (.resolve (lit "abc"))), (2, .next 0)]).map fun t =>
          ((answerOf (t.locals 2)).map fun answer => (answerTarget answer).isSome))) =
      some ((true, true, true), some (some true)) := by
    decide
  have hrows : ((asciiCalls.run ⟨{}, fun _ => .idle⟩ staleSteps).map fun s =>
      (asciiCalls.visited s [(2, .start (.resolve (lit "abc"))), (2, .next 0)]).all fun v =>
        (v.shared.store.GetLinkByAlias plainLocale (lit "abc")).toBool = false) = some true := by
    decide
  obtain ⟨s, hs, hpair⟩ := Option.map_eq_some_iff.mp hruns
  obtain ⟨hstate, hrest⟩ := Prod.mk.inj hpair
  obtain ⟨hrow, hfree⟩ := Prod.mk.inj hstate
  obtain ⟨hfree0, hfree1⟩ := Prod.mk.inj hfree
  obtain ⟨t, ht, hanswer⟩ := Option.map_eq_some_iff.mp hrest
  obtain ⟨answer, hanswer, htarget⟩ := Option.map_eq_some_iff.mp hanswer
  have hedited : Edited s.shared.store (lit "abc") := by
    simp only [List.any_eq_true, Bool.and_eq_true, beq_iff_eq] at hrow
    obtain ⟨row, hmem, halias, hversion⟩ := hrow
    exact ⟨row, hmem, halias, by omega⟩
  have hidle : ∀ j, (s.locals j).free := by
    intro j
    by_cases hj : 1 < j
    · rw [Process.locals_of_run (1 < ·) (by decide) hs j hj]
      rfl
    · obtain rfl | rfl : j = 0 ∨ j = 1 := by omega
      · exact hfree0
      · exact hfree1
  obtain ⟨v, hv, now, -, hrowAnswer⟩ := hclaim staleSteps [(2, .next 0)] s t 2 (lit "abc") answer hs
    hedited hidle (by simp) ht (done_of_answerOf hanswer)
  rw [hs, Option.map_some, Option.some.injEq, List.all_eq_true] at hrows
  have hmissing := hrows v hv
  rw [hrowAnswer, rowAnswer] at htarget
  cases hget : v.shared.store.GetLinkByAlias plainLocale (lit "abc") with
  | ok link => simp [hget, Except.toBool] at hmissing
  | error e => simp [hget] at htarget

end Purels.Properties
