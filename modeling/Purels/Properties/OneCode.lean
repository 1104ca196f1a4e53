import Purels.Properties.LinkSteps

/-!
# One generated code for a destination

With `UNIQUE_URLS` a create without an alias looks for a link of the account to the
destination, and makes one when there is none.  The lookup and the insert are two
statements, and other calls may come between them.

* `Shortens`: the calls of one account for one destination.
* `LooksAlone`: no other call is between its lookup and its insert when one looks, and
  what the run has made is not expired.
* `Stands`: how far such a call has come, and what it knows of the links made so far.
* `one_code_per_destination`, for every run, and `two_codes_minted`, a run of two calls
  that look before either inserts.
-/

namespace Purels.Properties

open Go Store LinkStore Service Lib

section

variable (u : Unicode) (loc : DatabaseLocale) (svc : LinkService) (localOffset : Instant → Int)

/-- A request of the account to shorten the destination with a generated code, a step of
a call not before `start`, or the cache letting an entry go. -/
def Shortens (actor : Uuid) (destination : GoString) (start : Instant) : Action → Prop
  | .start (.create settings ctx req _) => settings.uniqueURLs ∧ ctx.actorID = some actor ∧
      req.aliasName = [] ∧ req.destinationURL = destination
  | .start _ => False
  | .next now => start ≤ now
  | .drop _ => True

/-- The call has found no link to hand back, and has not made one yet. -/
def minting : Call → Bool
  | .createQuota .. | .createAlias .. | .createInsert .. => true
  | _ => false

/-- A call that is about to look finds no other call minting, and no expired link
among those made since `before`. -/
def LooksAlone (before : LinkStore) (s : Pool World Call) (a : ℕ × Action) : Prop :=
  match s.locals a.1, a.2 with
  | .create settings _ req _, .next now => (∃ checked, checkCreate u settings req = .ok checked) →
      (∀ j, ¬ minting (s.locals j)) ∧
        ∀ row ∈ s.shared.store.links, row ∉ before.links → row.expiresAt.all (now < ·)
  | _, _ => True

/-- The calls that have succeeded by `m` and by `t` return one link, and at most one was made. -/
def OneCode (s m t : Pool World Call) : Prop :=
  (∀ i j r r', m.locals i = .done (.created (.ok r)) → t.locals j = .done (.created (.ok r')) →
    r.link.id = r'.link.id) ∧
  ∃ made, t.shared.store.links = s.shared.store.links ++ made ∧ made.length ≤ 1

/-- A link of the account to the destination that is as it was made. -/
structure Fresh (actor : Uuid) (destination : GoString) (before : LinkStore) (row : LinkRow) :
    Prop where
  destinationURL : row.destinationURL = destination
  userID : row.userID = some actor
  live : row.live
  status : row.status = .active
  new : row ∉ before.links

/-- A call of `Shortens`, with the links that have been made: those that mint know
of none, and those that have one to return name it. -/
def Stands (actor : Uuid) (destination : GoString) (made : List LinkRow) : Call → Prop
  | .create settings ctx req _ => settings.uniqueURLs ∧ ctx.actorID = some actor ∧
      req.aliasName = [] ∧ req.destinationURL = destination
  | .createQuota _ ctx checked named _ => made = [] ∧ ctx.actorID = some actor ∧
      checked.destinationURL = destination ∧ named = none
  | .createAlias _ ctx checked _ => made = [] ∧ ctx.actorID = some actor ∧
      checked.destinationURL = destination
  | .createInsert _ ctx checked link retry => made = [] ∧ ctx.actorID = some actor ∧
      checked.destinationURL = destination ∧ link.destinationURL = destination ∧
      link.status = .active ∧ retry.isSome
  | .createCache link => ∃ row ∈ made, row.id = link.id
  | .done (.created (.ok r)) => ∃ row ∈ made, row.id = r.link.id
  | .idle | .done (.created (.error _)) => True
  | _ => False

/-- The links made since `before`, and where the calls stand. -/
structure Minted (actor : Uuid) (destination : GoString) (before : LinkStore)
    (made : List LinkRow) (s : Pool World Call) : Prop where
  links : s.shared.store.links = before.links ++ made
  fresh : ∀ row ∈ made, Fresh actor destination before row
  short : made.length ≤ 1
  stands : ∀ i, Stands actor destination made (s.locals i)
  alone : ∀ i j, minting (s.locals i) → minting (s.locals j) → i = j

variable {u loc svc localOffset} {actor : Uuid} {destination : GoString} {start : Instant}
  {before : LinkStore} {made : List LinkRow}

/-! ## The lookup -/

/-- A link that is not reusable stays so as time passes. -/
theorem reusable_of_le {row : LinkRow} {now : Instant} (hle : start ≤ now)
    (h : reusable destination actor now row) : reusable destination actor start row := by
  unfold reusable at h ⊢
  rw [Bool.and_eq_true] at h ⊢
  refine ⟨h.1, ?_⟩
  cases hexpiry : row.expiresAt with
  | none => rfl
  | some t =>
    have hnow : now < t := by simpa [hexpiry] using h.2
    simpa using lt_of_le_of_lt hle hnow

theorem Fresh.reusable {row : LinkRow} (h : Fresh actor destination before row) {now : Instant}
    (hexpiry : row.expiresAt.all (now < ·)) : reusable destination actor now row := by
  unfold LinkStore.reusable
  rw [h.destinationURL, h.userID, h.live, h.status, hexpiry]
  simp

/-- The lookup returns the link that has been made, or none was. -/
theorem createStep_stands (loc : DatabaseLocale) {w : World} {settings : RuntimeSettingsInput}
    {ctx : Context} {req : CreateLinkRequest} {draws : Fin aliasAttempts → Draw} {now : Instant}
    (hlinks : w.store.links = before.links ++ made)
    (hfresh : ∀ row ∈ made, Fresh actor destination before row)
    (hnone : ∀ row ∈ before.links, ¬ reusable destination actor start row) (hnow : start ≤ now)
    (hstands : Stands actor destination made (.create settings ctx req draws))
    (hvalid : (∃ checked, checkCreate u settings req = .ok checked) →
      ∀ row ∈ made, row.expiresAt.all (now < ·)) :
    Stands actor destination made (createStep u loc settings ctx req draws now w) ∧
      (minting (createStep u loc settings ctx req draws now w) →
        ∃ checked, checkCreate u settings req = .ok checked) := by
  obtain ⟨hunique, hactor, halias, hdestination⟩ := hstands
  unfold createStep
  split
  · exact ⟨trivial, fun h => by cases h⟩
  rename_i checked hchecked
  refine ⟨?_, fun _ => ⟨checked, hchecked⟩⟩
  have hunexpired := hvalid ⟨checked, hchecked⟩
  rw [if_neg (by simp [halias])]
  unfold reuseLink
  rw [hactor, hdestination]
  dsimp only
  rw [if_pos hunique]
  rcases w.store.FindLiveLinkByDestination_cases loc destination actor now with
    hfail | ⟨hmissing, hall⟩ | ⟨row, hrow, hreusable, hfound⟩
  · rw [hfail]
    trivial
  · rw [hmissing]
    refine ⟨?_, hactor, (checkCreate_ok hchecked).2.1.trans hdestination, rfl⟩
    apply List.eq_nil_iff_forall_not_mem.mpr
    intro row hrow
    have hmem : row ∈ w.store.links := by
      rw [hlinks]
      exact List.mem_append_right _ hrow
    exact hall row hmem ((hfresh row hrow).reusable (hunexpired row hrow))
  · rw [hfound]
    rw [hlinks] at hrow
    rcases List.mem_append.mp hrow with hold | hmade
    · exact absurd (reusable_of_le hnow hreusable) (hnone row hold)
    · exact ⟨row, hmade, rfl⟩

/-! ## The steps after it -/

theorem createQuotaStep_stands {settings : RuntimeSettingsInput} {ctx : Context}
    {checked : CheckedLink} {named : Option GoString} {draws : Fin aliasAttempts → Draw} (w : World)
    (h : Stands actor destination made (.createQuota settings ctx checked named draws)) :
    Stands actor destination made (createQuotaStep settings ctx checked named draws w) := by
  obtain ⟨hmade, hactor, hdestination, rfl⟩ := h
  unfold createQuotaStep
  split
  · trivial
  · exact ⟨hmade, hactor, hdestination⟩

theorem createAliasStep_stands {settings : RuntimeSettingsInput} {ctx : Context}
    {checked : CheckedLink} {draws : List Draw} (w : World)
    (h : Stands actor destination made (.createAlias settings ctx checked draws)) :
    (createAliasStep u settings ctx checked draws w).1.store.links = w.store.links ∧
      Stands actor destination made (createAliasStep u settings ctx checked draws w).2 := by
  obtain ⟨hmade, hactor, hdestination⟩ := h
  unfold createAliasStep
  split
  · exact ⟨rfl, trivial⟩
  rename_i draw draws
  obtain ⟨seq, hseq⟩ := nextAlias_sameRows settings draw w.store
  split
  · rename_i e store hnext
    rw [hnext] at hseq
    have hlinks : store.links = w.store.links := by
      rw [show store = _ from hseq]
    exact ⟨hlinks, trivial⟩
  · rename_i aliasName store hnext
    rw [hnext] at hseq
    have hlinks : store.links = w.store.links := by
      rw [show store = _ from hseq]
    refine ⟨hlinks, ?_⟩
    dsimp only
    split_ifs
    · exact ⟨hmade, hactor, hdestination⟩
    · exact ⟨hmade, hactor, hdestination, hdestination, rfl, rfl⟩

/-- The insert fails, or makes the first link. -/
theorem createInsertStep_stands (u : Unicode) (svc : LinkService)
    {settings : RuntimeSettingsInput} {ctx : Context}
    {checked : CheckedLink} {link : Link} {retry : Option (List Draw)} {w : World}
    (hlinks : w.store.links = before.links ++ made)
    (h : Stands actor destination made (.createInsert settings ctx checked link retry)) :
    ((createInsertStep u svc settings ctx checked link retry w).1 = w ∧
      Stands actor destination made (createInsertStep u svc settings ctx checked link retry w).2) ∨
    ∃ row, (createInsertStep u svc settings ctx checked link retry w).1.store.links =
        before.links ++ [row] ∧ Fresh actor destination before row ∧
      (createInsertStep u svc settings ctx checked link retry w).2 = .createCache link ∧
      row.id = link.id := by
  obtain ⟨hmade, hactor, hchecked, hdestination, hstatus, -⟩ := h
  rcases createInsertStep_cases u svc settings ctx checked link retry w with
    ⟨call, heq, hcall⟩ | ⟨hcreate, heq⟩
  · rw [heq]
    refine .inl ⟨rfl, ?_⟩
    rcases hcall with ⟨e, rfl⟩ | ⟨draws, rfl⟩
    · trivial
    · exact ⟨hmade, hactor, hchecked⟩
  · rw [heq]
    have hempty : w.store.links = before.links := by rw [hlinks, hmade, List.append_nil]
    refine .inr ⟨newRow link ctx.actorID, ?_, ?_, rfl, rfl⟩
    · show (w.store.insertLink link ctx.actorID).links = _
      rw [insertLink_links, hempty]
    · refine ⟨hdestination, hactor, rfl, hstatus, fun hold => ?_⟩
      have hfree := (CreateLink_fits hcreate).2.2.2.1
      rw [hempty] at hfree
      exact (hfree _ hold).2 rfl

/-- What a call that stands somewhere does next: it leaves the links alone, and
starts minting from the lookup only, or it makes the first link. -/
theorem nextStep_stands {w w' : World} {call call' : Call} {now : Instant}
    (hlinks : w.store.links = before.links ++ made)
    (hfresh : ∀ row ∈ made, Fresh actor destination before row)
    (hnone : ∀ row ∈ before.links, ¬ reusable destination actor start row) (hnow : start ≤ now)
    (hstands : Stands actor destination made call)
    (hvalid : ∀ settings ctx req draws, call = .create settings ctx req draws →
      (∃ checked, checkCreate u settings req = .ok checked) →
        ∀ row ∈ made, row.expiresAt.all (now < ·))
    (hstep : nextStep u loc svc localOffset now w call = some (w', call')) :
    (w'.store.links = w.store.links ∧ Stands actor destination made call' ∧
      (minting call' → minting call ∨ ∃ settings ctx req draws,
        call = .create settings ctx req draws ∧
          ∃ checked, checkCreate u settings req = .ok checked)) ∨
    ∃ row link, minting call ∧ w'.store.links = before.links ++ [row] ∧
      Fresh actor destination before row ∧ call' = .createCache link ∧ row.id = link.id := by
  cases call with
  | idle | done result => cases hstep
  | create settings ctx req draws =>
    obtain ⟨rfl, rfl⟩ := Prod.mk.inj (Option.some.inj hstep)
    obtain ⟨hafter, hminting⟩ := createStep_stands loc hlinks hfresh hnone hnow hstands
      (hvalid settings ctx req draws rfl)
    exact .inl ⟨rfl, hafter, fun h => .inr ⟨settings, ctx, req, draws, rfl, hminting h⟩⟩
  | createQuota settings ctx checked named draws =>
    obtain ⟨rfl, rfl⟩ := Prod.mk.inj (Option.some.inj hstep)
    exact .inl ⟨rfl, createQuotaStep_stands w hstands, fun _ => .inl rfl⟩
  | createAlias settings ctx checked draws =>
    obtain ⟨rfl, rfl⟩ := Prod.mk.inj (Option.some.inj hstep)
    obtain ⟨hsame, hafter⟩ := createAliasStep_stands (u := u) w hstands
    exact .inl ⟨hsame, hafter, fun _ => .inl rfl⟩
  | createInsert settings ctx checked link retry =>
    obtain ⟨rfl, rfl⟩ := Prod.mk.inj (Option.some.inj hstep)
    rcases createInsertStep_stands u svc hlinks hstands with
      ⟨hsame, hafter⟩ | ⟨row, hrow, hnew, hcall, hid⟩
    · exact .inl ⟨congrArg (fun v : World => v.store.links) hsame, hafter, fun _ => .inl rfl⟩
    · exact .inr ⟨row, link, rfl, hrow, hnew, hcall, hid⟩
  | createCache link =>
    obtain ⟨rfl, rfl⟩ := Prod.mk.inj (Option.some.inj hstep)
    refine .inl ⟨?_, hstands, fun h => by cases h⟩
    unfold World.setLink
    split_ifs <;> rfl
  | _ => exact hstands.elim

/-! ## Runs -/

/-- A call that mints knows that no link has been made. -/
theorem Stands.of_minting {call : Call} (h : Stands actor destination made call)
    (hminting : minting call) : made = [] := by
  cases call with
  | createQuota | createAlias | createInsert => exact h.1
  | _ => cases hminting

/-- A call that knows of no link, and does not mint, knows as much of any others. -/
theorem Stands.of_nil {call : Call} (h : Stands actor destination [] call)
    (hminting : ¬ minting call) : Stands actor destination made call := by
  cases call with
  | createQuota | createAlias | createInsert => exact absurd rfl hminting
  | createCache link =>
    obtain ⟨row, hrow, -⟩ := h
    cases hrow
  | done result =>
    cases result with
    | created res =>
      cases res with
      | error e => trivial
      | ok r =>
        obtain ⟨row, hrow, -⟩ := h
        cases hrow
    | _ => exact h.elim
  | idle => trivial
  | create settings ctx req draws => exact h
  | _ => exact h.elim

/-- The step lemma: the links made stay, and are one at most. -/
theorem minted_step (hnone : ∀ row ∈ before.links, ¬ reusable destination actor start row)
    {s t : Pool World Call} {a : ℕ × Action} (hminted : Minted actor destination before made s)
    (hC : Shortens actor destination start a.2 ∧ LooksAlone u before s a)
    (hstep : (linkCalls u loc svc localOffset).machine.step s a = some t) :
    ∃ more, Minted actor destination before more t ∧ made ⊆ more := by
  obtain ⟨i, action⟩ := a
  obtain ⟨hshortens, halone⟩ := hC
  obtain ⟨call, hcall, hlocal, hothers⟩ := Process.step_cases hstep
  -- The links stay as they are, and process `i` mints only when no other does.
  have hkept : t.shared.store.links = s.shared.store.links →
      Stands actor destination made call →
      (minting call → minting (s.locals i) ∨ ∀ j, ¬ minting (s.locals j)) →
      ∃ more, Minted actor destination before more t ∧ made ⊆ more := by
    intro hlinks hstands hmints
    have hlone : minting call → ∀ j, j ≠ i → ¬ minting (t.locals j) := by
      intro hnew j hj hother
      rw [hothers j hj] at hother
      rcases hmints hnew with hold | hall
      · exact hj (hminted.alone j i hother hold)
      · exact hall j hother
    refine ⟨made, ⟨hlinks.trans hminted.links, hminted.fresh, hminted.short, fun j => ?_,
      fun j k hj hk => ?_⟩, List.Subset.refl made⟩
    · by_cases hji : j = i
      · rw [hji, hlocal]
        exact hstands
      · rw [hothers j hji]
        exact hminted.stands j
    · by_cases hji : j = i
      · by_cases hki : k = i
        · rw [hji, hki]
        · rw [hji, hlocal] at hj
          exact absurd hk (hlone hj k hki)
      · by_cases hki : k = i
        · rw [hki, hlocal] at hk
          exact absurd hj (hlone hk j hji)
        · rw [hothers j hji] at hj
          rw [hothers k hki] at hk
          exact hminted.alone j k hj hk
  cases action with
  | start request =>
    simp only [linkCalls] at hcall
    split_ifs at hcall
    obtain ⟨hshared, rfl⟩ := Prod.mk.inj (Option.some.inj hcall)
    cases request with
    | create settings ctx req draws =>
      exact hkept (by rw [hshared]) hshortens (fun hminting => by cases hminting)
    | _ => exact hshortens.elim
  | drop aliasName =>
    obtain ⟨hshared, rfl⟩ := Prod.mk.inj (Option.some.inj hcall)
    have hstore : t.shared.store = s.shared.store := by rw [← hshared]; rfl
    exact hkept (by rw [hstore]) (hminted.stands i) .inl
  | next now =>
    have hvalid : ∀ settings ctx req draws, s.locals i = .create settings ctx req draws →
        (∃ checked, checkCreate u settings req = .ok checked) →
          (∀ j, ¬ minting (s.locals j)) ∧ ∀ row ∈ made, row.expiresAt.all (now < ·) := by
      intro settings ctx req draws hcreate hchecked
      unfold LooksAlone at halone
      simp only [hcreate] at halone
      obtain ⟨hlone, hexpiry⟩ := halone hchecked
      refine ⟨hlone, fun row hrow => hexpiry row ?_ (hminted.fresh row hrow).new⟩
      rw [hminted.links]
      exact List.mem_append_right _ hrow
    rcases nextStep_stands hminted.links hminted.fresh hnone hshortens (hminted.stands i)
        (fun settings ctx req draws hcreate hchecked =>
          (hvalid settings ctx req draws hcreate hchecked).2) hcall with
      ⟨hlinks, hstands, hmints⟩ | ⟨row, link, hminting, hlinks, hnew, rfl, hid⟩
    · refine hkept hlinks hstands fun hminting => ?_
      rcases hmints hminting with hold | ⟨settings, ctx, req, draws, hcreate, hchecked⟩
      · exact .inl hold
      · exact .inr (hvalid settings ctx req draws hcreate hchecked).1
    · have hnil : made = [] := (hminted.stands i).of_minting hminting
      subst hnil
      have hrest : ∀ j, j ≠ i → ¬ minting (t.locals j) := by
        intro j hj hother
        rw [hothers j hj] at hother
        exact hj (hminted.alone j i hother hminting)
      refine ⟨[row], ⟨hlinks, fun r hr => ?_, le_rfl, fun j => ?_, fun j k hj hk => ?_⟩,
        List.nil_subset _⟩
      · rw [List.mem_singleton.mp hr]
        exact hnew
      · by_cases hji : j = i
        · rw [hji, hlocal]
          exact ⟨row, List.mem_singleton_self row, hid⟩
        · have hquiet := hrest j hji
          rw [hothers j hji] at hquiet ⊢
          exact (hminted.stands j).of_nil hquiet
      · by_cases hji : j = i
        · rw [hji, hlocal] at hj
          cases hj
        · exact absurd hj (hrest j hji)

theorem minted_run (hnone : ∀ row ∈ before.links, ¬ reusable destination actor start row)
    {s t : Pool World Call} {as : List (ℕ × Action)}
    (hminted : Minted actor destination before made s)
    (hC : (linkCalls u loc svc localOffset).machine.Along
      (fun s a => Shortens actor destination start a.2 ∧ LooksAlone u before s a) s as)
    (hrun : (linkCalls u loc svc localOffset).machine.run s as = some t) :
    ∃ more, Minted actor destination before more t ∧ made ⊆ more := by
  refine Machine.run_invariant_along _
    (I := fun s => ∃ more, Minted actor destination before more s ∧ made ⊆ more) ?_
    ⟨made, hminted, List.Subset.refl made⟩ hC hrun
  rintro s a t ⟨more, hmore, hsub⟩ hC hstep
  obtain ⟨most, hmost, hmoreSub⟩ := minted_step hnone hmore hC hstep
  exact ⟨most, hmost, List.Subset.trans hsub hmoreSub⟩

/-- A call that has succeeded names a link that was made. -/
theorem Minted.made_of_done {s : Pool World Call}
    (h : Minted actor destination before made s) {i : ℕ} {r : CreateResult}
    (hdone : s.locals i = .done (.created (.ok r))) : ∃ row ∈ made, row.id = r.link.id := by
  have hstands := h.stands i
  rw [hdone] at hstands
  exact hstands

theorem Minted.only {s : Pool World Call} (h : Minted actor destination before made s)
    {row row' : LinkRow} (hrow : row ∈ made) (hrow' : row' ∈ made) : row = row' := by
  obtain ⟨only, rfl⟩ := List.length_eq_one_iff.mp
    (Nat.le_antisymm h.short (List.length_pos_of_mem hrow))
  rw [List.mem_singleton.mp hrow, List.mem_singleton.mp hrow']

/-- Calls that look alone share one code. -/
theorem one_code_per_destination {s m t : Pool World Call} {as bs : List (ℕ × Action)}
    (hidle : ∀ i, s.locals i = .idle)
    (hnone : ∀ row ∈ s.shared.store.links, ¬ reusable destination actor start row)
    (hcalls : ∀ a ∈ as ++ bs, Shortens actor destination start a.2)
    (halone : (linkCalls u loc svc localOffset).machine.Along (LooksAlone u s.shared.store) s
      (as ++ bs))
    (hm : (linkCalls u loc svc localOffset).machine.run s as = some m)
    (ht : (linkCalls u loc svc localOffset).machine.run m bs = some t) : OneCode s m t := by
  have hinit : Minted actor destination s.shared.store [] s := by
    refine ⟨(List.append_nil _).symm, fun row hrow => ?_, Nat.zero_le 1, fun i => ?_,
      fun i j hi => ?_⟩
    · cases hrow
    · rw [hidle i]
      trivial
    · rw [hidle i] at hi
      cases hi
  have hC := Machine.Along.and _ (Machine.along_of_mem _ hcalls s) halone
  obtain ⟨hfirst, hrest⟩ := Machine.Along.of_append _ hC hm
  obtain ⟨madeM, hmintedM, -⟩ := minted_run hnone hinit hfirst hm
  obtain ⟨madeT, hmintedT, hsub⟩ := minted_run hnone hmintedM hrest ht
  refine ⟨fun i j r r' hi hj => ?_, madeT, hmintedT.links, hmintedT.short⟩
  obtain ⟨row, hrow, hid⟩ := hmintedM.made_of_done hi
  obtain ⟨row', hrow', hid'⟩ := hmintedT.made_of_done hj
  rw [← hid, ← hid', hmintedT.only (hsub hrow) hrow']

end

/-! ## Two calls for one page -/

/-- A request for the page, which will give its link this identifier. -/
def shortenPage (id : Uuid) : Request :=
  .create { aliasMode := lit "sequential", uniqueURLs := true } { user := some { id := default } }
    { destinationURL := lit "http://example.com/" } fun _ => ⟨id, 0, none⟩

def otherID : Uuid := Uuid.filled (Fin.last 15)

/-- Process 0 makes the link. -/
def pageMade : List (ℕ × Action) :=
  (0, .start (shortenPage default)) :: List.replicate 5 (0, .next 0)

/-- Process 1 is handed it. -/
def pageReused : List (ℕ × Action) := [(1, .start (shortenPage otherID)), (1, .next 0)]

/-- Both processes look before either inserts. -/
def bothLook : List (ℕ × Action) :=
  [(0, .start (shortenPage default)), (1, .start (shortenPage otherID)),
      (0, .next 0), (1, .next 0)] ++
    List.replicate 4 (0, .next 0) ++ List.replicate 4 (1, .next 0)

/-- The link a create has returned. -/
def createdLink : Call → Option CreateResult
  | .done (.created (.ok r)) => some r
  | _ => none

theorem done_of_createdLink {call : Call} {r : CreateResult} (h : createdLink call = some r) :
    call = .done (.created (.ok r)) := by
  unfold createdLink at h
  split at h
  · rw [Option.some.inj h]
  · cases h

def looksAloneCheck (s : Pool World Call) (a : ℕ × Action) : Bool :=
  match s.locals a.1, a.2 with
  | .create .., .next now => !minting (s.locals 0) && !minting (s.locals 1) &&
      s.shared.store.links.all fun row => row.expiresAt.all (now < ·)
  | _, _ => true

theorem looksAlone_page : asciiCalls.Along (LooksAlone .ascii {}) ⟨{}, fun _ => .idle⟩
    (pageMade ++ pageReused) := by
  have hfew : ∀ a ∈ pageMade ++ pageReused, ¬ 2 ≤ a.1 := by simp [pageMade, pageReused]
  have hidle : asciiCalls.Along (fun t _ => ∀ j, 2 ≤ j → t.locals j = .idle)
      ⟨{}, fun _ => .idle⟩ (pageMade ++ pageReused) :=
    Process.along_locals (fun j => 2 ≤ j) hfew
  have hcheck : asciiCalls.Along (fun s a => looksAloneCheck s a) ⟨{}, fun _ => .idle⟩
      (pageMade ++ pageReused) :=
    Machine.along_of_check _ (fun _ _ h => h) (by decide)
  refine (Machine.Along.and _ hidle hcheck).imp _ fun s a h => ?_
  obtain ⟨hstill, hlook⟩ := h
  unfold LooksAlone
  unfold looksAloneCheck at hlook
  split
  · rename_i settings ctx req draws now hcreate hnext
    rw [hcreate, hnext] at hlook
    simp only [Bool.and_eq_true, Bool.not_eq_true', List.all_eq_true] at hlook
    obtain ⟨⟨hzero, hone⟩, hexpiry⟩ := hlook
    refine fun _ => ⟨fun j => ?_, fun row hrow _ => hexpiry row hrow⟩
    by_cases hj : 2 ≤ j
    · rw [hstill j hj]
      decide
    · have hlt : j = 0 ∨ j = 1 := by omega
      rcases hlt with rfl | rfl
      · simp [hzero]
      · simp [hone]
  · trivial

/-- The second call is handed the link of the first. -/
theorem page_reused : ∃ m t, asciiCalls.run ⟨{}, fun _ => .idle⟩ pageMade = some m ∧
    asciiCalls.run m pageReused = some t ∧ OneCode ⟨{}, fun _ => .idle⟩ m t ∧
    (createdLink (m.locals 0)).map CreateResult.created = some true ∧
    (createdLink (t.locals 1)).map CreateResult.created = some false := by
  have hruns : ((asciiCalls.run ⟨{}, fun _ => .idle⟩ pageMade).bind fun m =>
      (asciiCalls.run m pageReused).map fun t =>
        ((createdLink (m.locals 0)).map CreateResult.created,
          (createdLink (t.locals 1)).map CreateResult.created)) = some (some true, some false) := by
    decide
  obtain ⟨m, hm, hrest⟩ := Option.bind_eq_some_iff.mp hruns
  obtain ⟨t, ht, hpair⟩ := Option.map_eq_some_iff.mp hrest
  obtain ⟨hmade, hreused⟩ := Prod.mk.inj hpair
  refine ⟨m, t, hm, ht, ?_, hmade, hreused⟩
  have hnone : ∀ row ∈ ({} : LinkStore).links,
      ¬ reusable (lit "http://example.com/") default 0 row := fun row hrow => by cases hrow
  refine one_code_per_destination (fun _ => rfl) hnone ?_ looksAlone_page hm ht
  simp [pageMade, pageReused, shortenPage, Shortens, Context.actorID]

/-- Both calls make a link. -/
theorem two_codes_minted :
    ¬ ∀ (as : List (ℕ × Action)) (t : Pool World Call),
      (∀ a ∈ as, Shortens default (lit "http://example.com/") 0 a.2) →
      asciiCalls.run ⟨{}, fun _ => .idle⟩ as = some t → OneCode ⟨{}, fun _ => .idle⟩ t t := by
  intro hclaim
  have hrun : ((asciiCalls.run ⟨{}, fun _ => .idle⟩ bothLook).map fun t =>
      ((createdLink (t.locals 0)).map fun r => r.link.id,
        (createdLink (t.locals 1)).map fun r => r.link.id)) =
      some (some default, some otherID) := by
    decide
  obtain ⟨t, ht, hpair⟩ := Option.map_eq_some_iff.mp hrun
  obtain ⟨hzero, hone⟩ := Prod.mk.inj hpair
  obtain ⟨r, hr, hid⟩ := Option.map_eq_some_iff.mp hzero
  obtain ⟨r', hr', hid'⟩ := Option.map_eq_some_iff.mp hone
  have hcalls : ∀ a ∈ bothLook, Shortens default (lit "http://example.com/") 0 a.2 := by
    simp [bothLook, shortenPage, Shortens, Context.actorID]
  have hsame := (hclaim bothLook t hcalls ht).1 0 1 r r' (done_of_createdLink hr)
    (done_of_createdLink hr')
  rw [hid, hid'] at hsame
  exact absurd hsame (by decide)

end Purels.Properties
