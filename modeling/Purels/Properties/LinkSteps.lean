import Purels.Service.LinkCalls
import Purels.Service.LinkSpecs
import Purels.Store.Writes

/-!
# What a step of a link call does

Every step either writes the tables, sets one cache entry or drops one.  The
invariants of runs of calls follow from that, without the steps.

* `Owes`: an edit has written its row and has still to touch the cache.
* `Located`: what a call remembers of a row is still so.
* `Effect` and `nextStep_effect`: the step lemma.
* `reachable_sound`: keys, stored values and locations, in every run.
-/

namespace Purels.Properties

open Go Store LinkStore Service Lib

section

variable (u : Unicode) (loc : DatabaseLocale) (svc : LinkService) (localOffset : Instant → Int)

/-- The call has edited the row of the alias and will still set or drop its cache
entry: an update that will find the link again, or the command itself. -/
def Owes (s : LinkStore) (aliasName : GoString) : Call → Prop
  | .updateWritten ctx id => ∃ link, s.GetLink loc id ctx.ownerID = .ok link ∧
      link.aliasName = aliasName
  | .updateCache link => link.aliasName = aliasName
  | .deleteCache edited => edited = aliasName
  | .evict _ aliases => aliasName ∈ aliases
  | _ => False

/-- What a call remembers of a row is still so. -/
def Located (s : LinkStore) : Call → Prop
  | .resolveCache link | .createCache link | .updateCache link =>
    ∃ row ∈ s.links, row.aliasName = link.aliasName
  | .updateLoaded _ _ id _ link =>
    ∃ row ∈ s.links, uuidParam id = .ok row.id ∧ row.id = link.id ∧ row.aliasName = link.aliasName
  | .deleteLoaded _ id aliasName =>
    ∃ row ∈ s.links, uuidParam id = .ok row.id ∧ row.aliasName = aliasName
  | _ => True

/-- The row holds what a statement can have stored. -/
def Stored (row : LinkRow) : Prop :=
  row.expiresAt.map toMicroseconds = row.expiresAt ∧ row.domain ≠ some []

/-- The call is about to set the link, shown in a zone `offset` seconds east of UTC. -/
def Sets (offset : Instant → Int) (link : Link) : Call → Prop
  | .resolveCache set | .updateCache set => set = link ∧ offset = localOffset
  | .createCache set => set = link ∧ offset = fun _ => 0
  | _ => False

/-- What the next step of a call does. -/
inductive Effect (w : World) (call : Call) (w' : World) (call' : Call) : Prop
  | write (touched : GoString → Prop) (hcache : w'.cache = w.cache)
      (hcarries : Carries touched w.store w'.store)
      (hstored : (∀ row ∈ w.store.links, Stored row) → ∀ row ∈ w'.store.links, Stored row)
      (hlocated : Located w'.store call')
      (howes : ∀ aliasName, touched aliasName ∨ Owes loc w.store aliasName call →
        Owes loc w'.store aliasName call')
  | set (offset : Instant → Int) (link : Link) (result : Result)
      (hworld : w' = w.setLink offset link) (hcall : call' = .done result)
      (hsets : Sets localOffset offset link call)
  | drop (aliasName : GoString) (hworld : w' = w.dropLink aliasName)
      (hlocated : Located w.store call')
      (howes : ∀ other ≠ aliasName, Owes loc w.store other call → Owes loc w.store other call')

variable {u loc svc localOffset}

/-! ## What a write carries over -/

section

variable {touched : GoString → Prop} {s s' : LinkStore} {aliasName : GoString}

/-- A loaded link is that of a row. -/
theorem row_of_GetLink {store : LinkStore} {id : GoString} {owner : Option Uuid} {link : Link}
    (h : store.GetLink loc id owner = .ok link) :
    ∃ row ∈ store.links, selects row.id owner row ∧ uuidParam id = .ok row.id ∧
      row.id = link.id ∧ row.aliasName = link.aliasName := by
  obtain ⟨uid, row, huid, hrow, rfl⟩ := GetLink_ok h
  obtain ⟨hmem, hselects⟩ := liveRow_eq_some hrow
  have hid : row.id = uid := by
    simp only [selects, Bool.and_eq_true, beq_iff_eq] at hselects
    exact hselects.1.1
  subst hid
  exact ⟨row, hmem, hselects, huid, rfl, rfl⟩

theorem owes_carries (hcarries : Carries touched s s') (hun : ¬ touched aliasName) {call : Call}
    (howes : Owes loc s aliasName call) : Owes loc s' aliasName call := by
  cases call with
  | updateWritten ctx id =>
    obtain ⟨link, hget, halias⟩ := howes
    obtain ⟨row, hrow, hselects, huid, -, hrowAlias⟩ := row_of_GetLink hget
    obtain ⟨row', hrow', -, -, -, hsame⟩ := hcarries.row row hrow
    obtain ⟨rfl, -⟩ := hsame ((hrowAlias.trans halias).symm ▸ hun)
    exact ⟨_, hcarries.keyed.GetLink_eq hrow' huid hselects, hrowAlias.trans halias⟩
  | updateCache link => exact howes
  | deleteCache edited => exact howes
  | evict changed aliases => exact howes
  | _ => exact howes.elim

theorem located_carries (hcarries : Carries touched s s') {call : Call} (h : Located s call) :
    Located s' call := by
  have hkept : ∀ row ∈ s.links, ∃ row' ∈ s'.links, row'.id = row.id ∧
      row'.aliasName = row.aliasName := by
    intro row hrow
    obtain ⟨row', hrow', hid, halias, -⟩ := hcarries.row row hrow
    exact ⟨row', hrow', hid, halias⟩
  cases call with
  | resolveCache link | createCache link | updateCache link =>
    obtain ⟨row, hrow, heq⟩ := h
    obtain ⟨row', hrow', -, halias⟩ := hkept row hrow
    exact ⟨row', hrow', halias.trans heq⟩
  | updateLoaded settings ctx id req link =>
    obtain ⟨row, hrow, huid, hlink, heq⟩ := h
    obtain ⟨row', hrow', hid, halias⟩ := hkept row hrow
    exact ⟨row', hrow', hid ▸ huid, hid.trans hlink, halias.trans heq⟩
  | deleteLoaded ctx id edited =>
    obtain ⟨row, hrow, huid, heq⟩ := h
    obtain ⟨row', hrow', hid, halias⟩ := hkept row hrow
    exact ⟨row', hrow', hid ▸ huid, halias.trans heq⟩
  | _ => trivial

end

/-! ## Stored values -/

theorem stored_newRow (link : Link) (owner : Option Uuid) : Stored (newRow link owner) := by
  refine ⟨?_, ?_⟩
  · cases hexpiry : link.expiresAt with
    | none => simp [newRow, hexpiry]
    | some t => simp [newRow, hexpiry, toMicroseconds_toMicroseconds]
  · simp only [newRow]
    split_ifs with hnil
    · simp
    · simpa using hnil

theorem stored_editRow (link : Link) (now : Instant) (row : LinkRow) :
    Stored (editRow link now row) := by
  refine ⟨?_, ?_⟩
  · cases hexpiry : link.expiresAt with
    | none => simp [editRow, hexpiry]
    | some t => simp [editRow, hexpiry, toMicroseconds_toMicroseconds]
  · simp only [editRow]
    split_ifs with hnil
    · simp
    · simpa using hnil

theorem stored_bulk {row row' : LinkRow} (hset : BulkSets row row') (h : Stored row) :
    Stored row' := by
  refine ⟨?_, hset.domain ▸ h.2⟩
  rcases hset.expiresAt with hsame | ⟨expiresAt, hnew⟩
  · rw [hsame]
    exact h.1
  · rw [hnew, Option.map_map]
    cases expiresAt with
    | none => rfl
    | some t => simp [toMicroseconds_toMicroseconds]

/-- An update of rows keeps stored values when what it sets is stored. -/
theorem stored_updateLinks {s : LinkStore} {selected : LinkRow → Bool} {set : LinkRow → LinkRow}
    (hset : ∀ row, Stored row → Stored (set row)) (h : ∀ row ∈ s.links, Stored row) :
    ∀ row ∈ (s.updateLinks selected set).links, Stored row := by
  intro row hrow
  obtain ⟨old, hold, rfl⟩ := List.mem_map.mp hrow
  split_ifs
  · exact hset old (h old hold)
  · exact h old hold

/-! ## Steps -/

section

variable {w w' : World} {call call' : Call}

theorem located_resolveStep (aliasName : GoString) (now : Instant) (w : World) :
    Located w.store (resolveStep aliasName now w) := by
  unfold resolveStep
  split <;> trivial

theorem located_resolveMissStep (aliasName : GoString) (now : Instant) (w : World) :
    Located w.store (resolveMissStep loc aliasName now w) := by
  unfold resolveMissStep
  split
  · trivial
  · rename_i link hget
    split_ifs
    · obtain ⟨row, hrow, -, -, rfl⟩ := GetLinkByAlias_ok hget
      exact ⟨row, hrow, rfl⟩
    · trivial

theorem located_createStep (settings : RuntimeSettingsInput) (ctx : Context)
    (req : CreateLinkRequest) (draws : Fin aliasAttempts → Draw) (now : Instant) (w : World) :
    Located w.store (createStep u loc settings ctx req draws now w) := by
  unfold createStep
  split
  · trivial
  · split_ifs <;> split <;> trivial

theorem located_createQuotaStep (settings : RuntimeSettingsInput) (ctx : Context)
    (checked : CheckedLink) (named : Option GoString) (draws : Fin aliasAttempts → Draw)
    (w : World) : Located w.store (createQuotaStep settings ctx checked named draws w) := by
  unfold createQuotaStep
  split
  · trivial
  · split <;> trivial

theorem located_updateStep (settings : RuntimeSettingsInput) (ctx : Context) (id : GoString)
    (req : UpdateLinkRequest) (w : World) :
    Located w.store (updateStep loc settings ctx id req w) := by
  unfold updateStep
  split
  · trivial
  · rename_i link hget
    obtain ⟨row, hrow, -, huid, hid, halias⟩ := row_of_GetLink hget
    exact ⟨row, hrow, huid, hid, halias⟩

theorem located_deleteStep (ctx : Context) (id : GoString) (w : World) :
    Located w.store (deleteStep loc ctx id w) := by
  unfold deleteStep
  split
  · trivial
  · rename_i link hget
    obtain ⟨row, hrow, -, huid, -, halias⟩ := row_of_GetLink hget
    exact ⟨row, hrow, huid, halias⟩

/-- A step that reads, or changes the alias sequence or the tags at most. -/
theorem Effect.read (hkeyed : w.store.Keyed) (hcache : w'.cache = w.cache)
    (hlinks : w'.store.links = w.store.links) (hrules : w'.store.rules = w.store.rules)
    (hlocated : Located w'.store call')
    (howes : ∀ aliasName, Owes loc w.store aliasName call → Owes loc w'.store aliasName call') :
    Effect loc localOffset w call w' call' :=
  .write (fun _ => False) hcache (carries_of_eq hkeyed _ hlinks hrules) (fun h => hlinks ▸ h)
    hlocated fun aliasName hor => howes aliasName (hor.resolve_left id)

/-- The second read of an update finds the row, which then owes its step, or ends the
call. -/
theorem updateWritten_effect (hkeyed : w.store.Keyed) (ctx : Context) (id : GoString) :
    Effect loc localOffset w (.updateWritten ctx id) w (updateWrittenStep loc ctx id w) := by
  unfold updateWrittenStep
  split
  · rename_i e hget
    refine .read hkeyed rfl rfl rfl trivial fun aliasName howes => ?_
    obtain ⟨link, hlink, -⟩ := howes
    simp [hget] at hlink
  · rename_i link hget
    obtain ⟨row, hrow, -, -, -, halias⟩ := row_of_GetLink hget
    refine .read hkeyed rfl rfl rfl ⟨row, hrow, halias⟩ fun aliasName howes => ?_
    obtain ⟨other, hother, rfl⟩ := howes
    obtain rfl : link = other := by simpa [hget] using hother
    exact rfl

/-- The write of an update edits the row of the link it has loaded. -/
theorem updateLoaded_effect (hkeyed : w.store.Keyed) {settings : RuntimeSettingsInput}
    {ctx : Context} {id : GoString} {req : UpdateLinkRequest} {link : Link} (now : Instant)
    (hlocated : Located w.store (.updateLoaded settings ctx id req link)) :
    Effect loc localOffset w (.updateLoaded settings ctx id req link)
      (updateLoadedStep u svc settings ctx id req link now w).1
      (updateLoadedStep u svc settings ctx id req link now w).2 := by
  rcases updateLoadedStep_cases u svc settings ctx id req link now w with
    ⟨e, heq⟩ | ⟨edit, hplan, hany, heq⟩ <;> rw [heq]
  · exact .read hkeyed rfl rfl rfl trivial (fun _ howes => howes)
  obtain ⟨row, hrow, huid, hid, -⟩ := hlocated
  have hedit := (planUpdate_ok hplan).id
  have hcarries := carries_editLink hkeyed edit.link edit.tags edit.rules ctx.ownerID now
    (by rw [hedit]; exact hany)
  have hstored : (∀ row ∈ w.store.links, Stored row) →
      ∀ row ∈ (w.store.editLink edit.link edit.tags edit.rules ctx.ownerID now).links,
        Stored row := by
    intro h
    rw [editLink_links]
    exact stored_updateLinks (fun row _ => stored_editRow edit.link now row) h
  refine .write _ rfl hcarries hstored trivial fun aliasName hor => ?_
  rcases hor with ⟨other, hother, hselects, rfl⟩ | howes
  · obtain rfl : other = row := by
      simp only [selects, Bool.and_eq_true, beq_iff_eq] at hselects
      exact hkeyed.eq_of_id hother hrow (hselects.1.1.trans (hedit.trans hid.symm))
    have hedited : editRow edit.link now other ∈ (w.store.editLink edit.link edit.tags
        edit.rules ctx.ownerID now).links := by
      rw [editLink_links]
      exact List.mem_map.mpr ⟨other, hother, by rw [if_pos hselects]⟩
    have hstill : selects other.id ctx.ownerID (editRow edit.link now other) := by
      rw [hedit, ← hid] at hselects
      exact hselects
    exact ⟨_, hcarries.keyed.GetLink_eq hedited huid hstill, rfl⟩
  · exact howes.elim

/-- The write of a deletion retires the row it has loaded. -/
theorem deleteLoaded_effect (hkeyed : w.store.Keyed) {ctx : Context} {id edited : GoString}
    (now : Instant) (hlocated : Located w.store (.deleteLoaded ctx id edited)) :
    Effect loc localOffset w (.deleteLoaded ctx id edited)
      (deleteLoadedStep ctx id edited now w).1 (deleteLoadedStep ctx id edited now w).2 := by
  rcases deleteLoadedStep_cases ctx id edited now w with ⟨e, heq⟩ | ⟨uid, huid, hany, heq⟩ <;>
    rw [heq]
  · exact .read hkeyed rfl rfl rfl trivial (fun _ howes => howes)
  obtain ⟨row, hrow, huid', halias⟩ := hlocated
  obtain rfl : row.id = uid := by simpa [huid'] using huid
  refine .write _ rfl
    (carries_updateLinks hkeyed (selects row.id ctx.ownerID) (retireRow now) (fun _ => rfl)
      (fun _ => rfl) (fun row => Nat.le_succ row.version))
    (stored_updateLinks fun row h => ⟨h.1, h.2⟩) trivial fun aliasName hor => ?_
  rcases hor with ⟨other, hother, hselects, rfl⟩ | howes
  · simp only [selects, Bool.and_eq_true, beq_iff_eq] at hselects
    rw [hkeyed.eq_of_id hother hrow hselects.1.1]
    exact halias.symm
  · exact howes.elim

/-- The statement of a bulk edit owes a step to every alias it touches. -/
theorem bulk_effect (hkeyed : w.store.Keyed) (ctx : Context) (req : BulkLinkRequest)
    (now : Instant) :
    Effect loc localOffset w (.bulk ctx req) (bulkStep u ctx req now w).1
      (bulkStep u ctx req now w).2 := by
  rcases bulkStep_cases u ctx req now w with
    ⟨names, linkTags, call, heq, hcall⟩ | ⟨selected, set, changed, hset, heq⟩ <;> rw [heq]
  · refine .read hkeyed rfl rfl rfl ?_ (fun _ howes => howes.elim)
    rcases hcall with ⟨e, rfl⟩ | ⟨changed, rfl⟩ <;> trivial
  · refine .write _ rfl
      (carries_updateLinks hkeyed selected set (fun row => (hset row).id)
        (fun row => (hset row).aliasName) (fun row => (hset row).version ▸ Nat.le_succ row.version))
      (stored_updateLinks fun row => stored_bulk (hset row)) trivial fun aliasName hor => ?_
    rcases hor with ⟨row, hrow, hselected, rfl⟩ | howes
    · exact List.mem_map_of_mem (List.mem_filter.mpr ⟨hrow, hselected⟩)
    · exact howes.elim

/-- The step lemma: what the next step of a call does. -/
theorem nextStep_effect (hkeyed : w.store.Keyed) (hlocated : Located w.store call) {now : Instant}
    (hstep : nextStep u loc svc localOffset now w call = some (w', call')) :
    Effect loc localOffset w call w' call' := by
  cases call with
  | idle => simp [nextStep] at hstep
  | done result => simp [nextStep] at hstep
  | resolve aliasName =>
    obtain ⟨rfl, rfl⟩ := Prod.mk.inj (Option.some.inj hstep)
    exact .read hkeyed rfl rfl rfl (located_resolveStep ..) fun _ howes => howes.elim
  | resolveMiss aliasName =>
    obtain ⟨rfl, rfl⟩ := Prod.mk.inj (Option.some.inj hstep)
    exact .read hkeyed rfl rfl rfl (located_resolveMissStep ..) fun _ howes => howes.elim
  | create settings ctx req draws =>
    obtain ⟨rfl, rfl⟩ := Prod.mk.inj (Option.some.inj hstep)
    exact .read hkeyed rfl rfl rfl (located_createStep ..) fun _ howes => howes.elim
  | createQuota settings ctx checked named draws =>
    obtain ⟨rfl, rfl⟩ := Prod.mk.inj (Option.some.inj hstep)
    exact .read hkeyed rfl rfl rfl (located_createQuotaStep ..) fun _ howes => howes.elim
  | update settings ctx id req =>
    obtain ⟨rfl, rfl⟩ := Prod.mk.inj (Option.some.inj hstep)
    exact .read hkeyed rfl rfl rfl (located_updateStep ..) fun _ howes => howes.elim
  | delete ctx id =>
    obtain ⟨rfl, rfl⟩ := Prod.mk.inj (Option.some.inj hstep)
    exact .read hkeyed rfl rfl rfl (located_deleteStep ..) fun _ howes => howes.elim
  | resolveCache link =>
    obtain ⟨hw, hcall⟩ := Prod.mk.inj (Option.some.inj hstep)
    exact .set localOffset link _ hw.symm hcall.symm ⟨rfl, rfl⟩
  | createCache link =>
    obtain ⟨hw, hcall⟩ := Prod.mk.inj (Option.some.inj hstep)
    exact .set _ link _ hw.symm hcall.symm ⟨rfl, rfl⟩
  | updateCache link =>
    obtain ⟨hw, hcall⟩ := Prod.mk.inj (Option.some.inj hstep)
    exact .set localOffset link _ hw.symm hcall.symm ⟨rfl, rfl⟩
  | createAlias settings ctx checked draws =>
    obtain ⟨store, next, heq, ⟨n, rfl⟩, hnext⟩ := createAliasStep_cases u settings ctx checked draws w
    simp only [nextStep, heq, Option.some.injEq, Prod.mk.injEq] at hstep
    obtain ⟨rfl, rfl⟩ := hstep
    refine .read hkeyed rfl rfl rfl ?_ fun _ howes => howes.elim
    rcases hnext with ⟨e, rfl⟩ | ⟨draws, rfl⟩ | ⟨link, retry, rfl⟩ <;> trivial
  | createInsert settings ctx checked link retry =>
    rcases createInsertStep_cases u svc settings ctx checked link retry w with
      ⟨next, heq, hnext⟩ | ⟨hins, heq⟩ <;>
      simp only [nextStep, heq, Option.some.injEq, Prod.mk.injEq] at hstep <;>
      obtain ⟨rfl, rfl⟩ := hstep
    · refine .read hkeyed rfl rfl rfl ?_ fun _ howes => howes.elim
      rcases hnext with ⟨e, rfl⟩ | ⟨draws, rfl⟩ <;> trivial
    · rcases w.store.CreateLink_cases link ctx.actorID with ⟨e, he⟩ | ⟨-, -, hfresh, -⟩
      · simp [he] at hins
      refine .write (fun _ => False) rfl (carries_insert hkeyed hfresh) (fun h row hrow => ?_)
        ⟨newRow link ctx.actorID, by simp, rfl⟩ fun _ hor => hor.elim False.elim False.elim
      rw [insertLink_links] at hrow
      rcases List.mem_append.mp hrow with hold | hnew
      · exact h row hold
      · rw [List.mem_singleton.mp hnew]
        exact stored_newRow link ctx.actorID
  | updateLoaded settings ctx id req link =>
    obtain ⟨hw, hcall⟩ := Prod.mk.inj (Option.some.inj hstep)
    exact hw ▸ hcall ▸ updateLoaded_effect hkeyed now hlocated
  | updateWritten ctx id =>
    obtain ⟨rfl, rfl⟩ := Prod.mk.inj (Option.some.inj hstep)
    exact updateWritten_effect hkeyed ctx id
  | deleteLoaded ctx id edited =>
    obtain ⟨hw, hcall⟩ := Prod.mk.inj (Option.some.inj hstep)
    exact hw ▸ hcall ▸ deleteLoaded_effect hkeyed now hlocated
  | deleteCache edited =>
    obtain ⟨rfl, rfl⟩ := Prod.mk.inj (Option.some.inj hstep)
    exact .drop edited rfl trivial fun other hother howes => absurd (Eq.symm howes) hother
  | bulk ctx req =>
    obtain ⟨hw, hcall⟩ := Prod.mk.inj (Option.some.inj hstep)
    exact hw ▸ hcall ▸ bulk_effect hkeyed ctx req now
  | evict changed aliases =>
    cases aliases with
    | nil =>
      obtain ⟨rfl, rfl⟩ := Prod.mk.inj (Option.some.inj hstep)
      exact .read hkeyed rfl rfl rfl trivial fun _ howes => absurd howes List.not_mem_nil
    | cons edited aliases =>
      obtain ⟨rfl, rfl⟩ := Prod.mk.inj (Option.some.inj hstep)
      exact .drop edited rfl trivial fun other hother howes =>
        (List.mem_cons.mp howes).resolve_left hother

/-- No step takes a row away or its version back. -/
theorem Effect.rows (heffect : Effect loc localOffset w call w' call') :
    ∀ row ∈ w.store.links, ∃ row' ∈ w'.store.links, row'.aliasName = row.aliasName ∧
      row.version ≤ row'.version := by
  cases heffect with
  | write touched hcache hcarries hstored hlocated howes =>
    intro row hrow
    obtain ⟨row', hrow', -, halias, hversion, -⟩ := hcarries.row row hrow
    exact ⟨row', hrow', halias, hversion⟩
  | set offset link result hworld hcall hsets =>
    have hstore : w'.store = w.store := by
      rw [hworld, World.setLink]
      split_ifs <;> rfl
    exact fun row hrow => ⟨row, hstore ▸ hrow, rfl, le_rfl⟩
  | drop aliasName hworld hlocated howes =>
    exact fun row hrow => ⟨row, hworld ▸ hrow, rfl, le_rfl⟩

end

/-! ## Runs -/

/-- What holds of the tables and the calls in every run. -/
structure Sound (s : Pool World Call) : Prop where
  keyed : s.shared.store.Keyed
  stored : ∀ row ∈ s.shared.store.links, Stored row
  located : ∀ i, Located s.shared.store (s.locals i)

theorem sound_init : Sound ⟨{}, fun _ => .idle⟩ where
  keyed := ⟨List.nodup_nil, List.nodup_nil⟩
  stored _ hrow := absurd hrow List.not_mem_nil
  located _ := trivial

theorem sound_step {s t : Pool World Call} {a : ℕ × Action} (h : Sound s)
    (hstep : (linkCalls u loc svc localOffset).machine.step s a = some t) : Sound t := by
  obtain ⟨i, action⟩ := a
  obtain ⟨call, hcall, hlocal, hothers⟩ := Process.step_cases hstep
  -- The tables stay as they are, and process `i` remembers what is so.
  have hkept : t.shared.store = s.shared.store → Located t.shared.store call → Sound t := by
    intro hstore hlocated
    refine ⟨hstore ▸ h.keyed, hstore ▸ h.stored, fun j => ?_⟩
    by_cases hj : j = i
    · rw [hj, hlocal]
      exact hlocated
    · rw [hothers j hj, hstore]
      exact h.located j
  cases action with
  | start request =>
    simp only [linkCalls] at hcall
    split_ifs at hcall
    obtain ⟨hshared, rfl⟩ := Prod.mk.inj (Option.some.inj hcall)
    refine hkept (by rw [hshared]) ?_
    cases request <;> trivial
  | drop aliasName =>
    obtain ⟨hshared, rfl⟩ := Prod.mk.inj (Option.some.inj hcall)
    have hstore : t.shared.store = s.shared.store := by rw [← hshared]; rfl
    exact hkept hstore (hstore ▸ h.located i)
  | next now =>
    cases nextStep_effect h.keyed (h.located i) hcall with
    | write touched hcache hcarries hstored hlocated howes =>
      refine ⟨hcarries.keyed, hstored h.stored, fun j => ?_⟩
      by_cases hj : j = i
      · rw [hj, hlocal]
        exact hlocated
      · rw [hothers j hj]
        exact located_carries hcarries (h.located j)
    | set offset link result hworld hcall hsets =>
      refine hkept ?_ (hcall ▸ trivial)
      rw [hworld, World.setLink]
      split_ifs <;> rfl
    | drop aliasName hworld hlocated howes =>
      have hstore : t.shared.store = s.shared.store := by rw [hworld]; rfl
      exact hkept hstore (hstore ▸ hlocated)

/-- Every state of every run is sound. -/
theorem reachable_sound {s : Pool World Call} {as : List (ℕ × Action)}
    (hrun : (linkCalls u loc svc localOffset).machine.run ⟨{}, fun _ => .idle⟩ as = some s) :
    Sound s :=
  Machine.run_invariant _ (fun _ _ _ h hstep => sound_step h hstep) sound_init hrun

end

/-! ## A deployment with a link -/

abbrev asciiCalls : Machine (Pool World Call) (ℕ × Action) :=
  (linkCalls .ascii plainLocale ⟨lit "http://sho.rt"⟩ fun _ => 0).machine

/-- Process 0 creates `abc`. -/
def createAbcSteps : List (ℕ × Action) :=
  (0, .start (.create {} {} { destinationURL := lit "http://example.com/", aliasName := lit "abc" }
    fun _ => ⟨default, 0, none⟩)) :: List.replicate 4 (0, .next 0)

end Purels.Properties
