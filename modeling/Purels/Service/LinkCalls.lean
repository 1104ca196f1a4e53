import Purels.Lib.Processes
import Purels.Service.LinkSpecs

/-!
# Link calls, statement by statement

The operations of the link service as processes over the link tables and the
redirect cache.  One step is one statement of the store or one command of the
cache, with the computation that leads up to it.  `CreateLink` and `UpdateLink`
are one step each: their transaction holds the lock of its row from the first
statement to the commit, and is not seen before.

* `World`: the tables, and the cache with its JSON encoding.
* `Call`: how far a call has come and what it has read.
* `nextStep` and `linkCalls`: the steps of a call.
* `createInsertStep_cases` and its companions: what the writing steps can do.
-/

namespace Purels.Service

open Go Security Store Lib

/-! ## The shared state -/

/-- The link tables, and the entries of the redirect cache by alias. -/
structure World where
  store : LinkStore := {}
  cache : GoString → Option Link := fun _ => none

/-- `json.Marshal` takes the times of the link, each shown in a zone `offset`
seconds east of UTC. -/
def cacheable (offset : Instant → Int) (link : Link) : Bool :=
  let fits (t : Instant) : Bool := marshalsJSON (offset t) t
  fits link.createdAt && fits link.updatedAt && link.expiresAt.all fits &&
    link.lastCheckedAt.all fits

/-- `Cache.SetLink`; nothing is sent when the link cannot be marshalled. -/
def World.setLink (w : World) (offset : Instant → Int) (link : Link) : World :=
  if cacheable offset link then
    { w with cache := Function.update w.cache link.aliasName (some link) }
  else w

/-- `Cache.DeleteLink`, and what an expired key comes to. -/
def World.dropLink (w : World) (aliasName : GoString) : World :=
  { w with cache := Function.update w.cache aliasName none }

/-- `isUsable`. -/
def isUsable (link : Link) (now : Instant) : Bool :=
  link.status == .active && link.expiresAt.all (now < ·)

/-! ## Calls -/

/-- A call with its arguments, and for a create what `newLink` will draw. -/
inductive Request where
  | resolve (aliasName : GoString)
  | create (settings : RuntimeSettingsInput) (ctx : Context) (req : CreateLinkRequest)
      (draws : Fin aliasAttempts → Draw)
  | update (settings : RuntimeSettingsInput) (ctx : Context) (id : GoString)
      (req : UpdateLinkRequest)
  | delete (ctx : Context) (id : GoString)
  | bulk (ctx : Context) (req : BulkLinkRequest)

/-- What a call returns. -/
inductive Result where
  | resolved (res : Except ServiceError Link)
  | created (res : Except ServiceError CreateResult)
  | updated (res : Except ServiceError Link)
  | deleted (res : Except ServiceError Unit)
  | changed (res : Except ServiceError Nat)

/-- Where a call stands: the next thing it does. -/
inductive Call where
  | idle
  /-- Reads the cache. -/
  | resolve (aliasName : GoString)
  /-- Reads the row, the cache having no entry. -/
  | resolveMiss (aliasName : GoString)
  /-- Caches the link it has read. -/
  | resolveCache (link : Link)
  /-- Checks the request and looks for a link to hand back. -/
  | create (settings : RuntimeSettingsInput) (ctx : Context) (req : CreateLinkRequest)
      (draws : Fin aliasAttempts → Draw)
  /-- Counts the links of the account, for the alias of the request or a drawn one. -/
  | createQuota (settings : RuntimeSettingsInput) (ctx : Context) (checked : CheckedLink)
      (named : Option GoString) (draws : Fin aliasAttempts → Draw)
  /-- Draws an alias. -/
  | createAlias (settings : RuntimeSettingsInput) (ctx : Context) (checked : CheckedLink)
      (draws : List Draw)
  /-- Inserts the link; a taken alias is replaced when draws are left for that. -/
  | createInsert (settings : RuntimeSettingsInput) (ctx : Context) (checked : CheckedLink)
      (link : Link) (retry : Option (List Draw))
  /-- Caches the link it has made. -/
  | createCache (link : Link)
  /-- Reads the link. -/
  | update (settings : RuntimeSettingsInput) (ctx : Context) (id : GoString)
      (req : UpdateLinkRequest)
  /-- Applies the request to the link it has read and writes it. -/
  | updateLoaded (settings : RuntimeSettingsInput) (ctx : Context) (id : GoString)
      (req : UpdateLinkRequest) (link : Link)
  /-- Reads the link again. -/
  | updateWritten (ctx : Context) (id : GoString)
  /-- Caches the link it has read again. -/
  | updateCache (link : Link)
  /-- Reads the link. -/
  | delete (ctx : Context) (id : GoString)
  /-- Deletes the row. -/
  | deleteLoaded (ctx : Context) (id : GoString) (aliasName : GoString)
  /-- Drops the cache entry. -/
  | deleteCache (aliasName : GoString)
  /-- Checks the request and edits the rows. -/
  | bulk (ctx : Context) (req : BulkLinkRequest)
  /-- Drops the cache entries of the edited rows, one by one. -/
  | evict (changed : Nat) (aliases : List GoString)
  | done (result : Result)

/-- A label: a process starts a call, or takes its next step at a time of its
clock; or the cache lets an entry go. -/
inductive Action where
  | start (request : Request)
  | next (now : Instant)
  | drop (aliasName : GoString)

/-- The call a request begins as. -/
def Request.call : Request → Call
  | .resolve aliasName => .resolve aliasName
  | .create settings ctx req draws => .create settings ctx req draws
  | .update settings ctx id req => .update settings ctx id req
  | .delete ctx id => .delete ctx id
  | .bulk ctx req => .bulk ctx req

/-- No call is in progress. -/
def Call.free : Call → Bool
  | .idle | .done _ => true
  | _ => false

section

variable (u : Unicode) (loc : DatabaseLocale) (svc : LinkService) (localOffset : Instant → Int)

/-! ## Steps

Each definition is one step; the world is changed by its statement only. -/

/-- The cache read of `Resolve`. -/
def resolveStep (aliasName : GoString) (now : Instant) (w : World) : Call :=
  match w.cache aliasName with
  | some link => .done (.resolved (if isUsable link now then .ok link else .error .notFound))
  | none => .resolveMiss aliasName

/-- The row read of `Resolve`. -/
def resolveMissStep (aliasName : GoString) (now : Instant) (w : World) : Call :=
  match w.store.GetLinkByAlias loc aliasName with
  | .error e => .done (.resolved (.error e))
  | .ok link => if isUsable link now then .resolveCache link else .done (.resolved (.error .notFound))

/-- The checks of `Create`, and its lookup of a link to hand back. -/
def createStep (settings : RuntimeSettingsInput) (ctx : Context) (req : CreateLinkRequest)
    (draws : Fin aliasAttempts → Draw) (now : Instant) (w : World) : Call :=
  match checkCreate u settings req with
  | .error e => .done (.created (.error e))
  | .ok checked =>
    if req.aliasName ≠ [] then
      match NormalizeAlias u req.aliasName with
      | .error e => .done (.created (.error e))
      | .ok aliasName => .createQuota settings ctx checked (some aliasName) draws
    else
      match reuseLink loc settings ctx req.destinationURL now w.store with
      | .error e => .done (.created (.error e))
      | .ok (some existing) => .done (.created (.ok ⟨existing, false⟩))
      | .ok none => .createQuota settings ctx checked none draws

/-- The quota check of `Create`. -/
def createQuotaStep (settings : RuntimeSettingsInput) (ctx : Context) (checked : CheckedLink)
    (named : Option GoString) (draws : Fin aliasAttempts → Draw) (w : World) : Call :=
  match checkQuota settings ctx w.store with
  | .error e => .done (.created (.error e))
  | .ok () =>
    match named with
    | some aliasName =>
      .createInsert settings ctx checked (newLink checked aliasName (draws 0)) none
    | none => .createAlias settings ctx checked (List.ofFn draws)

/-- The alias draw of `Create`, which may take a value of the sequence. -/
def createAliasStep (settings : RuntimeSettingsInput) (ctx : Context) (checked : CheckedLink)
    (draws : List Draw) (w : World) : World × Call :=
  match draws with
  | [] => (w, .done (.created (.error .conflict)))
  | draw :: draws =>
    match nextAlias settings draw w.store with
    | (.error e, store) => ({ w with store }, .done (.created (.error e)))
    | (.ok aliasName, store) =>
      ({ w with store },
        if AliasReserved u aliasName then .createAlias settings ctx checked draws
        else .createInsert settings ctx checked (newLink checked aliasName draw) (some draws))

/-- The insert of `Create`. -/
def createInsertStep (settings : RuntimeSettingsInput) (ctx : Context) (checked : CheckedLink)
    (link : Link) (retry : Option (List Draw)) (w : World) : World × Call :=
  match insertLink u svc settings link ctx.actorID w.store, retry with
  | (.ok (), store), _ => ({ w with store }, .createCache link)
  | (.error e, store), some draws =>
    ({ w with store },
      if e = .conflict then .createAlias settings ctx checked draws
      else .done (.created (.error e)))
  | (.error e, store), none => ({ w with store }, .done (.created (.error e)))

/-- The first read of `Update`. -/
def updateStep (settings : RuntimeSettingsInput) (ctx : Context) (id : GoString)
    (req : UpdateLinkRequest) (w : World) : Call :=
  match w.store.GetLink loc id ctx.ownerID with
  | .error e => .done (.updated (.error e))
  | .ok link => .updateLoaded settings ctx id req link

/-- The checks and the write of `Update`. -/
def updateLoadedStep (settings : RuntimeSettingsInput) (ctx : Context) (id : GoString)
    (req : UpdateLinkRequest) (link : Link) (now : Instant) (w : World) : World × Call :=
  match planUpdate u svc settings req link with
  | .error e => (w, .done (.updated (.error e)))
  | .ok edit =>
    match w.store.UpdateLink edit.link edit.tags edit.rules ctx.ownerID now with
    | (.error e, store) => ({ w with store }, .done (.updated (.error e)))
    | (.ok (), store) => ({ w with store }, .updateWritten ctx id)

/-- The second read of `Update`. -/
def updateWrittenStep (ctx : Context) (id : GoString) (w : World) : Call :=
  match w.store.GetLink loc id ctx.ownerID with
  | .error e => .done (.updated (.error e))
  | .ok link => .updateCache link

/-- The read of `Delete`. -/
def deleteStep (ctx : Context) (id : GoString) (w : World) : Call :=
  match w.store.GetLink loc id ctx.ownerID with
  | .error e => .done (.deleted (.error e))
  | .ok link => .deleteLoaded ctx id link.aliasName

/-- The write of `Delete`. -/
def deleteLoadedStep (ctx : Context) (id aliasName : GoString) (now : Instant) (w : World) :
    World × Call :=
  match w.store.DeleteLink id ctx.ownerID now with
  | (.error e, store) => ({ w with store }, .done (.deleted (.error e)))
  | (.ok (), store) => ({ w with store }, .deleteCache aliasName)

/-- The checks and the statement of `Bulk`. -/
def bulkStep (ctx : Context) (req : BulkLinkRequest) (now : Instant) (w : World) : World × Call :=
  match Bulk u ctx req now w.store with
  | (.error e, store) => ({ w with store }, .done (.changed (.error e)))
  | (.ok (changed, aliases), store) => ({ w with store }, .evict changed aliases)

/-- The next step of a call. -/
def nextStep (now : Instant) (w : World) : Call → Option (World × Call)
  | .idle | .done _ => none
  | .resolve aliasName => some (w, resolveStep aliasName now w)
  | .resolveMiss aliasName => some (w, resolveMissStep loc aliasName now w)
  | .resolveCache link => some (w.setLink localOffset link, .done (.resolved (.ok link)))
  | .create settings ctx req draws => some (w, createStep u loc settings ctx req draws now w)
  | .createQuota settings ctx checked named draws =>
    some (w, createQuotaStep settings ctx checked named draws w)
  | .createAlias settings ctx checked draws =>
    some (createAliasStep u settings ctx checked draws w)
  | .createInsert settings ctx checked link retry =>
    some (createInsertStep u svc settings ctx checked link retry w)
  | .createCache link =>
    some (w.setLink (fun _ => 0) link, .done (.created (.ok ⟨link, true⟩)))
  | .update settings ctx id req => some (w, updateStep loc settings ctx id req w)
  | .updateLoaded settings ctx id req link =>
    some (updateLoadedStep u svc settings ctx id req link now w)
  | .updateWritten ctx id => some (w, updateWrittenStep loc ctx id w)
  | .updateCache link => some (w.setLink localOffset link, .done (.updated (.ok link)))
  | .delete ctx id => some (w, deleteStep loc ctx id w)
  | .deleteLoaded ctx id aliasName => some (deleteLoadedStep ctx id aliasName now w)
  | .deleteCache aliasName => some (w.dropLink aliasName, .done (.deleted (.ok ())))
  | .bulk ctx req => some (bulkStep u ctx req now w)
  | .evict changed [] => some (w, .done (.changed (.ok changed)))
  | .evict changed (aliasName :: aliases) => some (w.dropLink aliasName, .evict changed aliases)

/-- The link service as processes. -/
def linkCalls : Process World Call Action where
  step w call
    | .start request => if call.free then some (w, request.call) else none
    | .next now => nextStep u loc svc localOffset now w call
    | .drop aliasName => some (w.dropLink aliasName, call)

/-! ## What the writing steps can do -/

open LinkStore

/-- The alias draw moves the sequence at most. -/
theorem createAliasStep_cases (settings : RuntimeSettingsInput) (ctx : Context)
    (checked : CheckedLink) (draws : List Draw) (w : World) :
    ∃ store call, createAliasStep u settings ctx checked draws w = ({ w with store }, call) ∧
      SameRows w.store store ∧ ((∃ e, call = .done (.created (.error e))) ∨
        (∃ draws, call = .createAlias settings ctx checked draws) ∨
        ∃ link retry, call = .createInsert settings ctx checked link retry) := by
  unfold createAliasStep
  split
  · exact ⟨w.store, _, rfl, SameRows.refl _, .inl ⟨_, rfl⟩⟩
  · rename_i draw draws
    have hsame := nextAlias_sameRows settings draw w.store
    split
    · rename_i hnext
      exact ⟨_, _, rfl, by simpa [hnext] using hsame, .inl ⟨_, rfl⟩⟩
    · rename_i aliasName store hnext
      refine ⟨store, _, rfl, by simpa [hnext] using hsame, .inr ?_⟩
      split_ifs
      · exact .inl ⟨_, rfl⟩
      · exact .inr ⟨_, _, rfl⟩

/-- The insert fails and leaves the world alone, or inserts the link. -/
theorem createInsertStep_cases (settings : RuntimeSettingsInput) (ctx : Context)
    (checked : CheckedLink) (link : Link) (retry : Option (List Draw)) (w : World) :
    (∃ call, createInsertStep u svc settings ctx checked link retry w = (w, call) ∧
      ((∃ e, call = .done (.created (.error e))) ∨
        ∃ draws, call = .createAlias settings ctx checked draws)) ∨
    (w.store.CreateLink link ctx.actorID = (.ok (), w.store.insertLink link ctx.actorID) ∧
      createInsertStep u svc settings ctx checked link retry w =
        ({ w with store := w.store.insertLink link ctx.actorID }, .createCache link)) := by
  unfold createInsertStep
  rcases insertLink_cases u svc settings link ctx.actorID w.store with
    ⟨e, he⟩ | ⟨-, heq, hins⟩
  · rw [he]
    refine .inl ?_
    cases retry with
    | none => exact ⟨_, rfl, .inl ⟨e, rfl⟩⟩
    | some draws =>
      refine ⟨_, rfl, ?_⟩
      split_ifs
      · exact .inr ⟨draws, rfl⟩
      · exact .inl ⟨e, rfl⟩
  · rw [heq]
    exact .inr ⟨hins, rfl⟩

/-- The write of an update fails and leaves the world alone, or edits its row. -/
theorem updateLoadedStep_cases (settings : RuntimeSettingsInput) (ctx : Context) (id : GoString)
    (req : UpdateLinkRequest) (link : Link) (now : Instant) (w : World) :
    (∃ e, updateLoadedStep u svc settings ctx id req link now w =
      (w, .done (.updated (.error e)))) ∨
    ∃ edit, planUpdate u svc settings req link = .ok edit ∧
      w.store.links.any (selects link.id ctx.ownerID) ∧
      updateLoadedStep u svc settings ctx id req link now w =
        ({ w with store := w.store.editLink edit.link edit.tags edit.rules ctx.ownerID now },
          .updateWritten ctx id) := by
  unfold updateLoadedStep
  split
  · exact .inl ⟨_, rfl⟩
  · rename_i edit hplan
    rcases w.store.UpdateLink_cases edit.link edit.tags edit.rules ctx.ownerID now with
      ⟨e, he⟩ | ⟨hok, -, hany, -⟩
    · rw [he]
      exact .inl ⟨e, rfl⟩
    · rw [hok]
      exact .inr ⟨edit, hplan, (planUpdate_ok hplan).id ▸ hany, rfl⟩

/-- The write of a deletion fails and leaves the world alone, or retires the row. -/
theorem deleteLoadedStep_cases (ctx : Context) (id aliasName : GoString) (now : Instant)
    (w : World) :
    (∃ e, deleteLoadedStep ctx id aliasName now w = (w, .done (.deleted (.error e)))) ∨
    ∃ uid, uuidParam id = .ok uid ∧ w.store.links.any (selects uid ctx.ownerID) ∧
      deleteLoadedStep ctx id aliasName now w =
        ({ w with store := w.store.updateLinks (selects uid ctx.ownerID) (retireRow now) },
          .deleteCache aliasName) := by
  unfold deleteLoadedStep
  rcases w.store.DeleteLink_cases id ctx.ownerID now with ⟨e, he⟩ | ⟨uid, huid, hany, hok⟩
  · rw [he]
    exact .inl ⟨e, rfl⟩
  · rw [hok]
    exact .inr ⟨uid, huid, hany, rfl⟩

/-- The statement of a bulk edit writes tags at most and leaves nothing to evict,
or updates rows and leaves their aliases. -/
theorem bulkStep_cases (ctx : Context) (req : BulkLinkRequest) (now : Instant) (w : World) :
    (∃ names linkTags call,
      bulkStep u ctx req now w =
        ({ w with store := { w.store with tags := names, linkTags := linkTags } }, call) ∧
      ((∃ e, call = .done (.changed (.error e))) ∨ ∃ changed, call = .evict changed [])) ∨
    ∃ selected set changed, (∀ row, BulkSets row (set row)) ∧
      bulkStep u ctx req now w =
        ({ w with store := w.store.updateLinks selected set },
          .evict changed ((w.store.links.filter selected).map LinkRow.aliasName)) := by
  unfold bulkStep
  rcases Bulk_cases u ctx req now w.store with
    ⟨res, names, linkTags, heq, hnone⟩ | ⟨selected, set, hset, heq⟩
  · rw [heq]
    refine .inl ⟨names, linkTags, ?_⟩
    rcases res with e | ⟨changed, aliases⟩
    · exact ⟨_, rfl, .inl ⟨e, rfl⟩⟩
    · exact ⟨_, rfl, .inr ⟨changed, by rw [hnone changed aliases rfl]⟩⟩
  · rw [heq]
    exact .inr ⟨selected, set, _, hset, rfl⟩

end

end Purels.Service
