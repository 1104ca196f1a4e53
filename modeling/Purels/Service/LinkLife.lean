import Purels.Lib.Processes
import Purels.Service.LinkSpecs
import Purels.Store.Upkeep

/-!
# The writes of the link tables, statement by statement

Every operation that writes a row of `links`, as processes over the tables. A statement is one
step, and the transaction of `UpdateLink` is several: its first statement locks the row until the
commit, and statements that write a locked row wait. `CreateLink` is one step, for nobody sees
its row before the commit.

* `JoinWrite`, `joinWrites`: the statements of `setLinkTags` and `setLinkRules`.
* `LifeWorld`, `LifeRequest`, `LifeCall`: the tables with the locks, and the operations.
* `nextLifeStep` and `lifeCalls`: the steps.
* `applyJoins_editLink`: alone, the statements of an update are `UpdateLink`.
-/

namespace Purels.Service

open Go Store Lib LinkStore

/-! ## The statements behind an update -/

/-- A statement of `setLinkTags` or `setLinkRules`. -/
inductive JoinWrite where
  | dropTags
  | addTag (name : GoString)
  | dropRules
  | addRule (position : Nat) (rule : LinkRule)

/-- What it does to the tags and the rules of a link, whether there is such a link or not. -/
def JoinWrite.apply (id : Uuid) (s : LinkStore) : JoinWrite → LinkStore
  | .dropTags => { s with linkTags := s.linkTags.filter fun t => t.1 != id }
  | .addTag name =>
    { s with
      tags := if s.tags.contains name then s.tags else s.tags ++ [name]
      linkTags := if s.linkTags.contains (id, name) then s.linkTags
        else s.linkTags ++ [(id, name)] }
  | .dropRules => { s with rules := s.rules.filter fun r => r.linkID != id }
  | .addRule position rule => { s with rules := s.rules ++ [ruleRow id position rule] }

/-- The statements of `UpdateLink` behind the first. -/
def joinWrites (tags : Option (List GoString)) (rules : Option (List LinkRule)) :
    List JoinWrite :=
  (match tags with
    | none => []
    | some tags => .dropTags :: tags.map .addTag) ++
  match rules with
    | none => []
    | some rules => .dropRules :: rules.mapIdx .addRule

/-- The statements one after another. -/
def applyJoins (id : Uuid) (s : LinkStore) (writes : List JoinWrite) : LinkStore :=
  writes.foldl (JoinWrite.apply id) s

/-! ## The shared state -/

/-- The tables, and the rows that are locked by an update. -/
structure LifeWorld where
  store : LinkStore
  locked : List Uuid

/-- A statement that writes such rows has to wait. -/
def LifeWorld.blocks (w : LifeWorld) (selected : LinkRow → Bool) : Bool :=
  w.store.links.any fun row => selected row && w.locked.contains row.id

/-! ## Operations -/

/-- An operation with its arguments. -/
inductive LifeRequest where
  | create (checked : CheckedLink) (aliasName : GoString) (draw : Draw) (owner : Option Uuid)
  | update (svc : LinkService) (settings : RuntimeSettingsInput) (ctx : Context) (id : GoString)
      (req : UpdateLinkRequest)
  | delete (ctx : Context) (id : GoString)
  | bulk (ctx : Context) (req : BulkLinkRequest)
  | health (linkID : Uuid) (checkedAt : Instant) (statusCode : Int)
  | prune (grace limit : Nat)

/-- Where an operation stands. -/
inductive LifeCall where
  | start (request : LifeRequest)
  /-- Writes the link it has read and edited. -/
  | planned (edit : LinkEdit) (owner : Option Uuid)
  /-- Has locked the row, and writes its tags and rules. -/
  | writing (id : Uuid) (writes : List JoinWrite)
  | done (res : Except ServiceError Unit)

section

variable (u : Unicode) (loc : DatabaseLocale)

/-! ## Steps -/

/-- A statement of its own. -/
def LifeWorld.execute {α : Type} (w : LifeWorld) (result : Except ServiceError α × LinkStore) :
    LifeWorld × LifeCall :=
  ({ w with store := result.2 }, .done (result.1.map fun _ => ()))

/-- The read of `Update`, and its checks. -/
def loadStep (svc : LinkService) (settings : RuntimeSettingsInput) (ctx : Context)
    (id : GoString) (req : UpdateLinkRequest) (w : LifeWorld) : LifeCall :=
  match w.store.GetLink loc id ctx.ownerID with
  | .error e => .done (.error e)
  | .ok link =>
    match planUpdate u svc settings req link with
    | .error e => .done (.error e)
    | .ok edit => .planned edit ctx.ownerID

/-- The first statement of `UpdateLink`. A transaction whose later statements fail is rolled
back, and leaves nothing. -/
def editStep (edit : LinkEdit) (owner : Option Uuid) (now : Instant) (w : LifeWorld) :
    Option (LifeWorld × LifeCall) :=
  if !storableColumns edit.link then some (w, .done (.error .database))
  else if !(w.store.links.any (selects edit.link.id owner)) then
    some (w, .done (.error .notFound))
  else if w.blocks (selects edit.link.id owner) then none
  else if !((edit.tags.getD []).all storableTag && (edit.rules.getD []).all storableRule) then
    some (w, .done (.error .database))
  else
    some (⟨w.store.updateLinks (selects edit.link.id owner) (editRow edit.link now),
      edit.link.id :: w.locked⟩, .writing edit.link.id (joinWrites edit.tags edit.rules))

/-- `DeleteLink`. -/
def retireStep (id : GoString) (owner : Option Uuid) (now : Instant) (w : LifeWorld) :
    Option (LifeWorld × LifeCall) :=
  match uuidParam id with
  | .error _ => some (w.execute (w.store.DeleteLink id owner now))
  | .ok uid =>
    if w.blocks (selects uid owner) then none
    else some (w.execute (w.store.DeleteLink id owner now))

/-- A bulk edit that sets columns of the rows. -/
def BulkEdit.setsColumns : BulkEdit → Bool
  | .tag _ _ => false
  | _ => true

/-- The rows of a bulk statement. -/
def bulkRows (ids : List GoString) (owner : Option Uuid) (row : LinkRow) : Bool :=
  match uuidArray ids with
  | .error _ => false
  | .ok ids => bulkSelects ids owner row

/-- The statement of `Bulk`. -/
def bulkEditStep (ctx : Context) (req : BulkLinkRequest) (now : Instant) (w : LifeWorld) :
    Option (LifeWorld × LifeCall) :=
  match normalizeIDs u req.ids with
  | .error e => some (w, .done (.error e))
  | .ok ids =>
    match planBulk u req with
    | .error e => some (w, .done (.error e))
    | .ok edit =>
      if edit.setsColumns && w.blocks (bulkRows ids ctx.ownerID) then none
      else some (w.execute (edit.apply ids ctx.ownerID now w.store))

/-- The next step of an operation, at a time of the database. -/
def nextLifeStep (w : LifeWorld) (call : LifeCall) (now : Instant) :
    Option (LifeWorld × LifeCall) :=
  match call with
  | .start (.create checked aliasName draw owner) =>
    some (w.execute (w.store.CreateLink (newLink checked aliasName draw) owner))
  | .start (.update svc settings ctx id req) => some (w, loadStep u loc svc settings ctx id req w)
  | .start (.delete ctx id) => retireStep id ctx.ownerID now w
  | .start (.bulk ctx req) => bulkEditStep u ctx req now w
  | .start (.health linkID checkedAt statusCode) =>
    if w.blocks (fun row => row.id == linkID) then none
    else some (w.execute (w.store.RecordLinkHealth linkID checkedAt statusCode))
  | .start (.prune grace limit) =>
    let doomed := (w.store.prunable grace limit now).map LinkRow.id
    if w.blocks (fun row => doomed.contains row.id) then none
    else some ({ w with store := (w.store.PruneExpiredLinks grace limit now).2 }, .done (.ok ()))
  | .planned edit owner => editStep edit owner now w
  | .writing id (write :: writes) =>
    some ({ w with store := write.apply id w.store }, .writing id writes)
  | .writing id [] =>
    some ({ w with locked := w.locked.filter fun other => other != id }, .done (.ok ()))
  | .done _ => none

/-- The writes of the link tables, for any number of operations. -/
def lifeCalls : Process LifeWorld LifeCall Instant where
  step := nextLifeStep u loc

end

/-! ## An update alone -/

theorem applyJoins_append (id : Uuid) (s : LinkStore) (first second : List JoinWrite) :
    applyJoins id s (first ++ second) = applyJoins id (applyJoins id s first) second :=
  List.foldl_append

/-- Tags that are not linked yet are added one by one. -/
theorem applyJoins_addTags (id : Uuid) {names : List GoString} (hnodup : names.Nodup)
    {s : LinkStore} (hfree : ∀ name ∈ names, (id, name) ∉ s.linkTags) :
    applyJoins id s (names.map .addTag) =
      { s with
        tags := s.tags ++ names.filter fun name => !s.tags.contains name
        linkTags := s.linkTags ++ names.map fun name => (id, name) } := by
  induction names generalizing s with
  | nil => simp [applyJoins]
  | cons name names ih =>
    obtain ⟨hnew, hrest⟩ := List.nodup_cons.mp hnodup
    have hlinked : s.linkTags.contains (id, name) = false := by
      rw [Bool.eq_false_iff]
      intro hmem
      exact hfree name List.mem_cons_self (List.contains_iff_mem.mp hmem)
    have hstep : applyJoins id s ((name :: names).map .addTag) =
        applyJoins id { s with
          tags := if s.tags.contains name then s.tags else s.tags ++ [name]
          linkTags := s.linkTags ++ [(id, name)] } (names.map .addTag) := by
      show applyJoins id ((JoinWrite.addTag name).apply id s) (names.map .addTag) = _
      simp only [JoinWrite.apply, hlinked, Bool.false_eq_true, if_false]
    rw [hstep, ih hrest]
    · simp only [List.map_cons, List.append_assoc, List.singleton_append]
      congr 1
      by_cases hknown : s.tags.contains name = true
      · rw [if_pos hknown, List.filter_cons_of_neg (by simpa using hknown)]
      · rw [if_neg hknown, List.filter_cons_of_pos (by simpa using hknown), List.append_assoc]
        -- The tag that was just made is not made again.
        refine congrArg (fun rest => s.tags ++ ([name] ++ rest)) (List.filter_congr ?_)
        intro other hother
        have hne : other ≠ name := fun heq => hnew (heq ▸ hother)
        simp [hne]
    · intro other hother hmem
      rcases List.mem_append.mp hmem with hmem | hmem
      · exact hfree other (List.mem_cons_of_mem name hother) hmem
      · cases List.mem_singleton.mp hmem
        exact hnew hother

/-- The statements of `setLinkTags`. -/
theorem applyJoins_tags (id : Uuid) (s : LinkStore) {tags : List GoString} (hnodup : tags.Nodup) :
    applyJoins id s (.dropTags :: tags.map .addTag) = s.setLinkTags id tags := by
  have hfree : ∀ name ∈ tags, (id, name) ∉ (JoinWrite.dropTags.apply id s).linkTags := by
    intro name _ hmem
    simpa using (List.mem_filter.mp hmem).2
  show applyJoins id (JoinWrite.dropTags.apply id s) (tags.map .addTag) = _
  rw [applyJoins_addTags id hnodup hfree, setLinkTags, hnodup.dedup,
    (hnodup.filter _).dedup]
  rfl

/-- The statements of `setLinkRules`. -/
theorem applyJoins_rules (id : Uuid) (s : LinkStore) (rules : List LinkRule) :
    applyJoins id s (.dropRules :: rules.mapIdx .addRule) = s.setLinkRules id rules := by
  show applyJoins id (JoinWrite.dropRules.apply id s) (rules.mapIdx .addRule) = _
  induction rules using List.reverseRecOn with
  | nil => simp [applyJoins, setLinkRules, JoinWrite.apply]
  | append_singleton rules rule ih =>
    rw [List.mapIdx_concat, applyJoins_append, ih]
    simp [applyJoins, setLinkRules, JoinWrite.apply, List.mapIdx_concat]

/-- With nothing in between, the statements of an update are those of `UpdateLink`. -/
theorem applyJoins_editLink (s : LinkStore) (link : Link) {tags : Option (List GoString)}
    (rules : Option (List LinkRule)) (owner : Option Uuid) (now : Instant)
    (hnodup : ∀ names, tags = some names → names.Nodup) :
    applyJoins link.id (s.updateLinks (selects link.id owner) (editRow link now))
      (joinWrites tags rules) = s.editLink link tags rules owner now := by
  unfold joinWrites editLink
  rw [applyJoins_append]
  cases tags with
  | none =>
    cases rules with
    | none => rfl
    | some rules => exact applyJoins_rules link.id _ rules
  | some names =>
    dsimp only
    rw [applyJoins_tags link.id _ (hnodup names rfl)]
    cases rules with
    | none => rfl
    | some rules => exact applyJoins_rules link.id _ rules

end Purels.Service
