import Purels.Store.Links

/-!
# What a write leaves of the other rows

The frame of every write of the link tables in one relation, for properties that
follow a row through a run.

* `Keyed`: identifiers and aliases are unique.
* `Carries touched s s'`: every row of `s` is in `s'` under its identifier and
  alias, and with its columns and rules unless its alias is touched.
* `carries_insert`, `carries_updateLinks`, `carries_editLink`: the writes.
* `rulesOf_setLinkRules_self`, `rulesOf_insertLink`: the rules that are written are read back.
-/

namespace Purels.Store.LinkStore

open Go

/-- The unique keys of `links`. -/
structure Keyed (s : LinkStore) : Prop where
  ids_nodup : (s.links.map LinkRow.id).Nodup
  aliases_nodup : (s.links.map LinkRow.aliasName).Nodup

/-- What a write that touches some aliases does to the rows. -/
structure Carries (touched : GoString → Prop) (s s' : LinkStore) : Prop where
  keyed : s'.Keyed
  row : ∀ row ∈ s.links, ∃ row' ∈ s'.links, row'.id = row.id ∧ row'.aliasName = row.aliasName ∧
    row.version ≤ row'.version ∧
    (¬ touched row.aliasName → row' = row ∧ s'.rulesOf row.id = s.rulesOf row.id)

variable {s s' : LinkStore} {row row' : LinkRow}

namespace Keyed

variable (h : s.Keyed)
include h

theorem eq_of_id (hrow : row ∈ s.links) (hrow' : row' ∈ s.links) (hid : row.id = row'.id) :
    row = row' :=
  List.inj_on_of_nodup_map h.ids_nodup hrow hrow' hid

theorem eq_of_alias (hrow : row ∈ s.links) (hrow' : row' ∈ s.links)
    (halias : row.aliasName = row'.aliasName) : row = row' :=
  List.inj_on_of_nodup_map h.aliases_nodup hrow hrow' halias

/-- The live row of an alias is its row, when that is live. -/
theorem liveAlias_eq (hrow : row ∈ s.links) :
    s.liveAlias row.aliasName = if row.live then some row else none := by
  have hfound : ∀ r, s.liveAlias row.aliasName = some r → r = row ∧ r.live := by
    intro r hr
    have hmatch := List.find?_some hr
    rw [Bool.and_eq_true, beq_iff_eq] at hmatch
    exact ⟨h.eq_of_alias (List.mem_of_find?_eq_some hr) hrow hmatch.1, hmatch.2⟩
  split_ifs with hlive
  · cases hcase : s.liveAlias row.aliasName with
    | none => exact absurd (List.find?_eq_none.mp hcase row hrow) (by simp [hlive])
    | some r => rw [(hfound r hcase).1]
  · cases hcase : s.liveAlias row.aliasName with
    | none => rfl
    | some r => exact absurd ((hfound r hcase).1 ▸ (hfound r hcase).2) hlive

/-- A live row that is visible is the one found under its identifier. -/
theorem liveRow_eq (hrow : row ∈ s.links) {owner : Option Uuid} (hsel : selects row.id owner row) :
    s.liveRow row.id owner = some row := by
  cases hcase : s.liveRow row.id owner with
  | none => exact absurd hsel (List.find?_eq_none.mp hcase row hrow)
  | some r =>
    obtain ⟨hmem, hselects⟩ := liveRow_eq_some hcase
    simp only [selects, Bool.and_eq_true, beq_iff_eq] at hselects
    rw [h.eq_of_id hmem hrow hselects.1.1]

/-- A live row that is visible is what its identifier loads. -/
theorem GetLink_eq (hrow : row ∈ s.links) {loc : DatabaseLocale} {id : GoString} {owner : Option Uuid}
    (huid : uuidParam id = .ok row.id) (hsel : selects row.id owner row) :
    s.GetLink loc id owner = .ok (s.toLink loc row) := by
  simp [GetLink, huid, h.liveRow_eq hrow hsel]

end Keyed

/-! ## The writes -/

/-- Rows and rules are all `Carries` looks at. -/
theorem carries_of_eq (h : s.Keyed) (touched : GoString → Prop) (hlinks : s'.links = s.links)
    (hrules : s'.rules = s.rules) : Carries touched s s' where
  keyed := ⟨hlinks ▸ h.ids_nodup, hlinks ▸ h.aliases_nodup⟩
  row r hr := ⟨r, hlinks ▸ hr, rfl, rfl, le_rfl, fun _ => ⟨rfl, by rw [rulesOf, rulesOf, hrules]⟩⟩

/-- Replacing the rules of one link leaves those of the others. -/
theorem rulesOf_setLinkRules {id other : Uuid} (hne : other ≠ id) (rules : List LinkRule) :
    (s.setLinkRules id rules).rulesOf other = s.rulesOf other := by
  have hnew : ((rules.mapIdx (ruleRow id)).filter fun r => r.linkID == other) = [] := by
    refine List.filter_eq_nil_iff.mpr fun r hr => ?_
    rw [(mem_ruleRows hr).1]
    simpa using Ne.symm hne
  have hold : ((s.rules.filter fun r => r.linkID != id).filter fun r => r.linkID == other) =
      s.rules.filter fun r => r.linkID == other := by
    rw [List.filter_filter]
    refine List.filter_congr fun r _ => ?_
    by_cases hr : r.linkID = other
    · simp [hr, hne]
    · simp [hr]
  rw [rulesOf, rulesOf, setLinkRules, List.filter_append, hnew, hold, List.append_nil]

/-- A rule is read back as it was given, at the position of its index. -/
theorem toRule_ruleRow (id : Uuid) (i : Nat) (rule : LinkRule) :
    (ruleRow id i rule).toRule = { rule with position := i } := by
  by_cases hcode : rule.redirectCode = 0 <;> simp [RuleRow.toRule, ruleRow, hcode]

/-- The link itself then has the new rules, in their order. -/
theorem rulesOf_setLinkRules_self (s : LinkStore) (id : Uuid) (rules : List LinkRule) :
    (s.setLinkRules id rules).rulesOf id = rules.mapIdx fun i rule => { rule with position := i } := by
  have hold : ((s.rules.filter fun r => r.linkID != id).filter fun r => r.linkID == id) = [] := by
    refine List.filter_eq_nil_iff.mpr fun r hr => ?_
    simpa using (List.mem_filter.mp hr).2
  have hnew : ((rules.mapIdx (ruleRow id)).filter fun r => r.linkID == id) =
      rules.mapIdx (ruleRow id) := by
    refine List.filter_eq_self.mpr fun r hr => ?_
    simpa using (mem_ruleRows hr).1
  have hsorted : (rules.mapIdx (ruleRow id)).Pairwise fun a b => a.position ≤ b.position := by
    refine List.pairwise_iff_getElem.mpr fun i j hi hj hij => ?_
    rw [List.getElem_mapIdx, List.getElem_mapIdx]
    exact hij.le
  rw [rulesOf, setLinkRules, List.filter_append, hold, hnew, List.nil_append,
    hsorted.insertionSort_eq]
  refine List.ext_getElem (by simp) fun i hi hi' => ?_
  rw [List.getElem_map, List.getElem_mapIdx, List.getElem_mapIdx, toRule_ruleRow]

/-- At the positions of their indices they are read as they were. -/
theorem rulesOf_setLinkRules_position (s : LinkStore) (id : Uuid) {rules : List LinkRule}
    (hposition : ∀ i (hi : i < rules.length), rules[i].position = i) :
    (s.setLinkRules id rules).rulesOf id = rules := by
  rw [rulesOf_setLinkRules_self]
  refine List.ext_getElem (by simp) fun i hi hi' => ?_
  have hsame : ({ rules[i] with position := i } : LinkRule) =
      { rules[i] with position := rules[i].position } := by
    rw [hposition i hi']
  rw [List.getElem_mapIdx]
  exact hsame

/-- A new link has the rules it was given. -/
theorem rulesOf_insertLink (hlinked : ∀ r ∈ s.rules, r.linkID ∈ s.links.map LinkRow.id) {link : Link}
    (hfresh : link.id ∉ s.links.map LinkRow.id)
    (hposition : ∀ i (hi : i < link.rules.length), link.rules[i].position = i)
    (owner : Option Uuid) : (s.insertLink link owner).rulesOf link.id = link.rules := by
  unfold insertLink
  dsimp only
  split_ifs with hnil
  · have hnone : (s.rules.filter fun r => r.linkID == link.id) = [] := by
      refine List.filter_eq_nil_iff.mpr fun r hr heq => hfresh ?_
      rw [← beq_iff_eq.mp heq]
      exact hlinked r hr
    show ((s.rules.filter fun r => r.linkID == link.id).insertionSort _).map RuleRow.toRule = _
    rw [hnone, hnil]
    rfl
  · exact rulesOf_setLinkRules_position _ link.id hposition

theorem carries_insert (h : s.Keyed) {link : Link} {owner : Option Uuid}
    (hfresh : ∀ row ∈ s.links, row.aliasName ≠ link.aliasName ∧ row.id ≠ link.id) :
    Carries (fun _ => False) s (s.insertLink link owner) := by
  have hrules : ∀ id ≠ link.id, (s.insertLink link owner).rulesOf id = s.rulesOf id := by
    intro id hne
    unfold insertLink
    dsimp only
    split_ifs
    · rfl
    · exact rulesOf_setLinkRules hne link.rules
  refine ⟨⟨?_, ?_⟩, fun row hrow => ⟨row, by simp [hrow], rfl, rfl, le_rfl,
    fun _ => ⟨rfl, hrules row.id (hfresh row hrow).2⟩⟩⟩
  · rw [insertLink_links, List.map_append, List.nodup_append]
    refine ⟨h.ids_nodup, by simp, fun id hid other hother => ?_⟩
    obtain ⟨row, hrow, rfl⟩ := List.mem_map.mp hid
    obtain rfl : other = link.id := by simpa [newRow] using hother
    exact (hfresh row hrow).2
  · rw [insertLink_links, List.map_append, List.nodup_append]
    refine ⟨h.aliases_nodup, by simp, fun aliasName haliasName other hother => ?_⟩
    obtain ⟨row, hrow, rfl⟩ := List.mem_map.mp haliasName
    obtain rfl : other = link.aliasName := by simpa [newRow] using hother
    exact (hfresh row hrow).1

/-- A column that an update of rows does not set. -/
theorem map_updateLinks {β : Type*} (column : LinkRow → β) {selected : LinkRow → Bool}
    {set : LinkRow → LinkRow} (hset : ∀ row, column (set row) = column row) :
    (s.updateLinks selected set).links.map column = s.links.map column := by
  rw [updateLinks, List.map_map]
  refine List.map_congr_left fun row _ => ?_
  simp only [Function.comp_apply]
  split_ifs
  · exact hset row
  · rfl

theorem carries_updateLinks (h : s.Keyed) (selected : LinkRow → Bool) (set : LinkRow → LinkRow)
    (hid : ∀ row, (set row).id = row.id) (halias : ∀ row, (set row).aliasName = row.aliasName)
    (hversion : ∀ row, row.version ≤ (set row).version) :
    Carries (fun aliasName => ∃ row ∈ s.links, selected row ∧ row.aliasName = aliasName) s
      (s.updateLinks selected set) := by
  have hkeyed : (s.updateLinks selected set).Keyed := by
    constructor
    · rw [map_updateLinks LinkRow.id hid]
      exact h.ids_nodup
    · rw [map_updateLinks LinkRow.aliasName halias]
      exact h.aliases_nodup
  refine ⟨hkeyed, fun row hrow => ?_⟩
  refine ⟨if selected row then set row else row, List.mem_map_of_mem hrow, ?_⟩
  split_ifs with hselected
  · exact ⟨hid row, halias row, hversion row, fun hun => absurd ⟨row, hrow, hselected, rfl⟩ hun⟩
  · exact ⟨rfl, rfl, le_rfl, fun _ => ⟨rfl, rfl⟩⟩

theorem carries_editLink (h : s.Keyed) (link : Link) (tags : Option (List GoString))
    (rules : Option (List LinkRule)) (owner : Option Uuid) (now : Instant)
    (hany : s.links.any (selects link.id owner)) :
    Carries (fun aliasName => ∃ row ∈ s.links, selects link.id owner row ∧
      row.aliasName = aliasName) s (s.editLink link tags rules owner now) := by
  have hedit := carries_updateLinks h (selects link.id owner) (editRow link now) (fun _ => rfl)
    (fun _ => rfl) (fun row => Nat.le_succ row.version)
  have hlinks : (s.editLink link tags rules owner now).links =
      (s.updateLinks (selects link.id owner) (editRow link now)).links := by
    rw [editLink_links, updateLinks]
  have hrules : ∀ id ≠ link.id,
      (s.editLink link tags rules owner now).rulesOf id = s.rulesOf id := by
    intro id hne
    have hnone : (s.editLink link tags none owner now).rulesOf id = s.rulesOf id := by
      cases tags <;> rfl
    cases rules with
    | none => exact hnone
    | some new => exact (rulesOf_setLinkRules hne new).trans hnone
  refine ⟨⟨hlinks ▸ hedit.keyed.ids_nodup, hlinks ▸ hedit.keyed.aliases_nodup⟩,
    fun row hrow => ?_⟩
  obtain ⟨row', hrow', hid, halias, hversion, hsame⟩ := hedit.row row hrow
  refine ⟨row', hlinks ▸ hrow', hid, halias, hversion, fun hun => ⟨(hsame hun).1, ?_⟩⟩
  refine hrules row.id fun hrowID => hun ?_
  -- The selected row has the link's identifier, so it is this one.
  obtain ⟨sel, hsel, hselects⟩ := List.any_eq_true.mp hany
  have hselID : sel.id = link.id := by
    simp only [selects, Bool.and_eq_true, beq_iff_eq] at hselects
    exact hselects.1.1
  exact ⟨sel, hsel, hselects, by rw [h.eq_of_id hsel hrow (hselID.trans hrowID.symm)]⟩

end Purels.Store.LinkStore
