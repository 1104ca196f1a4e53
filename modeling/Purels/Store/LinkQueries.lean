import Purels.Lib.SqlParams
import Purels.Store.Stats

/-!
# The statements of the link lists

The texts that `ListLinks` and `ExportLinks` send, and the arguments that go with them.

* `buildLinkWhere`, `linkOrder`, `countQuery`, `listQuery`, `exportQuery`: as the program builds
  them, with `fmt.Sprintf`.
* `SameShape`: filters that differ in values only.
* `linkQueries_aligned`: such filters make the same texts, and each placeholder stands for the value
  of its own condition.
-/

namespace Purels.Store

open Go

namespace Sql

/-! ## Texts -/

/-- `fmt.Sprintf` for `%s` and `%d`, of the texts of its operands. -/
def sprintf : GoString → List GoString → GoString
  | [], _ => []
  | 0x25 :: 0x25 :: format, operands => 0x25 :: sprintf format operands
  | 0x25 :: 0x73 :: format, operand :: operands => operand ++ sprintf format operands
  | 0x25 :: 0x64 :: format, operand :: operands => operand ++ sprintf format operands
  | c :: format, operands => c :: sprintf format operands

/-- An argument of a statement. -/
inductive Arg where
  | id (owner : GoString)
  | text (s : GoString)
  | int (n : Int)
  deriving DecidableEq

/-- `domain.ListFilter`, with the types of the program. -/
structure FilterValues where
  search : GoString := []
  status : GoString := []
  tag : GoString := []
  sort : GoString := []
  limit : Int := 0
  offset : Int := 0
  ownerID : Option GoString := none

/-- `linkTagsColumn`. -/
def linkTagsColumn : GoString :=
  lit "COALESCE((SELECT array_agg(t.name ORDER BY t.name) " ++ lit "FROM link_tags lt " ++
    lit "JOIN tags t ON t.id = lt.tag_id " ++ lit "WHERE lt.link_id = l.id), '\x7b\x7d')"

/-- `linkSelectColumns`. -/
def linkSelectColumns : GoString :=
  lit "l.id, l.alias, l.destination_url, l.title, " ++
    lit "l.redirect_code, l.status, l.version, " ++
    lit "l.expires_at, l.created_at, l.updated_at, " ++
    lit "l.last_checked_at, l.last_status_code, " ++ lit "COALESCE(c.clicks,0), " ++
    linkTagsColumn ++ lit ", COALESCE(l.domain,''), l.interstitial_seconds"

/-- `clickCount`. -/
def clickCount (countBots : Bool) (clicks botClicks : GoString) : GoString :=
  if countBots then clicks else clicks ++ lit " - " ++ botClicks

/-- `linkClickJoin`. -/
def linkClickJoin (countBots : Bool) : GoString :=
  lit "LEFT JOIN (SELECT link_id, SUM(" ++ clickCount countBots (lit "clicks") (lit "bot_clicks") ++
    lit ") AS clicks FROM link_click_daily GROUP BY link_id) c ON c.link_id=l.id"

/-- `linkSorts`. -/
def linkSorts : List (GoString × GoString) :=
  [(lit "created_at_desc", lit "l.created_at DESC"),
    (lit "created_at_asc", lit "l.created_at ASC"),
    (lit "alias_asc", lit "l.alias ASC"),
    (lit "alias_desc", lit "l.alias DESC"),
    (lit "clicks_desc", lit "COALESCE(c.clicks,0) DESC, l.created_at DESC"),
    (lit "clicks_asc", lit "COALESCE(c.clicks,0) ASC, l.created_at DESC")]

/-- `linkOrder`. -/
def linkOrder (sort : GoString) : GoString := (linkSorts.lookup sort).getD (lit "l.created_at DESC")

/-- A condition of `buildLinkWhere`: its value is appended to the arguments, and the format names
the placeholder of it. -/
def addCondition (format : GoString) (uses : Nat) (value : Option Arg)
    (acc : List GoString × List Arg) : List GoString × List Arg :=
  match value with
  | none => acc
  | some v =>
    let args := acc.2 ++ [v]
    let placeholder := sprintf (lit "$%d") [Lib.decimalText args.length]
    (acc.1 ++ [sprintf format (List.replicate uses placeholder)], args)

/-- The condition on the status, with no argument. -/
def statusCondition (status : GoString) : List GoString :=
  if status = lit "active" then [lit "l.status = 'active'"]
  else if status = lit "disabled" then [lit "l.status = 'disabled'"]
  else if status = lit "expired" then [lit "l.expires_at IS NOT NULL AND l.expires_at <= now()"]
  else []

/-- A text that counts as set. -/
def textArg (s : GoString) : Option Arg := if s = [] then none else some (.text s)

def searchFormat : GoString :=
  lit "(l.alias ILIKE '%%' || %s || '%%' " ++
    lit "OR l.destination_url ILIKE '%%' || %s || '%%' " ++
    lit "OR l.title ILIKE '%%' || %s || '%%')"

def tagFormat : GoString :=
  lit "EXISTS (SELECT 1 FROM link_tags lt " ++ lit "JOIN tags t ON t.id = lt.tag_id " ++
    lit "WHERE lt.link_id = l.id AND t.name = %s)"

/-- `buildLinkWhere`. -/
def buildLinkWhere (filter : FilterValues) : GoString × List Arg :=
  let acc := ([lit "l.deleted_at IS NULL"], [])
  let acc := addCondition (lit "l.user_id = %s") 1 (filter.ownerID.map .id) acc
  let acc := addCondition searchFormat 3 (textArg filter.search) acc
  let acc := addCondition tagFormat 1 (textArg filter.tag) acc
  (lit "WHERE " ++ (lit " AND ").intercalate (acc.1 ++ statusCondition filter.status), acc.2)

/-- The count of `ListLinks`. -/
def countQuery (filter : FilterValues) : Lib.Sql.Query Arg where
  text := lit "SELECT COUNT(*) FROM links l " ++ (buildLinkWhere filter).1
  args := (buildLinkWhere filter).2

/-- The page of `ListLinks`. -/
def listQuery (countBots : Bool) (filter : FilterValues) : Lib.Sql.Query Arg :=
  let args := (buildLinkWhere filter).2 ++ [.int filter.limit, .int filter.offset]
  { text := sprintf (lit "SELECT %s FROM links l %s %s ORDER BY %s LIMIT $%d OFFSET $%d")
      [linkSelectColumns, linkClickJoin countBots, (buildLinkWhere filter).1, linkOrder filter.sort,
        Lib.decimalText (args.length - 1), Lib.decimalText args.length]
    args := args }

/-- The statement of `ExportLinks`. -/
def exportQuery (countBots : Bool) (filter : FilterValues) (limit : Int) : Lib.Sql.Query Arg :=
  let args := (buildLinkWhere filter).2 ++ [.int limit]
  { text := sprintf (lit "SELECT %s FROM links l %s %s ORDER BY %s LIMIT $%d")
      [linkSelectColumns, linkClickJoin countBots, (buildLinkWhere filter).1, linkOrder filter.sort,
        Lib.decimalText args.length]
    args := args }

/-! ## Templates of the conditions -/

open Lib.Sql (Template Piece fixed isFixed NoDigit Aligned Query numbered valued)

def ownerTemplate : Template where
  head := lit "l.user_id = "
  tails := [[]]
  head_fixed := by decide
  tails_fixed := by decide
  used := by decide

def searchTemplate : Template where
  head := lit "(l.alias ILIKE '%' || "
  tails := [lit " || '%' OR l.destination_url ILIKE '%' || ",
    lit " || '%' OR l.title ILIKE '%' || ", lit " || '%')"]
  head_fixed := by decide
  tails_fixed := by decide
  used := by decide

def tagTemplate : Template where
  head := lit "EXISTS (SELECT 1 FROM link_tags lt " ++ lit "JOIN tags t ON t.id = lt.tag_id " ++
    lit "WHERE lt.link_id = l.id AND t.name = "
  tails := [lit ")"]
  head_fixed := by decide
  tails_fixed := by decide
  used := by decide

/-- A format whose verbs are all of the one placeholder is a template. -/
def Fills (format : GoString) (uses : Nat) (t : Template) : Prop :=
  ∀ p : GoString, sprintf format (List.replicate uses p) = t.head ++ t.tails.flatMap (p ++ ·)

theorem fills_owner : Fills (lit "l.user_id = %s") 1 ownerTemplate := by
  intro p
  show lit "l.user_id = " ++ (p ++ []) = lit "l.user_id = " ++ (p ++ [] ++ [])
  rw [List.append_nil, List.append_nil]

theorem fills_search : Fills searchFormat 3 searchTemplate := by
  intro p
  show lit "(l.alias ILIKE '%' || " ++ (p ++ (lit " || '%' OR l.destination_url ILIKE '%' || " ++
      (p ++ (lit " || '%' OR l.title ILIKE '%' || " ++ (p ++ lit " || '%')"))))) = _
  show _ = lit "(l.alias ILIKE '%' || " ++ (p ++ lit " || '%' OR l.destination_url ILIKE '%' || " ++
      (p ++ lit " || '%' OR l.title ILIKE '%' || " ++ (p ++ lit " || '%')" ++ [])))
  simp only [List.append_assoc, List.append_nil]

theorem fills_tag : Fills tagFormat 1 tagTemplate := by
  intro p
  show tagTemplate.head ++ (p ++ lit ")") = tagTemplate.head ++ (p ++ lit ")" ++ [])
  rw [List.append_nil]

/-! ## The clause -/

/-- The separator of conditions. -/
def separator : GoString := lit " AND "

/-- The conditions of a filter that have a value. -/
def clauses (filter : FilterValues) : List (Template × Arg) :=
  ((filter.ownerID.map .id).map fun v => (ownerTemplate, v)).toList ++
    ((textArg filter.search).map fun v => (searchTemplate, v)).toList ++
    ((textArg filter.tag).map fun v => (tagTemplate, v)).toList

/-- What the condition on the status adds. -/
def statusText (filter : FilterValues) : GoString :=
  (statusCondition filter.status).flatMap (separator ++ ·)

/-- The first condition, and those of `ts`. -/
def Built (acc : List GoString × List Arg) (ts : List (Template × Arg)) : Prop :=
  acc.1 ≠ [] ∧ acc.2 = ts.map Prod.snd ∧
    separator.intercalate acc.1 = lit "l.deleted_at IS NULL" ++ numbered separator 0 ts

theorem intercalate_append {sep : GoString} {cs : List GoString} (hne : cs ≠ [])
    (ds : List GoString) :
    sep.intercalate (cs ++ ds) = sep.intercalate cs ++ ds.flatMap (sep ++ ·) := by
  induction cs with
  | nil => exact absurd rfl hne
  | cons c cs ih =>
    cases cs with
    | nil =>
      clear ih hne
      induction ds generalizing c with
      | nil => simp [List.intercalate]
      | cons d ds ih =>
        have hrest := ih d
        rw [List.singleton_append] at hrest ⊢
        rw [List.intercalate_cons_cons, hrest, List.flatMap_cons]
        simp [List.intercalate]
    | cons c' cs =>
      rw [List.cons_append, List.cons_append, List.intercalate_cons_cons, ← List.cons_append,
        ih (List.cons_ne_nil _ _), List.intercalate_cons_cons, List.append_assoc, List.append_assoc,
        List.append_assoc]

/-- A condition that is added has the next placeholder. -/
theorem addCondition_built {format : GoString} {uses : Nat} {t : Template}
    (hfills : Fills format uses t) {acc : List GoString × List Arg} {ts : List (Template × Arg)}
    (h : Built acc ts) (value : Option Arg) :
    Built (addCondition format uses value acc) (ts ++ (value.map fun v => (t, v)).toList) := by
  obtain ⟨hne, hargs, htext⟩ := h
  cases value with
  | none =>
    rw [Option.map_none, Option.toList_none, List.append_nil]
    exact ⟨hne, hargs, htext⟩
  | some v =>
    have hlength : (acc.2 ++ [v]).length = ts.length + 1 := by
      rw [hargs, List.length_append, List.length_map, List.length_singleton]
    have hplaceholder : sprintf (lit "$%d") [Lib.decimalText (acc.2 ++ [v]).length] =
        Lib.Sql.placeholder (ts.length + 1) := by
      rw [hlength]
      show 0x24 :: (Lib.decimalText (ts.length + 1) ++ []) = _
      rw [List.append_nil]
      rfl
    refine ⟨List.append_ne_nil_of_left_ne_nil hne _, ?_, ?_⟩
    · show acc.2 ++ [v] = _
      rw [hargs, Option.map_some, Option.toList_some, List.map_append]
      rfl
    · show separator.intercalate (acc.1 ++ [_]) = _
      rw [intercalate_append hne, htext, hplaceholder, hfills, Option.map_some, Option.toList_some,
        Lib.Sql.numbered_append, List.append_assoc, Nat.zero_add]
      simp [numbered, Template.text]

/-- The clause of a filter, condition by condition. -/
theorem buildLinkWhere_eq (filter : FilterValues) :
    buildLinkWhere filter = (lit "WHERE " ++ (lit "l.deleted_at IS NULL" ++
      numbered separator 0 (clauses filter) ++ statusText filter),
      (clauses filter).map Prod.snd) := by
  have hstart : Built ([lit "l.deleted_at IS NULL"], []) [] := by
    refine ⟨List.cons_ne_nil _ _, rfl, ?_⟩
    simp [List.intercalate, numbered]
  obtain ⟨hne, hargs, htext⟩ := addCondition_built fills_tag (addCondition_built fills_search
    (addCondition_built fills_owner hstart (filter.ownerID.map .id)) (textArg filter.search))
    (textArg filter.tag)
  unfold buildLinkWhere
  dsimp only
  rw [show lit " AND " = separator from rfl, intercalate_append hne, htext, hargs]
  rfl

/-! ## The values in place -/

/-- A condition with its value in front of each of `tails`; without a value there is none. -/
def boundCondition (value : Option Arg) (head : GoString) (tails : List GoString) :
    List (Piece Arg) :=
  match value with
  | none => []
  | some v => fixed head ++ tails.flatMap fun f => .value v :: fixed f

/-- The clause of a filter, with the values of the filter in their places. -/
def boundWhere (filter : FilterValues) : List (Piece Arg) :=
  fixed (lit "WHERE l.deleted_at IS NULL") ++
    boundCondition (filter.ownerID.map .id) (lit " AND l.user_id = ") [[]] ++
    boundCondition (textArg filter.search) (lit " AND (l.alias ILIKE '%' || ")
      [lit " || '%' OR l.destination_url ILIKE '%' || ", lit " || '%' OR l.title ILIKE '%' || ",
        lit " || '%')"] ++
    boundCondition (textArg filter.tag)
      (lit " AND EXISTS (SELECT 1 FROM link_tags lt " ++ lit "JOIN tags t ON t.id = lt.tag_id " ++
        lit "WHERE lt.link_id = l.id AND t.name = ")
      [lit ")"] ++
    fixed (statusText filter)

theorem fixed_append (s t : GoString) :
    (fixed (s ++ t) : List (Piece Arg)) = fixed s ++ fixed t := List.map_append

theorem valued_option (t : Template) (value : Option Arg) :
    valued separator (value.map fun v => (t, v)).toList =
      boundCondition value (separator ++ t.head) t.tails := by
  cases value with
  | none => rfl
  | some v =>
    show fixed separator ++ t.pieces v ++ [] = _
    rw [List.append_nil, boundCondition, fixed_append, Template.pieces, List.append_assoc]

theorem boundWhere_eq (filter : FilterValues) :
    boundWhere filter = fixed (lit "WHERE l.deleted_at IS NULL") ++
      valued separator (clauses filter) ++ fixed (statusText filter) := by
  have hclauses : valued separator (clauses filter) =
      boundCondition (filter.ownerID.map .id) (separator ++ ownerTemplate.head)
          ownerTemplate.tails ++
        boundCondition (textArg filter.search) (separator ++ searchTemplate.head)
          searchTemplate.tails ++
        boundCondition (textArg filter.tag) (separator ++ tagTemplate.head) tagTemplate.tails := by
    rw [← valued_option, ← valued_option, ← valued_option]
    unfold clauses valued
    rw [List.flatMap_append, List.flatMap_append]
  have howner : separator ++ ownerTemplate.head = lit " AND l.user_id = " := by decide
  have hsearch : separator ++ searchTemplate.head = lit " AND (l.alias ILIKE '%' || " := by decide
  rw [hclauses, howner, hsearch, boundWhere]
  simp only [List.append_assoc]
  rfl

/-! ## The statements -/

theorem statusText_fixed (filter : FilterValues) :
    isFixed (statusText filter) ∧ NoDigit (statusText filter) := by
  unfold statusText statusCondition
  split_ifs
  · decide
  · decide
  · decide
  · decide

theorem linkOrder_fixed (sort : GoString) :
    isFixed (linkOrder sort) ∧ NoDigit (linkOrder sort) := by
  have hall : ∀ entry ∈ linkSorts, isFixed entry.2 ∧ NoDigit entry.2 := by decide
  unfold linkOrder
  cases horder : linkSorts.lookup sort with
  | none => decide
  | some order =>
    obtain ⟨front, back, hsorts, -⟩ := List.lookup_eq_some_iff.mp horder
    exact hall (sort, order) (by rw [hsorts]; simp)

theorem linkSelectColumns_fixed : isFixed linkSelectColumns ∧ NoDigit linkSelectColumns := by
  decide +kernel

section

variable (filter : FilterValues) (countBots : Bool) (limit : Int)

/-- The placeholders of the clause are those of its conditions. -/
theorem aligned_where {args after : List Arg}
    (hargs : args = (clauses filter).map Prod.snd ++ after) :
    Aligned args 0 (clauses filter).length (buildLinkWhere filter).1 (boundWhere filter) ∧
      NoDigit (buildLinkWhere filter).1 := by
  have hsep : NoDigit separator := by decide
  have hstart : lit "WHERE l.deleted_at IS NULL" = lit "WHERE " ++ lit "l.deleted_at IS NULL" := by
    decide
  have htext : (buildLinkWhere filter).1 = lit "WHERE l.deleted_at IS NULL" ++
      numbered separator 0 (clauses filter) ++ statusText filter := by
    rw [buildLinkWhere_eq, hstart]
    simp only [List.append_assoc]
  have hnumbered := Lib.Sql.aligned_numbered (by decide) hsep (clauses filter) [] hargs
  rw [List.length_nil, Nat.zero_add] at hnumbered
  have hdigit : NoDigit (numbered separator 0 (clauses filter)) :=
    Lib.Sql.noDigit_numbered hsep 0 (clauses filter)
  obtain ⟨hstatus, hstatus'⟩ := statusText_fixed filter
  rw [htext, boundWhere_eq]
  constructor
  · have hlive : Aligned args 0 0 (lit "WHERE l.deleted_at IS NULL") _ :=
      Lib.Sql.aligned_fixed (by decide) 0
    have hconditions := hlive.append hnumbered le_rfl (Nat.zero_le _) hdigit
    exact hconditions.append (Lib.Sql.aligned_fixed hstatus _) (Nat.zero_le _) le_rfl hstatus'
  · have hwhere : NoDigit (lit "WHERE l.deleted_at IS NULL") := by decide
    exact (hwhere.append hdigit).append hstatus'

/-- The limit and the offset of a statement, with the values in place. -/
def boundLimit (n : Int) : List (Piece Arg) := fixed (lit " LIMIT ") ++ [.value (.int n)]

def boundOffset (n : Int) : List (Piece Arg) := fixed (lit " OFFSET ") ++ [.value (.int n)]

/-- What a statement of rows reads before its limit. -/
def boundRows : List (Piece Arg) :=
  fixed (lit "SELECT ") ++ fixed linkSelectColumns ++ fixed (lit " FROM links l ") ++
    fixed (linkClickJoin countBots) ++ fixed (lit " ") ++ boundWhere filter ++
    fixed (lit " ORDER BY ") ++ fixed (linkOrder filter.sort)

/-- The text of such a statement. -/
def rowsText : GoString :=
  lit "SELECT " ++ linkSelectColumns ++ lit " FROM links l " ++ linkClickJoin countBots ++
    lit " " ++ (buildLinkWhere filter).1 ++ lit " ORDER BY " ++ linkOrder filter.sort

theorem aligned_rows {args after : List Arg}
    (hargs : args = (clauses filter).map Prod.snd ++ after) :
    Aligned args 0 (clauses filter).length (rowsText filter countBots)
      (boundRows filter countBots) := by
  obtain ⟨hwhere, hdigit⟩ := aligned_where filter hargs
  obtain ⟨horder, horder'⟩ := linkOrder_fixed filter.sort
  have hjoin : isFixed (linkClickJoin countBots) ∧ NoDigit (linkClickJoin countBots) := by
    cases countBots
    · decide
    · decide
  have hfixed : ∀ {s : GoString} n, isFixed s → Aligned args n n s (fixed s) :=
    fun n hs => Lib.Sql.aligned_fixed hs n
  have hselect := (hfixed 0 (s := lit "SELECT ") (by decide)).append_same
    (hfixed 0 linkSelectColumns_fixed.1) linkSelectColumns_fixed.2
  have hfrom := (hselect.append_same (hfixed 0 (s := lit " FROM links l ") (by decide))
    (by decide)).append_same (hfixed 0 hjoin.1) hjoin.2
  have hclause := (hfrom.append_same (hfixed 0 (s := lit " ") (by decide)) (by decide)).append
    hwhere le_rfl (Nat.zero_le _) hdigit
  exact (hclause.append (hfixed _ (s := lit " ORDER BY ") (by decide)) (Nat.zero_le _) le_rfl
    (by decide)).append (hfixed _ horder) (Nat.zero_le _) le_rfl horder'

/-- A limit that is the last argument. -/
theorem aligned_last {args : List Arg} {n : Nat} {v : Arg} (h : args[n]? = some v) (s : GoString)
    (hs : isFixed s ∧ NoDigit s) :
    Aligned args n (n + 1) (s ++ Lib.Sql.placeholder (n + 1)) (fixed s ++ [.value v]) := by
  refine (Lib.Sql.aligned_fixed hs.1 n).append (Lib.Sql.aligned_placeholder h) le_rfl
    (Nat.le_succ n) ?_
  intro c hc
  obtain rfl : 0x24 = c := Option.some.inj hc
  rfl

/-- A statement whose placeholders are `$1` to the number of its arguments, and what it reads with
the values in place. -/
def Reads (q : Query Arg) (pieces : List (Piece Arg)) : Prop :=
  q.bound = some pieces ∧ ∀ k, k ∈ q.placeholders ↔ 1 ≤ k ∧ k ≤ q.args.length

theorem countQuery_reads :
    Reads (countQuery filter)
      (fixed (lit "SELECT COUNT(*) FROM links l ") ++ boundWhere filter) := by
  have hargs : (countQuery filter).args = (clauses filter).map Prod.snd ++ [] := by
    rw [List.append_nil, countQuery, buildLinkWhere_eq]
  have hlength : (countQuery filter).args.length = (clauses filter).length := by
    rw [hargs, List.append_nil, List.length_map]
  obtain ⟨hwhere, hdigit⟩ := aligned_where filter hargs
  have hcount : Aligned (countQuery filter).args 0 0 (lit "SELECT COUNT(*) FROM links l ") _ :=
    Lib.Sql.aligned_fixed (by decide) 0
  have hall := hcount.append hwhere le_rfl (Nat.zero_le _) hdigit
  exact hall.query hlength

theorem sprintf_export (a b c d e : GoString) :
    sprintf (lit "SELECT %s FROM links l %s %s ORDER BY %s LIMIT $%d") [a, b, c, d, e] =
      lit "SELECT " ++ a ++ lit " FROM links l " ++ b ++ lit " " ++ c ++ lit " ORDER BY " ++ d ++
        (lit " LIMIT " ++ 0x24 :: e) := by
  have hlimit : lit " LIMIT $" = lit " LIMIT " ++ [0x24] := by decide
  show lit "SELECT " ++ (a ++ (lit " FROM links l " ++ (b ++ (lit " " ++ (c ++ (lit " ORDER BY " ++
    (d ++ (lit " LIMIT $" ++ (e ++ []))))))))) = _
  rw [hlimit]
  simp only [List.append_assoc, List.append_nil, List.singleton_append]

theorem sprintf_list (a b c d e f : GoString) :
    sprintf (lit "SELECT %s FROM links l %s %s ORDER BY %s LIMIT $%d OFFSET $%d")
        [a, b, c, d, e, f] =
      lit "SELECT " ++ a ++ lit " FROM links l " ++ b ++ lit " " ++ c ++ lit " ORDER BY " ++ d ++
        (lit " LIMIT " ++ 0x24 :: e) ++ (lit " OFFSET " ++ 0x24 :: f) := by
  have hlimit : lit " LIMIT $" = lit " LIMIT " ++ [0x24] := by decide
  have hoffset : lit " OFFSET $" = lit " OFFSET " ++ [0x24] := by decide
  show lit "SELECT " ++ (a ++ (lit " FROM links l " ++ (b ++ (lit " " ++ (c ++ (lit " ORDER BY " ++
    (d ++ (lit " LIMIT $" ++ (e ++ (lit " OFFSET $" ++ (f ++ []))))))))))) = _
  rw [hlimit, hoffset]
  simp only [List.append_assoc, List.append_nil, List.cons_append, List.nil_append]

theorem exportQuery_eq :
    exportQuery countBots filter limit =
      { text := rowsText filter countBots ++
          (lit " LIMIT " ++ Lib.Sql.placeholder ((clauses filter).length + 1))
        args := (clauses filter).map Prod.snd ++ [.int limit] } := by
  have hargs : (buildLinkWhere filter).2 = (clauses filter).map Prod.snd := by
    rw [buildLinkWhere_eq]
  unfold exportQuery
  dsimp only
  rw [sprintf_export, hargs, List.length_append, List.length_map, List.length_singleton]
  rfl

theorem listQuery_eq :
    listQuery countBots filter =
      { text := rowsText filter countBots ++
          (lit " LIMIT " ++ Lib.Sql.placeholder ((clauses filter).length + 1)) ++
          (lit " OFFSET " ++ Lib.Sql.placeholder ((clauses filter).length + 2))
        args := (clauses filter).map Prod.snd ++ [.int filter.limit, .int filter.offset] } := by
  have hargs : (buildLinkWhere filter).2 = (clauses filter).map Prod.snd := by
    rw [buildLinkWhere_eq]
  have hlength : ((clauses filter).map Prod.snd ++
      [Arg.int filter.limit, Arg.int filter.offset]).length = (clauses filter).length + 2 := by
    rw [List.length_append, List.length_map]
    rfl
  unfold listQuery
  dsimp only
  rw [sprintf_list, hargs, hlength]
  rfl

theorem noDigit_limit (n : Nat) :
    NoDigit (lit " LIMIT " ++ Lib.Sql.placeholder n) ∧
      NoDigit (lit " OFFSET " ++ Lib.Sql.placeholder n) := by
  have hlimit : NoDigit (lit " LIMIT ") := by decide
  have hoffset : NoDigit (lit " OFFSET ") := by decide
  have hplaceholder : NoDigit (Lib.Sql.placeholder n) := by
    intro c hc
    obtain rfl : 0x24 = c := Option.some.inj hc
    rfl
  exact ⟨hlimit.append hplaceholder, hoffset.append hplaceholder⟩

theorem exportQuery_reads :
    Reads (exportQuery countBots filter limit)
      (boundRows filter countBots ++ boundLimit limit) := by
  rw [exportQuery_eq]
  have hvalue : ((clauses filter).map Prod.snd ++ [Arg.int limit])[(clauses filter).length]? =
      some (.int limit) := by
    rw [List.getElem?_append_right (by rw [List.length_map]), List.length_map, Nat.sub_self]
    rfl
  have hall := (aligned_rows filter countBots rfl).append
    (aligned_last hvalue (lit " LIMIT ") (by decide)) (Nat.zero_le _) (Nat.le_succ _)
    (noDigit_limit _).1
  apply hall.query
  rw [List.length_append, List.length_map]
  rfl

theorem listQuery_reads :
    Reads (listQuery countBots filter)
      (boundRows filter countBots ++ boundLimit filter.limit ++ boundOffset filter.offset) := by
  rw [listQuery_eq]
  have hvalues : ∀ k, ((clauses filter).map Prod.snd ++
      [Arg.int filter.limit, Arg.int filter.offset])[(clauses filter).length + k]? =
      [Arg.int filter.limit, Arg.int filter.offset][k]? := by
    intro k
    rw [List.getElem?_append_right (by rw [List.length_map]; omega), List.length_map,
      Nat.add_sub_cancel_left]
  have hlimit := (aligned_rows filter countBots rfl).append
    (aligned_last (hvalues 0) (lit " LIMIT ") (by decide)) (Nat.zero_le _) (Nat.le_succ _)
    (noDigit_limit _).1
  have hall := hlimit.append (aligned_last (hvalues 1) (lit " OFFSET ") (by decide))
    (Nat.zero_le _) (Nat.le_succ _) (noDigit_limit _).2
  apply hall.query
  rw [List.length_append, List.length_map]
  rfl

end

/-! ## Filters of one shape -/

/-- Filters that set the same fields. -/
def SameFields (f g : FilterValues) : Prop :=
  f.ownerID.isSome = g.ownerID.isSome ∧ (f.search = [] ↔ g.search = []) ∧
    (f.tag = [] ↔ g.tag = []) ∧ (f.status = [] ↔ g.status = []) ∧
    (f.sort = [] ↔ g.sort = []) ∧ (f.limit = 0 ↔ g.limit = 0) ∧ (f.offset = 0 ↔ g.offset = 0)

/-- Filters that set an owner, a search and a tag alike, whose statuses select the same condition
and whose sort keys select the same order. -/
def SameShape (f g : FilterValues) : Prop :=
  f.ownerID.isSome = g.ownerID.isSome ∧ (f.search = [] ↔ g.search = []) ∧
    (f.tag = [] ↔ g.tag = []) ∧ statusCondition f.status = statusCondition g.status ∧
    linkOrder f.sort = linkOrder g.sort

theorem numbered_congr {sep : GoString} {ts us : List (Template × Arg)} (n : Nat)
    (h : ts.map Prod.fst = us.map Prod.fst) : numbered sep n ts = numbered sep n us := by
  induction ts generalizing us n with
  | nil =>
    rw [List.map_nil, eq_comm, List.map_eq_nil_iff] at h
    rw [h]
  | cons entry ts ih =>
    cases us with
    | nil => cases h
    | cons entry' us =>
      obtain ⟨t, v⟩ := entry
      obtain ⟨t', v'⟩ := entry'
      obtain ⟨rfl, hrest⟩ := List.cons.inj h
      rw [numbered, numbered, ih _ hrest]

theorem clauses_congr {f g : FilterValues} (h : SameShape f g) :
    (clauses f).map Prod.fst = (clauses g).map Prod.fst := by
  obtain ⟨howner, hsearch, htag, -, -⟩ := h
  have hoption : ∀ {t : Template} {v w : Option Arg}, v.isSome = w.isSome →
      ((v.map fun a => (t, a)).toList).map Prod.fst =
        ((w.map fun a => (t, a)).toList).map Prod.fst := by
    intro t v w hsome
    cases v with
    | none =>
      cases w with
      | none => rfl
      | some b => cases hsome
    | some a =>
      cases w with
      | none => cases hsome
      | some b => rfl
  have htext : ∀ {s t : GoString}, (s = [] ↔ t = []) →
      (textArg s).isSome = (textArg t).isSome := by
    intro s t hiff
    unfold textArg
    by_cases hempty : s = []
    · rw [if_pos hempty, if_pos (hiff.mp hempty)]
    · rw [if_neg hempty, if_neg fun ht => hempty (hiff.mpr ht)]
      rfl
  unfold clauses
  rw [List.map_append, List.map_append, List.map_append, List.map_append,
    hoption (htext hsearch), hoption (htext htag)]
  rw [hoption (v := f.ownerID.map Arg.id) (w := g.ownerID.map Arg.id)
    (by rw [Option.isSome_map, Option.isSome_map, howner])]

/-- A status is part of the text: two filters that set the same fields may make different ones. -/
theorem status_shapes_text :
    ¬ ∀ (countBots : Bool) (filter other : FilterValues), SameFields filter other →
      linkOrder filter.sort = linkOrder other.sort →
      (listQuery countBots other).text = (listQuery countBots filter).text := by
  intro h
  have hsame := h true { status := lit "active" } { status := lit "disabled" } (by
    unfold SameFields
    decide) rfl
  have hlength : (listQuery true { status := lit "disabled" }).text.length ≠
      (listQuery true { status := lit "active" }).text.length := by
    decide +kernel
  exact hlength (congrArg List.length hsame)

/-- Filters that set the owner, the search and the tag alike, with statuses that select the same
condition and sort keys that select the same order, make the same texts, in the count and the page
of `ListLinks` and in `ExportLinks`; and in each of these the placeholders are `$1` to the number of
the arguments, each standing for the value of its own condition, the limit and the offset last. -/
theorem linkQueries_aligned {filter other : FilterValues} (hshape : SameShape filter other)
    (countBots : Bool) (limit limit' : Int) :
    ((countQuery other).text = (countQuery filter).text ∧
      (listQuery countBots other).text = (listQuery countBots filter).text ∧
      (exportQuery countBots other limit').text = (exportQuery countBots filter limit).text) ∧
    Reads (countQuery filter) (fixed (lit "SELECT COUNT(*) FROM links l ") ++ boundWhere filter) ∧
    (Reads (listQuery countBots filter)
        (boundRows filter countBots ++ boundLimit filter.limit ++ boundOffset filter.offset) ∧
      (listQuery countBots filter).args =
        (countQuery filter).args ++ [.int filter.limit, .int filter.offset]) ∧
    (Reads (exportQuery countBots filter limit)
        (boundRows filter countBots ++ boundLimit limit) ∧
      (exportQuery countBots filter limit).args = (countQuery filter).args ++ [.int limit]) := by
  refine ⟨?_, countQuery_reads filter, ⟨listQuery_reads filter countBots, rfl⟩,
    exportQuery_reads filter countBots limit, rfl⟩
  have hclauses := clauses_congr hshape
  have hlength : (clauses other).length = (clauses filter).length := by
    rw [← List.length_map (f := Prod.fst), ← hclauses, List.length_map]
  have hwhere : (buildLinkWhere other).1 = (buildLinkWhere filter).1 := by
    rw [buildLinkWhere_eq, buildLinkWhere_eq, numbered_congr 0 hclauses, statusText, statusText,
      hshape.2.2.2.1]
  have hrows : rowsText other countBots = rowsText filter countBots := by
    rw [rowsText, rowsText, hwhere, hshape.2.2.2.2]
  refine ⟨?_, ?_, ?_⟩
  · rw [countQuery, countQuery, hwhere]
  · rw [listQuery_eq, listQuery_eq, hrows, hlength]
  · rw [exportQuery_eq, exportQuery_eq, hrows, hlength]

/-- Hostile values stay out of the text. -/
def hostileFilter : FilterValues where
  search := lit "'; DROP TABLE links; --"
  tag := lit "$1"
  sort := lit "created_at_desc; --"
  limit := 20
  ownerID := some (lit "11111111-1111-1111-1111-111111111111")

/-- The same fields with plain values. -/
def plainFilter : FilterValues where
  search := lit "x"
  tag := lit "y"
  limit := 20
  ownerID := some (lit "22222222-2222-2222-2222-222222222222")

theorem hostileFilter_aligned :
    ((countQuery plainFilter).text = (countQuery hostileFilter).text ∧
      (listQuery true plainFilter).text = (listQuery true hostileFilter).text ∧
      (exportQuery true plainFilter 5000).text = (exportQuery true hostileFilter 5000).text) ∧
    Reads (countQuery hostileFilter)
      (fixed (lit "SELECT COUNT(*) FROM links l ") ++ boundWhere hostileFilter) ∧
    (Reads (listQuery true hostileFilter)
        (boundRows hostileFilter true ++ boundLimit 20 ++ boundOffset 0) ∧
      (listQuery true hostileFilter).args =
        (countQuery hostileFilter).args ++ [.int 20, .int 0]) ∧
    (Reads (exportQuery true hostileFilter 5000)
        (boundRows hostileFilter true ++ boundLimit 5000) ∧
      (exportQuery true hostileFilter 5000).args =
        (countQuery hostileFilter).args ++ [.int 5000]) :=
  linkQueries_aligned (by unfold SameShape; decide) true 5000 5000

end Sql

end Purels.Store
