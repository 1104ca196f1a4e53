import Purels.Go.Fields
import Purels.Go.IPText
import Purels.Security.Links

/-!
# Forwarding the query

What `mergeQuery` makes of a destination and the query of a visit.

* `mergeQuery`.
* `beforeFragment`, `queryOf`, `params`: the parts of a destination.
* `QueryAdded`: the destination with the parameters of the visit, and nothing else.
* `Appendable`, `mergeQuery_adds_iff`: for which destinations.
* `ampersand_path`: a destination that loses its path.
-/

namespace Purels.Http

open Go

/-- `strings.HasSuffix` of one byte. -/
def endsWith (s : GoString) (c : UInt8) : Bool := s.getLast? == some c

/-- `mergeQuery`. -/
def mergeQuery (destination rawQuery : GoString) : GoString :=
  if rawQuery = [] then destination
  else
    let base := destination.takeWhile (· != 0x23)
    let fragment := destination.dropWhile (· != 0x23)
    if endsWith base 0x3F || endsWith base 0x26 then base ++ rawQuery ++ fragment
    else if base.contains 0x3F then base ++ 0x26 :: rawQuery ++ fragment
    else base ++ 0x3F :: rawQuery ++ fragment

/-! ## The parts of a destination -/

/-- The text before the first `#`. -/
def beforeFragment (s : GoString) : GoString := s.takeWhile (· != 0x23)

/-- The text from the first `#` on. -/
def fragmentOf (s : GoString) : GoString := s.dropWhile (· != 0x23)

/-- The text before the query. -/
def beforeQuery (s : GoString) : GoString := (cut 0x3F (beforeFragment s)).1

/-- The query, empty without one. -/
def queryOf (s : GoString) : GoString := (cut 0x3F (beforeFragment s)).2

/-- The parameters of a query. -/
def params (query : GoString) : List GoString := (split 0x26 query).filter (· ≠ [])

/-- Only the query has changed: it is the destination's own, the one that was forwarded, and
at most an ampersand between them, and so are its parameters. -/
structure QueryAdded (destination rawQuery merged : GoString) : Prop where
  before : beforeQuery merged = beforeQuery destination
  fragment : fragmentOf merged = fragmentOf destination
  query : ∃ separator, (separator = [] ∨ separator = [0x26]) ∧
    queryOf merged = queryOf destination ++ separator ++ rawQuery
  params : params (queryOf merged) = params (queryOf destination) ++ params rawQuery

/-- A query can be put behind the destination: when it has a query, that does not end in a
question mark that the visit's query does not separate itself from, and when it has none, its
path does not end in an ampersand. -/
def Appendable (destination rawQuery : GoString) : Prop :=
  rawQuery = [] ∨
    if (beforeFragment destination).contains 0x3F then
      endsWith (queryOf destination) 0x3F → rawQuery.head? = some 0x26
    else ¬ endsWith (beforeFragment destination) 0x26

/-! ## Parameters -/

theorem params_append (a b : GoString) : params (a ++ 0x26 :: b) = params a ++ params b := by
  rw [params, split_append, List.filter_append]
  rfl

theorem params_ampersand (a : GoString) : params (0x26 :: a) = params a :=
  params_append [] a

/-- One parameter more, when the first one begins anew. -/
theorem length_params_cons {c : UInt8} (hc : c ≠ 0x26) (a : GoString) :
    (params (c :: a)).length =
      (params a).length + if a = [] ∨ a.head? = some 0x26 then 1 else 0 := by
  obtain ⟨field, fields, ha⟩ := split_eq_cons 0x26 a
  have hfield : field = [] ↔ a = [] ∨ a.head? = some 0x26 := by
    cases a with
    | nil =>
      cases ha
      simp
    | cons b a =>
      obtain ⟨first, rest, hrest⟩ := split_eq_cons 0x26 a
      rw [split, hrest] at ha
      by_cases hb : b = 0x26
      · rw [if_pos hb] at ha
        cases ha
        simp [hb]
      · simp only [if_neg hb] at ha
        cases ha
        simp [hb]
  rw [params, params, split, if_neg hc, ha]
  by_cases hempty : field = []
  · rw [if_pos (hfield.mp hempty)]
    simp [hempty]
  · rw [if_neg fun h => hempty (hfield.mpr h)]
    simp [hempty]

/-- Without an ampersand between them the last parameter of a query and the first one of
another become one. -/
theorem length_params_append {a b : GoString} (ha : a ≠ []) (hlast : a.getLast? ≠ some 0x26)
    (hb : b ≠ []) (hfirst : b.head? ≠ some 0x26) :
    (params (a ++ b)).length + 1 = (params a).length + (params b).length := by
  induction a with
  | nil => exact absurd rfl ha
  | cons c a ih =>
    cases a with
    | nil =>
      have hc : c ≠ 0x26 := by simpa using hlast
      rw [List.singleton_append, length_params_cons hc, length_params_cons hc,
        if_neg (not_or.mpr ⟨hb, hfirst⟩), if_pos (Or.inl rfl)]
      show _ = (0 + 1) + _
      omega
    | cons d a =>
      have hrest := ih (List.cons_ne_nil _ _) (by simpa [List.getLast?_cons_cons] using hlast)
      by_cases hc : c = 0x26
      · subst hc
        rw [List.cons_append, params_ampersand, params_ampersand]
        exact hrest
      · rw [List.cons_append, length_params_cons hc, length_params_cons hc]
        simp only [List.cons_append, List.head?_cons, reduceCtorEq, false_or] at hrest ⊢
        omega

/-! ## Texts in their parts -/

theorem beforeFragment_append_fragmentOf (s : GoString) :
    beforeFragment s ++ fragmentOf s = s := List.takeWhile_append_dropWhile

theorem not_mem_beforeFragment (s : GoString) : (0x23 : UInt8) ∉ beforeFragment s := by
  intro hmem
  have hne := List.mem_takeWhile_imp hmem
  simp at hne

/-- Another text before the same fragment. -/
theorem parts_append {t : GoString} (ht : (0x23 : UInt8) ∉ t) (s : GoString) :
    beforeFragment (t ++ fragmentOf s) = t ∧ fragmentOf (t ++ fragmentOf s) = fragmentOf s := by
  have hall : ∀ c ∈ t, (c != 0x23) = true := fun c hc => bne_iff_ne.mpr fun heq => ht (heq ▸ hc)
  have hstop : (fragmentOf s).takeWhile (· != 0x23) = [] ∧
      (fragmentOf s).dropWhile (· != 0x23) = fragmentOf s := by
    have hdrop : (fragmentOf s).dropWhile (· != 0x23) = fragmentOf s :=
      List.dropWhile_idempotent (p := fun c : UInt8 => c != 0x23) s
    refine ⟨?_, hdrop⟩
    have hboth := List.takeWhile_append_dropWhile (p := fun c : UInt8 => c != 0x23)
      (l := fragmentOf s)
    rw [hdrop] at hboth
    exact List.append_left_eq_self.mp hboth
  unfold beforeFragment
  rw [List.takeWhile_append_of_pos hall, hstop.1, List.append_nil]
  refine ⟨rfl, ?_⟩
  conv_lhs => unfold fragmentOf
  rw [List.dropWhile_append_of_pos hall]
  exact hstop.2

/-- What is between a query and the one that follows it. -/
def separatorAfter (query : GoString) : GoString :=
  if query = [] ∨ endsWith query 0x3F ∨ endsWith query 0x26 then [] else [0x26]

section

variable {destination rawQuery path query : GoString}

theorem endsWith_append {s t : GoString} (c : UInt8) (ht : t ≠ []) :
    endsWith (s ++ t) c = endsWith t c := by
  rw [endsWith, endsWith, List.getLast?_append_of_ne_nil _ ht]

theorem mergeQuery_eq (hraw : rawQuery ≠ []) :
    mergeQuery destination rawQuery =
      if endsWith (beforeFragment destination) 0x3F || endsWith (beforeFragment destination) 0x26 then
        beforeFragment destination ++ rawQuery ++ fragmentOf destination
      else if (beforeFragment destination).contains 0x3F then
        beforeFragment destination ++ 0x26 :: rawQuery ++ fragmentOf destination
      else beforeFragment destination ++ 0x3F :: rawQuery ++ fragmentOf destination :=
  if_neg hraw

/-- A destination with a query has the visit's query behind it. -/
theorem mergeQuery_of_query (hraw : rawQuery ≠ [])
    (hbase : beforeFragment destination = path ++ 0x3F :: query) :
    mergeQuery destination rawQuery =
      path ++ 0x3F :: (query ++ separatorAfter query ++ rawQuery) ++ fragmentOf destination := by
  have hcontains : (path ++ 0x3F :: query).contains 0x3F = true := by simp
  have hends : (endsWith (path ++ 0x3F :: query) 0x3F ||
      endsWith (path ++ 0x3F :: query) 0x26) = true ↔
        query = [] ∨ endsWith query 0x3F ∨ endsWith query 0x26 := by
    rw [endsWith_append _ (List.cons_ne_nil _ _), endsWith_append _ (List.cons_ne_nil _ _),
      Bool.or_eq_true]
    cases query with
    | nil => simp [endsWith]
    | cons c query => simp [endsWith, List.getLast?_cons_cons]
  rw [mergeQuery_eq hraw, hbase, separatorAfter, hcontains]
  by_cases hdirect : query = [] ∨ endsWith query 0x3F ∨ endsWith query 0x26
  · rw [if_pos (hends.mpr hdirect), if_pos hdirect]
    simp
  · rw [if_neg fun h => hdirect (hends.mp h), if_neg hdirect, if_pos rfl]
    simp

/-- Without a query the visit's becomes one, unless the path ends in an ampersand. -/
theorem mergeQuery_of_path (hraw : rawQuery ≠ [])
    (hnone : (0x3F : UInt8) ∉ beforeFragment destination) :
    mergeQuery destination rawQuery =
      (if endsWith (beforeFragment destination) 0x26 then
        beforeFragment destination ++ rawQuery
      else beforeFragment destination ++ 0x3F :: rawQuery) ++ fragmentOf destination := by
  have hmark : endsWith (beforeFragment destination) 0x3F = false := by
    rw [Bool.eq_false_iff]
    intro hends
    exact hnone (List.mem_of_getLast? (beq_iff_eq.mp hends))
  have hcontains : (beforeFragment destination).contains 0x3F = false := by
    rw [Bool.eq_false_iff]
    exact fun h => hnone (List.contains_iff_mem.mp h)
  rw [mergeQuery_eq hraw, hmark, hcontains, Bool.false_or]
  by_cases hampersand : endsWith (beforeFragment destination) 0x26 = true
  · rw [if_pos hampersand, if_pos hampersand]
  · rw [if_neg hampersand, if_neg hampersand, if_neg Bool.false_ne_true]

/-- The parts of a text with a query. -/
theorem parts_of_query {s : GoString} (hbase : beforeFragment s = path ++ 0x3F :: query)
    (hpath : (0x3F : UInt8) ∉ path) : beforeQuery s = path ∧ queryOf s = query := by
  rw [beforeQuery, queryOf, hbase, cut_append hpath]
  exact ⟨rfl, rfl⟩

theorem parts_of_path {s : GoString} (hnone : (0x3F : UInt8) ∉ beforeFragment s) :
    beforeQuery s = beforeFragment s ∧ queryOf s = [] := by
  have hall : ∀ c ∈ beforeFragment s, (c != 0x3F) = true :=
    fun c hc => bne_iff_ne.mpr fun heq => hnone (heq ▸ hc)
  rw [beforeQuery, queryOf, cut, List.takeWhile_eq_self_iff.mpr hall,
    List.dropWhile_eq_nil_iff.mpr hall]
  exact ⟨rfl, rfl⟩

/-! ## When only the query is added -/

/-- A new query behind the path of the destination. -/
theorem queryAdded_iff {added : GoString} (hdestination : beforeQuery destination = path)
    (hpath : (0x3F : UInt8) ∉ path) (hhash : (0x23 : UInt8) ∉ path ++ 0x3F :: added) :
    QueryAdded destination rawQuery (path ++ 0x3F :: added ++ fragmentOf destination) ↔
      (∃ separator, (separator = [] ∨ separator = [0x26]) ∧
        added = queryOf destination ++ separator ++ rawQuery) ∧
        params added = params (queryOf destination) ++ params rawQuery := by
  obtain ⟨hbase, hfragment⟩ := parts_append hhash destination
  obtain ⟨hbefore, hquery⟩ := parts_of_query hbase hpath
  constructor
  · intro h
    have hqueryAdded := h.query
    have hparams := h.params
    rw [hquery] at hqueryAdded hparams
    exact ⟨hqueryAdded, hparams⟩
  · rintro ⟨hqueryAdded, hparams⟩
    refine ⟨hbefore.trans hdestination.symm, hfragment, ?_, ?_⟩
    · rw [hquery]
      exact hqueryAdded
    · rw [hquery]
      exact hparams

/-- Behind a query the parameters stay apart, unless it ends in a question mark and the visit's
does not begin with an ampersand. -/
theorem params_separatorAfter (hraw : rawQuery ≠ []) :
    params (query ++ separatorAfter query ++ rawQuery) = params query ++ params rawQuery ↔
      (endsWith query 0x3F → rawQuery.head? = some 0x26) := by
  unfold separatorAfter
  by_cases hnil : query = []
  · rw [if_pos (Or.inl hnil), hnil]
    simp [endsWith, params, split]
  by_cases hmark : endsWith query 0x3F = true
  · rw [if_pos (Or.inr (Or.inl hmark)), List.append_nil]
    obtain ⟨c, rest, rfl⟩ := List.exists_cons_of_ne_nil hraw
    by_cases hc : c = 0x26
    · subst hc
      rw [params_append, params_ampersand]
      simp
    · have hlast : query.getLast? ≠ some 0x26 := by
        rw [beq_iff_eq.mp hmark]
        decide
      have hmerged := length_params_append hnil hlast hraw (by simpa using hc)
      constructor
      · intro heq
        rw [heq, List.length_append] at hmerged
        omega
      · intro h
        exact absurd (h hmark) (by simpa using hc)
  · by_cases hampersand : endsWith query 0x26 = true
    · rw [if_pos (Or.inr (Or.inr hampersand)), List.append_nil]
      obtain ⟨front, rfl⟩ := List.getLast?_eq_some_iff.mp (beq_iff_eq.mp hampersand)
      rw [List.append_assoc, List.singleton_append, params_append, params_append]
      simp [hmark, params, split]
    · rw [if_neg (by simp [hnil, hmark, hampersand]), List.append_assoc, List.singleton_append,
        params_append]
      simp [hmark]

/-- A path that ends in an ampersand swallows the visit's query. -/
theorem not_queryAdded_of_ampersand (hraw : rawQuery ≠ []) (hhash : (0x23 : UInt8) ∉ rawQuery)
    (hnone : (0x3F : UInt8) ∉ beforeFragment destination) :
    ¬ QueryAdded destination rawQuery
      (beforeFragment destination ++ rawQuery ++ fragmentOf destination) := by
  intro h
  have hbase := not_mem_beforeFragment destination
  have hhashes : (0x23 : UInt8) ∉ beforeFragment destination ++ rawQuery := by
    rw [List.mem_append]
    exact not_or.mpr ⟨hbase, hhash⟩
  have hparts := (parts_append hhashes destination).1
  obtain ⟨separator, -, hquery⟩ := h.query
  have hbefore := h.before
  rw [(parts_of_path hnone).1] at hbefore
  rw [(parts_of_path hnone).2, List.nil_append] at hquery
  -- the query would have to begin after the path, and to be the whole of the visit's
  have hall : ∀ c ∈ beforeFragment destination, (c != 0x3F) = true :=
    fun c hc => bne_iff_ne.mpr fun heq => hnone (heq ▸ hc)
  rw [beforeQuery, hparts, cut, List.takeWhile_append_of_pos hall] at hbefore
  have htake := List.append_right_eq_self.mp hbefore
  rw [queryOf, hparts, cut, List.dropWhile_append_of_pos hall] at hquery
  cases rawQuery with
  | nil => exact hraw rfl
  | cons c rest =>
    by_cases hc : c = 0x3F
    · rw [List.dropWhile_cons_of_neg (by simp [hc])] at hquery
      have hlength := congrArg List.length hquery
      simp only [List.drop_succ_cons, List.drop_zero, List.length_append, List.length_cons]
        at hlength
      omega
    · rw [List.takeWhile_cons_of_pos (by simpa using hc)] at htake
      cases htake

/-- Forwarding adds the visit's query to a destination, and does nothing else, exactly when a
query can be put behind it. -/
theorem mergeQuery_adds_iff (destination rawQuery : GoString) (hhash : (0x23 : UInt8) ∉ rawQuery) :
    QueryAdded destination rawQuery (mergeQuery destination rawQuery) ↔
      Appendable destination rawQuery := by
  by_cases hraw : rawQuery = []
  · subst hraw
    refine ⟨fun _ => .inl rfl, fun _ => ⟨rfl, rfl, ⟨[], .inl rfl, ?_⟩, ?_⟩⟩
    · simp [mergeQuery]
    · simp [mergeQuery, params, split]
  have hbase := not_mem_beforeFragment destination
  rw [Appendable, or_iff_right hraw]
  by_cases hquery : (0x3F : UInt8) ∈ beforeFragment destination
  · rw [if_pos (List.contains_iff_mem.mpr hquery)]
    obtain ⟨path, query, hparts, hpath⟩ := List.eq_append_cons_of_mem hquery
    obtain ⟨hbefore, hown⟩ := parts_of_query hparts hpath
    have hhashes : (0x23 : UInt8) ∉ path ++ 0x3F :: (query ++ separatorAfter query ++ rawQuery) := by
      have hseparator : (0x23 : UInt8) ∉ separatorAfter query := by
        unfold separatorAfter
        split_ifs
        · exact List.not_mem_nil
        · decide
      rw [hparts] at hbase
      simp only [List.mem_append, List.mem_cons, not_or] at hbase ⊢
      exact ⟨hbase.1, hbase.2.1, ⟨hbase.2.2, hseparator⟩, hhash⟩
    rw [mergeQuery_of_query hraw hparts, queryAdded_iff hbefore hpath hhashes, hown,
      params_separatorAfter hraw]
    apply and_iff_right
    refine ⟨separatorAfter query, ?_, rfl⟩
    unfold separatorAfter
    split_ifs
    · exact .inl rfl
    · exact .inr rfl
  · have hnot : ¬ (beforeFragment destination).contains 0x3F = true :=
      fun h => hquery (List.contains_iff_mem.mp h)
    rw [if_neg hnot, mergeQuery_of_path hraw hquery]
    by_cases hampersand : endsWith (beforeFragment destination) 0x26 = true
    · rw [if_pos hampersand]
      exact iff_of_false (not_queryAdded_of_ampersand hraw hhash hquery) fun h => h hampersand
    · obtain ⟨hbefore, hown⟩ := parts_of_path hquery
      have hhashes : (0x23 : UInt8) ∉ beforeFragment destination ++ 0x3F :: rawQuery := by
        simp only [List.mem_append, List.mem_cons, not_or]
        exact ⟨hbase, by decide, hhash⟩
      rw [if_neg hampersand, queryAdded_iff hbefore hquery hhashes, hown]
      refine iff_of_true ⟨⟨[], .inl rfl, rfl⟩, ?_⟩ hampersand
      simp [params, split]

end

/-- A visit of a destination with a query and a fragment of its own. -/
theorem mergeQuery_adds_fragment :
    QueryAdded (lit "https://example.org/?a=1#b?c") (lit "d=2")
      (mergeQuery (lit "https://example.org/?a=1#b?c") (lit "d=2")) := by
  refine (mergeQuery_adds_iff _ _ (by decide)).mpr (.inr ?_)
  rw [if_pos (by decide)]
  intro hmark
  exact absurd hmark (by decide)

/-! ## A destination that loses its path -/

/-- The path of the destination ends in an ampersand. -/
def ampersandPath : GoString := lit "https://example.org/a&"

/-- The destination is accepted; the visit's query becomes part of its path. -/
theorem ampersand_path :
    Security.ValidateDestination .ascii ampersandPath = .ok () ∧
      mergeQuery ampersandPath (lit "b=2") = lit "https://example.org/a&b=2" ∧
      ¬ QueryAdded ampersandPath (lit "b=2") (mergeQuery ampersandPath (lit "b=2")) := by
  refine ⟨by decide, by decide, fun h => ?_⟩
  have hbefore := h.before
  exact absurd hbefore (by decide)

/-- A question mark at the end of the query joins two parameters. -/
example : queryOf (mergeQuery (lit "https://example.org/?a=1?") (lit "b=2")) = lit "a=1?b=2" := by
  decide

end Purels.Http
