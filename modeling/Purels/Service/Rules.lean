import Purels.Go.Json
import Purels.Service.Csv
import Purels.Service.LinkSpecs
import Purels.Store.Writes

/-!
# Divert rules on their way to a visit

A rule is submitted, normalized, stored as a row, rendered by `linkRulesColumn`, decoded by
`parseRules`, and kept in the redirect cache as JSON before `MatchRule` reads it.

* `DecodedRule`: `domain.LinkRule` as JSON makes it; `ruleMatches` and `MatchRule`.
* `linkRulesColumn`, `parseRules`: from the rows.
* `cacheValue`, `readCached`: through the redirect cache.
* `submittedMatches`, `diversion`: what the submitted rules say.
* `rules_divert`: what a visit gets is what they say.
-/

namespace Purels.Service

open Go Security Store

/-! ## Matching -/

/-- `domain.LinkRule` without the row id, its match type a text. -/
structure DecodedRule where
  position : Int := 0
  matchType : GoString := []
  matchValue : GoString := []
  destinationURL : GoString := []
  redirectCode : Int := 0
  deriving DecidableEq

section

variable (u : Unicode)

/-- `ruleMatches`.  A type the application does not write never matches. -/
def ruleMatches (rule : DecodedRule) (userAgent : GoString) : Bool :=
  if rule.matchType = lit "ua_contains" then
    decide (toLower u rule.matchValue <:+: toLower u userAgent)
  else if rule.matchType = lit "device" then DeviceClass u userAgent == rule.matchValue
  else false

/-- `MatchRule`, for the rules of a link and its own code. -/
def MatchRule (linkCode : Int) (userAgent : GoString) : List DecodedRule → Option (GoString × Int)
  | [] => none
  | rule :: rules =>
    if !ruleMatches u rule userAgent then MatchRule linkCode userAgent rules
    else
      let code := if rule.redirectCode = 0 then linkCode else rule.redirectCode
      some (rule.destinationURL, code)

end

/-! ## Rules as JSON -/

/-- The members of a rule. -/
inductive RuleField where
  | position
  | matchType
  | matchValue
  | destinationURL
  | redirectCode
  deriving DecidableEq

/-- The struct tags. -/
def RuleField.tag : RuleField → GoString
  | .position => lit "position"
  | .matchType => lit "match_type"
  | .matchValue => lit "match_value"
  | .destinationURL => lit "destination_url"
  | .redirectCode => lit "redirect_code"

def ruleFields : List RuleField :=
  [.position, .matchType, .matchValue, .destinationURL, .redirectCode]

/-- A number into an `int16`. -/
def toSmallInt (value : Json) : Option Int :=
  value.toInt.filter fun n => -2 ^ 15 ≤ n && n < 2 ^ 15

/-- A member into its field; `null` leaves it as it is. -/
def DecodedRule.set (rule : DecodedRule) (field : RuleField) (value : Json) : Option DecodedRule :=
  if value.isNull then some rule
  else
    match field with
    | .position => value.toInt.map fun n => { rule with position := n }
    | .matchType => value.toText.map fun s => { rule with matchType := s }
    | .matchValue => value.toText.map fun s => { rule with matchValue := s }
    | .destinationURL => value.toText.map fun s => { rule with destinationURL := s }
    | .redirectCode => (toSmallInt value).map fun n => { rule with redirectCode := n }

section

variable (u : Unicode)

/-- The members of an object, one after the other.  Unknown ones are skipped. -/
def decodeMembers (rule : DecodedRule) : List (GoString × Json) → Option DecodedRule
  | [] => some rule
  | (key, value) :: rest =>
    match fieldOf u RuleField.tag ruleFields key with
    | none => decodeMembers rule rest
    | some field => (rule.set field value).bind fun rule => decodeMembers rule rest

/-- An element of a rules array. -/
def decodeRule : Json → Option DecodedRule
  | .object members => decodeMembers u {} members
  | .null => some {}
  | _ => none

/-- `json.Unmarshal` into a slice of rules. -/
def decodeRules : Json → Option (List DecodedRule)
  | .array items => items.mapM (decodeRule u)
  | .null => some []
  | _ => none

/-- `parseRules`: what does not decode is no rule. -/
def parseRules (raw : Json) : List DecodedRule := (decodeRules u raw).getD []

end

/-- The match type of a row. -/
def matchTypeText : MatchType → GoString
  | .uaContains => lit "ua_contains"
  | .device => lit "device"

/-- `jsonb_build_object` for a row. -/
def ruleObject (row : RuleRow) : Json :=
  .object [
    (lit "position", .number (itoa row.position)),
    (lit "match_type", .string (matchTypeText row.matchType)),
    (lit "match_value", .string row.matchValue),
    (lit "destination_url", .string row.destinationURL),
    (lit "redirect_code", .number (itoa (row.redirectCode.getD 0)))]

/-- `linkRulesColumn`: the rules of a link as a jsonb array, in match order. -/
def linkRulesColumn (s : LinkStore) (id : Uuid) : Json :=
  .array (((s.rules.filter fun r => r.linkID == id).insertionSort fun a b =>
    a.position ≤ b.position).map ruleObject)

/-! ## The redirect cache -/

/-- Of `domain.Link`, what `MatchRule` reads. -/
structure CachedLink where
  redirectCode : Int := 0
  rules : List DecodedRule := []
  deriving DecidableEq

/-- `json.Marshal` of a rule. -/
def DecodedRule.marshal (rule : DecodedRule) : Json :=
  .object [
    (lit "position", .number (itoa rule.position)),
    (lit "match_type", .string (jsonText rule.matchType)),
    (lit "match_value", .string (jsonText rule.matchValue)),
    (lit "destination_url", .string (jsonText rule.destinationURL)),
    (lit "redirect_code", .number (itoa rule.redirectCode))]

/-- `SetLink`: the payload.  An empty list of rules is omitted. -/
def cacheValue (link : CachedLink) : Json :=
  .object ((lit "redirect_code", .number (itoa link.redirectCode)) ::
    if link.rules = [] then [] else [(lit "rules", .array (link.rules.map DecodedRule.marshal))])

/-- The members of a cached link that are read here. -/
inductive CachedField where
  | redirectCode
  | rules
  deriving DecidableEq

def CachedField.tag : CachedField → GoString
  | .redirectCode => lit "redirect_code"
  | .rules => lit "rules"

section

variable (u : Unicode)

def CachedLink.set (link : CachedLink) (field : CachedField) (value : Json) : Option CachedLink :=
  if value.isNull then some link
  else
    match field with
    | .redirectCode => (toSmallInt value).map fun n => { link with redirectCode := n }
    | .rules => (decodeRules u value).map fun rules => { link with rules := rules }

def decodeCached (link : CachedLink) : List (GoString × Json) → Option CachedLink
  | [] => some link
  | (key, value) :: rest =>
    match fieldOf u CachedField.tag [.redirectCode, .rules] key with
    | none => decodeCached link rest
    | some field => (link.set u field value).bind fun link => decodeCached link rest

/-- `GetLink`: a payload that does not decode is an error. -/
def readCached : Json → Option CachedLink
  | .object members => decodeCached u {} members
  | .null => some {}
  | _ => none

end

/-! ## What was submitted -/

section

variable (u : Unicode)

/-- A submitted rule fires for a user agent: its value occurs in it in any case, or names the
class of the device. -/
def submittedMatches (rule : LinkRuleInput) (userAgent : GoString) : Bool :=
  match parseMatchType (trimSpace rule.matchType) with
  | some .uaContains =>
    decide (toLower u (trimSpace rule.matchValue) <:+: toLower u userAgent)
  | some .device => DeviceClass u userAgent == toLower u (trimSpace rule.matchValue)
  | none => false

/-- Where the submitted rules of a link send a visit: to the first that fires, with its code, or
the code of the link when it has none. -/
def diversion (submitted : List LinkRuleInput) (linkCode : Int) (userAgent : GoString) :
    Option (GoString × Int) :=
  (submitted.find? fun rule => submittedMatches u rule userAgent).map fun rule =>
    (rule.destinationURL, if rule.redirectCode = 0 then linkCode else rule.redirectCode)

end

/-! ## Decoding -/

/-- A rule as it is decoded. -/
def decoded (rule : LinkRule) : DecodedRule where
  position := rule.position
  matchType := matchTypeText rule.matchType
  matchValue := rule.matchValue
  destinationURL := rule.destinationURL
  redirectCode := rule.redirectCode

/-- The rule is one `normalizeRules` can make, with texts that a column takes. -/
structure Plain (rule : DecodedRule) : Prop where
  position : 0 ≤ rule.position ∧ rule.position < 10
  matchType : rule.matchType = lit "ua_contains" ∨ rule.matchType = lit "device"
  matchValue : validString rule.matchValue
  destinationURL : validString rule.destinationURL
  redirectCode : rule.redirectCode = 0 ∨ rule.redirectCode = 301 ∨ rule.redirectCode = 302

section

variable {u : Unicode}

theorem toInt_itoa_position {n : Int} (h : 0 ≤ n ∧ n < 10) :
    (Json.number (itoa n)).toInt = some n := by
  obtain ⟨k, rfl⟩ := Int.eq_ofNat_of_zero_le h.1
  have hall : ∀ k < 10, (Json.number (itoa (k : Nat))).toInt = some ((k : Nat) : Int) := by
    decide
  exact hall k (by omega)

theorem toSmallInt_itoa_code {n : Int} (h : n = 0 ∨ n = 301 ∨ n = 302) :
    toSmallInt (.number (itoa n)) = some n := by
  rcases h with rfl | rfl | rfl <;> decide

/-- Members in the order of the struct give the rule they are of. -/
theorem decodeRule_members {rule : DecodedRule} (h : Plain rule) :
    decodeRule u (.object [
      (lit "position", .number (itoa rule.position)),
      (lit "match_type", .string rule.matchType),
      (lit "match_value", .string rule.matchValue),
      (lit "destination_url", .string rule.destinationURL),
      (lit "redirect_code", .number (itoa rule.redirectCode))]) = some rule := by
  have hfield : ∀ field, fieldOf u RuleField.tag ruleFields field.tag = some field := by
    intro field
    cases field <;> rfl
  have hposition := hfield .position
  have hmatchType := hfield .matchType
  have hmatchValue := hfield .matchValue
  have hdestination := hfield .destinationURL
  have hcode := hfield .redirectCode
  simp only [RuleField.tag] at hposition hmatchType hmatchValue hdestination hcode
  simp only [decodeRule, decodeMembers, hposition, hmatchType, hmatchValue, hdestination, hcode,
    DecodedRule.set, Json.isNull, Bool.false_eq_true, if_false, toInt_itoa_position h.position,
    toSmallInt_itoa_code h.redirectCode, Json.toText, Option.map_some, Option.bind_some]

theorem decodeRule_marshal {rule : DecodedRule} (h : Plain rule) :
    decodeRule u rule.marshal = some rule := by
  have htype : jsonText rule.matchType = rule.matchType := by
    rcases h.matchType with heq | heq <;> rw [heq] <;> exact jsonText_of_valid (by decide)
  unfold DecodedRule.marshal
  rw [htype, jsonText_of_valid h.matchValue, jsonText_of_valid h.destinationURL]
  exact decodeRule_members h

theorem decodeRule_ruleObject {row : RuleRow} (h : Plain (decoded row.toRule)) :
    decodeRule u (ruleObject row) = some (decoded row.toRule) := by
  have hmembers := decodeRule_members (u := u) h
  simp only [decoded, RuleRow.toRule] at hmembers
  unfold ruleObject
  exact hmembers

/-- The rules of a list are decoded one by one. -/
theorem mapM_decodeRule {α : Type} {f : α → Json} {g : α → DecodedRule} {xs : List α}
    (h : ∀ x ∈ xs, decodeRule u (f x) = some (g x)) :
    (xs.map f).mapM (decodeRule u) = some (xs.map g) := by
  induction xs with
  | nil => rfl
  | cons x xs ih =>
    have hrest := ih fun y hy => h y (List.mem_cons_of_mem _ hy)
    rw [List.map_cons, List.mapM_cons, h x List.mem_cons_self, hrest]
    rfl

/-- A link with plain rules comes out of the cache as it went in. -/
theorem readCached_cacheValue {link : CachedLink}
    (hcode : link.redirectCode = 301 ∨ link.redirectCode = 302)
    (hrules : ∀ rule ∈ link.rules, Plain rule) : readCached u (cacheValue link) = some link := by
  have hfield : fieldOf u CachedField.tag [.redirectCode, .rules] (lit "redirect_code") =
      some .redirectCode ∧
      fieldOf u CachedField.tag [.redirectCode, .rules] (lit "rules") = some .rules := ⟨rfl, rfl⟩
  have hitems : (link.rules.map DecodedRule.marshal).mapM (decodeRule u) =
      some (link.rules.map id) :=
    mapM_decodeRule fun rule hrule => decodeRule_marshal (hrules rule hrule)
  rw [List.map_id] at hitems
  unfold readCached cacheValue
  by_cases hnil : link.rules = []
  · rw [if_pos hnil]
    simp only [decodeCached, hfield.1, CachedLink.set, Json.isNull, Bool.false_eq_true, if_false,
      toSmallInt_itoa_code (.inr hcode), Option.map_some, Option.bind_some]
    rw [← hnil]
  · rw [if_neg hnil]
    simp only [decodeCached, hfield.1, hfield.2, CachedLink.set, Json.isNull, Bool.false_eq_true,
      if_false, toSmallInt_itoa_code (.inr hcode), Option.map_some, Option.bind_some, decodeRules,
      hitems]

/-! ## Rules of a link -/

/-- The rules that were written are rendered and decoded as they were, in their order. -/
theorem parseRules_linkRulesColumn (s : LinkStore) (id : Uuid)
    (hplain : ∀ rule ∈ s.rulesOf id, Plain (decoded rule)) :
    parseRules u (linkRulesColumn s id) = (s.rulesOf id).map decoded := by
  unfold LinkStore.rulesOf at hplain ⊢
  unfold parseRules decodeRules linkRulesColumn
  generalize (s.rules.filter fun r => r.linkID == id).insertionSort
    (fun a b => a.position ≤ b.position) = rows at hplain ⊢
  have hrow : ∀ row ∈ rows, decodeRule u (ruleObject row) = some (decoded row.toRule) := by
    intro row hrow
    exact decodeRule_ruleObject (hplain row.toRule (List.mem_map_of_mem hrow))
  dsimp only
  rw [mapM_decodeRule hrow, List.map_map]
  rfl

theorem ruleValue_ok {matchType : MatchType} {raw value : GoString}
    (h : ruleValue u matchType raw = .ok value) :
    (matchType = .uaContains → value = trimSpace raw) ∧
      (matchType = .device → value = toLower u (trimSpace raw)) := by
  unfold ruleValue at h
  dsimp only at h
  by_cases hnil : trimSpace raw = []
  · rw [if_pos hnil] at h
    cases h
  by_cases hlong : (runes (trimSpace raw)).length > maxRuleValueLength
  · rw [if_neg hnil, if_pos hlong] at h
    cases h
  rw [if_neg hnil, if_neg hlong] at h
  cases matchType with
  | uaContains =>
    refine ⟨fun _ => (Except.ok.inj h).symm, fun heq => ?_⟩
    cases heq
  | device =>
    dsimp only at h
    split_ifs at h
    refine ⟨fun heq => ?_, fun _ => (Except.ok.inj h).symm⟩
    cases heq

/-- A normalized rule fires when the submitted one does, and sends to the same place. -/
theorem normalizeRule_fires {denylist : List GoString} {index : Nat} {rule : LinkRuleInput}
    {out : LinkRule} (h : normalizeRule u denylist index rule = .ok out) :
    out.position = index ∧ out.destinationURL = rule.destinationURL ∧
      out.redirectCode = rule.redirectCode ∧ ruleCode rule.redirectCode ∧
        ∀ userAgent, ruleMatches u (decoded out) userAgent = submittedMatches u rule userAgent := by
  unfold normalizeRule at h
  split at h
  · cases h
  rename_i matchType htype
  split at h
  · cases h
  rename_i value hvalue
  split at h
  · cases h
  by_cases hcode : ruleCode rule.redirectCode = true
  · rw [hcode] at h
    cases h
    refine ⟨rfl, rfl, rfl, hcode, fun userAgent => ?_⟩
    have htext := ruleValue_ok hvalue
    unfold submittedMatches ruleMatches decoded
    rw [htype]
    cases matchType with
    | uaContains =>
      have hname : matchTypeText .uaContains = lit "ua_contains" := rfl
      dsimp only
      rw [if_pos hname, htext.1 rfl]
    | device =>
      have hname : matchTypeText .device = lit "device" := rfl
      have hother : matchTypeText .device ≠ lit "ua_contains" := by decide
      dsimp only
      rw [if_neg hother, if_pos hname, htext.2 rfl]
  · rw [Bool.not_eq_true] at hcode
    rw [hcode] at h
    cases h

/-- The normalized rules are the submitted ones, one by one. -/
theorem normalizeRulesFrom_fires {denylist : List GoString} {index : Nat}
    {rules : List LinkRuleInput} {out : List LinkRule}
    (h : normalizeRulesFrom u denylist index rules = .ok out) :
    (∀ rule ∈ out, rule.position < index + rules.length ∧ ruleCode rule.redirectCode) ∧
      ∀ linkCode userAgent,
        MatchRule u linkCode userAgent (out.map decoded) = diversion u rules linkCode userAgent := by
  induction rules generalizing index out with
  | nil =>
    obtain rfl : [] = out := by simpa [normalizeRulesFrom] using h
    exact ⟨fun rule hrule => absurd hrule List.not_mem_nil, fun _ _ => rfl⟩
  | cons rule rules ih =>
    rw [normalizeRulesFrom] at h
    split at h
    · cases h
    rename_i head hhead
    split at h
    · cases h
    rename_i rest hrest
    cases h
    obtain ⟨hposition, hdestination, hcode, hallowed, hfires⟩ := normalizeRule_fires hhead
    obtain ⟨hplain, hdiverts⟩ := ih hrest
    constructor
    · intro other hother
      rw [List.length_cons]
      rcases List.mem_cons.mp hother with rfl | hother
      · rw [hcode]
        exact ⟨by omega, hallowed⟩
      · have hrule := hplain other hother
        exact ⟨by omega, hrule.2⟩
    · intro linkCode userAgent
      have hmore := hdiverts linkCode userAgent
      rw [List.map_cons, MatchRule, hfires userAgent, diversion, List.find?_cons]
      cases submittedMatches u rule userAgent with
      | true =>
        show some (head.destinationURL, if head.redirectCode = 0 then _ else head.redirectCode) = _
        rw [hdestination, hcode]
        rfl
      | false => exact hmore

end

/-! ## What a visit gets -/

/-- The rules that are stored for a link send every visit where the submitted ones say, whether
they are read from the table or from the cache. -/
theorem rules_divert (u : Unicode) (denylist : List GoString) (submitted : List LinkRuleInput)
    (rules : List LinkRule) (s : LinkStore) (id : Uuid) (linkCode : Int) (userAgent : GoString)
    (hnormalized : normalizeRules u submitted denylist = .ok rules)
    (hstored : rules.all LinkStore.storableRule) (hcode : linkCode = 301 ∨ linkCode = 302) :
    MatchRule u linkCode userAgent (parseRules u (linkRulesColumn (s.setLinkRules id rules) id)) =
        diversion u submitted linkCode userAgent ∧
      (readCached u (cacheValue {
          redirectCode := linkCode
          rules := parseRules u (linkRulesColumn (s.setLinkRules id rules) id) })).map
        (fun link => MatchRule u link.redirectCode userAgent link.rules) =
          some (diversion u submitted linkCode userAgent) := by
  have hposition := normalizeRules_position hnormalized
  unfold normalizeRules at hnormalized
  split_ifs at hnormalized with hmany
  obtain ⟨hrules, hdiverts⟩ := normalizeRulesFrom_fires hnormalized
  have hread := LinkStore.rulesOf_setLinkRules_position s id hposition
  have hplain : ∀ rule ∈ rules, Plain (decoded rule) := by
    intro rule hrule
    obtain ⟨hindex, hallowed⟩ := hrules rule hrule
    have hstorable := List.all_eq_true.mp hstored rule hrule
    simp only [LinkStore.storableRule, storableText, Bool.and_eq_true] at hstorable
    have hten : maxRulesPerLink = 10 := rfl
    constructor
    case position =>
      show (0 : Int) ≤ rule.position ∧ (rule.position : Int) < 10
      omega
    case matchType =>
      show matchTypeText rule.matchType = _ ∨ matchTypeText rule.matchType = _
      cases rule.matchType
      · exact .inl rfl
      · exact .inr rfl
    case matchValue => exact hstorable.1.1.1.1.1
    case destinationURL => exact hstorable.1.1.2.1
    case redirectCode =>
      show rule.redirectCode = 0 ∨ rule.redirectCode = 301 ∨ rule.redirectCode = 302
      simpa [ruleCode, or_assoc] using hallowed
  have hparsed : parseRules u (linkRulesColumn (s.setLinkRules id rules) id) =
      rules.map decoded := by
    rw [parseRules_linkRulesColumn, hread]
    rw [hread]
    exact hplain
  have hcached : readCached u (cacheValue { redirectCode := linkCode, rules := rules.map decoded }) =
      some { redirectCode := linkCode, rules := rules.map decoded } := by
    apply readCached_cacheValue hcode
    intro rule hrule
    obtain ⟨stored, hmem, rfl⟩ := List.mem_map.mp hrule
    exact hplain stored hmem
  rw [hparsed, hcached]
  exact ⟨hdiverts linkCode userAgent, congrArg some (hdiverts linkCode userAgent)⟩

/-- Two rules of one link, and a phone. -/
theorem rules_divert_phone :
    MatchRule .ascii 301 (lit "Mozilla/5.0 (iPhone)")
        (parseRules .ascii (linkRulesColumn (({} : LinkStore).setLinkRules default [
          { position := 0, matchType := .uaContains, matchValue := lit "Android"
            destinationURL := lit "https://example.org/a", redirectCode := 302 },
          { position := 1, matchType := .device, matchValue := lit "mobile"
            destinationURL := lit "https://example.org/m", redirectCode := 0 }]) default)) =
      some (lit "https://example.org/m", 301) := by
  have hnormalized : normalizeRules .ascii [
      { matchType := lit "ua_contains", matchValue := lit " Android"
        destinationURL := lit "https://example.org/a", redirectCode := 302 },
      { matchType := lit "device", matchValue := lit "Mobile"
        destinationURL := lit "https://example.org/m" }] [] = .ok [
      { position := 0, matchType := .uaContains, matchValue := lit "Android"
        destinationURL := lit "https://example.org/a", redirectCode := 302 },
      { position := 1, matchType := .device, matchValue := lit "mobile"
        destinationURL := lit "https://example.org/m", redirectCode := 0 }] := by decide
  rw [(rules_divert .ascii [] _ _ {} default 301 (lit "Mozilla/5.0 (iPhone)") hnormalized
    (by decide) (.inl rfl)).1]
  decide

end Purels.Service
