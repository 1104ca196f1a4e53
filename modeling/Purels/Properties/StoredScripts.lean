import Purels.Js.Literals
import Purels.Properties.AcceptedSettings

/-!
# Stored values in scripts

A page of the server is public, and its scripts are built from what is stored.  No value leaves
the literal that it is written as, and no literal leaves its element, whatever the row holds.

* `Confines`: a piece of script that opens no tag and has these values in double quotes.
* `confines_fixed` and `confines_jsString`: the two kinds of pieces.
* `stored_values_confined`: the elements of every row.
-/

namespace Purels.Properties

open Go Js Service Http Lib

/-! ## Elements -/

/-- The id of a provider's element. -/
def elementID : Provider → String
  | .ga4 => "purels-analytics-ga4"
  | .gtm => "purels-analytics-gtm"
  | .googleTag => "purels-analytics-google-tag"
  | .matomo => "purels-analytics-matomo"
  | .clarity => "purels-analytics-clarity"

/-- The snippet of a provider. -/
def providerSnippet (row : AnalyticsSettings) : Provider → GoString
  | .ga4 => gtagSnippet row.ga4MeasurementID
  | .gtm => gtmSnippet row.gtmContainerID
  | .googleTag => gtagSnippet row.googleTagID
  | .matomo => matomoSnippet row.matomoURL row.matomoSiteID
  | .clarity => claritySnippet row.clarityProjectID

/-- The values that a snippet carries, in the order it names them. -/
def carried (row : AnalyticsSettings) : Provider → List GoString
  | .ga4 => [row.ga4MeasurementID, row.ga4MeasurementID]
  | .gtm => [row.gtmContainerID]
  | .googleTag => [row.googleTagID, row.googleTagID]
  | .matomo => [row.matomoURL ++ lit "/matomo.php", row.matomoSiteID,
      row.matomoURL ++ lit "/matomo.js"]
  | .clarity => [row.clarityProjectID]

theorem element_eq (row : AnalyticsSettings) (provider : Provider) :
    (providerTracker row provider).element =
      scriptElement (elementID provider) (providerSnippet row provider) := by
  cases provider with
  | ga4 => rfl
  | gtm => rfl
  | googleTag => rfl
  | matomo => rfl
  | clarity => rfl

theorem elementID_opens_no_tag (provider : Provider) : 0x3C ∉ lit (elementID provider) := by
  cases provider with
  | ga4 => decide
  | gtm => decide
  | googleTag => decide
  | matomo => decide
  | clarity => decide

/-! ## Pieces of a script -/

/-- The values of the literals in double quotes.  The snippets write their own in single
quotes. -/
def doubleQuoted (ls : List Literal) : List (List Nat) :=
  (ls.filter fun l => l.quote == 0x22).map Literal.value

/-- The bytes of a text, as code units of a page that is ASCII. -/
def codes (s : GoString) : List Nat := s.map UInt8.toNat

/-- A piece of script that opens no tag, and whose literals in double quotes have these values. -/
structure Confines (text : GoString) (values : List GoString) : Prop where
  ascii : ∀ b ∈ text, b.toNat < 0x80 ∧ b ≠ 0x3C
  reads : ∃ ls, Reads (codes text) ls ∧ doubleQuoted ls = values.map codes

theorem Confines.append {s t : GoString} {a b : List GoString} (hs : Confines s a)
    (ht : Confines t b) : Confines (s ++ t) (a ++ b) := by
  obtain ⟨ls, hls, ha⟩ := hs.reads
  obtain ⟨ks, hks, hb⟩ := ht.reads
  refine ⟨fun c hc => ?_, ls ++ ks, ?_, ?_⟩
  · rcases List.mem_append.mp hc with hc | hc
    · exact hs.ascii c hc
    · exact ht.ascii c hc
  · rw [codes, List.map_append]
    exact hls.append hks
  · rw [doubleQuoted, List.filter_append, List.map_append, List.map_append, ← ha, ← hb]
    rfl

/-- A text with no literal in double quotes. -/
def isFixedScript (text : GoString) : Bool :=
  (text.all fun b => b.toNat < 0x80 && b != 0x3C) &&
    (literals (codes text)).map doubleQuoted == some []

theorem confines_fixed {text : GoString} (h : isFixedScript text) : Confines text [] := by
  simp only [isFixedScript, Bool.and_eq_true, List.all_eq_true, decide_eq_true_eq, bne_iff_ne,
    beq_iff_eq] at h
  obtain ⟨ls, hls, hnone⟩ := Option.map_eq_some_iff.mp h.2
  exact ⟨h.1, ls, reads_of_literals hls, hnone⟩

/-- A value is one literal. -/
theorem confines_jsString {value : GoString} (h : ∀ b ∈ value, b.toNat < 0x80) :
    Confines (jsString value) [value] :=
  ⟨marshalString_ascii h, _, reads_marshalString h, rfl⟩

/-- A script goes on with a fixed text. -/
theorem Confines.fixed {s t : GoString} {values : List GoString} (hs : Confines s values)
    (ht : isFixedScript t) : Confines (s ++ t) values := by
  have h := hs.append (confines_fixed ht)
  rw [List.append_nil] at h
  exact h

/-- A script goes on with a value. -/
theorem Confines.value {s value : GoString} {values : List GoString} (hs : Confines s values)
    (h : ∀ b ∈ value, b.toNat < 0x80) : Confines (s ++ jsString value) (values ++ [value]) :=
  hs.append (confines_jsString h)

/-- What a page reads in a snippet. -/
theorem Confines.literals_page {text : GoString} {values : List GoString}
    (h : Confines text values) :
    ∃ ls, literals (unitCodes (ofGo text)) = some ls ∧ doubleQuoted ls = values.map codes := by
  obtain ⟨ls, hls, hvalues⟩ := h.reads
  have hrunes : runeCodes text = codes text := runeCodes_of_ascii fun b hb => (h.ascii b hb).1
  have hpage : unitCodes (ofGo text) = codes text := by
    rw [unitCodes_ofGo, hrunes]
    rw [hrunes]
    intro c hc
    obtain ⟨b, hb, rfl⟩ := List.mem_map.mp hc
    exact (h.ascii b hb).1
  rw [hpage]
  exact ⟨ls, hls.literals_eq, hvalues⟩

/-! ## Snippets -/

section

variable {value : GoString}

theorem confines_gtag (h : ∀ b ∈ value, b.toNat < 0x80) :
    Confines (gtagSnippet value) [value, value] := by
  show Confines (gtagSnippet value) ([] ++ [value] ++ [value])
  unfold gtagSnippet
  refine .fixed (.fixed (.value (.fixed (.fixed (.fixed (.value (.fixed (.fixed (.fixed (.fixed
    (confines_fixed ?_) ?_) ?_) ?_) ?_) h) ?_) ?_) ?_) h) ?_) ?_
  all_goals decide

theorem confines_gtm (h : ∀ b ∈ value, b.toNat < 0x80) :
    Confines (gtmSnippet value) [value] := by
  show Confines (gtmSnippet value) ([] ++ [value])
  unfold gtmSnippet
  refine .fixed (.value (.fixed (.fixed (.fixed (confines_fixed ?_) ?_) ?_) ?_) h) ?_
  all_goals decide

theorem confines_clarity (h : ∀ b ∈ value, b.toNat < 0x80) :
    Confines (claritySnippet value) [value] := by
  show Confines (claritySnippet value) ([] ++ [value])
  unfold claritySnippet
  refine .fixed (.value (.fixed (.fixed (.fixed (confines_fixed ?_) ?_) ?_) ?_) h) ?_
  all_goals decide

theorem confines_matomo {siteID : GoString} (h : ∀ b ∈ value, b.toNat < 0x80)
    (hsite : ∀ b ∈ siteID, b.toNat < 0x80) :
    Confines (matomoSnippet value siteID)
      [value ++ lit "/matomo.php", siteID, value ++ lit "/matomo.js"] := by
  have hpath : ∀ path, (∀ b ∈ path, b.toNat < 0x80) → ∀ b ∈ value ++ path, b.toNat < 0x80 := by
    intro path hpath b hb
    rcases List.mem_append.mp hb with hb | hb
    · exact h b hb
    · exact hpath b hb
  have htracker := hpath (lit "/matomo.php") (by decide +kernel)
  have hscript := hpath (lit "/matomo.js") (by decide +kernel)
  show Confines (matomoSnippet value siteID)
    ([] ++ [value ++ lit "/matomo.php"] ++ [siteID] ++ [value ++ lit "/matomo.js"])
  unfold matomoSnippet
  refine .fixed (.value (.fixed (.fixed (.fixed (.fixed (.fixed (.value (.fixed (.fixed (.value
    (.fixed (confines_fixed ?_) ?_) htracker) ?_) ?_) hsite) ?_) ?_) ?_) ?_) ?_) hscript) ?_
  all_goals decide

end

/-! ## Rows -/

/-- A value that may be rendered is ASCII. -/
theorem ascii_of_pattern {value : GoString} {pattern : List Nat → Bool}
    (hvisible : ∀ s, pattern s → ∀ c ∈ s, Visible c) (h : pattern (runeCodes value)) :
    ∀ b ∈ value, b.toNat < 0x80 := by
  refine (ascii_of_runeCodes fun c hc => ?_).1
  have := (hvisible _ h c hc).2
  omega

/-- A provider that is switched on in a row that may be rendered confines its values. -/
theorem confines_of_renderable {row : AnalyticsSettings} (h : Renderable row)
    {provider : Provider} (hset : providerField row provider ≠ []) :
    Confines (providerSnippet row provider) (carried row provider) := by
  cases provider with
  | ga4 => exact confines_gtag (ascii_of_pattern ga4Pattern_visible (h.ga4.resolve_left hset))
  | gtm => exact confines_gtm (ascii_of_pattern gtmPattern_visible (h.gtm.resolve_left hset))
  | googleTag =>
    exact confines_gtag (ascii_of_pattern googleTagPattern_visible (h.googleTag.resolve_left hset))
  | matomo =>
    obtain ⟨hurl, -, hsite⟩ := h.matomo.resolve_left fun hoff => hset hoff.1
    exact confines_matomo (ascii_of_pattern matomoUrlPattern_visible hurl)
      (ascii_of_pattern matomoSitePattern_visible hsite)
  | clarity =>
    exact confines_clarity (ascii_of_pattern clarityPattern_visible (h.clarity.resolve_left hset))

/-- The providers whose elements a page carries for a row. -/
def written (u : Unicode) (row : AnalyticsSettings) : List Provider :=
  match ValidateAnalyticsSettings u row with
  | .error _ => []
  | .ok _ => enabled row

theorem emitted_eq (u : Unicode) (row : AnalyticsSettings) :
    emitted u row = (written u row).map (providerTracker row) := by
  unfold emitted written
  cases ValidateAnalyticsSettings u row with
  | error e => rfl
  | ok _ => exact trackers_eq row

/-- For every row, a page carries at most five elements with ids of their own.  A tag opens only
where an element begins or ends, and the literals that a snippet builds from the row have the
values of the row, with the path behind the base URL of a Matomo. -/
theorem stored_values_confined (u : Unicode) (row : AnalyticsSettings) :
    ∃ elements : List (Provider × GoString),
      trackerScripts u row =
        elements.flatMap (fun e => scriptElement (elementID e.1) e.2) ∧
      elements.length ≤ 5 ∧ (elements.map fun e => elementID e.1).Nodup ∧
      ∀ e ∈ elements, 0x3C ∉ lit (elementID e.1) ∧ 0x3C ∉ e.2 ∧
        ∃ ls, literals (unitCodes (ofGo e.2)) = some ls ∧
          doubleQuoted ls = (carried row e.1).map codes := by
  have hsub : (written u row).Sublist providers := by
    unfold written
    cases ValidateAnalyticsSettings u row with
    | error e => exact List.nil_sublist _
    | ok _ => exact List.filter_sublist
  refine ⟨(written u row).map fun provider => (provider, providerSnippet row provider),
    ?_, ?_, ?_, ?_⟩
  · rw [trackerScripts, emitted_eq, List.flatMap_map, List.flatMap_map]
    exact List.flatMap_congr fun provider _ => element_eq row provider
  · rw [List.length_map]
    exact hsub.length_le
  · have hids : (providers.map elementID).Nodup := by decide
    rw [List.map_map]
    exact hids.sublist (hsub.map elementID)
  · intro e he
    obtain ⟨provider, hmem, rfl⟩ := List.mem_map.mp he
    have hrow : Renderable row ∧ provider ∈ enabled row := by
      unfold written at hmem
      split at hmem
      · exact absurd hmem List.not_mem_nil
      · rename_i hvalid
        exact ⟨(ValidateAnalyticsSettings_iff u).mp hvalid, hmem⟩
    have hset : providerField row provider ≠ [] := by
      simpa using (List.mem_filter.mp hrow.2).2
    have hconfines := confines_of_renderable hrow.1 hset
    exact ⟨elementID_opens_no_tag provider, fun hlt => (hconfines.ascii _ hlt).2 rfl,
      hconfines.literals_page⟩

end Purels.Properties
