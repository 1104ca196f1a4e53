import Purels.Go.Utf8
import Purels.Service.Clicks
import Purels.Store.Stats

/-!
# The class of a visitor and of his click

`DeviceClass`, by which a rule is matched, against `DeviceBreakdown`, which reads the stored user
agent and the stored bot flag.

* `FoldsAscii`: what ILIKE does with ASCII text.
* `DevicesAgree`: the chart has a click under the class of its visitor.
* `label_storedClick`: the class of a click, from the truncated user agent.
* `devicesAgree_iff`: they agree unless the markers of the class lie behind the cut.
* `devices_disagree`: a tablet in the rules is a desktop in the chart.
-/

namespace Purels.Properties

open Go Security Store Service LinkStore

/-- ILIKE compares ASCII text without regard to case; `needle` holds lower case letters only. -/
def FoldsAscii (loc : DatabaseLocale) : Prop :=
  ∀ value needle : GoString, (∀ b ∈ value, b.toNat < 0x80) →
    (∀ b ∈ needle, 0x61 ≤ b.toNat ∧ b.toNat ≤ 0x7A) →
    loc.ilike value needle =
      decide (needle <:+: value.map fun b => UInt8.ofNat (asciiLower b.toNat))

/-- The label of a bucket. -/
def label : Device → GoString
  | .unknown => lit "unknown"
  | .bot => lit "bot"
  | .tablet => lit "tablet"
  | .mobile => lit "mobile"
  | .desktop => lit "desktop"

/-- Every click with this user agent that is recorded is in the bucket of its visitor's class. -/
def DevicesAgree (u : Unicode) (loc : DatabaseLocale) (userAgent : GoString) : Prop :=
  ∀ (hash : GoString → Option (List UInt8)) (link : Link) (requestIP referrer : GoString)
    (id : Uuid) (now : Instant) (s : ClickTables) (event : ClickEvent),
    (RecordClick u hash link requestIP userAgent referrer id now s).events =
        s.events ++ [event] →
      label (deviceOf loc event) = DeviceClass u userAgent

/-- One of the markers occurs in the stored part of the user agent, if it occurs at all. -/
def InFront (u : Unicode) (userAgent : GoString) (markers : List GoString) : Prop :=
  containsMarker (toLower u userAgent) markers →
    containsMarker (toLower u (truncate userAgent 512)) markers

/-- The class shows in the stored part: the user agent is empty or a bot's, or the markers that
make it a tablet or else a mobile do not all lie behind the cut. -/
def ShowsInFront (u : Unicode) (userAgent : GoString) : Prop :=
  userAgent = [] ∨ IsBotUA u userAgent ∨
    (InFront u userAgent tabletMarkers ∧
      (containsMarker (toLower u userAgent) tabletMarkers ∨ InFront u userAgent mobileMarkers))

/-! ## Markers -/

section

variable {u : Unicode} {loc : DatabaseLocale}

theorem truncate_ascii {value : GoString} (h : ∀ b ∈ value, b.toNat < 0x80) (width : Nat) :
    ∀ b ∈ truncate value width, b.toNat < 0x80 :=
  fun b hb => h b (List.mem_of_mem_take hb)

/-- A marker in the stored part is one of the user agent. -/
theorem containsMarker_truncate {userAgent : GoString} (hascii : ∀ b ∈ userAgent, b.toNat < 0x80)
    {markers : List GoString}
    (h : containsMarker (toLower u (truncate userAgent 512)) markers = true) :
    containsMarker (toLower u userAgent) markers = true := by
  obtain ⟨marker, hmarker, hinfix⟩ := List.any_eq_true.mp h
  rw [decide_eq_true_eq, toLower_ascii u (truncate_ascii hascii 512)] at hinfix
  refine List.any_eq_true.mpr ⟨marker, hmarker, decide_eq_true ?_⟩
  rw [toLower_ascii u hascii]
  exact hinfix.trans ((List.take_prefix 512 userAgent).map _).isInfix

/-- ILIKE finds the markers that the code finds. -/
theorem ilike_markers (hloc : FoldsAscii loc) {agent : GoString}
    (hascii : ∀ b ∈ agent, b.toNat < 0x80) {markers : List GoString}
    (hmarkers : ∀ marker ∈ markers, ∀ b ∈ marker, 0x61 ≤ b.toNat ∧ b.toNat ≤ 0x7A) :
    markers.any (loc.ilike agent) = containsMarker (toLower u agent) markers := by
  rw [Bool.eq_iff_iff, containsMarker, List.any_eq_true, List.any_eq_true, toLower_ascii u hascii]
  refine exists_congr fun marker => and_congr_right fun hmarker => ?_
  rw [hloc agent marker hascii (hmarkers marker hmarker)]

/-- The class of a user agent that is neither empty nor a bot's. -/
def namedClass (u : Unicode) (agent : GoString) : GoString :=
  if containsMarker (toLower u agent) tabletMarkers then lit "tablet"
  else if containsMarker (toLower u agent) mobileMarkers then lit "mobile"
  else lit "desktop"

theorem DeviceClass_eq (userAgent : GoString) :
    DeviceClass u userAgent =
      if userAgent = [] then lit "unknown"
      else if IsBotUA u userAgent then lit "bot" else namedClass u userAgent :=
  rfl

/-- The bucket of a click: the stored flag, or else the class of the stored part. -/
theorem label_storedClick (hloc : FoldsAscii loc) {userAgent : GoString}
    (hascii : ∀ b ∈ userAgent, b.toNat < 0x80) (hash : GoString → Option (List UInt8))
    (linkID : Uuid) (requestIP referrer : GoString) (id : Uuid) (now : Instant) :
    label (deviceOf loc (storedClick u hash linkID requestIP userAgent referrer id now)) =
      if userAgent = [] then lit "unknown"
      else if IsBotUA u userAgent then lit "bot" else namedClass u (truncate userAgent 512) := by
  have htablet := @ilike_markers u loc hloc _ (truncate_ascii hascii 512) tabletMarkers
    (by decide +kernel)
  have hmobile := @ilike_markers u loc hloc _ (truncate_ascii hascii 512) mobileMarkers
    (by decide +kernel)
  have hempty : truncate userAgent 512 = [] ↔ userAgent = [] := by
    rw [truncate, List.take_eq_nil_iff]
    exact or_iff_right (by decide)
  have hbucket : deviceOf loc (storedClick u hash linkID requestIP userAgent referrer id now) =
      if truncate userAgent 512 = [] then .unknown
      else if IsBotUA u userAgent then .bot
      else if tabletMarkers.any (loc.ilike (truncate userAgent 512)) then .tablet
      else if mobileMarkers.any (loc.ilike (truncate userAgent 512)) then .mobile
      else .desktop := by
    simp only [deviceOf, storedClick, Option.getD_some, tabletMarkers, mobileMarkers,
      List.any_cons, List.any_nil, Bool.or_false, Bool.or_assoc]
  rw [hbucket, htablet, hmobile, namedClass]
  simp only [hempty]
  split_ifs <;> rfl

/-- The class of the stored part is that of the whole when the markers show in it. -/
theorem namedClass_truncate_iff {userAgent : GoString}
    (hascii : ∀ b ∈ userAgent, b.toNat < 0x80) :
    namedClass u (truncate userAgent 512) = namedClass u userAgent ↔
      InFront u userAgent tabletMarkers ∧
        (containsMarker (toLower u userAgent) tabletMarkers ∨
          InFront u userAgent mobileMarkers) := by
  have htablet := @containsMarker_truncate u userAgent hascii tabletMarkers
  have hmobile := @containsMarker_truncate u userAgent hascii mobileMarkers
  have htm : lit "tablet" ≠ lit "mobile" := by decide
  have htd : lit "tablet" ≠ lit "desktop" := by decide
  have hmd : lit "mobile" ≠ lit "desktop" := by decide
  unfold namedClass InFront
  by_cases hwhole : containsMarker (toLower u userAgent) tabletMarkers = true
  · rw [if_pos hwhole, and_iff_left (.inl hwhole)]
    by_cases hfront : containsMarker (toLower u (truncate userAgent 512)) tabletMarkers = true
    · rw [if_pos hfront]
      exact iff_of_true rfl fun _ => hfront
    · rw [if_neg hfront]
      refine iff_of_false ?_ fun h => hfront (h hwhole)
      split_ifs
      · exact htm.symm
      · exact htd.symm
  -- No tablet in the whole is none in the stored part: the mobile markers decide.
  · rw [if_neg hwhole, if_neg (fun h => hwhole (htablet h)),
      and_iff_right (fun h => absurd h hwhole), or_iff_right hwhole]
    by_cases hmobileWhole : containsMarker (toLower u userAgent) mobileMarkers = true
    · rw [if_pos hmobileWhole]
      by_cases hfront : containsMarker (toLower u (truncate userAgent 512)) mobileMarkers = true
      · rw [if_pos hfront]
        exact iff_of_true rfl fun _ => hfront
      · rw [if_neg hfront]
        exact iff_of_false hmd.symm fun h => hfront (h hmobileWhole)
    · rw [if_neg hmobileWhole, if_neg (fun h => hmobileWhole (hmobile h))]
      exact iff_of_true rfl fun h => absurd h hmobileWhole

end

/-! ## Agreement -/

/-- An event that a click adds is its own, and has text without null characters. -/
theorem recorded_event {u : Unicode} {hash : GoString → Option (List UInt8)} {link : Link}
    {requestIP userAgent referrer : GoString} {id : Uuid} {now : Instant} {s : ClickTables}
    {event : ClickEvent}
    (h : (RecordClick u hash link requestIP userAgent referrer id now s).events =
      s.events ++ [event]) :
    event = storedClick u hash link.id requestIP userAgent referrer id now ∧
      storableText (truncate userAgent 512) := by
  rcases RecordClick_cases u hash link requestIP userAgent referrer id now s with
    hsame | ⟨htext, hadded⟩
  · rw [hsame] at h
    simp at h
  · rw [hadded] at h
    exact ⟨(List.cons.inj (List.append_cancel_left h)).1.symm, htext⟩

/-- The bucket of a click is the class of its visitor exactly when the class shows. -/
theorem label_eq_iff {u : Unicode} {loc : DatabaseLocale} (hloc : FoldsAscii loc)
    {userAgent : GoString} (hascii : ∀ b ∈ userAgent, b.toNat < 0x80)
    (hash : GoString → Option (List UInt8)) (linkID : Uuid) (requestIP referrer : GoString)
    (id : Uuid) (now : Instant) :
    label (deviceOf loc (storedClick u hash linkID requestIP userAgent referrer id now)) =
      DeviceClass u userAgent ↔ ShowsInFront u userAgent := by
  rw [label_storedClick hloc hascii, DeviceClass_eq, ShowsInFront]
  by_cases hempty : userAgent = []
  · rw [if_pos hempty, if_pos hempty]
    exact iff_of_true rfl (.inl hempty)
  rw [if_neg hempty, if_neg hempty, or_iff_right hempty]
  by_cases hbot : IsBotUA u userAgent = true
  · rw [if_pos hbot, if_pos hbot]
    exact iff_of_true rfl (.inl hbot)
  · rw [if_neg hbot, if_neg hbot, or_iff_right hbot]
    exact namedClass_truncate_iff hascii

/-- The link of the examples below. -/
def charted : Link where
  id := default
  aliasName := lit "abc"
  destinationURL := lit "https://example.com/"

/-- The classes of a visitor and of his click agree exactly when the class shows in the part of
the user agent that is stored, or when a null character in it keeps the click out. -/
theorem devicesAgree_iff (u : Unicode) (loc : DatabaseLocale) (hloc : FoldsAscii loc)
    (userAgent : GoString) (hascii : ∀ b ∈ userAgent, b.toNat < 0x80) :
    DevicesAgree u loc userAgent ↔
      ShowsInFront u userAgent ∨ (0 : UInt8) ∈ truncate userAgent 512 := by
  constructor
  · intro h
    by_cases hzero : (0 : UInt8) ∈ truncate userAgent 512
    · exact .inr hzero
    left
    have htext : storableText (truncate userAgent 512) = true := by
      rw [storableText, validString_of_ascii (truncate_ascii hascii 512), Bool.true_and,
        Bool.not_eq_true', Bool.eq_false_iff]
      exact fun hmem => hzero (List.contains_iff_mem.mp hmem)
    have hadded := RecordClick_first u (fun _ => none) charted [] userAgent [] default 0
    rw [if_pos ⟨htext, rfl⟩] at hadded
    exact (label_eq_iff hloc hascii ..).mp (h _ _ _ _ _ _ _ _ hadded)
  · intro h hash link requestIP referrer id now s event hevent
    obtain ⟨rfl, htext⟩ := recorded_event hevent
    rcases h with hshows | hzero
    · exact (label_eq_iff hloc hascii ..).mpr hshows
    · rw [storableText, List.contains_iff_mem.mpr hzero] at htext
      simp at htext

/-! ## A long user agent -/

/-- A locale in which ILIKE ignores the case of ASCII letters. -/
def foldingLocale : DatabaseLocale :=
  { plainLocale with
    ilike := fun value needle =>
      decide (needle <:+: value.map fun b => UInt8.ofNat (asciiLower b.toNat)) }

theorem foldingLocale_folds : FoldsAscii foldingLocale := fun _ _ _ _ => rfl

/-- A user agent that names its device behind the byte number 512. -/
def lateTablet : GoString := List.replicate 512 0x61 ++ lit " iPad"

/-- Its visitor is a tablet, and its click is counted as a desktop. -/
theorem devices_disagree :
    DeviceClass .ascii lateTablet = lit "tablet" ∧
      label (deviceOf foldingLocale
        (storedClick .ascii (fun _ => none) charted.id [] lateTablet [] default 0)) =
          lit "desktop" ∧
      ¬ DevicesAgree .ascii foldingLocale lateTablet := by
  have hascii : ∀ b ∈ lateTablet, b.toNat < 0x80 := by decide +kernel
  have hempty : lateTablet ≠ [] := by decide
  have hbot : ¬IsBotUA .ascii lateTablet = true := by
    rw [IsBotUA, toLower_ascii _ hascii]
    decide +kernel
  have hclass : DeviceClass .ascii lateTablet = lit "tablet" := by
    rw [DeviceClass_eq, if_neg hempty, if_neg hbot, namedClass, toLower_ascii _ hascii]
    decide +kernel
  have hbucket : label (deviceOf foldingLocale
      (storedClick .ascii (fun _ => none) charted.id [] lateTablet [] default 0)) =
        lit "desktop" := by
    rw [label_storedClick foldingLocale_folds hascii, if_neg hempty, if_neg hbot, namedClass,
      toLower_ascii _ (truncate_ascii hascii 512)]
    decide +kernel
  have htext : storableText (truncate lateTablet 512) = true ∧
      storableText (truncate [] 2048) = true := by decide +kernel
  refine ⟨hclass, hbucket, fun h => ?_⟩
  have hadded := RecordClick_first .ascii (fun _ => none) charted [] lateTablet [] default 0
  rw [if_pos htext] at hadded
  have hagree := h _ _ _ _ _ _ _ _ hadded
  rw [hbucket, hclass] at hagree
  exact absurd hagree (by decide)

/-- A short user agent is in the bucket of its class. -/
theorem devicesAgree_short : DevicesAgree .ascii foldingLocale (lit "iPad") := by
  have hascii : ∀ b ∈ lit "iPad", b.toNat < 0x80 := by decide +kernel
  have hfront : ∀ markers, InFront .ascii (lit "iPad") markers := fun _ h => h
  exact (devicesAgree_iff .ascii foldingLocale foldingLocale_folds (lit "iPad") hascii).mpr
    (.inl (.inr (.inr ⟨hfront _, .inr (hfront _)⟩)))

end Purels.Properties
