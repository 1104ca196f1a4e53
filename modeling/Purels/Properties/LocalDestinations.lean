import Purels.Go.IPText
import Purels.Go.Ranges
import Purels.Security.Links

/-!
# Local destinations

Which hosts of the server's own side `ValidateDestination` lets through.

* `LocalName`: `localhost` and the addresses that are not public.
* `bareName`: a host without its zone and one trailing dot.
* `local_refused_iff`: the host of what is accepted is not local, but for the ones that are
  written with a zone or a trailing dot.
-/

namespace Purels.Properties

open Go Security

/-- The addresses a destination must not have. -/
def localRanges : List Lib.Prefix :=
  loopbackRanges ++ privateRanges ++ linkLocalRanges ++ unspecifiedRanges

/-- The host without its zone and one trailing dot. -/
def bareName (host : GoString) : GoString :=
  let name := (cut 0x25 host).1
  if [0x2E] <:+ name then name.dropLast else name

section

variable (u : Unicode)

/-- The name is `localhost` in any casing, or the text of a local address. -/
def LocalName (name : GoString) : Prop :=
  equalFold u name (lit "localhost") ∨ ∃ ip, parseIP name = some ip ∧ InAny localRanges ip

/-- The host is a local name with a dot, a zone or both behind it. -/
def Disguised (host : GoString) : Prop :=
  ∃ name dot zone, host = name ++ dot ++ zone ∧ LocalName u name ∧ dot ++ zone ≠ [] ∧
    (dot = [] ∨ dot = [0x2E]) ∧ (zone = [] ∨ zone.head? = some 0x25)

/-- What is checked before the host. -/
structure Screened (raw : GoString) (parsed : Url) : Prop where
  length : raw.length ≠ 0 ∧ raw.length ≤ 8192
  plain : ¬ (runes raw).any fun r => r.code < 0x20 || r.code == 0x7F
  parses : parseRequestURI u raw = some parsed
  host : parsed.host ≠ []
  scheme : parsed.scheme = lit "http" ∨ parsed.scheme = lit "https"
  user : parsed.user = none

end

section

variable {u : Unicode}

/-- A destination is accepted when its host is not local either. -/
theorem ValidateDestination_iff {raw : GoString} :
    ValidateDestination u raw = .ok () ↔
      ∃ parsed, Screened u raw parsed ∧ isLocalHost u (trimBrackets parsed.hostname) = false := by
  unfold ValidateDestination
  constructor
  · intro h
    split_ifs at h with hlength hplain
    split at h
    · cases h
    rename_i parsed hparse
    split_ifs at h with hhost hscheme huser hlocal
    refine ⟨parsed, ⟨by omega, hplain, hparse, hhost, ?_, not_not.mp huser⟩, by simpa using hlocal⟩
    by_contra hother
    exact hscheme (not_or.mp hother)
  · rintro ⟨parsed, hscreened, hlocal⟩
    have hlength := hscreened.length
    have hscheme := not_and_or.mpr (hscreened.scheme.imp not_not.mpr not_not.mpr)
    rw [if_neg (by omega), if_neg hscreened.plain, hscreened.parses]
    simp only
    rw [if_neg hscreened.host, if_neg hscheme, if_neg (not_not.mpr hscreened.user),
      if_neg (by simp [hlocal])]

/-! ## Local names -/

theorem isLocal_iff {ip : List UInt8} (h : ip.length = 16) :
    (isLoopback ip || isPrivate ip || isLinkLocalUnicast ip || isUnspecified ip) = true ↔
      InAny localRanges ip := by
  rw [Bool.or_eq_true, Bool.or_eq_true, Bool.or_eq_true, isLoopback_iff h, isPrivate_iff h,
    isLinkLocalUnicast_iff h, isUnspecified_iff h, localRanges, inAny_append, inAny_append,
    inAny_append]

theorem isLocalHost_iff {host : GoString} :
    isLocalHost u host ↔ host = [] ∨ LocalName u host := by
  unfold isLocalHost LocalName
  by_cases hnil : host = []
  · simp [hnil]
  cases hfold : equalFold u host (lit "localhost") with
  | true => simp
  | false =>
    cases hip : parseIP host with
    | none => simp [hnil]
    | some ip => simp [hnil, ← isLocal_iff (parseIP_length hip)]

/-- An ASCII byte of a string that folds to `localhost` is a letter of it. -/
theorem mem_localhost {name : GoString} {b : UInt8} (h : equalFold u name (lit "localhost"))
    (hb : b ∈ name) (hascii : b.toNat < 0x80) :
    asciiUpper b.toNat ∈ (lit "LOCALHOST").map UInt8.toNat := by
  have hlocalhost : (runes (lit "localhost")).map (fun r => u.fold r.code) =
      (lit "LOCALHOST").map UInt8.toNat := by
    have hruns : (runes (lit "localhost")).map Rune.code = (lit "localhost").map UInt8.toNat := by
      decide
    have hfold : ∀ c ∈ (lit "localhost").map UInt8.toNat, u.fold c = asciiUpper c := by
      intro c hc
      apply u.fold_ascii
      revert c
      decide
    show (runes (lit "localhost")).map (u.fold ∘ Rune.code) = _
    rw [← List.map_map, hruns, List.map_congr_left hfold]
    decide
  have hsame := beq_iff_eq.mp h
  rw [hlocalhost] at hsame
  rw [← hsame, ← u.fold_ascii _ hascii]
  obtain ⟨r, hr, hcode⟩ := List.mem_map.mp (mem_runeCodes_of_mem hascii hb)
  exact List.mem_map.mpr ⟨r, hr, by rw [hcode]⟩

/-- A local name holds no percent sign and no bracket. -/
theorem LocalName.byte {name : GoString} (h : LocalName u name) {b : UInt8} (hb : b ∈ name) :
    b ≠ 0x25 ∧ b ≠ 0x5B ∧ b ≠ 0x5D := by
  rcases h with hfold | ⟨ip, hip, -⟩
  · refine ⟨?_, ?_, ?_⟩ <;> rintro rfl <;>
      exact absurd (mem_localhost hfold hb (by decide)) (by decide)
  · have hbyte := parseIP_mem hip b hb
    refine ⟨?_, ?_, ?_⟩ <;> rintro rfl <;> exact absurd hbyte (by decide)

theorem not_localName_dotted (s : GoString) : ¬ LocalName u (s ++ [0x2E]) := by
  rintro (hfold | ⟨ip, hip, -⟩)
  · have hdot := mem_localhost hfold (List.mem_append_right s (List.mem_singleton_self 0x2E))
      (by decide)
    exact absurd hdot (by decide)
  · rw [parseIP_dotted] at hip
    cases hip

/-! ## Brackets -/

theorem trimBrackets_eq_self {s : GoString} (h : ∀ b ∈ s, b ≠ 0x5B ∧ b ≠ 0x5D) :
    trimBrackets s = s := by
  have hkept : ∀ b ∈ s, (b == 0x5B || b == 0x5D) = false := by
    intro b hb
    simp [(h b hb).1, (h b hb).2]
  have hfront : (s.dropWhile fun c => c == 0x5B || c == 0x5D) = s := by
    cases s with
    | nil => rfl
    | cons b s => exact List.dropWhile_cons_of_neg (by simp [hkept b List.mem_cons_self])
  unfold trimBrackets
  rw [hfront]
  refine List.rdropWhile_eq_self_iff.mpr fun hne => ?_
  simp [hkept _ (List.getLast_mem hne)]

/-- Trimming keeps what is no bracket. -/
theorem mem_trimBrackets {s : GoString} {b : UInt8} (hb : b ∈ s) (hopen : b ≠ 0x5B)
    (hclose : b ≠ 0x5D) : b ∈ trimBrackets s := by
  have hkept : (b == 0x5B || b == 0x5D) = false := by simp [hopen, hclose]
  have hmem : ∀ {t : GoString}, b ∈ t → b ∈ t.dropWhile fun c => c == 0x5B || c == 0x5D := by
    intro t ht
    rw [← List.takeWhile_append_dropWhile (p := fun c => c == 0x5B || c == 0x5D) (l := t)] at ht
    refine (List.mem_append.mp ht).resolve_left fun hdropped => ?_
    exact absurd (List.mem_takeWhile_imp hdropped) (by simp [hkept])
  unfold trimBrackets List.rdropWhile
  exact List.mem_reverse.mpr (hmem (List.mem_reverse.mpr (hmem hb)))

theorem trimBrackets_dotted (s : GoString) :
    ∃ rest, trimBrackets (s ++ [0x2E]) = rest ++ [0x2E] := by
  unfold trimBrackets
  rw [List.dropWhile_append]
  split_ifs with hall
  · exact ⟨[], by decide⟩
  · exact ⟨_, List.rdropWhile_concat_neg _ _ _ (by decide)⟩

/-- What is written with a zone or a trailing dot counts as a public name. -/
theorem isLocalHost_disguised {host : GoString} (h : Disguised u host) :
    isLocalHost u (trimBrackets host) = false := by
  obtain ⟨name, dot, zone, rfl, -, hne, hdot, hzone⟩ := h
  rw [Bool.eq_false_iff, ne_eq, isLocalHost_iff, not_or]
  rcases hzone with rfl | hzone
  · -- a dot at the end stays there
    obtain rfl : dot = [0x2E] := hdot.resolve_left fun hdot => hne (by rw [hdot]; rfl)
    rw [List.append_nil]
    obtain ⟨rest, hrest⟩ := trimBrackets_dotted name
    rw [hrest]
    exact ⟨by simp, not_localName_dotted rest⟩
  · obtain ⟨tail, rfl⟩ := List.head?_eq_some_iff.mp hzone
    have hpercent : 0x25 ∈ trimBrackets (name ++ dot ++ 0x25 :: tail) :=
      mem_trimBrackets (by simp) (by decide) (by decide)
    exact ⟨List.ne_nil_of_mem hpercent, fun hlocal => (hlocal.byte hpercent).1 rfl⟩

/-! ## The bare name -/

theorem bareName_eq {name dot zone : GoString} (hname : LocalName u name)
    (hdot : dot = [] ∨ dot = [0x2E]) (hzone : zone = [] ∨ zone.head? = some 0x25) :
    bareName (name ++ dot ++ zone) = name := by
  have hfront : ∀ b ∈ name ++ dot, (b != 0x25) = true := by
    intro b hb
    rcases List.mem_append.mp hb with hb | hb
    · exact bne_iff_ne.mpr (hname.byte hb).1
    · rcases hdot with rfl | rfl
      · exact absurd hb List.not_mem_nil
      · rw [List.mem_singleton.mp hb]
        decide
  have hbehind : zone.takeWhile (· != 0x25) = [] := by
    rcases hzone with rfl | hzone
    · rfl
    · obtain ⟨tail, rfl⟩ := List.head?_eq_some_iff.mp hzone
      rfl
  have hcut : (cut 0x25 (name ++ dot ++ zone)).1 = name ++ dot := by
    rw [cut, List.takeWhile_append_of_pos hfront, hbehind, List.append_nil]
  unfold bareName
  simp only [hcut]
  rcases hdot with rfl | rfl
  · rw [List.append_nil, if_neg]
    rintro ⟨before, rfl⟩
    exact not_localName_dotted before hname
  · rw [if_pos (List.suffix_append ..), List.dropLast_concat]

/-- The name is found behind the disguise. -/
theorem bareName_disguised {host : GoString} (h : Disguised u host) :
    LocalName u (bareName host) := by
  obtain ⟨name, dot, zone, rfl, hname, -, hdot, hzone⟩ := h
  rw [bareName_eq hname hdot hzone]
  exact hname

/-- A host is its bare name, a dot or none, and a zone or none. -/
theorem bareName_split (host : GoString) :
    ∃ dot zone, host = bareName host ++ dot ++ zone ∧ (dot = [] ∨ dot = [0x2E]) ∧
      (zone = [] ∨ zone.head? = some 0x25) := by
  have hsplit := List.takeWhile_append_dropWhile (p := (· != 0x25)) (l := host)
  have hzone : host.dropWhile (· != 0x25) = [] ∨
      (host.dropWhile (· != 0x25)).head? = some 0x25 := by
    cases hdrop : host.dropWhile (· != 0x25) with
    | nil => exact .inl rfl
    | cons b tail =>
      have hb := List.head?_dropWhile_not (· != 0x25) host
      rw [hdrop] at hb
      right
      simpa using hb
  unfold bareName cut
  simp only
  split_ifs with hdotted
  · obtain ⟨before, hbefore⟩ := hdotted
    rw [← hbefore] at hsplit ⊢
    exact ⟨[0x2E], _, by rw [List.dropLast_concat, hsplit], .inr rfl, hzone⟩
  · exact ⟨[], _, by rw [List.append_nil, hsplit], .inl rfl, hzone⟩

/-- **The host of an accepted destination is not local, exactly when no local name is written
with a zone or a trailing dot**: the zone and one dot removed, it is neither `localhost` in
any casing nor the text of a loopback, private, link-local or unspecified address. -/
theorem local_refused_iff (u : Unicode) (raw : GoString) :
    (ValidateDestination u raw = .ok () → ∀ parsed, parseRequestURI u raw = some parsed →
        ¬ LocalName u (bareName parsed.hostname)) ↔
      ∀ parsed, Screened u raw parsed → ¬ Disguised u parsed.hostname := by
  constructor
  · intro h parsed hscreened hdisguised
    have haccepted := ValidateDestination_iff.mpr
      ⟨parsed, hscreened, isLocalHost_disguised hdisguised⟩
    exact h haccepted parsed hscreened.parses (bareName_disguised hdisguised)
  · intro h haccepted parsed hparse hlocal
    obtain ⟨parsed', hscreened, hpublic⟩ := ValidateDestination_iff.mp haccepted
    obtain rfl : parsed = parsed' := Option.some.inj (hparse.symm.trans hscreened.parses)
    obtain ⟨dot, zone, hhost, hdot, hzone⟩ := bareName_split parsed.hostname
    by_cases hplain : dot ++ zone = []
    · -- a name without zone and dot is what the check has seen
      rw [List.append_assoc, hplain, List.append_nil] at hhost
      rw [← hhost] at hlocal
      have htrim := trimBrackets_eq_self fun b hb => (hlocal.byte hb).2
      rw [htrim] at hpublic
      exact absurd (isLocalHost_iff.mpr (.inr hlocal)) (by simp [hpublic])
    · exact h parsed hscreened ⟨_, dot, zone, hhost, hlocal, hplain, hdot, hzone⟩

/-- Loopback with a dot behind it, and with a zone, is accepted. -/
theorem disguised_loopback_accepted :
    ValidateDestination .ascii (lit "http://127.0.0.1./") = .ok () ∧
      ValidateDestination .ascii (lit "http://[::1%25eth0]/") = .ok () ∧
      (parseRequestURI .ascii (lit "http://127.0.0.1./")).map (fun url => bareName url.hostname) =
        some (lit "127.0.0.1") ∧
      LocalName .ascii (lit "127.0.0.1") := by
  refine ⟨by decide, by decide, by decide, .inr ?_⟩
  exact ⟨v4InV6 ++ [127, 0, 0, 1], by decide⟩

end

end Purels.Properties
