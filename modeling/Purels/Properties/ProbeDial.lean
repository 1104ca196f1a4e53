import Purels.Security.Links
import Purels.Security.SafeHttp

/-!
# Where the health probe connects

The addresses that `probeDial` dials, for whatever the resolver answers.

* `inwardRanges`: the addresses of the server's own side, `Inward` and `Permitted`.
* `overlookedRanges`: the ones among them that `RoutableIP` lets through, `routable_iff`.
* `Outward`, `Shielded`, and `probeDial_outward_iff`: when the probe stays outside.
-/

namespace Purels.Properties

open Go Security Lib Prefix

/-! ## Ranges -/

/-- The IPv4 ranges: "this network", private, shared, loopback, link-local and multicast. -/
def inwardV4 : List (List UInt8 × Nat) :=
  [([0, 0, 0, 0], 8), ([100, 64, 0, 0], 10), ([10, 0, 0, 0], 8), ([172, 16, 0, 0], 12),
    ([192, 168, 0, 0], 16), ([127, 0, 0, 0], 8), ([169, 254, 0, 0], 16), ([224, 0, 0, 0], 4)]

/-- An IPv4 range, as NAT64 embeds it in `64:ff9b::/96`. -/
def nat64Prefix (bytes : List UInt8) (length : Nat) : Prefix :=
  ⟨[0, 0x64, 0xFF, 0x9B, 0, 0, 0, 0, 0, 0, 0, 0] ++ bytes, length + 96⟩

/-- The unspecified address, loopback, RFC 4193, link-local and multicast. -/
def inwardV6 : List Prefix :=
  [⟨List.replicate 16 0, 128⟩, ⟨List.replicate 15 0 ++ [1], 128⟩,
    ⟨0xFC :: List.replicate 15 0, 7⟩, ⟨0xFE :: 0x80 :: List.replicate 14 0, 10⟩,
    ⟨0xFF :: List.replicate 15 0, 8⟩]

def inwardRanges : List Prefix :=
  inwardV4.map (fun range => v4Prefix range.1 range.2) ++
    inwardV4.map (fun range => nat64Prefix range.1 range.2) ++ inwardV6

/-- The address lies inwards. -/
def Inward (ip : List UInt8) : Prop := InAny inwardRanges (to16 ip)

instance (ip : List UInt8) : Decidable (Inward ip) := inferInstanceAs (Decidable (InAny _ _))

/-- An IPv4 or IPv6 address that does not, nor is the limited broadcast address. -/
def Permitted (ip : List UInt8) : Prop :=
  (to16 ip).length = 16 ∧ ¬ Inward ip ∧ to16 ip ≠ v4InV6 ++ [255, 255, 255, 255]

instance (ip : List UInt8) : Decidable (Permitted ip) :=
  inferInstanceAs (Decidable (_ ∧ _ ∧ _))

/-- What `net.IP` counts as global unicast and not private. -/
def overlookedRanges : List Prefix :=
  [v4Prefix [0, 0, 0, 0] 8, v4Prefix [100, 64, 0, 0] 10] ++
    inwardV4.map fun range => nat64Prefix range.1 range.2

/-- The address is in one of these ranges, and not `0.0.0.0`. -/
def Overlooked (ip : List UInt8) : Prop :=
  (to16 ip).length = 16 ∧ InAny overlookedRanges (to16 ip) ∧ to16 ip ≠ v4InV6 ++ [0, 0, 0, 0]

/-! ## What `RoutableIP` lets through -/

section

variable {ip : List UInt8}

/-- What the methods know: the ranges of their names. -/
def knownRanges : List Prefix :=
  loopbackRanges ++ multicastRanges ++ linkLocalRanges ++ privateRanges

theorem known_iff (h : ip.length = 16) :
    (isUnspecified ip ∨ isLoopback ip ∨ isMulticast ip ∨ isLinkLocalUnicast ip ∨
      isPrivate ip) ↔ InAny (unspecifiedRanges ++ knownRanges) ip := by
  rw [isUnspecified_iff h, isLoopback_iff h, isMulticast_iff h, isLinkLocalUnicast_iff h,
    isPrivate_iff h, knownRanges, inAny_append, inAny_append, inAny_append, inAny_append,
    or_assoc, or_assoc]

/-- The inward addresses are the known and the overlooked ones. -/
theorem inAny_inwardRanges (h : ip.length = 16) :
    InAny inwardRanges ip ↔
      InAny (unspecifiedRanges ++ knownRanges) ip ∨ InAny overlookedRanges ip := by
  rw [← inAny_append]
  constructor
  · exact inAny_mono (by decide)
  · rintro ⟨range, hrange, hcontains⟩
    have hcases : ∀ range ∈ unspecifiedRanges ++ knownRanges ++ overlookedRanges,
        range = v4Prefix [0, 0, 0, 0] 32 ∨ range ∈ inwardRanges := by decide
    rcases hcases range hrange with rfl | hin
    · -- the unspecified address is one of the network `0.0.0.0/8`
      have hip : v4InV6 ++ [0, 0, 0, 0] = ip := (contains_full rfl h).mp hcontains
      subst hip
      exact ⟨v4Prefix [0, 0, 0, 0] 8, by decide, by decide⟩
    · exact ⟨range, hin, hcontains⟩

/-- No method knows an overlooked address, but for `0.0.0.0`. -/
theorem overlooked_unknown (h : ip.length = 16) (hoverlooked : InAny overlookedRanges ip)
    (hzero : ip ≠ v4InV6 ++ [0, 0, 0, 0]) :
    ¬ InAny (unspecifiedRanges ++ knownRanges) ip ∧ ip ≠ v4InV6 ++ [255, 255, 255, 255] := by
  have hbroadcast : ¬ InAny [v4Prefix [255, 255, 255, 255] 32] ip :=
    inAny_apart (by decide) hoverlooked
  have hrest : ¬ InAny (⟨List.replicate 16 0, 128⟩ :: knownRanges) ip :=
    inAny_apart (by decide) hoverlooked
  constructor
  · intro hknown
    rcases inAny_cons.mp hknown with hunspecified | hknown
    · exact hzero ((contains_full rfl h).mp hunspecified).symm
    · exact hrest hknown
  · rintro rfl
    exact hbroadcast ⟨_, List.mem_singleton_self _, (contains_full rfl h).mpr rfl⟩

theorem routableIP_iff (h : (to16 ip).length = 16) :
    RoutableIP ip ↔ to16 ip ≠ v4InV6 ++ [255, 255, 255, 255] ∧
      ¬ InAny (unspecifiedRanges ++ knownRanges) (to16 ip) := by
  rw [← known_iff h]
  simp [RoutableIP, isGlobalUnicast, h, and_assoc]

/-- The predicate lets through the permitted addresses and the overlooked ones. -/
theorem routable_iff (ip : List UInt8) : RoutableIP ip ↔ Permitted ip ∨ Overlooked ip := by
  by_cases h : (to16 ip).length = 16
  · rw [routableIP_iff h]
    unfold Permitted Overlooked Inward
    rw [inAny_inwardRanges h, not_or]
    constructor
    · rintro ⟨hbroadcast, hunknown⟩
      by_cases hoverlooked : InAny overlookedRanges (to16 ip)
      · refine .inr ⟨h, hoverlooked, fun hzero => hunknown ?_⟩
        rw [hzero]
        decide
      · exact .inl ⟨h, ⟨hunknown, hoverlooked⟩, hbroadcast⟩
    · rintro (⟨-, ⟨hunknown, -⟩, hbroadcast⟩ | ⟨-, hoverlooked, hzero⟩)
      · exact ⟨hbroadcast, hunknown⟩
      · have hnone := overlooked_unknown h hoverlooked hzero
        exact ⟨hnone.2, hnone.1⟩
  · have hneither : ¬ (Permitted ip ∨ Overlooked ip) := by
      rintro (hpermitted | hover)
      · exact h hpermitted.1
      · exact h hover.1
    refine iff_of_false (fun hroutable => ?_) hneither
    simp [RoutableIP, isGlobalUnicast, h] at hroutable

/-- An overlooked address lies inwards, so it is not a permitted one. -/
theorem Overlooked.inward (h : Overlooked ip) : Inward ip :=
  (inAny_inwardRanges h.1).mpr (.inr h.2.1)

end

/-! ## What is dialed -/

/-- The addresses an answer of the resolver offers to the dialer. -/
def resolved (lookup : GoString → Except DialError (List Candidate)) (address : GoString) :
    List Candidate :=
  match SplitHostPort address with
  | .error _ => []
  | .ok (host, _) => (lookup host).toOption.getD []

/-- The dialer stays outside: it dials no inward address, and what it returns is the first
permitted address that connects. -/
def Outward (candidates : List Candidate) (outcome : Option (List UInt8) × List (List UInt8)) :
    Prop :=
  (∀ ip ∈ outcome.2, ¬ Inward ip) ∧
    outcome.1 = (candidates.find? fun c => decide (Permitted c.ip) && c.connects).map (·.ip)

/-- An overlooked address comes only after a permitted one that connects. -/
def Shielded (candidates : List Candidate) : Prop :=
  ∀ before c after, candidates = before ++ c :: after → Overlooked c.ip →
    ∃ shield ∈ before, Permitted shield.ip ∧ shield.connects

section

variable {c : Candidate} {rest : List Candidate}

theorem shielded_cons : Shielded (c :: rest) ↔
    ¬ Overlooked c.ip ∧ ((Permitted c.ip ∧ c.connects) ∨ Shielded rest) := by
  constructor
  · intro h
    refine ⟨fun hover => ?_, ?_⟩
    · obtain ⟨shield, hmem, -⟩ := h [] c rest rfl hover
      exact absurd hmem List.not_mem_nil
    · by_cases hc : Permitted c.ip ∧ c.connects
      · exact .inl hc
      · refine .inr fun before next after hsplit hover => ?_
        obtain ⟨shield, hmem, hshield⟩ := h (c :: before) next after (by rw [hsplit]; rfl) hover
        rcases List.mem_cons.mp hmem with rfl | hmem
        · exact absurd hshield hc
        · exact ⟨shield, hmem, hshield⟩
  · rintro ⟨hover, hrest⟩ before next after hsplit hnext
    cases before with
    | nil =>
      cases hsplit
      exact absurd hnext hover
    | cons first before =>
      obtain ⟨rfl, htail⟩ := List.cons.inj hsplit
      rcases hrest with hc | hrest
      · exact ⟨c, List.mem_cons_self, hc⟩
      · obtain ⟨shield, hmem, hshield⟩ := hrest before next after htail hnext
        exact ⟨shield, List.mem_cons_of_mem _ hmem, hshield⟩

/-- What one address does to the loop. -/
theorem dialCandidates_cons (lastErr : Option DialError) :
    dialCandidates lastErr (c :: rest) =
      if RoutableIP c.ip then
        if c.connects then (.ok c.ip, [c.ip])
        else
          ((dialCandidates (c.failure.map .dial) rest).1,
            c.ip :: (dialCandidates (c.failure.map .dial) rest).2)
      else dialCandidates (some (.refused c.ip)) rest := by
  rw [dialCandidates, Candidate.connects]
  cases hroutable : RoutableIP c.ip with
  | false => simp
  | true => cases hfailure : c.failure <;> simp

end

/-- The loop over the addresses, whatever error came before. -/
theorem dialCandidates_outward (candidates : List Candidate) (lastErr : Option DialError) :
    Outward candidates
        ((dialCandidates lastErr candidates).1.toOption, (dialCandidates lastErr candidates).2) ↔
      Shielded candidates := by
  induction candidates generalizing lastErr with
  | nil => simp [Outward, Shielded, dialCandidates, Except.toOption]
  | cons c rest ih =>
    rw [shielded_cons, dialCandidates_cons]
    by_cases hroutable : RoutableIP c.ip
    · rw [if_pos hroutable]
      rcases (routable_iff c.ip).mp hroutable with hpermitted | hover
      · have hout : ¬ Overlooked c.ip := fun hover => hpermitted.2.1 hover.inward
        by_cases hconnects : c.connects
        · rw [if_pos hconnects]
          refine iff_of_true ⟨?_, ?_⟩ ⟨hout, .inl ⟨hpermitted, hconnects⟩⟩
          · intro ip hip
            rw [List.mem_singleton.mp hip]
            exact hpermitted.2.1
          · simp [hpermitted, hconnects, Except.toOption]
        · rw [if_neg hconnects, and_iff_right hout, or_iff_right fun hc => hconnects hc.2,
            ← ih (c.failure.map .dial)]
          simp [Outward, hconnects, hpermitted.2.1]
      · -- an overlooked address is dialed, whether it connects or not
        refine iff_of_false (fun hdialed => ?_) fun hshielded => hshielded.1 hover
        refine hdialed.1 c.ip ?_ hover.inward
        by_cases hconnects : c.connects <;> simp [hconnects]
    · have hneither := not_or.mp (mt (routable_iff c.ip).mpr hroutable)
      rw [if_neg hroutable, and_iff_right hneither.2, or_iff_right fun hc => hneither.1 hc.1,
        ← ih (some (.refused c.ip))]
      simp [Outward, hneither.1]

/-- **The probe stays outside exactly when the addresses its predicate overlooks come after a
permitted one that connects**, for every answer of the resolver and every dial failure: it
then dials no inward address and returns the first permitted one that connects. -/
theorem probeDial_outward_iff (lookup : GoString → Except DialError (List Candidate))
    (address : GoString) :
    Outward (resolved lookup address)
        ((probeDial lookup address).1.toOption, (probeDial lookup address).2) ↔
      Shielded (resolved lookup address) := by
  unfold probeDial resolved
  cases SplitHostPort address with
  | error e => exact dialCandidates_outward [] none
  | ok parts =>
    cases hlookup : lookup parts.1 with
    | error e =>
      simp only [hlookup]
      exact dialCandidates_outward [] none
    | ok candidates =>
      simp only [hlookup]
      have hloop := dialCandidates_outward candidates none
      cases hdial : dialCandidates none candidates with
      | mk result dialed =>
        rw [hdial] at hloop
        cases result with
        | error lastErr => exact hloop
        | ok ip => exact hloop

/-- An accepted destination in the shared address space is dialed. -/
theorem shared_space_dialed :
    let outcome := probeDial (fun _ => .ok [{ ip := [100, 64, 0, 1] }]) (lit "100.64.0.1:80")
    ValidateDestination .ascii (lit "http://100.64.0.1/") = .ok () ∧
      outcome = (.ok [100, 64, 0, 1], [[100, 64, 0, 1]]) ∧ Inward [100, 64, 0, 1] := by
  decide +kernel

end Purels.Properties
