import Mathlib.Data.List.Forall2
import Purels.Go.NetIP

/-!
# The text of an address

What `net.ParseIP` accepts.

* `parseIP_mem`: hexadecimal digits, dots and colons, so no zone and no bracket.
* `parseIP_dotted`: the text does not end in a dot.
* `parseIP_length`: the address has sixteen bytes.
-/

namespace Purels.Go

/-! ## Fields -/

/-- There is always a first field. -/
theorem split_eq_cons (c : UInt8) (s : List UInt8) :
    ∃ field fields, split c s = field :: fields := by
  induction s with
  | nil => exact ⟨[], [], rfl⟩
  | cons a s ih =>
    obtain ⟨field, fields, hs⟩ := ih
    rw [split, hs]
    by_cases ha : a = c
    · exact ⟨[], field :: fields, if_pos ha⟩
    · exact ⟨a :: field, fields, if_neg ha⟩

/-- A byte is the separator or in one of the fields. -/
theorem mem_split {c b : UInt8} {s : List UInt8} (h : b ∈ s) :
    b = c ∨ ∃ field ∈ split c s, b ∈ field := by
  induction s with
  | nil => simp at h
  | cons a s ih =>
    obtain ⟨first, fields, hs⟩ := split_eq_cons c s
    rw [hs] at ih
    rw [split, hs]
    by_cases ha : a = c
    · rw [if_pos ha]
      rcases List.mem_cons.mp h with rfl | hmem
      · exact .inl ha
      · refine (ih hmem).imp_right fun ⟨field, hfield, hin⟩ => ?_
        exact ⟨field, List.mem_cons_of_mem _ hfield, hin⟩
    · simp only [if_neg ha]
      rcases List.mem_cons.mp h with rfl | hmem
      · exact .inr ⟨b :: first, List.mem_cons_self, List.mem_cons_self⟩
      · refine (ih hmem).imp_right fun ⟨field, hfield, hin⟩ => ?_
        rcases List.mem_cons.mp hfield with rfl | hfield
        · exact ⟨a :: field, List.mem_cons_self, List.mem_cons_of_mem _ hin⟩
        · exact ⟨field, List.mem_cons_of_mem _ hfield, hin⟩

/-- A separator ends one field and begins another. -/
theorem split_append (c : UInt8) (s t : List UInt8) :
    split c (s ++ c :: t) = split c s ++ split c t := by
  induction s with
  | nil => simp [split]
  | cons a s ih =>
    obtain ⟨first, fields, hs⟩ := split_eq_cons c s
    rw [List.cons_append, split, split, ih, hs]
    split_ifs <;> rfl

/-- A separator at the end leaves an empty field. -/
theorem split_append_self (c : UInt8) (s : List UInt8) :
    split c (s ++ [c]) = split c s ++ [[]] := split_append c s []

/-- Without a separator there is one field. -/
theorem split_of_not_mem {c : UInt8} {s : List UInt8} (h : c ∉ s) : split c s = [s] := by
  induction s with
  | nil => rfl
  | cons a s ih =>
    have ha : a ≠ c := fun heq => h (heq ▸ List.mem_cons_self)
    rw [split, if_neg ha, ih fun hmem => h (List.mem_cons_of_mem _ hmem)]

/-! ## Dotted addresses -/

theorem forall₂_of_mapM {α β : Type} {f : α → Option β} {xs : List α} {ys : List β}
    (h : xs.mapM f = some ys) : List.Forall₂ (fun x y => f x = some y) xs ys := by
  induction xs generalizing ys with
  | nil =>
    cases h
    exact .nil
  | cons x xs ih =>
    rw [List.mapM_cons] at h
    cases hx : f x with
    | none => simp [hx] at h
    | some y =>
      cases hxs : xs.mapM f with
      | none => simp [hx, hxs] at h
      | some rest =>
        have hys : y :: rest = ys := by simpa [hx, hxs] using h
        rw [← hys]
        exact .cons hx (ih hxs)

/-- An octet is not empty and of digits. -/
theorem parseOctet_some {field : GoString} {b : UInt8} (h : parseOctet field = some b) :
    field ≠ [] ∧ field.all isDigit := by
  unfold parseOctet at h
  split_ifs at h with hok
  exact ⟨hok.1, hok.2.1⟩

theorem parseIPv4Fields_some {s : GoString} {v4 : List UInt8} (h : parseIPv4Fields s = some v4) :
    v4.length = 4 ∧ ∀ field ∈ split 0x2E s, field ≠ [] ∧ field.all isDigit := by
  unfold parseIPv4Fields at h
  simp only at h
  split_ifs at h with hlength
  have hfields := forall₂_of_mapM h
  refine ⟨hfields.length_eq.symm.trans hlength, fun field hfield => ?_⟩
  obtain ⟨i, hi, rfl⟩ := List.getElem_of_mem hfield
  exact parseOctet_some (hfields.get hi (by rw [← hfields.length_eq]; exact hi))

theorem parseIPv4Fields_mem {s : GoString} {v4 : List UInt8} {b : UInt8}
    (h : parseIPv4Fields s = some v4) (hb : b ∈ s) : isDigit b ∨ b = 0x2E := by
  rcases mem_split (c := 0x2E) hb with heq | ⟨field, hfield, hin⟩
  · exact .inr heq
  · have hdigits := ((parseIPv4Fields_some h).2 field hfield).2
    exact .inl (List.all_eq_true.mp hdigits b hin)

theorem parseIPv4Fields_dotted (s : GoString) : parseIPv4Fields (s ++ [0x2E]) = none := by
  cases h : parseIPv4Fields (s ++ [0x2E]) with
  | none => rfl
  | some v4 =>
    have hnil : [] ∈ split 0x2E (s ++ [0x2E]) := by
      rw [split_append_self]
      simp
    exact absurd rfl ((parseIPv4Fields_some h).2 [] hnil).1

/-! ## Colon-separated groups -/

/-- A byte of an address without a zone. -/
def isAddrByte (b : UInt8) : Bool := isHex b || b == 0x2E || b == 0x3A

/-- One group: the last one, a dotted address, or more behind the colons. -/
theorem parseGroups_succ {fuel : Nat} {s out : GoString} {ellipsis : Option Nat}
    {result : List UInt8 × Option Nat × GoString}
    (h : parseGroups (fuel + 1) s out ellipsis = some result) :
    ((∃ v4, parseIPv4Fields s = some v4) ∧ result.2.2 = []) ∨
      ∃ front next, s = front ++ next ∧ (∀ b ∈ front, isHex b ∨ b = 0x3A) ∧
        ((next = [] ∧ result.2.2 = []) ∨
          ∃ out at_, parseGroups fuel next out at_ = some result) := by
  have hsplit := List.takeWhile_append_dropWhile (p := isHex) (l := s)
  have hhex : ∀ b ∈ s.takeWhile isHex, isHex b = true := fun b hb => List.mem_takeWhile_imp hb
  rw [parseGroups] at h
  simp only at h
  by_cases hdigits : s.takeWhile isHex = [] ∨ 4 < (s.takeWhile isHex).length
  · rw [if_pos hdigits] at h
    cases h
  rw [if_neg hdigits] at h
  clear hdigits
  generalize s.takeWhile isHex = digits at h hsplit hhex
  have hcolons : ∀ colons : GoString, (∀ b ∈ colons, b = 0x3A) →
      ∀ b ∈ digits ++ colons, isHex b ∨ b = 0x3A := by
    intro colons hall b hb
    exact (List.mem_append.mp hb).imp (hhex b) (hall b)
  split at h
  · rename_i hdrop
    cases h
    exact .inr ⟨digits, [], by rw [← hsplit, hdrop], fun b hb => .inl (hhex b hb), .inl ⟨rfl, rfl⟩⟩
  · split_ifs at h with hroom
    cases hv4 : parseIPv4Fields s with
    | none => simp [hv4] at h
    | some v4 =>
      rw [hv4] at h
      cases h
      exact .inl ⟨⟨v4, rfl⟩, rfl⟩
  · cases h
  · rename_i rest hdrop
    have hs : s = digits ++ [0x3A, 0x3A] ++ rest := by
      rw [← hsplit, hdrop]
      simp
    split_ifs at h with hellipsis hrest
    · cases h
      exact .inr ⟨digits ++ [0x3A, 0x3A], rest, hs, hcolons _ (by simp), .inl ⟨hrest, rfl⟩⟩
    · exact .inr ⟨digits ++ [0x3A, 0x3A], rest, hs, hcolons _ (by simp), .inr ⟨_, _, h⟩⟩
  · rename_i rest _ _ hdrop
    have hs : s = digits ++ [0x3A] ++ rest := by
      rw [← hsplit, hdrop]
      simp
    exact .inr ⟨digits ++ [0x3A], rest, hs, hcolons _ (by simp), .inr ⟨_, _, h⟩⟩
  · cases h

theorem isAddrByte_of_isDigit {b : UInt8} (h : isDigit b) : isAddrByte b := by
  simp [isAddrByte, isHex, h]

/-- What the groups were read from. -/
theorem parseGroups_mem {fuel : Nat} {s out : GoString} {ellipsis : Option Nat}
    {result : List UInt8 × Option Nat × GoString} {b : UInt8}
    (h : parseGroups fuel s out ellipsis = some result) (hb : b ∈ s) :
    isAddrByte b ∨ b ∈ result.2.2 := by
  induction fuel generalizing s out ellipsis with
  | zero =>
    cases h
    exact .inr hb
  | succ fuel ih =>
    rcases parseGroups_succ h with ⟨⟨v4, hv4⟩, -⟩ | ⟨front, next, rfl, hfront, hnext⟩
    · left
      rcases parseIPv4Fields_mem hv4 hb with hdigit | rfl
      · exact isAddrByte_of_isDigit hdigit
      · decide
    · rcases List.mem_append.mp hb with hb | hb
      · left
        rcases hfront b hb with hhex | rfl
        · simp [isAddrByte, hhex]
        · decide
      · rcases hnext with ⟨rfl, -⟩ | ⟨out, at_, hrec⟩
        · exact absurd hb List.not_mem_nil
        · exact ih hrec hb

/-- A dot at the end is in the second part, if the first has none. -/
theorem append_dotted {s front next : GoString} (hs : s ++ [0x2E] = front ++ next)
    (hfront : (0x2E : UInt8) ∉ front) : ∃ before, next = before ++ [0x2E] := by
  rcases List.eq_nil_or_concat next with rfl | ⟨before, last, rfl⟩
  · refine absurd ?_ hfront
    rw [List.append_nil] at hs
    rw [← hs]
    simp
  · rw [List.concat_eq_append, ← List.append_assoc] at hs
    obtain rfl : 0x2E = last := by simpa using (List.append_inj' hs rfl).2
    exact ⟨before, List.concat_eq_append⟩

/-- A dot at the end is never read. -/
theorem parseGroups_dotted {fuel : Nat} {s out : GoString} {ellipsis : Option Nat}
    {result : List UInt8 × Option Nat × GoString}
    (h : parseGroups fuel (s ++ [0x2E]) out ellipsis = some result) : result.2.2 ≠ [] := by
  induction fuel generalizing s out ellipsis with
  | zero =>
    cases h
    simp
  | succ fuel ih =>
    rcases parseGroups_succ h with ⟨⟨v4, hv4⟩, -⟩ | ⟨front, next, hs, hfront, hnext⟩
    · rw [parseIPv4Fields_dotted] at hv4
      cases hv4
    · obtain ⟨before, rfl⟩ := append_dotted hs fun hdot => absurd (hfront _ hdot) (by decide)
      rcases hnext with ⟨hnil, -⟩ | ⟨out, at_, hrec⟩
      · simp at hnil
      · exact ih hrec

/-! ## Addresses -/

theorem expandEllipsis_length {out bytes : List UInt8} {at_ : Option Nat}
    (h : expandEllipsis out at_ = some bytes) : bytes.length = 16 := by
  unfold expandEllipsis at h
  split at h
  · split_ifs at h with hlength
    cases h
    exact hlength
  · split_ifs at h with hlength
    cases h
    simp only [List.length_append, List.length_take, List.length_drop, List.length_replicate]
    omega

/-- An IPv6 address without a zone: its groups, with an ellipsis before them or not. -/
theorem parseIPv6_some {s : GoString} {addr : Addr} (h : parseIPv6 s = some addr)
    (hzone : addr.zone = []) :
    addr.bytes.length = 16 ∧ (s = [0x3A, 0x3A] ∨ ∃ front groups out at_ result,
      s = front ++ groups ∧ (∀ b ∈ front, b = 0x3A) ∧
        parseGroups 8 groups out at_ = some result ∧ result.2.2 = []) := by
  have hfill : ∀ {out : List UInt8} {at_ : Option Nat} {zone : GoString},
      ((expandEllipsis out at_).bind fun bytes => some ⟨bytes, false, zone⟩) = some addr →
        addr.bytes.length = 16 ∧ addr.zone = zone := by
    intro out at_ zone hbind
    obtain ⟨bytes, hbytes, haddr⟩ := Option.bind_eq_some_iff.mp hbind
    cases haddr
    exact ⟨expandEllipsis_length hbytes, rfl⟩
  unfold parseIPv6 at h
  by_cases hpercent : (0x25 : UInt8) ∈ s
  · -- a zone is not empty
    simp [hpercent] at h
    obtain ⟨hne, h⟩ := h
    have hkept : addr.zone = (cut 0x25 s).2 := by
      split at h
      · exact (hfill h).2
      · obtain ⟨result, -, h⟩ := Option.bind_eq_some_iff.mp h
        split_ifs at h with hrest
        exact (hfill h).2
      · obtain ⟨result, -, h⟩ := Option.bind_eq_some_iff.mp h
        split_ifs at h with hrest
        exact (hfill h).2
    exact absurd (hkept.symm.trans hzone) hne
  · simp [hpercent] at h
    split at h
    · exact ⟨(hfill h).1, .inl rfl⟩
    · rename_i rest _
      obtain ⟨result, hgroups, h⟩ := Option.bind_eq_some_iff.mp h
      split_ifs at h with hrest
      refine ⟨(hfill h).1, .inr ⟨[0x3A, 0x3A], rest, [], some 0, result, rfl, ?_, hgroups, hrest⟩⟩
      simp
    · obtain ⟨result, hgroups, h⟩ := Option.bind_eq_some_iff.mp h
      split_ifs at h with hrest
      exact ⟨(hfill h).1, .inr ⟨[], s, [], none, result, rfl, by simp, hgroups, hrest⟩⟩

theorem parseIPv6_mem {s : GoString} {addr : Addr} {b : UInt8} (h : parseIPv6 s = some addr)
    (hzone : addr.zone = []) (hb : b ∈ s) : isAddrByte b := by
  rcases (parseIPv6_some h hzone).2 with
    rfl | ⟨front, groups, _, _, result, rfl, hfront, hgroups, hrest⟩
  · obtain rfl : b = 0x3A := by simpa using hb
    decide
  · rcases List.mem_append.mp hb with hb | hb
    · rw [hfront b hb]
      decide
    · rcases parseGroups_mem hgroups hb with hok | hmem
      · exact hok
      · rw [hrest] at hmem
        exact absurd hmem List.not_mem_nil

theorem parseIPv6_dotted {s : GoString} {addr : Addr} (h : parseIPv6 (s ++ [0x2E]) = some addr) :
    addr.zone ≠ [] := by
  intro hzone
  rcases (parseIPv6_some h hzone).2 with
    hs | ⟨front, groups, _, _, result, hs, hfront, hgroups, hrest⟩
  · have hdot : (0x2E : UInt8) ∈ [0x3A, 0x3A] := by
      rw [← hs]
      simp
    exact absurd hdot (by decide)
  · obtain ⟨before, rfl⟩ := append_dotted hs fun hdot => absurd (hfront _ hdot) (by decide)
    exact parseGroups_dotted hgroups hrest

/-! ## `net.ParseIP` -/

section

variable {s : GoString} {ip : List UInt8}

/-- An address is written with dots, or with colons and no zone. -/
theorem parseIP_some (h : parseIP s = some ip) :
    (∃ v4, parseIPv4Fields s = some v4 ∧ ip = v4InV6 ++ v4) ∨
      ∃ addr, parseIPv6 s = some addr ∧ addr.zone = [] ∧ ip = addr.bytes := by
  unfold parseIP at h
  split at h
  · rename_i addr haddr
    split_ifs at h with hzone
    cases h
    unfold parseAddr at haddr
    split at haddr
    · obtain ⟨v4, hv4, rfl⟩ := Option.map_eq_some_iff.mp haddr
      exact .inl ⟨v4, hv4, rfl⟩
    · exact .inr ⟨addr, haddr, hzone, rfl⟩
    · cases haddr
  · cases h

theorem parseIP_length (h : parseIP s = some ip) : ip.length = 16 := by
  rcases parseIP_some h with ⟨v4, hv4, rfl⟩ | ⟨addr, haddr, hzone, rfl⟩
  · rw [List.length_append, (parseIPv4Fields_some hv4).1]
    rfl
  · exact (parseIPv6_some haddr hzone).1

theorem parseIP_mem (h : parseIP s = some ip) : ∀ b ∈ s, isAddrByte b := by
  intro b hb
  rcases parseIP_some h with ⟨v4, hv4, rfl⟩ | ⟨addr, haddr, hzone, rfl⟩
  · rcases parseIPv4Fields_mem hv4 hb with hdigit | rfl
    · exact isAddrByte_of_isDigit hdigit
    · decide
  · exact parseIPv6_mem haddr hzone hb

theorem parseIP_dotted (s : GoString) : parseIP (s ++ [0x2E]) = none := by
  cases h : parseIP (s ++ [0x2E]) with
  | none => rfl
  | some ip =>
    rcases parseIP_some h with ⟨v4, hv4, -⟩ | ⟨addr, haddr, hzone, -⟩
    · rw [parseIPv4Fields_dotted] at hv4
      cases hv4
    · exact absurd hzone (parseIPv6_dotted haddr)

end

end Purels.Go
