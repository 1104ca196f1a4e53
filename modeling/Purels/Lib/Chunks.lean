import Mathlib.Data.List.Basic

/-!
# Encodings by groups

A text cut into groups of a fixed length, each encoded on its own; the last group may be short.

* `toChunks_append`, `toChunks_short`: the first group, and the last.
* `GroupCodec`: an encoding of groups that its decoding inverts.
* `GroupCodec.decodeAll_encodeAll`: the decoding of whole texts inverts the encoding.
-/

namespace Purels.Lib

variable {α β : Type*}

/-! ## Groups -/

theorem toChunks_go_done (n : ℕ) (s : List α) (group : Array α) (done : Array (List α)) :
    List.toChunks.go n s group done = done.toList ++ List.toChunks.go n s group #[] := by
  induction s generalizing group done with
  | nil => simp [List.toChunks.go]
  | cons a s ih =>
    rw [List.toChunks.go, List.toChunks.go]
    split_ifs
    · rw [ih, ih _ (#[].push group.toList), Array.toList_push, List.append_assoc]
      rfl
    · exact ih _ _

/-- A group that is not full yet takes what comes next. -/
theorem toChunks_go_append {n : ℕ} (s t : List α) (group : Array α) (done : Array (List α))
    (h : group.size + s.length ≤ n) :
    List.toChunks.go n (s ++ t) group done =
      List.toChunks.go n t (group ++ s.toArray) done := by
  induction s generalizing group with
  | nil => simp
  | cons a s ih =>
    rw [List.length_cons] at h
    have hroom : ¬ (group.size == n) = true := by
      rw [beq_iff_eq]
      omega
    have hsize : (group.push a).size + s.length ≤ n := by
      rw [Array.size_push]
      omega
    rw [List.cons_append, List.toChunks.go, if_neg hroom, ih _ hsize]
    simp

theorem toChunks_cons {n : ℕ} (hn : 0 < n) (a : α) (s : List α) :
    (a :: s).toChunks n = List.toChunks.go n s #[a] #[] := by
  obtain ⟨m, rfl⟩ : ∃ m, n = m + 1 := ⟨n - 1, by omega⟩
  rfl

/-- A text no longer than a group is one group. -/
theorem toChunks_short {n : ℕ} {s : List α} (hne : s ≠ []) (h : s.length ≤ n) :
    s.toChunks n = [s] := by
  cases s with
  | nil => exact absurd rfl hne
  | cons a s =>
    rw [List.length_cons] at h
    have hle : #[a].size + s.length ≤ n := by
      show 1 + s.length ≤ n
      omega
    have hgo := toChunks_go_append s [] #[a] #[] hle
    rw [List.append_nil] at hgo
    rw [toChunks_cons (by omega), hgo]
    simp [List.toChunks.go]

/-- A full group is cut off. -/
theorem toChunks_append {n : ℕ} (hn : 0 < n) {s : List α} (hs : s.length = n) (t : List α) :
    (s ++ t).toChunks n = s :: t.toChunks n := by
  cases s with
  | nil =>
    rw [List.length_nil] at hs
    omega
  | cons a s =>
    rw [List.length_cons] at hs
    have hle : #[a].size + s.length ≤ n := by
      show 1 + s.length ≤ n
      omega
    cases t with
    | nil =>
      rw [List.append_nil, toChunks_short (List.cons_ne_nil a s) (Nat.le_of_eq hs)]
      rfl
    | cons b t =>
      have hfull : ((#[a] ++ s.toArray).size == n) = true := by
        simpa [Nat.add_comm] using hs
      rw [List.cons_append, toChunks_cons hn,
        toChunks_go_append s (b :: t) #[a] #[] hle, List.toChunks.go, if_pos hfull,
        toChunks_go_done, toChunks_cons hn]
      simp

/-! ## Codecs -/

/-- An encoding of groups of at most `inSize` elements into groups of at most `outSize`, full ones
into full ones, with its decoding. -/
structure GroupCodec (α β : Type*) where
  inSize : ℕ
  outSize : ℕ
  encode : List α → List β
  decode : List β → List α
  inSize_pos : 0 < inSize
  outSize_pos : 0 < outSize
  length_full : ∀ g, g.length = inSize → (encode g).length = outSize
  length_short : ∀ g, g ≠ [] → g.length ≤ inSize → encode g ≠ [] ∧ (encode g).length ≤ outSize
  decode_encode : ∀ g, g ≠ [] → g.length ≤ inSize → decode (encode g) = g

namespace GroupCodec

variable (codec : GroupCodec α β)

/-- A text, encoded group by group. -/
def encodeAll (s : List α) : List β := (s.toChunks codec.inSize).flatMap codec.encode

def decodeAll (t : List β) : List α := (t.toChunks codec.outSize).flatMap codec.decode

theorem encodeAll_append {s : List α} (hs : s.length = codec.inSize) (t : List α) :
    codec.encodeAll (s ++ t) = codec.encode s ++ codec.encodeAll t := by
  unfold encodeAll
  rw [toChunks_append codec.inSize_pos hs, List.flatMap_cons]

theorem encodeAll_short {s : List α} (hne : s ≠ []) (hs : s.length ≤ codec.inSize) :
    codec.encodeAll s = codec.encode s := by
  unfold encodeAll
  rw [toChunks_short hne hs, List.flatMap_singleton]

theorem decodeAll_append {s : List β} (hs : s.length = codec.outSize) (t : List β) :
    codec.decodeAll (s ++ t) = codec.decode s ++ codec.decodeAll t := by
  unfold decodeAll
  rw [toChunks_append codec.outSize_pos hs, List.flatMap_cons]

theorem decodeAll_short {s : List β} (hne : s ≠ []) (hs : s.length ≤ codec.outSize) :
    codec.decodeAll s = codec.decode s := by
  unfold decodeAll
  rw [toChunks_short hne hs, List.flatMap_singleton]

/-- Decoding a text group by group gives back what was encoded. -/
theorem decodeAll_encodeAll (s : List α) : codec.decodeAll (codec.encodeAll s) = s := by
  induction h : s.length using Nat.strongRecOn generalizing s with
  | ind n ih =>
    by_cases hlong : codec.inSize ≤ s.length
    · have hfull : (s.take codec.inSize).length = codec.inSize := by
        rw [List.length_take]
        omega
      have hne : s.take codec.inSize ≠ [] := by
        intro hnil
        rw [hnil, List.length_nil] at hfull
        exact absurd codec.inSize_pos (by omega)
      have hless : (s.drop codec.inSize).length < n := by
        have hpos := codec.inSize_pos
        rw [List.length_drop]
        omega
      have hrest := ih _ hless (s.drop codec.inSize) rfl
      have hcut : s = s.take codec.inSize ++ s.drop codec.inSize :=
        (List.take_append_drop codec.inSize s).symm
      rw [hcut, encodeAll_append codec hfull, decodeAll_append codec (codec.length_full _ hfull),
        codec.decode_encode _ hne (Nat.le_of_eq hfull), hrest]
    · by_cases hne : s = []
      · rw [hne]
        simp [encodeAll, decodeAll, List.toChunks]
      · obtain ⟨hne', hle⟩ := codec.length_short s hne (by omega)
        rw [encodeAll_short codec hne (by omega), decodeAll_short codec hne' hle,
          codec.decode_encode s hne (by omega)]

end GroupCodec

end Purels.Lib
