import Purels.Lib.Numerals

/-!
# Numbered parameters of a statement

A statement with placeholders `$1`, `$2`, … and the list of their arguments.

* `tokens`: the placeholders of a text, outside of its quoted strings.
* `Query`: a text with its arguments; `bound`, the text with the values in place.
* `Aligned`: a text whose placeholders are those from one number to another, each bound.
* `Template`: a text that names one placeholder, perhaps more than once.
* `aligned_numbered`: templates that are numbered one after the other.
-/

namespace Purels.Lib.Sql

variable {α : Type*}

/-! ## Tokens -/

/-- A byte of the statement, or a placeholder. -/
inductive Token where
  | byte (c : UInt8)
  | param (n : ℕ)
  deriving DecidableEq

/-- What stands before the next byte: nothing of note, an open quote, a dollar sign, or a dollar
sign and digits. -/
inductive Mode where
  | plain
  | quoted
  | dollar
  | number (n : ℕ)

/-- The tokens of what is left of a text. -/
def scan : List UInt8 → Mode → List Token
  | [], .plain => []
  | [], .quoted => []
  | [], .dollar => [.byte 0x24]
  | [], .number n => [.param n]
  | c :: s, .plain =>
    if c = 0x24 then scan s .dollar
    else .byte c :: scan s (if c = 0x27 then .quoted else .plain)
  | c :: s, .quoted => .byte c :: scan s (if c = 0x27 then .plain else .quoted)
  | c :: s, .dollar =>
    match decimalValue c with
    | some d => scan s (.number d)
    | none =>
      .byte 0x24 :: if c = 0x24 then scan s .dollar
        else .byte c :: scan s (if c = 0x27 then .quoted else .plain)
  | c :: s, .number n =>
    match decimalValue c with
    | some d => scan s (.number (n * 10 + d))
    | none =>
      .param n :: if c = 0x24 then scan s .dollar
        else .byte c :: scan s (if c = 0x27 then .quoted else .plain)

/-- The tokens of a text. -/
def tokens (text : List UInt8) : List Token := scan text .plain

/-- The placeholder of an argument. -/
def placeholder (n : ℕ) : List UInt8 := 0x24 :: decimalText n

/-- No dollar sign, and no open quote at the end. -/
def isFixed (s : List UInt8) : Bool := !s.contains 0x24 && s.count 0x27 % 2 == 0

/-- A text that does not carry on a number. -/
def NoDigit (s : List UInt8) : Prop := ∀ c ∈ s.head?, decimalValue c = none

instance decidableNoDigit : (s : List UInt8) → Decidable (NoDigit s)
  | [] => isTrue (by nofun)
  | c :: _ =>
    decidable_of_iff (decimalValue c = none)
      ⟨fun h d hd => Option.some.inj hd ▸ h, fun h => h c rfl⟩

theorem NoDigit.append {s t : List UInt8} (hs : NoDigit s) (ht : NoDigit t) : NoDigit (s ++ t) := by
  cases s with
  | nil => exact ht
  | cons c s => exact hs

/-- A text is cut into these tokens, whatever follows that does not carry on a number. -/
def Lexes (text : List UInt8) (toks : List Token) : Prop :=
  ∀ rest, NoDigit rest → tokens (text ++ rest) = toks ++ tokens rest

theorem Lexes.tokens_eq {text : List UInt8} {toks : List Token} (h : Lexes text toks) :
    tokens text = toks := by
  have hrest := h [] (by nofun)
  rw [List.append_nil] at hrest
  rw [hrest]
  exact List.append_nil toks

theorem Lexes.append {s t : List UInt8} {a b : List Token} (hs : Lexes s a) (ht : Lexes t b)
    (hdigit : NoDigit t) : Lexes (s ++ t) (a ++ b) := by
  intro rest hrest
  rw [List.append_assoc, hs _ (hdigit.append hrest), ht rest hrest, List.append_assoc]

theorem scan_fixed (s rest : List UInt8) (hdollar : (0x24 : UInt8) ∉ s) :
    scan (s ++ rest) .plain = s.map .byte ++
        scan rest (if s.count 0x27 % 2 = 0 then .plain else .quoted) ∧
      scan (s ++ rest) .quoted = s.map .byte ++
        scan rest (if s.count 0x27 % 2 = 0 then .quoted else .plain) := by
  induction s with
  | nil => exact ⟨rfl, rfl⟩
  | cons c s ih =>
    rw [List.mem_cons, not_or] at hdollar
    obtain ⟨hplain, hquoted⟩ := ih hdollar.2
    rw [List.cons_append, scan, scan, if_neg (Ne.symm hdollar.1)]
    by_cases hquote : c = 0x27
    · rw [if_pos hquote, if_pos hquote, hplain, hquoted, hquote, List.count_cons_self]
      by_cases heven : s.count 0x27 % 2 = 0
      · rw [if_pos heven, if_pos heven, if_neg (by omega), if_neg (by omega)]
        exact ⟨rfl, rfl⟩
      · rw [if_neg heven, if_neg heven, if_pos (by omega), if_pos (by omega)]
        exact ⟨rfl, rfl⟩
    · rw [if_neg hquote, if_neg hquote, hplain, hquoted, List.count_cons_of_ne hquote]
      exact ⟨rfl, rfl⟩

theorem lexes_fixed {s : List UInt8} (h : isFixed s) : Lexes s (s.map .byte) := by
  intro rest _
  simp only [isFixed, Bool.and_eq_true, Bool.not_eq_true', List.contains_eq_mem,
    decide_eq_false_iff_not, beq_iff_eq] at h
  unfold tokens
  rw [(scan_fixed s rest h.1).1, if_pos h.2]

theorem scan_number (s rest : List UInt8) {m n : ℕ}
    (h : readFrom decimalValue 10 m s = some n) :
    scan (s ++ rest) (.number m) = scan rest (.number n) := by
  induction s generalizing m with
  | nil =>
    obtain rfl : m = n := Option.some.inj h
    rfl
  | cons c s ih =>
    have hstep : readFrom decimalValue 10 m (c :: s) =
        (readFrom decimalValue 10 m [c]).bind fun k => readFrom decimalValue 10 k s :=
      readFrom_append m [c] s
    rw [hstep, readFrom_singleton, Option.bind_eq_some_iff] at h
    obtain ⟨k, hk, hrest⟩ := h
    obtain ⟨d, hd, rfl⟩ := Option.map_eq_some_iff.mp hk
    rw [List.cons_append, scan, hd]
    exact ih hrest

theorem scan_number_end {rest : List UInt8} (h : NoDigit rest) (n : ℕ) :
    scan rest (.number n) = .param n :: scan rest .plain := by
  cases rest with
  | nil => rfl
  | cons c rest =>
    have hc : decimalValue c = none := h c rfl
    simp only [scan, hc]

/-- A placeholder is one token. -/
theorem lexes_placeholder {n : ℕ} (hn : 0 < n) : Lexes (placeholder n) [.param n] := by
  intro rest hrest
  have hread := readNumeral_decimal n
  rw [readNumeral] at hread
  have htext : decimalText n = numeral decimalDigit 10 n := if_neg (by omega)
  cases hdigits : numeral decimalDigit 10 n with
  | nil =>
    rw [hdigits] at hread
    have hzero : 0 = n := Option.some.inj hread
    omega
  | cons c s =>
    rw [hdigits] at hread
    have hstep : readFrom decimalValue 10 0 (c :: s) =
        (readFrom decimalValue 10 0 [c]).bind fun k => readFrom decimalValue 10 k s :=
      readFrom_append 0 [c] s
    rw [hstep, readFrom_singleton, Option.bind_eq_some_iff] at hread
    obtain ⟨k, hk, hs⟩ := hread
    obtain ⟨d, hd, rfl⟩ := Option.map_eq_some_iff.mp hk
    rw [Nat.zero_mul, Nat.zero_add] at hs
    rw [tokens, placeholder, htext, hdigits, List.cons_append, List.cons_append, scan, if_pos rfl,
      scan, hd]
    show scan (s ++ rest) (.number d) = _
    rw [scan_number s rest hs, scan_number_end hrest]
    rfl

/-! ## Arguments -/

/-- A byte of a statement, or the value that stands in its place. -/
inductive Piece (α : Type*) where
  | byte (c : UInt8)
  | value (a : α)

/-- A fixed text of a statement. -/
def fixed (s : List UInt8) : List (Piece α) := s.map .byte

/-- The value of a placeholder; one without an argument is an error. -/
def bindToken (args : List α) : Token → Option (Piece α)
  | .byte c => some (.byte c)
  | .param 0 => none
  | .param (n + 1) => (args[n]?).map .value

def bindTokens (args : List α) (toks : List Token) : Option (List (Piece α)) :=
  toks.mapM (bindToken args)

/-- A statement with its arguments. -/
structure Query (α : Type*) where
  text : List UInt8
  args : List α

/-- The statement with the values in place. -/
def Query.bound (q : Query α) : Option (List (Piece α)) := bindTokens q.args (tokens q.text)

/-- The numbers of the placeholders. -/
def Query.placeholders (q : Query α) : List ℕ :=
  (tokens q.text).filterMap fun
    | .byte _ => none
    | .param n => some n

theorem bindTokens_append {args : List α} {a b : List Token} {p q : List (Piece α)}
    (ha : bindTokens args a = some p) (hb : bindTokens args b = some q) :
    bindTokens args (a ++ b) = some (p ++ q) := by
  unfold bindTokens at ha hb ⊢
  rw [List.mapM_append, ha, hb]
  rfl

theorem bindTokens_fixed (args : List α) (s : List UInt8) :
    bindTokens args (s.map .byte) = some (fixed s) := by
  induction s with
  | nil => rfl
  | cons c s ih =>
    unfold bindTokens at ih ⊢
    rw [List.map_cons, List.mapM_cons, ih]
    rfl

/-- The placeholders of a text are those above `lo` up to `hi`, and it reads `pieces` with the
values of the arguments in place. -/
def Aligned (args : List α) (lo hi : ℕ) (text : List UInt8) (pieces : List (Piece α)) : Prop :=
  ∃ toks, Lexes text toks ∧ bindTokens args toks = some pieces ∧
    ∀ k, Token.param k ∈ toks ↔ lo < k ∧ k ≤ hi

section

variable {args : List α} {lo mid hi : ℕ} {s t : List UInt8} {p q : List (Piece α)}

theorem aligned_fixed (h : isFixed s) (n : ℕ) : Aligned args n n s (fixed s) := by
  refine ⟨s.map .byte, lexes_fixed h, bindTokens_fixed args s, fun k => ?_⟩
  constructor
  · intro hk
    obtain ⟨c, -, hc⟩ := List.mem_map.mp hk
    cases hc
  · intro hk
    omega

theorem aligned_placeholder {n : ℕ} {v : α} (h : args[n]? = some v) :
    Aligned args n (n + 1) (placeholder (n + 1)) [.value v] := by
  refine ⟨[.param (n + 1)], lexes_placeholder (Nat.succ_pos n), ?_, fun k => ?_⟩
  · have htoken : bindToken args (.param (n + 1)) = some (.value v) := by
      show (args[n]?).map Piece.value = some (.value v)
      rw [h, Option.map_some]
    unfold bindTokens
    rw [List.mapM_cons, htoken]
    rfl
  · rw [List.mem_singleton, Token.param.injEq]
    omega

theorem Aligned.append (hs : Aligned args lo mid s p) (ht : Aligned args mid hi t q)
    (hlo : lo ≤ mid) (hhi : mid ≤ hi) (hdigit : NoDigit t) :
    Aligned args lo hi (s ++ t) (p ++ q) := by
  obtain ⟨a, hlexes, hbind, hparams⟩ := hs
  obtain ⟨b, hlexes', hbind', hparams'⟩ := ht
  refine ⟨a ++ b, hlexes.append hlexes' hdigit, bindTokens_append hbind hbind', fun k => ?_⟩
  rw [List.mem_append, hparams, hparams']
  omega

/-- A second text about the same placeholder. -/
theorem Aligned.append_same (hs : Aligned args lo hi s p) (ht : Aligned args lo hi t q)
    (hdigit : NoDigit t) : Aligned args lo hi (s ++ t) (p ++ q) := by
  obtain ⟨a, hlexes, hbind, hparams⟩ := hs
  obtain ⟨b, hlexes', hbind', hparams'⟩ := ht
  refine ⟨a ++ b, hlexes.append hlexes' hdigit, bindTokens_append hbind hbind', fun k => ?_⟩
  rw [List.mem_append, hparams, hparams']
  omega

/-- The placeholders of a statement are those of its arguments, and each is bound. -/
theorem Aligned.query {n : ℕ} (h : Aligned args 0 n s p) (hn : args.length = n) :
    (Query.mk s args).bound = some p ∧
      ∀ k, k ∈ (Query.mk s args).placeholders ↔ 1 ≤ k ∧ k ≤ args.length := by
  obtain ⟨toks, hlexes, hbind, hparams⟩ := h
  rw [← hn] at hparams
  constructor
  · unfold Query.bound
    rw [hlexes.tokens_eq]
    exact hbind
  · intro k
    refine Iff.trans ?_ (hparams k)
    unfold Query.placeholders
    rw [hlexes.tokens_eq, List.mem_filterMap]
    constructor
    · rintro ⟨tok, hmem, htok⟩
      cases tok with
      | byte c => cases htok
      | param n =>
        obtain rfl : n = k := Option.some.inj htok
        exact hmem
    · intro hmem
      exact ⟨.param k, hmem, rfl⟩

end

/-! ## Templates -/

/-- A text that names one placeholder, in front of each of `tails`. -/
structure Template where
  head : List UInt8
  tails : List (List UInt8)
  head_fixed : isFixed head ∧ NoDigit head
  tails_fixed : ∀ f ∈ tails, isFixed f ∧ NoDigit f
  used : tails ≠ []

namespace Template

/-- The text with a placeholder in place. -/
def text (t : Template) (n : ℕ) : List UInt8 := t.head ++ t.tails.flatMap (placeholder n ++ ·)

/-- The text with a value in place. -/
def pieces (t : Template) (v : α) : List (Piece α) :=
  fixed t.head ++ t.tails.flatMap fun f => .value v :: fixed f

end Template

theorem noDigit_placeholder (n : ℕ) (s : List UInt8) : NoDigit (placeholder n ++ s) := by
  intro c hc
  obtain rfl : 0x24 = c := Option.some.inj hc
  rfl

section

variable {args : List α} {v : α} {n : ℕ}

theorem aligned_tails (h : args[n]? = some v) {tails : List (List UInt8)}
    (hfixed : ∀ f ∈ tails, isFixed f ∧ NoDigit f) (hne : tails ≠ []) :
    Aligned args n (n + 1) (tails.flatMap (placeholder (n + 1) ++ ·))
      (tails.flatMap fun f => .value v :: fixed f) := by
  induction tails with
  | nil => exact absurd rfl hne
  | cons f tails ih =>
    obtain ⟨⟨hf, hdigit⟩, htails⟩ := List.forall_mem_cons.mp hfixed
    have hfirst : Aligned args n (n + 1) (placeholder (n + 1) ++ f) ([.value v] ++ fixed f) :=
      (aligned_placeholder h).append (aligned_fixed hf (n + 1)) (Nat.le_succ n) le_rfl hdigit
    rw [List.flatMap_cons, List.flatMap_cons]
    cases tails with
    | nil =>
      rw [List.flatMap_nil, List.append_nil, List.flatMap_nil, List.append_nil]
      exact hfirst
    | cons g tails =>
      refine hfirst.append_same (ih htails (List.cons_ne_nil g tails)) ?_
      rw [List.flatMap_cons, List.append_assoc]
      exact noDigit_placeholder _ _

theorem Template.aligned (t : Template) (h : args[n]? = some v) :
    Aligned args n (n + 1) (t.text (n + 1)) (t.pieces v) := by
  refine (aligned_fixed t.head_fixed.1 n).append (aligned_tails h t.tails_fixed t.used) le_rfl
    (Nat.le_succ n) ?_
  cases htails : t.tails with
  | nil => exact absurd htails t.used
  | cons f tails =>
    rw [List.flatMap_cons, List.append_assoc]
    exact noDigit_placeholder _ _

theorem Template.noDigit_text (t : Template) (k : ℕ) : NoDigit (t.text k) := by
  refine t.head_fixed.2.append ?_
  cases htails : t.tails with
  | nil => nofun
  | cons f tails =>
    rw [List.flatMap_cons, List.append_assoc]
    exact noDigit_placeholder _ _

/-- Templates one after the other, numbered from the next placeholder on. -/
def numbered (sep : List UInt8) : ℕ → List (Template × α) → List UInt8
  | _, [] => []
  | n, (t, _) :: ts => sep ++ t.text (n + 1) ++ numbered sep (n + 1) ts

/-- The same with the values in place. -/
def valued (sep : List UInt8) (ts : List (Template × α)) : List (Piece α) :=
  ts.flatMap fun entry => fixed sep ++ entry.1.pieces entry.2

theorem numbered_append (sep : List UInt8) (n : ℕ) (ts us : List (Template × α)) :
    numbered sep n (ts ++ us) = numbered sep n ts ++ numbered sep (n + ts.length) us := by
  induction ts generalizing n with
  | nil => rfl
  | cons entry ts ih =>
    rw [List.cons_append, numbered, numbered, ih, List.length_cons, List.append_assoc,
      List.append_assoc, List.append_assoc, Nat.add_right_comm, Nat.add_assoc n]

theorem noDigit_numbered {sep : List UInt8} (hsep : NoDigit sep) (n : ℕ)
    (ts : List (Template × α)) : NoDigit (numbered sep n ts) := by
  induction ts generalizing n with
  | nil => nofun
  | cons entry ts ih =>
    rw [numbered, List.append_assoc]
    exact hsep.append ((entry.1.noDigit_text _).append (ih _))

/-- Numbered templates are bound to their own values. -/
theorem aligned_numbered {sep : List UInt8} (hfixed : isFixed sep) (hsep : NoDigit sep)
    (ts : List (Template × α)) (before : List α) {after : List α}
    (hargs : args = before ++ (ts.map Prod.snd ++ after)) :
    Aligned args before.length (before.length + ts.length) (numbered sep before.length ts)
      (valued sep ts) := by
  induction ts generalizing before with
  | nil => exact aligned_fixed rfl _
  | cons entry ts ih =>
    obtain ⟨t, v⟩ := entry
    have hvalue : args[before.length]? = some v := by
      rw [hargs, List.getElem?_append_right le_rfl, Nat.sub_self]
      rfl
    have hrest := ih (before ++ [v]) (by simpa using hargs)
    rw [List.length_append, List.length_singleton, Nat.add_assoc, Nat.add_comm 1 ts.length]
      at hrest
    rw [numbered, List.length_cons]
    have hfirst : Aligned args before.length (before.length + 1)
        (sep ++ t.text (before.length + 1)) (fixed sep ++ t.pieces v) :=
      (aligned_fixed hfixed _).append (t.aligned hvalue) le_rfl (Nat.le_succ _) (t.noDigit_text _)
    exact hfirst.append hrest (Nat.le_succ _) (by omega) (noDigit_numbered hsep _ _)

end

end Purels.Lib.Sql
