import Jack.Token.Lexer
import Mathlib.Data.List.Chain
import Mathlib.Tactic.IntervalCases

/-! How a text is laid out: the words of its tokens, each as it can be written, with a gap before
every word and after the last one. -/

namespace Jack

/-! ### Gaps and words -/

/-- White space and comments. A comment of one line ends with the line, any other one where it
first can. -/
inductive IsGap : List Char → Prop
  | nil : IsGap []
  | blank {c : Char} {rest : List Char} (hc : isBlank c = true) (h : IsGap rest) :
    IsGap (c :: rest)
  | lineComment {body rest : List Char} (hb : '\n' ∉ body) (h : IsGap rest) :
    IsGap ('/' :: '/' :: body ++ '\n' :: rest)
  | blockComment {body rest : List Char} (hb : ¬['*', '/'] <:+: body) (h : IsGap rest) :
    IsGap ('/' :: '*' :: body ++ '*' :: '/' :: rest)

/-- The gap at the end of a text, where a comment of one line needs no line feed. -/
inductive IsLastGap : List Char → Prop
  | gap {gap : List Char} (h : IsGap gap) : IsLastGap gap
  | comment {gap body : List Char} (h : IsGap gap) (hb : '\n' ∉ body) :
    IsLastGap (gap ++ '/' :: '/' :: body)

/-- The token is a run of letters, digits and underscores. -/
def Lexeme.IsWord : Lexeme → Prop
  | .keyword _ | .integer _ | .identifier _ => True
  | .symbol _ | .string _ => False

/-- The token can be written. -/
def Lexeme.Valid : Lexeme → Prop
  | .keyword _ | .symbol _ => True
  | .integer n => n.toNat ≤ 32767
  | .string text =>
    text.length ≤ 32767 ∧ ∀ c ∈ text.toList, c.toNat ≤ 0x7FFF ∧ c ≠ '"' ∧ c ≠ '\n'
  | .identifier name =>
    (∃ c cs, name.toList = c :: cs ∧ c.isDigit = false ∧ ∀ d ∈ c :: cs, isWordChar d = true)
      ∧ ∀ k : Keyword, name ≠ k.spelling

/-- The characters that a token can be written with: an integer with leading zeros, a string in
quotes, any other one in one way. -/
def Lexeme.WrittenAs (cs : List Char) : Lexeme → Prop
  | .keyword k => cs = k.spelling.toList
  | .symbol m => cs = [m.char]
  | .integer n => ∃ zeros, cs = List.replicate zeros '0' ++ (toString n.toNat).toList
  | .string text => cs = '"' :: text.toList ++ ['"']
  | .identifier name => cs = name.toList

/-- A token as it is written in a text, and the gap before it. -/
structure Piece where
  gap : List Char
  text : List Char
  lexeme : Lexeme

def Piece.chars (x : Piece) : List Char := x.gap ++ x.text

/-- The characters of pieces, and of the gap after them. -/
def charsOf (pieces : List Piece) (last : List Char) : List Char :=
  pieces.flatMap Piece.chars ++ last

structure Layout where
  pieces : List Piece
  last : List Char

def Layout.text (y : Layout) : List Char := charsOf y.pieces y.last

/-- The tokens are written as they can be. Two words never touch, and no slash begins a comment. -/
structure Layout.Valid (y : Layout) : Prop where
  gaps : ∀ x ∈ y.pieces, IsGap x.gap
  last : IsLastGap y.last
  tokens : ∀ x ∈ y.pieces, x.lexeme.Valid ∧ x.lexeme.WrittenAs x.text
  apart : y.pieces.IsChain fun x z => x.lexeme.IsWord → z.lexeme.IsWord → z.gap ≠ []
  slashes : ∀ before x after, y.pieces = before ++ x :: after → x.lexeme = .symbol .slash →
    ∀ c ∈ (charsOf after y.last).head?, c ≠ '/' ∧ c ≠ '*'

/-- Every word goes as far as it can, to both sides. -/
def Layout.Maximal (y : Layout) : Prop :=
  ∀ before x after, y.pieces = before ++ x :: after → x.lexeme.IsWord →
    (∀ c ∈ x.text, isWordChar c = true)
      ∧ (∀ c ∈ (charsOf before x.gap).getLast?, isWordChar c = false)
      ∧ ∀ c ∈ (charsOf after y.last).head?, isWordChar c = false

/-- The place of the character after these: its line is one more than their line feeds, its column
one more than the characters after the last of them. -/
def placeAfter (cs : List Char) : Position :=
  ⟨1 + cs.count '\n', 1 + (cs.reverse.takeWhile (· ≠ '\n')).length⟩

/-- The tokens of pieces that stand after the characters `before`. -/
def tokensAfter (before : List Char) : List Piece → List Token
  | [] => []
  | x :: xs => ⟨x.lexeme, placeAfter (before ++ x.gap)⟩ :: tokensAfter (before ++ x.chars) xs

def Layout.stream (y : Layout) : TokenStream := ⟨tokensAfter [] y.pieces, placeAfter y.text⟩

@[simp] theorem Lexeme.valid_keyword (k : Keyword) : (Lexeme.keyword k).Valid := trivial

@[simp] theorem Lexeme.valid_symbol (m : Punctuation) : (Lexeme.symbol m).Valid := trivial

theorem placeAfter_append (cs ds : List Char) :
    placeAfter (cs ++ ds) = (placeAfter cs).afterAll ds := by
  induction ds using List.reverseRecOn with
  | nil => rw [List.append_nil]; rfl
  | append_singleton ds d ih =>
    rw [Position.afterAll_append, ← ih, ← List.append_assoc]
    simp only [placeAfter, Position.afterAll, List.foldl_cons, List.foldl_nil, Position.after,
      List.count_append, List.reverse_append, List.reverse_singleton, List.singleton_append]
    by_cases hd : d = '\n'
    · subst hd
      rw [if_pos rfl, List.takeWhile_cons_of_neg (by decide)]
      simp [Nat.add_assoc]
    · rw [if_neg hd, List.takeWhile_cons_of_pos (by simpa using hd)]
      simp [hd, Nat.add_assoc]

theorem lexeme_tokensAfter (before : List Char) (pieces : List Piece) :
    (tokensAfter before pieces).map Token.lexeme = pieces.map Piece.lexeme := by
  induction pieces generalizing before with
  | nil => rfl
  | cons x xs ih => rw [tokensAfter, List.map_cons, List.map_cons, ih]

@[simp] theorem charsOf_nil (last : List Char) : charsOf [] last = last := rfl

@[simp] theorem charsOf_cons (x : Piece) (xs : List Piece) (last : List Char) :
    charsOf (x :: xs) last = x.gap ++ (x.text ++ charsOf xs last) := by
  simp [charsOf, Piece.chars]

theorem charsOf_append_cons (before after : List Piece) (x : Piece) (last : List Char) :
    charsOf (before ++ x :: after) last
      = charsOf before x.gap ++ (x.text ++ charsOf after last) := by
  simp [charsOf, Piece.chars]

/-! ### What a word is made of -/

/-- The first character of the characters is none of words. -/
def EndWord (rest : List Char) : Prop := ∀ c ∈ rest.head?, isWordChar c = false

/-- The letters, the digits and the underscore by their codes. -/
theorem isWordChar_eq (c : Char) : isWordChar c =
    (decide (65 ≤ c.val ∧ c.val ≤ 90) || (97 ≤ c.val && c.val ≤ 122)
      || (48 ≤ c.val && c.val ≤ 57) || c = '_') := rfl

theorem isBlank_of_isWordChar {c : Char} (h : isWordChar c = true) : isBlank c = false := by
  have hrange : 65 ≤ c.toNat ∧ c.toNat ≤ 90 ∨ 97 ≤ c.toNat ∧ c.toNat ≤ 122
      ∨ 48 ≤ c.toNat ∧ c.toNat ≤ 57 ∨ c.toNat = 95 := by
    simp only [isWordChar_eq, Bool.or_eq_true, Bool.and_eq_true, decide_eq_true_eq,
      UInt32.le_iff_toNat_le] at h
    rcases h with ((h | h) | h) | rfl
    · exact Or.inl h
    · exact Or.inr (Or.inl h)
    · exact Or.inr (Or.inr (Or.inl h))
    · exact Or.inr (Or.inr (Or.inr rfl))
  simp only [isBlank, blankCodes, List.contains_eq_mem, decide_eq_false_iff_not, List.mem_cons,
    List.not_mem_nil, or_false]
  omega

theorem isWordChar_of_isDigit {c : Char} (h : c.isDigit = true) : isWordChar c = true := by
  simp [isWordChar, Char.isAlphanum, h]

theorem Punctuation.isWordChar_char (m : Punctuation) : isWordChar m.char = false := by
  cases m <;> decide

theorem Keyword.spelling_eq_cons (k : Keyword) :
    ∃ c cs, k.spelling.toList = c :: cs ∧ c.isDigit = false
      ∧ ∀ d ∈ c :: cs, isWordChar d = true := by
  cases k <;> exact ⟨_, _, rfl, rfl, List.all_eq_true.1 rfl⟩

/-- The characters of a word are there, and are those of words. -/
theorem Lexeme.WrittenAs.word {l : Lexeme} {cs : List Char} (hl : l.IsWord) (hv : l.Valid)
    (h : l.WrittenAs cs) : cs ≠ [] ∧ ∀ c ∈ cs, isWordChar c = true := by
  cases l with
  | keyword k =>
    obtain ⟨c, cs', hk, -, hall⟩ := k.spelling_eq_cons
    obtain rfl := h.trans hk
    exact ⟨List.cons_ne_nil _ _, hall⟩
  | integer n =>
    obtain ⟨zeros, rfl⟩ := h
    rw [Nat.toString_eq_ofList_toDigits, String.toList_ofList]
    refine ⟨List.append_ne_nil_of_right_ne_nil _ Nat.toDigits_ne_nil, ?_⟩
    intro c hc
    apply isWordChar_of_isDigit
    rcases List.mem_append.1 hc with hc | hc
    · rw [List.eq_of_mem_replicate hc]
      rfl
    · exact Nat.isDigit_of_mem_toDigits (by decide) (by decide) hc
  | identifier name =>
    obtain ⟨⟨c, cs', hn, -, hall⟩, -⟩ := hv
    obtain rfl := h.trans hn
    exact ⟨List.cons_ne_nil _ _, hall⟩
  | symbol m | string text => exact absurd hl id

/-- What is no word does not begin like one. -/
theorem Lexeme.WrittenAs.endWord {l : Lexeme} {cs : List Char} (hl : ¬l.IsWord)
    (h : l.WrittenAs cs) (rest : List Char) : EndWord (cs ++ rest) := by
  intro c hc
  cases l with
  | symbol m =>
    obtain rfl := h
    obtain rfl := Option.some.inj hc
    exact m.isWordChar_char
  | string text =>
    obtain rfl := h
    obtain rfl := Option.some.inj hc
    rfl
  | keyword k | integer n | identifier name => exact absurd trivial hl

/-- Nor does it end like one. -/
theorem Lexeme.WrittenAs.getLast_endWord {l : Lexeme} {cs : List Char} (hl : ¬l.IsWord)
    (h : l.WrittenAs cs) : ∃ front c, cs = front ++ [c] ∧ isWordChar c = false := by
  cases l with
  | symbol m => exact ⟨[], m.char, h, m.isWordChar_char⟩
  | string text => exact ⟨_, '"', h, rfl⟩
  | keyword k | integer n | identifier name => exact absurd trivial hl

theorem isWordChar_of_isBlank {c : Char} (h : isBlank c = true) : isWordChar c = false := by
  cases hc : isWordChar c with
  | false => rfl
  | true =>
    rw [isBlank_of_isWordChar hc] at h
    cases h

/-- A gap begins like no word, and so does what follows it if the gap is empty. -/
theorem IsGap.endWord {gap rest : List Char} (h : IsGap gap) (hr : gap = [] → EndWord rest) :
    EndWord (gap ++ rest) := by
  cases h with
  | nil => exact hr rfl
  | blank hc h =>
    intro d hd
    obtain rfl := Option.some.inj hd
    exact isWordChar_of_isBlank hc
  | lineComment hb h | blockComment hb h =>
    intro d hd
    obtain rfl := Option.some.inj hd
    rfl

theorem IsLastGap.endWord {gap : List Char} (h : IsLastGap gap) : EndWord gap := by
  have hnil : EndWord [] := by simp [EndWord]
  cases h with
  | gap h => simpa using h.endWord fun _ => hnil
  | @comment gap body h hb =>
    apply h.endWord
    intro _ c hc
    obtain rfl := Option.some.inj hc
    rfl

theorem IsGap.getLast_endWord {gap : List Char} (h : IsGap gap) :
    ∀ c ∈ gap.getLast?, isWordChar c = false := by
  have hcons : ∀ (front : List Char) {rest : List Char} {d : Char}, isWordChar d = false →
      (∀ c ∈ rest.getLast?, isWordChar c = false) →
      ∀ c ∈ (front ++ d :: rest).getLast?, isWordChar c = false := by
    intro front rest d hd hrest c hc
    rw [List.getLast?_append_cons] at hc
    cases rest with
    | nil =>
      obtain rfl := Option.some.inj hc
      exact hd
    | cons e rest => exact hrest c hc
  induction h with
  | nil => simp
  | blank hc h ih => exact hcons [] (isWordChar_of_isBlank hc) ih
  | lineComment hb h ih => exact hcons _ rfl ih
  | @blockComment body rest hb h ih =>
    have hlast := hcons ('/' :: '*' :: body ++ ['*']) (rfl : isWordChar '/' = false) ih
    rwa [List.append_assoc] at hlast

/-! ### Words and the tokens that they are -/

/-- A number that is too large is cut off right after the largest integer. -/
theorem cappedValue_eq (cs : List Char) :
    cappedValue cs = min (Nat.ofDigitChars 10 cs 0) (largestInteger + 1) := by
  have hfold : ∀ v, cs.foldl (fun v c => min (10 * v + (c.toNat - '0'.toNat)) (largestInteger + 1))
      (min v (largestInteger + 1)) = min (Nat.ofDigitChars 10 cs v) (largestInteger + 1) := by
    induction cs with
    | nil => intro v; rfl
    | cons c cs ih =>
      intro v
      have hstep : min (10 * min v (largestInteger + 1) + (c.toNat - '0'.toNat))
          (largestInteger + 1) = min (10 * v + (c.toNat - '0'.toNat)) (largestInteger + 1) := by
        omega
      rw [List.foldl_cons, hstep, ih, Nat.ofDigitChars_cons]
  exact hfold 0

theorem digitChar_of_isDigit {c : Char} (h : c.isDigit = true) :
    c.toNat - '0'.toNat < 10 ∧ (c.toNat - '0'.toNat).digitChar = c := by
  have hrange : 48 ≤ c.toNat ∧ c.toNat ≤ 57 := by
    simpa [Char.isDigit, UInt32.le_iff_toNat_le] using h
  have hc : c = Char.ofNat c.toNat := (Char.ofNat_toNat c).symm
  generalize c.toNat = n at hrange hc
  subst hc
  obtain ⟨h₁, h₂⟩ := hrange
  interval_cases n <;> decide

/-- Digits are those of a number, after zeros. -/
theorem exists_zeros {cs : List Char} (hne : cs ≠ []) (hcs : ∀ c ∈ cs, c.isDigit = true) :
    ∃ zeros, cs = List.replicate zeros '0' ++ Nat.toDigits 10 (Nat.ofDigitChars 10 cs 0) := by
  induction cs using List.reverseRecOn with
  | nil => exact absurd rfl hne
  | append_singleton cs c ih =>
    obtain ⟨hlt, hc⟩ := digitChar_of_isDigit (hcs c (by simp))
    have hdigit : Nat.toDigits 10 (c.toNat - '0'.toNat) = [c] := by
      rw [Nat.toDigits_of_lt_base hlt, hc]
    rw [Nat.ofDigitChars_append, Nat.ofDigitChars_cons, Nat.ofDigitChars_nil]
    cases cs with
    | nil => exact ⟨0, by rw [Nat.ofDigitChars_nil, Nat.mul_zero, Nat.zero_add, hdigit]; rfl⟩
    | cons d cs =>
      obtain ⟨zeros, hzeros⟩ := ih (List.cons_ne_nil _ _) fun x hx =>
        hcs x (List.mem_append_left _ hx)
      generalize Nat.ofDigitChars 10 (d :: cs) 0 = v at hzeros ⊢
      rcases Nat.eq_zero_or_pos v with rfl | hv
      · refine ⟨zeros + 1, ?_⟩
        rw [hzeros, Nat.toDigits_zero, Nat.mul_zero, Nat.zero_add, hdigit,
          List.replicate_succ', List.append_assoc]
      · refine ⟨zeros, ?_⟩
        rw [← Nat.toDigits_append_toDigits (by decide) hv hlt, hdigit, ← List.append_assoc,
          ← hzeros]

theorem ofDigitChars_zeros (zeros n : Nat) :
    Nat.ofDigitChars 10 (List.replicate zeros '0' ++ Nat.toDigits 10 n) 0 = n := by
  rw [Nat.ofDigitChars_append, Nat.ofDigitChars_replicate_zero, Nat.mul_zero,
    Nat.ofDigitChars_ten_toDigits]

/-- The token of a word is one that the word is a way to write. -/
theorem Lexeme.writtenAs_of_ofWord? {cs : List Char} {l : Lexeme} (hne : cs ≠ [])
    (hcs : ∀ c ∈ cs, isWordChar c = true) (h : Lexeme.ofWord? cs = some l) :
    l.IsWord ∧ l.Valid ∧ l.WrittenAs cs := by
  unfold Lexeme.ofWord? at h
  split at h
  · rename_i k hk
    cases h
    have hspelling := Keyword.ofSpelling?_eq_some_iff.1 hk
    exact ⟨trivial, trivial, by rw [WrittenAs, hspelling, String.toList_ofList]⟩
  · rename_i hk
    split at h
    · rename_i hdigits
      split at h
      · rename_i hle
        cases h
        have hvalue : cappedValue cs = Nat.ofDigitChars 10 cs 0 := by
          rw [cappedValue_eq] at hle ⊢
          omega
        have hnat : (UInt16.ofNat (cappedValue cs)).toNat = cappedValue cs :=
          UInt16.toNat_ofNat_of_lt' (Nat.lt_of_le_of_lt hle (by decide))
        obtain ⟨zeros, hzeros⟩ := exists_zeros hne (List.all_eq_true.1 hdigits)
        refine ⟨trivial, by rwa [Valid, hnat], zeros, ?_⟩
        rw [hnat, hvalue, Nat.toString_eq_ofList_toDigits, String.toList_ofList]
        exact hzeros
      · cases h
    · split at h
      · cases h
      · rename_i hhead
        cases h
        obtain ⟨c, cs', rfl⟩ := List.exists_cons_of_ne_nil hne
        refine ⟨trivial, ⟨⟨c, cs', String.toList_ofList, by simpa using hhead, hcs⟩, ?_⟩,
          String.toList_ofList.symm⟩
        intro k hspelling
        rw [Keyword.ofSpelling?_eq_some_iff.2 hspelling.symm] at hk
        cases hk

theorem Keyword.ofSpelling?_eq_none {cs : List Char}
    (h : ∀ k : Keyword, cs ≠ k.spelling.toList) :
    Keyword.ofSpelling? (String.ofList cs) = none := by
  rw [Option.eq_none_iff_forall_ne_some]
  intro k hk
  apply h k
  rw [Keyword.ofSpelling?_eq_some_iff.1 hk, String.toList_ofList]

theorem Lexeme.ofWord?_of_writtenAs {cs : List Char} {l : Lexeme} (hl : l.IsWord)
    (hv : l.Valid) (h : l.WrittenAs cs) : Lexeme.ofWord? cs = some l := by
  cases l with
  | keyword k =>
    obtain rfl := h
    rw [ofWord?, String.ofList_toList, Keyword.ofSpelling?_eq_some_iff.2 rfl]
  | integer n =>
    obtain ⟨zeros, rfl⟩ := h
    rw [Nat.toString_eq_ofList_toDigits, String.toList_ofList]
    have hdigits : ∀ c ∈ List.replicate zeros '0' ++ Nat.toDigits 10 n.toNat, c.isDigit = true := by
      intro c hc
      rcases List.mem_append.1 hc with hc | hc
      · rw [List.eq_of_mem_replicate hc]
        rfl
      · exact Nat.isDigit_of_mem_toDigits (by decide) (by decide) hc
    have hnone : Keyword.ofSpelling? (String.ofList (List.replicate zeros '0'
        ++ Nat.toDigits 10 n.toNat)) = none := by
      apply Keyword.ofSpelling?_eq_none
      intro k hk
      obtain ⟨c, cs, hspelling, hc, -⟩ := k.spelling_eq_cons
      rw [hdigits c (by rw [hk, hspelling]; exact List.mem_cons_self)] at hc
      cases hc
    have hvalue : cappedValue (List.replicate zeros '0' ++ Nat.toDigits 10 n.toNat) = n.toNat := by
      rw [cappedValue_eq, ofDigitChars_zeros]
      exact Nat.min_eq_left (Nat.le_succ_of_le hv)
    have hle : n.toNat ≤ largestInteger := hv
    rw [ofWord?, hnone]
    simp only [List.all_eq_true.2 hdigits, if_true, hvalue, hle, UInt16.ofNat_toNat]
  | identifier name =>
    obtain ⟨⟨c, cs', hname, hc, -⟩, hk⟩ := hv
    obtain rfl := h
    have hnone : Keyword.ofSpelling? name = none := by
      rw [Option.eq_none_iff_forall_ne_some]
      intro k hs
      exact hk k (Keyword.ofSpelling?_eq_some_iff.1 hs).symm
    rw [ofWord?, String.ofList_toList, hnone, hname]
    simp [hc]
  | symbol m | string text => exact absurd hl id

/-! ### Layouts from the front -/

/-- What follows a token does not go on with it. -/
structure Lexeme.Stops (l : Lexeme) (rest : List Char) : Prop where
  word : l.IsWord → EndWord rest
  slash : l = .symbol .slash → ∀ c ∈ rest.head?, c ≠ '/' ∧ c ≠ '*'

/-- Every piece is written as it can be, and ends where it does by what follows it. -/
def LaidOut (last : List Char) : List Piece → Prop
  | [] => IsLastGap last
  | x :: xs => IsGap x.gap ∧ x.lexeme.Valid ∧ x.lexeme.WrittenAs x.text
      ∧ x.lexeme.Stops (charsOf xs last) ∧ LaidOut last xs

/-- Pieces that a word can stand before begin like no word. -/
theorem LaidOut.endWord {last : List Char} {xs : List Piece} (h : LaidOut last xs)
    (hx : ∀ x ∈ xs.head?, x.lexeme.IsWord → x.gap ≠ []) : EndWord (charsOf xs last) := by
  cases xs with
  | nil => exact IsLastGap.endWord h
  | cons x xs =>
    obtain ⟨hg, -, hw, -, -⟩ := h
    rw [charsOf_cons]
    apply hg.endWord
    intro hnil
    exact hw.endWord (fun hword => hx x rfl hword hnil) _

theorem Layout.Valid.laidOut {y : Layout} (h : y.Valid) : LaidOut y.last y.pieces := by
  obtain ⟨pieces, last⟩ := y
  induction pieces with
  | nil => exact h.last
  | cons x xs ih =>
    have htail : Layout.Valid ⟨xs, last⟩ := by
      refine ⟨fun z hz => h.gaps z (List.mem_cons_of_mem _ hz), h.last,
        fun z hz => h.tokens z (List.mem_cons_of_mem _ hz), h.apart.tail, ?_⟩
      intro before z after hz
      exact h.slashes (x :: before) z after (congrArg (x :: ·) hz)
    obtain ⟨hv, hw⟩ := h.tokens x List.mem_cons_self
    refine ⟨h.gaps x List.mem_cons_self, hv, hw, ⟨fun hword => ?_, h.slashes [] x xs rfl⟩, ih htail⟩
    apply (ih htail).endWord
    intro z hz hzword
    exact (List.isChain_cons.1 h.apart).1 z hz hword hzword

theorem LaidOut.valid {last : List Char} {pieces : List Piece} (h : LaidOut last pieces) :
    Layout.Valid ⟨pieces, last⟩ := by
  induction pieces with
  | nil => exact ⟨by simp, h, by simp, List.IsChain.nil, by simp⟩
  | cons x xs ih =>
    obtain ⟨hg, hv, hw, hstops, htail⟩ := h
    have ih := ih htail
    refine ⟨List.forall_mem_cons.2 ⟨hg, ih.gaps⟩, ih.last,
      List.forall_mem_cons.2 ⟨⟨hv, hw⟩, ih.tokens⟩, List.isChain_cons.2 ⟨?_, ih.apart⟩, ?_⟩
    · -- a word that touched the next one would be followed by a character of words
      intro z hz hword hzword hnil
      obtain ⟨zs, rfl⟩ : ∃ zs, xs = z :: zs := by
        cases xs with
        | nil => cases hz
        | cons z' zs => exact ⟨zs, by rw [Option.some.inj hz]⟩
      obtain ⟨hvz, hwz⟩ := ih.tokens z List.mem_cons_self
      obtain ⟨hne, hall⟩ := hwz.word hzword hvz
      obtain ⟨c, cs, hcs⟩ := List.exists_cons_of_ne_nil hne
      have hend := hstops.word hword c (by rw [charsOf_cons, hnil, hcs]; rfl)
      rw [hall c (by rw [hcs]; exact List.mem_cons_self)] at hend
      cases hend
    · intro before z after hsplit hslash
      cases before with
      | nil =>
        obtain ⟨rfl, rfl⟩ := List.cons.inj hsplit
        exact hstops.slash hslash
      | cons b before => exact ih.slashes before z after (List.cons.inj hsplit).2 hslash

theorem LaidOut.of_append {last : List Char} {before after : List Piece}
    (h : LaidOut last (before ++ after)) : LaidOut last after := by
  induction before with
  | nil => exact h
  | cons z before ih => exact ih h.2.2.2.2

/-- The characters before a word end like no word. -/
theorem LaidOut.getLast_endWord {last : List Char} {before after : List Piece} {x : Piece}
    (h : LaidOut last (before ++ x :: after)) (hx : x.lexeme.IsWord) :
    ∀ c ∈ (charsOf before x.gap).getLast?, isWordChar c = false := by
  induction before with
  | nil => exact IsGap.getLast_endWord h.1
  | cons z zs ih =>
    rw [List.cons_append] at h
    obtain ⟨-, -, hw, hstops, htail⟩ := h
    intro c hc
    rw [charsOf_cons, ← List.append_assoc, List.getLast?_append] at hc
    cases hrest : (charsOf zs x.gap).getLast? with
    | some d =>
      rw [hrest] at hc
      exact ih htail c (hrest.trans hc)
    | none =>
      -- nothing is between the two, so the token before the word is none
      have hnil := List.getLast?_eq_none_iff.1 hrest
      have hz : ¬z.lexeme.IsWord := by
        intro hzword
        obtain ⟨-, hv, hwx, -, -⟩ := htail.of_append
        obtain ⟨hne, hall⟩ := hwx.word hx hv
        obtain ⟨d, ds, hd⟩ := List.exists_cons_of_ne_nil hne
        have hend := hstops.word hzword d (by rw [charsOf_append_cons, hnil, hd]; rfl)
        rw [hall d (by rw [hd]; exact List.mem_cons_self)] at hend
        cases hend
      obtain ⟨front, d, hd, hword⟩ := Lexeme.WrittenAs.getLast_endWord hz hw
      rw [hrest, Option.none_or, hd, ← List.append_assoc, List.getLast?_concat] at hc
      obtain rfl := Option.some.inj hc
      exact hword

/-- In a text that is laid out, every word goes as far as it can. -/
theorem LaidOut.maximal {last : List Char} {pieces : List Piece} (h : LaidOut last pieces) :
    Layout.Maximal ⟨pieces, last⟩ := by
  intro before x after hsplit hword
  obtain rfl : pieces = before ++ x :: after := hsplit
  obtain ⟨-, hv, hw, hstops, -⟩ := h.of_append
  exact ⟨(hw.word hword hv).2, h.getLast_endWord hword, hstops.word hword⟩

/-! ### Putting layouts together -/

/-- The characters are laid out in some way. -/
def HasLayout (cs : List Char) : Prop :=
  ∃ pieces last, LaidOut last pieces ∧ charsOf pieces last = cs

theorem IsGap.append {gap other : List Char} (hg : IsGap gap) (ho : IsGap other) :
    IsGap (gap ++ other) := by
  induction hg with
  | nil => exact ho
  | blank hc h ih => exact .blank hc ih
  | lineComment hb h ih => rw [List.append_assoc]; exact .lineComment hb ih
  | blockComment hb h ih => rw [List.append_assoc]; exact .blockComment hb ih

theorem HasLayout.nil : HasLayout [] := ⟨[], [], .gap .nil, rfl⟩

theorem HasLayout.lineComment {body : List Char} (hb : '\n' ∉ body) :
    HasLayout ('/' :: '/' :: body) :=
  ⟨[], _, .comment .nil hb, rfl⟩

theorem HasLayout.gap {gap cs : List Char} (hg : IsGap gap) (h : HasLayout cs) :
    HasLayout (gap ++ cs) := by
  obtain ⟨pieces, last, hlaid, rfl⟩ := h
  cases pieces with
  | nil =>
    refine ⟨[], gap ++ last, ?_, rfl⟩
    cases (hlaid : IsLastGap last) with
    | gap h => exact .gap (hg.append h)
    | comment h hb => rw [← List.append_assoc]; exact .comment (hg.append h) hb
  | cons x xs =>
    obtain ⟨hx, hrest⟩ := hlaid
    exact ⟨⟨gap ++ x.gap, x.text, x.lexeme⟩ :: xs, last, ⟨hg.append hx, hrest⟩, by
      rw [charsOf_cons, charsOf_cons, List.append_assoc]⟩

theorem Lexeme.WrittenAs.hasLayout {l : Lexeme} {text cs : List Char} (hw : l.WrittenAs text)
    (hv : l.Valid) (hs : l.Stops cs) (h : HasLayout cs) : HasLayout (text ++ cs) := by
  obtain ⟨pieces, last, hlaid, rfl⟩ := h
  exact ⟨⟨[], text, l⟩ :: pieces, last, ⟨.nil, hv, hw, hs, hlaid⟩, by rw [charsOf_cons]; rfl⟩

end Jack
