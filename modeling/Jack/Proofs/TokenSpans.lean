import Jack.Proofs.Highlighting
import Jack.Proofs.Lexing

/-! Highlighting and the lexer cut a text alike. Where it has no comment, and no star that looks
like the middle of one, the spans that show more than white space are the tokens as they are
written. -/

namespace Jack

/-! ### Texts without comments -/

/-- Nowhere outside quotes, that is behind an even number of them, does a comment begin. -/
def Commentless (text : List Char) : Prop :=
  ∀ before rest, before ++ rest = text → before.count '"' % 2 = 0 →
    ¬['/', '/'] <+: rest ∧ ¬['/', '*'] <+: rest

instance (text : List Char) : Decidable (Commentless text) :=
  decidable_of_iff
    (∀ n < text.length + 1, (text.take n).count '"' % 2 = 0 →
      ¬['/', '/'] <+: text.drop n ∧ ¬['/', '*'] <+: text.drop n) <| by
    constructor
    · rintro h before rest rfl heven
      have hplace := h before.length (by rw [List.length_append]; omega)
      rw [List.take_left, List.drop_left] at hplace
      exact hplace heven
    · intro h n _
      exact h _ _ (List.take_append_drop n text)

theorem Commentless.drop {before rest : List Char} (h : Commentless (before ++ rest))
    (heven : before.count '"' % 2 = 0) : Commentless rest := by
  rintro more rest rfl hmore
  apply h (before ++ more) rest (List.append_assoc _ _ _)
  rw [List.count_append]
  omega

/-- There are no quotes in white space. -/
theorem count_quote_of_isBlank {gap : List Char} (h : ∀ c ∈ gap, isBlank c = true) :
    gap.count '"' = 0 := by
  apply List.count_eq_zero_of_not_mem
  intro hquote
  cases h _ hquote

theorem IsGap.isBlank {gap rest : List Char} (h : IsGap gap) (hc : Commentless (gap ++ rest)) :
    ∀ c ∈ gap, isBlank c = true := by
  induction h with
  | nil => exact List.forall_mem_nil _
  | @blank c gap hblank h ih =>
    have hone : ∀ d ∈ [c], Jack.isBlank d = true := by
      simpa using hblank
    have heven : [c].count '"' % 2 = 0 := by
      rw [count_quote_of_isBlank hone]
    exact List.forall_mem_cons.2 ⟨hblank, ih (Commentless.drop hc heven)⟩
  | lineComment hb h ih => exact absurd ⟨_, rfl⟩ (hc [] _ rfl rfl).1
  | blockComment hb h ih => exact absurd ⟨_, rfl⟩ (hc [] _ rfl rfl).2

theorem IsLastGap.isBlank {gap : List Char} (h : IsLastGap gap) (hc : Commentless gap) :
    ∀ c ∈ gap, isBlank c = true := by
  cases h with
  | gap h =>
    rw [← List.append_nil gap] at hc
    exact h.isBlank hc
  | @comment gap body h hb =>
    have heven : gap.count '"' % 2 = 0 := by
      rw [count_quote_of_isBlank (h.isBlank hc)]
    exact absurd ⟨_, rfl⟩ (hc.drop heven [] _ rfl rfl).1

/-- The quotes of a token come in pairs. -/
theorem Lexeme.WrittenAs.count_quote {l : Lexeme} {cs : List Char} (hv : l.Valid)
    (h : l.WrittenAs cs) : cs.count '"' % 2 = 0 := by
  by_cases hword : l.IsWord
  · rw [List.count_eq_zero_of_not_mem]
    intro hquote
    cases (h.word hword hv).2 _ hquote
  · cases l with
    | symbol m =>
      obtain rfl := h
      cases m <;> rfl
    | string text =>
      obtain rfl := h
      have hnone : text.toList.count '"' = 0 :=
        List.count_eq_zero_of_not_mem fun hquote => (hv.2 _ hquote).2.1 rfl
      rw [List.count_append, List.count_cons_self, hnone]
      rfl
    | keyword k | integer n | identifier name => exact absurd trivial hword

/-! ### Characters for the lexer and for highlighting -/

theorem isHighlightChar_of_isWordChar {c : Char} (h : isWordChar c = true) :
    isHighlightChar c = true := by
  have hascii : c.toNat < 128 := by
    simp only [isWordChar_eq, Bool.or_eq_true, Bool.and_eq_true, decide_eq_true_eq,
      UInt32.le_iff_toNat_le] at h
    rcases h with ((h | h) | h) | rfl
    · exact Nat.lt_of_le_of_lt h.2 (by decide)
    · exact Nat.lt_of_le_of_lt h.2 (by decide)
    · exact Nat.lt_of_le_of_lt h.2 (by decide)
    · decide
  rw [isHighlightChar, isLetterOrDigit_ascii hascii]
  exact h

theorem Punctuation.isHighlightChar_char (m : Punctuation) : isHighlightChar m.char = false := by
  cases m <;> rfl

theorem Punctuation.isBlank_char (m : Punctuation) : isBlank m.char = false := by
  cases m <;> rfl

/-- The first character of the characters is none of the words that are highlighted. -/
def EndHighlight (rest : List Char) : Prop := ∀ c ∈ rest.head?, isHighlightChar c = false

theorem Lexeme.WrittenAs.endHighlight {l : Lexeme} {cs : List Char} (hl : ¬l.IsWord)
    (h : l.WrittenAs cs) (rest : List Char) : EndHighlight (cs ++ rest) := by
  intro c hc
  cases l with
  | symbol m =>
    obtain rfl := h
    obtain rfl := Option.some.inj hc
    exact m.isHighlightChar_char
  | string text =>
    obtain rfl := h
    obtain rfl := Option.some.inj hc
    rfl
  | keyword k | integer n | identifier name => exact absurd trivial hl

theorem endHighlight_of_isBlank {gap rest : List Char} (h : ∀ c ∈ gap, isBlank c = true)
    (hrest : gap = [] → EndHighlight rest) : EndHighlight (gap ++ rest) := by
  cases gap with
  | nil => exact hrest rfl
  | cons d gap =>
    intro c hc
    obtain rfl := Option.some.inj hc
    exact isHighlightChar_of_isBlank (h d List.mem_cons_self)

/-- No mark begins a comment, except slashes and stars at their places. -/
theorem startsComment_char {m : Punctuation} {blank : Bool} {rest : List Char}
    (hslash : m = .slash → ∀ c ∈ rest.head?, c ≠ '/' ∧ c ≠ '*')
    (hstar : m = .star → blank = false) :
    startsComment blank m.char rest = false := by
  cases m with
  | slash =>
    have hnext := hslash rfl
    cases hrest : rest.head? with
    | none => simp [startsComment, hrest, Punctuation.char]
    | some c =>
      obtain ⟨hc, hd⟩ := hnext c hrest
      simp [startsComment, hrest, hc, hd, Punctuation.char]
  | star => simp [startsComment, hstar rfl, Punctuation.char]
  | _ => simp [startsComment, Punctuation.char]

/-- What ends a word for the lexer ends it for highlighting, too. -/
theorem LaidOut.endHighlight {last : List Char} {pieces : List Piece} (h : LaidOut last pieces)
    (hc : Commentless (charsOf pieces last)) (hend : EndWord (charsOf pieces last)) :
    EndHighlight (charsOf pieces last) := by
  cases pieces with
  | nil =>
    rw [charsOf_nil, ← List.append_nil last]
    exact endHighlight_of_isBlank (IsLastGap.isBlank h hc) fun _ => by simp [EndHighlight]
  | cons x xs =>
    obtain ⟨hgap, hv, hw, -, -⟩ := h
    rw [charsOf_cons] at hc hend ⊢
    apply endHighlight_of_isBlank (hgap.isBlank hc)
    intro hnil
    by_cases hl : x.lexeme.IsWord
    · -- a word would go on with the word before it
      obtain ⟨hne, hall⟩ := hw.word hl hv
      obtain ⟨d, cs, htext⟩ := List.exists_cons_of_ne_nil hne
      have hd := hend d (by rw [hnil, htext]; rfl)
      rw [hall d (by rw [htext]; exact List.mem_cons_self)] at hd
      cases hd
    · exact hw.endHighlight hl _

/-! ### The spans of tokens -/

/-- The texts of the spans that show more than white space. -/
def shownTexts (spans : List Span) : List (List Char) :=
  (spans.map Span.text).filter fun text => !text.all isBlank

theorem shownTexts_cons {span : Span} (h : ∃ c ∈ span.text, isBlank c = false)
    (spans : List Span) : shownTexts (span :: spans) = span.text :: shownTexts spans := by
  obtain ⟨c, hc, hblank⟩ := h
  have hshown : (!span.text.all isBlank) = true := by
    rw [Bool.not_eq_true', List.all_eq_false]
    exact ⟨c, hc, by simp [hblank]⟩
  exact List.filter_cons_of_pos hshown

namespace Highlighter

variable {blank : Bool} {gap cs rest : List Char}

/-- White space between words shows nothing. -/
theorem shownTexts_run_blanks (hgap : ∀ c ∈ gap, isBlank c = true) (blank : Bool)
    (rest : List Char) :
    shownTexts ((code [] blank []).run (gap ++ rest))
      = shownTexts ((code [] blank []).run rest) := by
  induction gap with
  | nil => rfl
  | cons c gap ih =>
    obtain ⟨hc, hgap⟩ := List.forall_mem_cons.1 hgap
    have hquote : c ≠ '"' := by
      rintro rfl
      cases hc
    have hslash : c ≠ '/' := by
      rintro rfl
      cases hc
    have hstar : c ≠ '*' := by
      rintro rfl
      cases hc
    have hcomment : startsComment blank c (gap ++ rest) = false := by
      simp [startsComment, hslash, hstar]
    rw [List.cons_append, run_mark hcomment hquote (isHighlightChar_of_isBlank hc), hc,
      Bool.and_true, ← ih hgap]
    exact List.filter_cons_of_neg (by simp [hc])

/-- A token is shown as it is written, where what follows does not go on with it and no star is
taken for the middle of a comment. -/
theorem shownTexts_run_token {l : Lexeme} (hv : l.Valid) (hw : l.WrittenAs cs)
    (hs : l.Stops rest) (hend : l.IsWord → EndHighlight rest)
    (hstar : blank = true → ((cs ++ rest).dropWhile isBlank).head? ≠ some '*') :
    shownTexts ((code [] blank []).run (cs ++ rest))
      = cs :: shownTexts ((code [] false []).run rest) := by
  by_cases hword : l.IsWord
  · obtain ⟨hne, hall⟩ := hw.word hword hv
    obtain ⟨c, cs, rfl⟩ := List.exists_cons_of_ne_nil hne
    obtain ⟨hc, hcs⟩ := List.forall_mem_cons.1 hall
    obtain ⟨style, hspan⟩ := run_endWord false (mt List.reverse_eq_nil_iff.1 hne) (hend hword)
    rw [run_word _ _ _ _ (isHighlightChar_of_isWordChar hc)
      fun d hd => isHighlightChar_of_isWordChar (hcs d hd), List.append_nil, hspan,
      List.reverse_reverse]
    exact shownTexts_cons ⟨c, List.mem_cons_self, isBlank_of_isWordChar hc⟩ _
  · cases l with
    | symbol m =>
      obtain rfl := hw
      have hquote : m.char ≠ '"' := by cases m <;> decide
      have hcomment : startsComment blank m.char rest = false := by
        apply startsComment_char fun hm => hs.slash (congrArg _ hm)
        rintro rfl
        cases blank with
        | false => rfl
        | true => exact absurd rfl (hstar rfl)
      rw [List.singleton_append, run_mark hcomment hquote m.isHighlightChar_char, m.isBlank_char,
        Bool.and_false]
      exact shownTexts_cons ⟨m.char, List.mem_singleton_self _, m.isBlank_char⟩ _
    | string text =>
      obtain rfl := hw
      have hbody : '"' ∉ text.toList := fun hquote => (hv.2 _ hquote).2.1 rfl
      rw [List.append_assoc, List.singleton_append, run_quotes hbody]
      exact shownTexts_cons ⟨'"', List.mem_cons_self, rfl⟩ _
    | keyword k | integer n | identifier name => exact absurd trivial hword

/-- The texts that are shown are those of the tokens in turn. After the first token, a star is one
itself. -/
theorem shownTexts_run_laidOut {last : List Char} {pieces : List Piece} (h : LaidOut last pieces)
    (hc : Commentless (charsOf pieces last))
    (hstar : blank = true → ((charsOf pieces last).dropWhile isBlank).head? ≠ some '*') :
    shownTexts ((code [] blank []).run (charsOf pieces last)) = pieces.map Piece.text := by
  induction pieces generalizing blank with
  | nil =>
    rw [charsOf_nil] at hc ⊢
    rw [← List.append_nil last, shownTexts_run_blanks (IsLastGap.isBlank h hc)]
    rfl
  | cons x xs ih =>
    obtain ⟨hgap, hv, hw, hstops, hxs⟩ := h
    rw [charsOf_cons] at hc hstar ⊢
    have hblank := hgap.isBlank hc
    have htext : Commentless (x.text ++ charsOf xs last) :=
      hc.drop (by rw [count_quote_of_isBlank hblank])
    have hrest : Commentless (charsOf xs last) := htext.drop (hw.count_quote hv)
    have hlater := @ih false hxs hrest fun hfalse => by cases hfalse
    rw [List.dropWhile_append_of_pos hblank] at hstar
    calc shownTexts ((code [] blank []).run (x.gap ++ (x.text ++ charsOf xs last)))
        = shownTexts ((code [] blank []).run (x.text ++ charsOf xs last)) :=
          shownTexts_run_blanks hblank blank _
      _ = x.text :: shownTexts ((code [] false []).run (charsOf xs last)) :=
          shownTexts_run_token hv hw hstops
            (fun hword => hxs.endHighlight hrest (hstops.word hword)) hstar
      _ = (x :: xs).map Piece.text := by rw [hlater, List.map_cons]

end Highlighter

/-- In a text that is read, that has no comment and that does not begin with a star, the spans that
show more than white space are the tokens as they are written, in turn. -/
theorem highlighted_spans_are_tokens {source : String} {stream : TokenStream}
    (h : tokenize source = .ok stream) (hcomment : Commentless source.toList)
    (hstar : (source.toList.dropWhile isBlank).head? ≠ some '*') :
    ∃ y : Layout, y.Valid ∧ y.text = source.toList ∧ y.stream = stream
      ∧ shownTexts (highlight source.toList) = y.pieces.map Piece.text := by
  obtain ⟨y, hlaid, htext, hstream⟩ := exists_layout h
  refine ⟨y, hlaid.valid, htext, hstream, ?_⟩
  rw [← htext] at hcomment hstar ⊢
  exact Highlighter.shownTexts_run_laidOut hlaid hcomment fun _ => hstar

/-- What looks like a comment inside a string is part of it, and a star behind a word is a token. -/
theorem spans_of_product_of_string :
    tokenize "a*\"/*\"" = .ok ⟨[⟨.identifier "a", ⟨1, 1⟩⟩, ⟨.symbol .star, ⟨1, 2⟩⟩,
        ⟨.string "/*", ⟨1, 3⟩⟩], ⟨1, 7⟩⟩
      ∧ Commentless "a*\"/*\"".toList
      ∧ ∃ y : Layout, y.Valid ∧ y.text = "a*\"/*\"".toList
        ∧ shownTexts (highlight "a*\"/*\"".toList) = y.pieces.map Piece.text := by
  have h : tokenize "a*\"/*\"" = .ok ⟨[⟨.identifier "a", ⟨1, 1⟩⟩, ⟨.symbol .star, ⟨1, 2⟩⟩,
      ⟨.string "/*", ⟨1, 3⟩⟩], ⟨1, 7⟩⟩ := by rfl
  have hcomment : Commentless "a*\"/*\"".toList := by decide +kernel
  obtain ⟨y, hvalid, htext, -, hshown⟩ := highlighted_spans_are_tokens h hcomment (by decide)
  exact ⟨h, hcomment, y, hvalid, htext, hshown⟩

end Jack
