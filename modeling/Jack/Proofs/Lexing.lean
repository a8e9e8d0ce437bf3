import Jack.Proofs.Layout
import Mathlib.Data.List.TakeWhile

/-! The lexer reads a text as it is laid out, and every text that it reads is laid out. -/

namespace Jack

namespace Lexer

/-- Everything before the place is read. -/
def gapAt (p : Position) (ts : List Token) : State := ⟨.gap, p, ts⟩

variable {p start : Position} {ts : List Token} {cs rest : List Char} {c : Char}
  {reversed : List Char} {stream : TokenStream}

theorem State.run_cons_of_ok {s t : State} (h : s.read c = .ok t) :
    s.run (c :: rest) = t.run rest := by
  rw [State.run, h]

theorem State.exists_of_run_cons {s : State} (h : s.run (c :: rest) = .ok stream) :
    ∃ t, s.read c = .ok t ∧ t.run rest = .ok stream := by
  rw [State.run] at h
  split at h
  · rename_i t ht
    exact ⟨t, ht, h⟩
  · cases h

/-! ### Reading one part of a text -/

theorem run_blank (hc : isBlank c = true) :
    (gapAt p ts).run (c :: rest) = (gapAt (p.after c) ts).run rest := by
  apply State.run_cons_of_ok
  simp only [State.read, gapAt, enter, hc, if_true]

theorem run_lineComment {body : List Char} (hb : '\n' ∉ body) :
    State.run ⟨.lineComment, p, ts⟩ (body ++ rest)
      = State.run ⟨.lineComment, p.afterAll body, ts⟩ rest := by
  induction body generalizing p with
  | nil => rfl
  | cons c body ih =>
    rw [List.mem_cons, not_or] at hb
    have hread : State.read ⟨.lineComment, p, ts⟩ c = .ok ⟨.lineComment, p.after c, ts⟩ := by
      simp only [State.read, if_neg (Ne.symm hb.1)]
    rw [List.cons_append, State.run_cons_of_ok hread, ih hb.2]
    rfl

theorem run_openLineComment :
    (gapAt p ts).run ('/' :: '/' :: rest)
      = State.run ⟨.lineComment, p.afterAll ['/', '/'], ts⟩ rest := by
  rfl

theorem run_lineFeed :
    State.run ⟨.lineComment, p, ts⟩ ('\n' :: rest) = (gapAt (p.after '\n') ts).run rest := by
  rfl

/-- A block comment is read to its first end. After a star, no slash may follow. -/
theorem run_blockComment {body : List Char} (hb : ¬['*', '/'] <:+: body) {starred : Bool}
    (hstar : starred = true → body.head? ≠ some '/') :
    State.run ⟨.blockComment start starred, p, ts⟩ (body ++ '*' :: '/' :: rest)
      = (gapAt (p.afterAll (body ++ ['*', '/'])) ts).run rest := by
  induction body generalizing p starred with
  | nil => cases starred <;> rfl
  | cons c body ih =>
    have hread : State.read ⟨.blockComment start starred, p, ts⟩ c
        = .ok ⟨.blockComment start (c = '*'), p.after c, ts⟩ := by
      cases starred with
      | false => rfl
      | true =>
        have hc : c ≠ '/' := fun hc => hstar rfl (congrArg some hc)
        simp only [State.read, Bool.true_and, decide_eq_true_eq, if_neg hc]
    rw [List.cons_append, State.run_cons_of_ok hread, ih]
    · rfl
    · exact fun h => hb (h.trans (List.suffix_cons c body).isInfix)
    · intro hc hhead
      rw [decide_eq_true_eq] at hc
      obtain ⟨tail, rfl⟩ := List.head?_eq_some_iff.1 hhead
      exact hb ⟨[], tail, by rw [hc]; rfl⟩

theorem run_gap {gap : List Char} (h : IsGap gap) :
    (gapAt p ts).run (gap ++ rest) = (gapAt (p.afterAll gap) ts).run rest := by
  induction h generalizing p with
  | nil => rfl
  | blank hc h ih => rw [List.cons_append, run_blank hc, ih]; rfl
  | @lineComment body gap hb h ih =>
    calc (gapAt p ts).run ('/' :: '/' :: body ++ '\n' :: gap ++ rest)
        = State.run ⟨.lineComment, p.afterAll ['/', '/'], ts⟩ (body ++ '\n' :: (gap ++ rest)) := by
          rw [List.append_assoc]; rfl
      _ = (gapAt (((p.afterAll ['/', '/']).afterAll body).after '\n') ts).run (gap ++ rest) := by
          rw [run_lineComment hb, run_lineFeed]
      _ = (gapAt (p.afterAll ('/' :: '/' :: body ++ '\n' :: gap)) ts).run rest := by
          rw [ih, Position.afterAll_append]; rfl
  | @blockComment body gap hb h ih =>
    calc (gapAt p ts).run ('/' :: '*' :: body ++ '*' :: '/' :: gap ++ rest)
        = State.run ⟨.blockComment p false, p.afterAll ['/', '*'], ts⟩
            (body ++ '*' :: '/' :: (gap ++ rest)) := by
          rw [List.append_assoc]; rfl
      _ = (gapAt ((p.afterAll ['/', '*']).afterAll (body ++ ['*', '/'])) ts).run (gap ++ rest) :=
          run_blockComment hb nofun
      _ = (gapAt (p.afterAll ('/' :: '*' :: body ++ '*' :: '/' :: gap)) ts).run rest := by
          rw [ih, Position.afterAll_append, Position.afterAll_append]; rfl

theorem run_lastGap {gap : List Char} (h : IsLastGap gap) :
    (gapAt p ts).run gap = .ok ⟨ts.reverse, p.afterAll gap⟩ := by
  cases h with
  | gap h => rw [← List.append_nil gap, run_gap h, List.append_nil]; rfl
  | @comment gap body h hb =>
    rw [run_gap h, run_openLineComment, ← List.append_nil body, run_lineComment hb,
      List.append_nil, Position.afterAll_append]
    rfl

theorem run_word (hcs : ∀ c ∈ cs, isWordChar c = true) :
    State.run ⟨.word start reversed, p, ts⟩ (cs ++ rest)
      = State.run ⟨.word start (cs.reverse ++ reversed), p.afterAll cs, ts⟩ rest := by
  induction cs generalizing p reversed with
  | nil => rfl
  | cons c cs ih =>
    obtain ⟨hc, hcs⟩ := List.forall_mem_cons.1 hcs
    have hread : State.read ⟨.word start reversed, p, ts⟩ c
        = .ok ⟨.word start (c :: reversed), p.after c, ts⟩ := by
      simp only [State.read, hc, if_true]
    rw [List.cons_append, State.run_cons_of_ok hread, ih hcs, List.reverse_cons,
      List.append_assoc]
    rfl

/-- Where a word ends, the lexer goes on as if outside of it, unless the word is no token. -/
theorem run_endWord (hrest : EndWord rest) :
    State.run ⟨.word start reversed, p, ts⟩ rest
      = match closeWord start reversed with
        | .ok t => (gapAt p (t :: ts)).run rest
        | .error e => .error e := by
  cases rest with
  | nil => rfl
  | cons c rest =>
    have hc := hrest c rfl
    rw [State.run, State.read]
    simp only [hc, Bool.false_eq_true, if_false]
    cases closeWord start reversed <;> rfl

/-- A slash that begins no comment is a token. -/
theorem run_endSlash (hrest : ∀ c ∈ rest.head?, c ≠ '/' ∧ c ≠ '*') :
    State.run ⟨.slash start, p, ts⟩ rest
      = (gapAt p (⟨.symbol .slash, start⟩ :: ts)).run rest := by
  cases rest with
  | nil => rfl
  | cons c rest =>
    obtain ⟨hslash, hstar⟩ := hrest c rfl
    rw [State.run, State.read]
    simp only [if_neg hslash, if_neg hstar]
    rfl

theorem run_string (hcs : ∀ c ∈ cs, c ≠ '"' ∧ c ≠ '\n') :
    State.run ⟨.string start reversed, p, ts⟩ (cs ++ rest)
      = State.run ⟨.string start (cs.reverse ++ reversed), p.afterAll cs, ts⟩ rest := by
  induction cs generalizing p reversed with
  | nil => rfl
  | cons c cs ih =>
    obtain ⟨⟨hquote, hfeed⟩, hcs⟩ := List.forall_mem_cons.1 hcs
    have hread : State.read ⟨.string start reversed, p, ts⟩ c
        = .ok ⟨.string start (c :: reversed), p.after c, ts⟩ := by
      simp only [State.read, if_neg hquote, if_neg hfeed]
    rw [List.cons_append, State.run_cons_of_ok hread, ih hcs, List.reverse_cons,
      List.append_assoc]
    rfl

theorem run_openWord (hc : isWordChar c = true) :
    (gapAt p ts).run (c :: rest) = State.run ⟨.word p [c], p.after c, ts⟩ rest := by
  have hblank : isBlank c = false := isBlank_of_isWordChar hc
  have hquote : c ≠ '"' := by rintro rfl; cases hc
  have hslash : c ≠ '/' := by rintro rfl; cases hc
  apply State.run_cons_of_ok
  simp only [State.read, gapAt, enter, hblank, hquote, hslash, hc, Bool.false_eq_true, if_false,
    if_true]

theorem run_symbol {m : Punctuation} (hm : m ≠ .slash) :
    (gapAt p ts).run (m.char :: rest)
      = (gapAt (p.after m.char) (⟨.symbol m, p⟩ :: ts)).run rest := by
  apply State.run_cons_of_ok
  revert hm
  cases m <;> first | exact fun _ => rfl | exact fun hm => absurd rfl hm

/-! ### Reading a text that is laid out -/

theorem fitsConstants_iff {text : List Char} :
    fitsConstants text = true
      ↔ text.length ≤ largestInteger ∧ ∀ c ∈ text, c.toNat ≤ largestInteger := by
  simp only [fitsConstants, Bool.and_eq_true, decide_eq_true_eq, List.all_eq_true]

/-- The lexer reads a token as it is written, if what follows does not go on with it. -/
theorem run_text {l : Lexeme} (hv : l.Valid) (hw : l.WrittenAs cs) (hs : l.Stops rest) :
    (gapAt p ts).run (cs ++ rest) = (gapAt (p.afterAll cs) (⟨l, p⟩ :: ts)).run rest := by
  by_cases hword : l.IsWord
  · obtain ⟨hne, hall⟩ := hw.word hword hv
    obtain ⟨c, cs, rfl⟩ := List.exists_cons_of_ne_nil hne
    obtain ⟨hc, hcs⟩ := List.forall_mem_cons.1 hall
    have hclose : closeWord p (cs.reverse ++ [c]) = .ok ⟨l, p⟩ := by
      rw [closeWord, List.reverse_append, List.reverse_reverse, List.reverse_singleton,
        List.singleton_append, Lexeme.ofWord?_of_writtenAs hword hv hw]
    rw [List.cons_append, run_openWord hc, run_word hcs, run_endWord (hs.word hword), hclose]
    rfl
  · cases l with
    | symbol m =>
      obtain rfl := hw
      by_cases hm : m = .slash
      · subst hm
        exact run_endSlash (hs.slash rfl)
      · exact run_symbol hm
    | string text =>
      obtain rfl := hw
      obtain ⟨hlength, hchars⟩ := hv
      have hfits : fitsConstants text.toList = true :=
        fitsConstants_iff.2 ⟨hlength, fun c hc => (hchars c hc).1⟩
      have hclose : closeString p text.toList.reverse = .ok ⟨.string text, p⟩ := by
        rw [closeString, List.reverse_reverse, hfits, if_pos rfl, String.ofList_toList]
      calc (gapAt p ts).run ('"' :: text.toList ++ ['"'] ++ rest)
          = State.run ⟨.string p [], p.after '"', ts⟩ (text.toList ++ '"' :: rest) := by
            rw [List.append_assoc]; rfl
        _ = State.run ⟨.string p text.toList.reverse, (p.after '"').afterAll text.toList, ts⟩
              ('"' :: rest) := by
            rw [run_string fun c hc => (hchars c hc).2, List.append_nil]
        _ = (gapAt (((p.after '"').afterAll text.toList).after '"')
              (⟨.string text, p⟩ :: ts)).run rest := by
            apply State.run_cons_of_ok
            simp only [State.read, if_true, hclose]
            rfl
        _ = (gapAt (p.afterAll ('"' :: text.toList ++ ['"'])) (⟨.string text, p⟩ :: ts)).run
              rest := by
            rw [Position.afterAll_append]; rfl
    | keyword k | integer n | identifier name => exact absurd trivial hword

theorem run_laidOut {last before : List Char} {pieces : List Piece} (h : LaidOut last pieces) :
    (gapAt (placeAfter before) ts).run (charsOf pieces last)
      = .ok ⟨ts.reverse ++ tokensAfter before pieces,
          placeAfter (before ++ charsOf pieces last)⟩ := by
  induction pieces generalizing before ts with
  | nil => rw [charsOf_nil, run_lastGap h, placeAfter_append, tokensAfter, List.append_nil]
  | cons x xs ih =>
    obtain ⟨hg, hv, hw, hstops, htail⟩ := h
    rw [charsOf_cons, run_gap hg, ← placeAfter_append, run_text hv hw hstops, ← placeAfter_append,
      List.append_assoc, ← Piece.chars, ih htail]
    rw [List.reverse_cons, List.append_assoc, List.append_assoc]
    simp only [Piece.chars, List.append_assoc]
    rfl

/-! ### Taking a text that was read apart -/

/-- No end is in a body that is longer by one character, if none begins there. -/
theorem not_end_infix_cons {body : List Char} (hb : ¬['*', '/'] <:+: body)
    (hc : c = '*' → body.head? ≠ some '/') : ¬['*', '/'] <:+: c :: body := by
  intro h
  rcases List.infix_cons_iff.1 h with h | h
  · obtain ⟨hstar, tail, htail⟩ := List.cons_prefix_cons.1 h
    exact hc hstar.symm (by rw [← htail]; rfl)
  · exact hb h

/-- The body of a block comment that the lexer got past. A star that was read last may begin the
end. -/
theorem exists_of_run_blockComment {starred : Bool}
    (h : State.run ⟨.blockComment start starred, p, ts⟩ cs = .ok stream) :
    ∃ body rest q, (if starred then '*' :: cs else cs) = body ++ '*' :: '/' :: rest
      ∧ ¬['*', '/'] <:+: body ∧ (gapAt q ts).run rest = .ok stream := by
  induction cs generalizing p starred with
  | nil => cases h
  | cons c cs ih =>
    obtain ⟨t, ht, hrun⟩ := State.exists_of_run_cons h
    simp only [State.read] at ht
    split at ht
    · rename_i hend
      rw [Bool.and_eq_true, decide_eq_true_eq] at hend
      obtain ⟨rfl, rfl⟩ := hend
      cases ht
      exact ⟨[], cs, _, rfl, by simp, hrun⟩
    · rename_i hgoes
      cases ht
      obtain ⟨body, rest, q, hsplit, hb, hq⟩ := ih hrun
      have hbody : ∃ body, c :: cs = body ++ '*' :: '/' :: rest ∧ ¬['*', '/'] <:+: body := by
        by_cases hc : c = '*'
        · subst hc
          exact ⟨body, hsplit, hb⟩
        · rw [if_neg (by simpa using hc)] at hsplit
          exact ⟨c :: body, congrArg (c :: ·) hsplit, not_end_infix_cons hb (absurd · hc)⟩
      obtain ⟨body, hsplit, hb⟩ := hbody
      cases starred with
      | false => exact ⟨body, rest, q, hsplit, hb, hq⟩
      | true =>
        refine ⟨'*' :: body, rest, q, congrArg ('*' :: ·) hsplit, not_end_infix_cons hb ?_, hq⟩
        -- the character behind the star is no slash
        intro _ hhead
        obtain ⟨tail, rfl⟩ := List.head?_eq_some_iff.1 hhead
        exact hgoes (by rw [(List.cons.inj hsplit).1]; rfl)

/-- A line comment that the lexer got past ends with its line or with the text. -/
theorem exists_of_run_lineComment (h : State.run ⟨.lineComment, p, ts⟩ cs = .ok stream) :
    '\n' ∉ cs ∨ ∃ body rest q, cs = body ++ '\n' :: rest ∧ '\n' ∉ body
      ∧ (gapAt q ts).run rest = .ok stream := by
  by_cases hfeed : '\n' ∈ cs
  · obtain ⟨body, rest, rfl, hb⟩ := List.eq_append_cons_of_mem hfeed
    rw [run_lineComment hb, run_lineFeed] at h
    exact Or.inr ⟨body, rest, _, rfl, hb, h⟩
  · exact Or.inl hfeed

/-- A string that the lexer got past has a closing quote, and fits. -/
theorem exists_of_run_string
    (h : State.run ⟨.string start reversed, p, ts⟩ cs = .ok stream) :
    ∃ body rest q t, cs = body ++ '"' :: rest ∧ (∀ c ∈ body, c ≠ '"' ∧ c ≠ '\n')
      ∧ fitsConstants (reversed.reverse ++ body) = true
      ∧ (gapAt q (t :: ts)).run rest = .ok stream := by
  induction cs generalizing p reversed with
  | nil => cases h
  | cons c cs ih =>
    obtain ⟨s, hs, hrun⟩ := State.exists_of_run_cons h
    simp only [State.read] at hs
    split at hs
    · rename_i hc
      subst hc
      split at hs
      · rename_i t ht
        cases hs
        unfold closeString at ht
        split at ht
        · rename_i hfits
          exact ⟨[], cs, _, t, rfl, by simp, by rwa [List.append_nil], hrun⟩
        · cases ht
      · cases hs
    · rename_i hquote
      split at hs
      · cases hs
      · rename_i hfeed
        cases hs
        obtain ⟨body, rest, q, t, rfl, hb, hfits, hq⟩ := ih hrun
        refine ⟨c :: body, rest, q, t, rfl, List.forall_mem_cons.2 ⟨⟨hquote, hfeed⟩, hb⟩, ?_, hq⟩
        rwa [List.reverse_cons, List.append_assoc] at hfits

/-- Every text of at most `n` characters that is read to the end of the stream is laid out. -/
def LaysOut (stream : TokenStream) (n : Nat) : Prop :=
  ∀ cs p ts, (gapAt p ts).run cs = .ok stream → cs.length ≤ n → HasLayout cs

theorem hasLayout_of_run_string (ih : LaysOut stream cs.length)
    (h : State.run ⟨.string start [], p, ts⟩ cs = .ok stream) : HasLayout ('"' :: cs) := by
  obtain ⟨body, rest, q, t, rfl, hb, hfits, hq⟩ := exists_of_run_string h
  have hrest : HasLayout rest := ih _ _ _ hq (by simp; omega)
  obtain ⟨hlength, hcodes⟩ := fitsConstants_iff.1 hfits
  have hv : (Lexeme.string (String.ofList body)).Valid := by
    refine ⟨by rwa [String.length_ofList], fun c hc => ?_⟩
    rw [String.toList_ofList] at hc
    exact ⟨hcodes c hc, hb c hc⟩
  have hw : (Lexeme.string (String.ofList body)).WrittenAs ('"' :: body ++ ['"']) := by
    rw [Lexeme.WrittenAs, String.toList_ofList]
  have hlaid := hw.hasLayout hv ⟨(absurd · id), fun hslash => by cases hslash⟩ hrest
  rwa [List.append_assoc] at hlaid

theorem hasLayout_of_run_slash (ih : LaysOut stream cs.length)
    (h : State.run ⟨.slash start, p, ts⟩ cs = .ok stream) : HasLayout ('/' :: cs) := by
  by_cases hnext : ∀ c ∈ cs.head?, c ≠ '/' ∧ c ≠ '*'
  · rw [run_endSlash hnext] at h
    have hw : (Lexeme.symbol .slash).WrittenAs ['/'] := rfl
    exact hw.hasLayout trivial ⟨(absurd · id), fun _ => hnext⟩ (ih _ _ _ h (Nat.le_refl _))
  · -- the two characters open a comment
    cases cs with
    | nil => exact absurd (by simp) hnext
    | cons d ds =>
      obtain ⟨t, ht, hrun⟩ := State.exists_of_run_cons h
      by_cases hslash : d = '/'
      · subst hslash
        cases ht
        rcases exists_of_run_lineComment hrun with hb | ⟨body, rest, q, rfl, hb, hq⟩
        · exact .lineComment hb
        · have hlaid := HasLayout.gap (.lineComment hb .nil) (ih _ _ _ hq (by simp; omega))
          rwa [List.append_assoc] at hlaid
      · obtain rfl : d = '*' := by
          by_contra hstar
          exact hnext fun c hc => Option.some.inj hc ▸ ⟨hslash, hstar⟩
        cases ht
        obtain ⟨body, rest, q, hsplit, hb, hq⟩ := exists_of_run_blockComment hrun
        obtain rfl : ds = body ++ '*' :: '/' :: rest := hsplit
        have hlaid := HasLayout.gap (.blockComment hb .nil) (ih _ _ _ hq (by simp; omega))
        rwa [List.append_assoc] at hlaid

theorem hasLayout_of_run_word (ih : LaysOut stream cs.length) (hc : isWordChar c = true)
    (h : State.run ⟨.word start [c], p, ts⟩ cs = .ok stream) : HasLayout (c :: cs) := by
  obtain ⟨word, rest, rfl, hword, hend⟩ :
      ∃ word rest, cs = word ++ rest ∧ (∀ d ∈ word, isWordChar d = true) ∧ EndWord rest := by
    refine ⟨cs.takeWhile isWordChar, cs.dropWhile isWordChar,
      List.takeWhile_append_dropWhile.symm, fun d => List.mem_takeWhile_imp, fun d hd => ?_⟩
    have hhead := List.head?_dropWhile_not isWordChar cs
    rw [Option.mem_def.1 hd] at hhead
    exact hhead
  rw [run_word hword, run_endWord hend] at h
  split at h
  · rename_i t ht
    unfold closeWord at ht
    split at ht
    · rename_i l hl
      rw [List.reverse_append, List.reverse_reverse] at hl
      obtain ⟨hlword, hv, hw⟩ := Lexeme.writtenAs_of_ofWord? (List.cons_ne_nil c word)
        (List.forall_mem_cons.2 ⟨hc, hword⟩) hl
      have hslash : l ≠ .symbol .slash := by rintro rfl; exact hlword
      exact hw.hasLayout hv ⟨fun _ => hend, (absurd · hslash)⟩ (ih _ _ _ h (by simp))
    · cases ht
  · cases h

/-- Every text that the lexer reads is laid out. -/
theorem hasLayout_of_run (h : (gapAt p ts).run cs = .ok stream) : HasLayout cs := by
  induction hn : cs.length using Nat.strong_induction_on generalizing cs p ts with
  | _ n ih =>
    subst hn
    cases cs with
    | nil => exact .nil
    | cons c cs =>
      have hrest : LaysOut stream cs.length := fun rest q us hrun hlt =>
        ih _ (Nat.lt_succ_of_le hlt) hrun rfl
      obtain ⟨t, ht, hrun⟩ := State.exists_of_run_cons h
      simp only [State.read, gapAt, enter] at ht
      split at ht
      · rename_i hblank
        cases ht
        exact .gap (.blank hblank .nil) (hrest _ _ _ hrun (Nat.le_refl _))
      split at ht
      · rename_i hquote
        cases ht
        exact hquote ▸ hasLayout_of_run_string hrest hrun
      split at ht
      · rename_i hslash
        cases ht
        exact hslash ▸ hasLayout_of_run_slash hrest hrun
      rename_i hslash
      split at ht
      · rename_i hword
        cases ht
        exact hasLayout_of_run_word hrest hword hrun
      split at ht
      · rename_i m hm
        cases ht
        obtain rfl := Punctuation.ofChar?_eq_some_iff.1 hm
        have hw : (Lexeme.symbol m).WrittenAs [m.char] := rfl
        have hm : Lexeme.symbol m ≠ .symbol .slash := by
          rintro ⟨⟩
          exact hslash rfl
        exact hw.hasLayout trivial ⟨(absurd · id), (absurd · hm)⟩
          (hrest _ _ _ hrun (Nat.le_refl _))
      · cases ht

end Lexer

theorem tokenize_text {y : Layout} (h : y.Valid) :
    tokenize (String.ofList y.text) = .ok y.stream := by
  have hrun : (Lexer.gapAt (placeAfter []) []).run y.text = .ok y.stream :=
    Lexer.run_laidOut h.laidOut
  rw [tokenize, String.toList_ofList]
  exact hrun

theorem exists_layout {source : String} {stream : TokenStream}
    (h : tokenize source = .ok stream) :
    ∃ y : Layout, LaidOut y.last y.pieces ∧ y.text = source.toList ∧ y.stream = stream := by
  obtain ⟨pieces, last, hlaid, htext⟩ := Lexer.hasLayout_of_run h
  refine ⟨⟨pieces, last⟩, hlaid, htext, ?_⟩
  have hread := tokenize_text hlaid.valid
  rw [Layout.text, htext, String.ofList_toList, h] at hread
  exact (Except.ok.inj hread).symm

/-- A text on which the lexer succeeds is gaps and the texts of its tokens in turn. No character is
lost, no word is cut, and every token stands at the place of its first character. -/
theorem tokens_lay_out_text {source : String} {stream : TokenStream}
    (h : tokenize source = .ok stream) :
    ∃ y : Layout, y.Valid ∧ y.text = source.toList ∧ y.stream = stream ∧ y.Maximal := by
  obtain ⟨y, hlaid, htext, hstream⟩ := exists_layout h
  exact ⟨y, hlaid.valid, htext, hstream, hlaid.maximal⟩

theorem comments_lay_out_division :
    ∃ y : Layout, y.Valid ∧ y.text = "/***/x/007//\n \"//\"//".toList
      ∧ y.stream = ⟨[⟨.identifier "x", ⟨1, 6⟩⟩, ⟨.symbol .slash, ⟨1, 7⟩⟩, ⟨.integer 7, ⟨1, 8⟩⟩,
          ⟨.string "//", ⟨2, 2⟩⟩], ⟨2, 8⟩⟩
      ∧ y.Maximal := by
  have h : tokenize "/***/x/007//\n \"//\"//" = .ok ⟨[⟨.identifier "x", ⟨1, 6⟩⟩,
      ⟨.symbol .slash, ⟨1, 7⟩⟩, ⟨.integer 7, ⟨1, 8⟩⟩, ⟨.string "//", ⟨2, 2⟩⟩], ⟨2, 8⟩⟩ := by rfl
  exact tokens_lay_out_text h

theorem valid_of_tokenize {source : String} {stream : TokenStream}
    (h : tokenize source = .ok stream) : ∀ l ∈ stream.tokens.map Token.lexeme, l.Valid := by
  obtain ⟨y, hlaid, -, rfl⟩ := exists_layout h
  intro l hl
  have hlexemes : y.stream.tokens.map Token.lexeme = y.pieces.map Piece.lexeme :=
    lexeme_tokensAfter [] y.pieces
  rw [hlexemes] at hl
  obtain ⟨x, hx, rfl⟩ := List.mem_map.1 hl
  exact (hlaid.valid.tokens x hx).1

/-- Tokens that can be written are read back, whatever stands in the gaps around them. -/
theorem layout_tokenizes {y : Layout} (h : y.Valid) :
    ∃ stream, tokenize (String.ofList y.text) = .ok stream
      ∧ stream.founds.map Found.lexeme? = y.pieces.map (fun x => some x.lexeme) ++ [none] := by
  refine ⟨y.stream, tokenize_text h, ?_⟩
  have htokens : y.stream.tokens.map Token.lexeme = y.pieces.map Piece.lexeme :=
    lexeme_tokensAfter [] y.pieces
  calc y.stream.founds.map Found.lexeme?
      = (y.stream.tokens.map Token.lexeme).map some ++ [none] := by
        simp [TokenStream.founds, Token.found]
    _ = y.pieces.map (fun x => some x.lexeme) ++ [none] := by
        rw [htokens, List.map_map]; rfl

theorem comments_part_words :
    ∃ y : Layout, y.Valid ∧ y.text = "do/**/007//z\n-\"//\"".toList
      ∧ ∃ stream, tokenize (String.ofList y.text) = .ok stream
        ∧ stream.founds.map Found.lexeme? = [some (.keyword .do_), some (.integer 7),
            some (.symbol .minus), some (.string "//"), none] := by
  have hblock : IsGap ['/', '*', '*', '/'] := @IsGap.blockComment [] [] (by simp) .nil
  have hline : IsGap ['/', '/', 'z', '\n'] := @IsGap.lineComment ['z'] [] (by decide) .nil
  have hlaid : LaidOut [] [⟨[], ['d', 'o'], .keyword .do_⟩,
      ⟨['/', '*', '*', '/'], ['0', '0', '7'], .integer 7⟩,
      ⟨['/', '/', 'z', '\n'], ['-'], .symbol .minus⟩,
      ⟨[], ['"', '/', '/', '"'], .string "//"⟩] := by
    have hslash : ∀ c ∈ ['/', '/'], c.toNat ≤ 0x7FFF ∧ c ≠ '"' ∧ c ≠ '\n' := by
      intro c hc
      obtain rfl : c = '/' := by simpa using hc
      decide
    refine ⟨.nil, trivial, rfl, ⟨fun _ c hc => ?_, nofun⟩, hblock, Nat.le_of_ble_eq_true rfl,
      ⟨2, rfl⟩, ⟨fun _ c hc => ?_, nofun⟩, hline, trivial, rfl, ⟨(absurd · id), nofun⟩, .nil,
      ⟨Nat.le_of_ble_eq_true rfl, hslash⟩, rfl, ⟨(absurd · id), nofun⟩, .gap .nil⟩
    · cases hc; rfl
    · cases hc; rfl
  exact ⟨_, hlaid.valid, rfl, layout_tokenizes hlaid.valid⟩

end Jack
