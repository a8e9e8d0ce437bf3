import Jack.Proofs.Independence
import Jack.Proofs.Lexing

/-!
Texts that are joined by a line feed. A line feed ends whatever a text that can be read ends in, so
the lexer goes on behind it as at the start of a text, except that it is some lines further down.
-/

namespace Jack

/-- The place that is `n` lines further down, in the same column. -/
def Position.down (n : Nat) (p : Position) : Position := ⟨p.line + n, p.column⟩

/-- The stream of a text that goes on with the text of another stream. -/
def TokenStream.followedBy (stream next : TokenStream) : TokenStream :=
  ⟨stream.tokens ++ next.tokens, next.finish⟩

theorem Position.after_down (n : Nat) (p : Position) (c : Char) :
    (p.down n).after c = (p.after c).down n := by
  by_cases hfeed : c = '\n'
  · simp only [Position.after, Position.down, if_pos hfeed]
    rw [Nat.add_right_comm]
  · simp only [Position.after, Position.down, if_neg hfeed]

theorem TokenStream.founds_relocate (f : Position → Position) (stream : TokenStream) :
    (stream.relocate f).founds = stream.founds.map (Found.relocate f) := by
  simp [TokenStream.founds, TokenStream.relocate, Token.found, Token.relocate, Found.relocate]

/-- What is read of the first text without its end, and then all of the second one. -/
theorem TokenStream.founds_followedBy (stream next : TokenStream) :
    (stream.followedBy next).founds = stream.founds.dropLast ++ next.founds := by
  simp [TokenStream.founds, TokenStream.followedBy]

namespace Lexer

variable {n : Nat} {older : List Token} {here start p : Position} {c : Char}
  {reversed cs rest : List Char} {stream : TokenStream}

/-! ### The lexer further down -/

def Mode.down (n : Nat) : Mode → Mode
  | .gap => .gap
  | .slash start => .slash (start.down n)
  | .word start reversed => .word (start.down n) reversed
  | .string start reversed => .string (start.down n) reversed
  | .lineComment => .lineComment
  | .blockComment start starred => .blockComment (start.down n) starred

/-- The state in a text that begins `n` lines further down, behind the tokens of other lines. -/
def State.below (n : Nat) (older : List Token) (s : State) : State :=
  ⟨s.mode.down n, s.position.down n, s.tokens.map (Token.relocate (Position.down n)) ++ older⟩

/-- What is read further down: the same, or the same fault. -/
def lowered {α β : Type} (n : Nat) (g : α → β) : Except LexError α → Except LexError β
  | .ok a => .ok (g a)
  | .error e => .error (e.relocate (Position.down n))

theorem closeWord_down :
    closeWord (start.down n) reversed
      = lowered n (Token.relocate (Position.down n)) (closeWord start reversed) := by
  unfold closeWord
  cases Lexeme.ofWord? reversed.reverse <;> rfl

theorem closeString_down :
    closeString (start.down n) reversed
      = lowered n (Token.relocate (Position.down n)) (closeString start reversed) := by
  unfold closeString
  split <;> rfl

theorem enter_down (tokens : List Token) :
    enter (tokens.map (Token.relocate (Position.down n)) ++ older) (here.down n) c
      = lowered n (State.below n older) (enter tokens here c) := by
  unfold enter
  rw [Position.after_down]
  by_cases hblank : isBlank c = true
  · rw [if_pos hblank, if_pos hblank]
    rfl
  by_cases hquote : c = '"'
  · rw [if_neg hblank, if_neg hblank, if_pos hquote, if_pos hquote]
    rfl
  by_cases hslash : c = '/'
  · rw [if_neg hblank, if_neg hblank, if_neg hquote, if_neg hquote, if_pos hslash, if_pos hslash]
    rfl
  by_cases hword : isWordChar c = true
  · rw [if_neg hblank, if_neg hblank, if_neg hquote, if_neg hquote, if_neg hslash, if_neg hslash,
      if_pos hword, if_pos hword]
    rfl
  rw [if_neg hblank, if_neg hblank, if_neg hquote, if_neg hquote, if_neg hslash, if_neg hslash,
    if_neg hword, if_neg hword]
  cases Punctuation.ofChar? c <;> rfl

/-- One case for each part of a text that the character may be read in. -/
theorem State.read_below (s : State) :
    (s.below n older).read c = lowered n (State.below n older) (s.read c) := by
  obtain ⟨mode, here, tokens⟩ := s
  cases mode with
  | gap => exact enter_down tokens
  | slash start =>
    simp only [State.read, State.below, Mode.down, Position.after_down]
    by_cases hline : c = '/'
    · rw [if_pos hline, if_pos hline]
      rfl
    by_cases hblock : c = '*'
    · rw [if_neg hline, if_neg hline, if_pos hblock, if_pos hblock]
      rfl
    · rw [if_neg hline, if_neg hline, if_neg hblock, if_neg hblock]
      exact enter_down (⟨.symbol .slash, start⟩ :: tokens)
  | word start reversed =>
    simp only [State.read, State.below, Mode.down, Position.after_down]
    by_cases hword : isWordChar c = true
    · rw [if_pos hword, if_pos hword]
      rfl
    · rw [if_neg hword, if_neg hword, closeWord_down]
      cases closeWord start reversed with
      | ok t => exact enter_down (t :: tokens)
      | error e => rfl
  | string start reversed =>
    simp only [State.read, State.below, Mode.down, Position.after_down]
    by_cases hquote : c = '"'
    · rw [if_pos hquote, if_pos hquote, closeString_down]
      cases closeString start reversed <;> rfl
    by_cases hfeed : c = '\n'
    · rw [if_neg hquote, if_neg hquote, if_pos hfeed, if_pos hfeed]
      rfl
    · rw [if_neg hquote, if_neg hquote, if_neg hfeed, if_neg hfeed]
      rfl
  | lineComment =>
    simp only [State.read, State.below, Mode.down, Position.after_down, lowered]
    by_cases hfeed : c = '\n'
    · rw [if_pos hfeed]
    · rw [if_neg hfeed]
  | blockComment start starred =>
    simp only [State.read, State.below, Mode.down, Position.after_down]
    split <;> rfl

/-- The stream of a text that begins `n` lines further down, behind the tokens of other lines. -/
def streamBelow (n : Nat) (older : List Token) (next : TokenStream) : TokenStream :=
  (TokenStream.mk older.reverse .nowhere).followedBy (next.relocate (Position.down n))

theorem State.finish_below (s : State) :
    (s.below n older).finish = lowered n (streamBelow n older) s.finish := by
  obtain ⟨mode, here, tokens⟩ := s
  have hstream : (tokens : List Token) →
      Except.ok ⟨(tokens.map (Token.relocate (Position.down n)) ++ older).reverse, here.down n⟩
        = lowered n (streamBelow n older) (.ok ⟨tokens.reverse, here⟩) := by
    intro tokens
    rw [List.reverse_append, ← List.map_reverse]
    rfl
  cases mode with
  | gap | lineComment => exact hstream tokens
  | slash start => exact hstream (⟨.symbol .slash, start⟩ :: tokens)
  | word start reversed =>
    simp only [State.finish, State.below, Mode.down, closeWord_down]
    cases closeWord start reversed with
    | ok t => exact hstream (t :: tokens)
    | error e => rfl
  | string start reversed | blockComment start starred => rfl

theorem State.run_below (s : State) :
    (s.below n older).run cs = lowered n (streamBelow n older) (s.run cs) := by
  induction cs generalizing s with
  | nil => exact s.finish_below
  | cons c cs ih =>
    rw [State.run, State.run, State.read_below]
    cases s.read c with
    | ok t => exact ih t
    | error e => rfl

/-! ### The line feed between two texts -/

/-- A text that could end here can go on with a line. -/
theorem State.read_lineFeed {s : State} (h : s.finish = .ok stream) :
    s.read '\n' = .ok (gapAt (stream.finish.after '\n') stream.tokens.reverse) := by
  obtain ⟨mode, here, tokens⟩ := s
  cases mode with
  | gap | lineComment | slash start =>
    cases h
    rw [List.reverse_reverse]
    rfl
  | word start reversed =>
    simp only [State.finish] at h
    cases hclose : closeWord start reversed with
    | ok t =>
      rw [hclose] at h
      cases h
      simp only [State.read, hclose]
      rw [List.reverse_reverse]
      rfl
    | error e =>
      rw [hclose] at h
      cases h
  | string start reversed | blockComment start starred => cases h

theorem State.run_append_lineFeed {s : State} (h : s.run cs = .ok stream) :
    s.run (cs ++ '\n' :: rest)
      = (gapAt (stream.finish.after '\n') stream.tokens.reverse).run rest := by
  induction cs generalizing s with
  | nil => exact State.run_cons_of_ok (State.read_lineFeed h)
  | cons c cs ih =>
    obtain ⟨t, hread, hrun⟩ := State.exists_of_run_cons h
    rw [List.cons_append, State.run_cons_of_ok hread]
    exact ih hrun

end Lexer

variable {source : String} {stream : TokenStream}

theorem finish_of_tokenize (h : tokenize source = .ok stream) :
    stream.finish = placeAfter source.toList := by
  obtain ⟨y, -, htext, rfl⟩ := exists_layout h
  rw [← htext]
  rfl

/-- Where a place of a text is once the text stands behind another one and a line feed. -/
def placeBelow (source : String) : Position → Position :=
  Position.down (1 + source.toList.count '\n')

theorem tokenize_joined (h : tokenize source = .ok stream) (more : String) :
    tokenize (source ++ "\n" ++ more) = match tokenize more with
      | .ok next => .ok (stream.followedBy (next.relocate (placeBelow source)))
      | .error e => .error (e.relocate (placeBelow source)) := by
  have hstart : stream.finish.after '\n' = placeBelow source .start := by
    rw [finish_of_tokenize h]
    simp only [Position.after, placeAfter, placeBelow, Position.down, Position.start, if_true]
    rw [Nat.add_comm]
  have htext : (source ++ "\n" ++ more).toList = source.toList ++ '\n' :: more.toList := by
    simp
  rw [tokenize, htext, Lexer.State.run_append_lineFeed h, hstart]
  -- the lexer at the start of a text, further down
  change (Lexer.State.initial.below _ stream.tokens.reverse).run more.toList = _
  rw [Lexer.State.run_below, ← tokenize]
  cases tokenize more with
  | ok next =>
    simp only [Lexer.lowered, Lexer.streamBelow, TokenStream.followedBy, List.reverse_reverse]
    rfl
  | error e => rfl

/-- A text that can be read, a line feed and any text behind it: the tokens of the first text
without its end, and then what the second text is read as, with every line further down by one and
by the line feeds of the first text, and every column as it was. A fault of the second text is the
fault of both, further down in the same way. -/
theorem joined_text_reads_in_turn (h : tokenize source = .ok stream) (more : String) :
    let below := Position.down (1 + source.toList.count '\n')
    (∀ next, tokenize more = .ok next → ∃ whole,
      tokenize (source ++ "\n" ++ more) = .ok whole
        ∧ whole.founds = stream.founds.dropLast ++ next.founds.map (Found.relocate below))
      ∧ ∀ e, tokenize more = .error e →
        tokenize (source ++ "\n" ++ more) = .error (e.relocate below) := by
  intro below
  constructor
  · intro next hnext
    refine ⟨stream.followedBy (next.relocate below), ?_, ?_⟩
    · rw [tokenize_joined h, hnext]
      rfl
    · rw [TokenStream.founds_followedBy, TokenStream.founds_relocate]
  · intro e he
    rw [tokenize_joined h, he]
    rfl

theorem comment_ends_at_joint :
    ∃ whole, tokenize ("x\n// y" ++ "\n" ++ "/z") = .ok whole
      ∧ whole.founds = [⟨some (.identifier "x"), ⟨1, 1⟩⟩, ⟨some (.symbol .slash), ⟨3, 1⟩⟩,
          ⟨some (.identifier "z"), ⟨3, 2⟩⟩, ⟨none, ⟨3, 3⟩⟩] := by
  have h : tokenize "x\n// y" = .ok ⟨[⟨.identifier "x", ⟨1, 1⟩⟩], ⟨2, 5⟩⟩ := by rfl
  have hmore : tokenize "/z"
      = .ok ⟨[⟨.symbol .slash, ⟨1, 1⟩⟩, ⟨.identifier "z", ⟨1, 2⟩⟩], ⟨1, 3⟩⟩ := by rfl
  exact (joined_text_reads_in_turn h "/z").1 _ hmore

end Jack
