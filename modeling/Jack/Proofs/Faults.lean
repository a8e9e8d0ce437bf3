import Jack.Proofs.Lexing

/-!
The faults of a text. A fault stands at the first place from which the text cannot be read: what
comes before it can, its lexeme stands there, and the lexeme has what the fault says.
-/

namespace Jack

/-! ### What cannot be read -/

/-- The text can be read as tokens. -/
def Readable (text : List Char) : Prop := ∃ stream, tokenize (String.ofList text) = .ok stream

/-- A word from its first character to its last. -/
structure IsWholeWord (before word after : List Char) : Prop where
  ne_nil : word ≠ []
  chars : ∀ c ∈ word, isWordChar c = true
  left : ∀ c ∈ before.getLast?, isWordChar c = false
  right : ∀ c ∈ after.head?, isWordChar c = false

/-- The lexeme stands between these characters and is no token: a character that begins none, a
number that is too large, a digit that leads other characters of words, a string that does not fit
the machine, one that its line or the text leaves open, or a comment that is left open. -/
inductive Unreadable (before after : List Char) : LexFault → List Char → Prop
  | character {c : Char} (hblank : isBlank c = false) (hquote : c ≠ '"')
    (hword : isWordChar c = false) (hmark : ∀ m : Punctuation, m.char ≠ c) :
    Unreadable before after .invalidToken [c]
  | number {word : List Char} (hword : IsWholeWord before word after)
    (hdigits : ∀ c ∈ word, c.isDigit = true) (hlarge : 32767 < Nat.ofDigitChars 10 word 0) :
    Unreadable before after .invalidToken word
  | mixed {word : List Char} (hword : IsWholeWord before word after)
    (hdigit : ∃ d ∈ word.head?, d.isDigit = true) (hother : ∃ c ∈ word, c.isDigit = false) :
    Unreadable before after .invalidToken word
  | string {body : List Char} (hbody : ∀ c ∈ body, c ≠ '"' ∧ c ≠ '\n')
    (hsize : 32767 < body.length ∨ ∃ c ∈ body, 0x7FFF < c.toNat) :
    Unreadable before after .invalidToken ('"' :: body ++ ['"'])
  | openString {body : List Char} (hbody : ∀ c ∈ body, c ≠ '"' ∧ c ≠ '\n')
    (hend : ∀ c ∈ after.head?, c = '\n') :
    Unreadable before after .unterminatedString ('"' :: body)
  | openComment (hopen : ¬['*', '/'] <:+: after) :
    Unreadable before after .unterminatedComment ['/', '*']

/-- The place is that of the character behind a text that can be read. -/
structure Begins (before : List Char) (p : Position) : Prop where
  place : placeAfter before = p
  readable : Readable before

/-- The fault is about the first characters of the text that cannot be read. -/
def Explains (e : LexError) (text : List Char) : Prop :=
  ∃ before after, text = before ++ e.lexeme.toList ++ after ∧ Begins before e.position
    ∧ Unreadable before after e.fault e.lexeme.toList

theorem ne_lineFeed_of_not_isBlank {c : Char} (h : isBlank c = false) : c ≠ '\n' := by
  rintro rfl
  exact absurd h (by decide)

/-- A lexeme that cannot be read has a first character. -/
theorem Unreadable.exists_cons {before after lexeme : List Char} {fault : LexFault}
    (h : Unreadable before after fault lexeme) : ∃ c cs, lexeme = c :: cs ∧ c ≠ '\n' := by
  cases h with
  | character hblank hquote hword hmark => exact ⟨_, _, rfl, ne_lineFeed_of_not_isBlank hblank⟩
  | number hword | mixed hword =>
    obtain ⟨c, cs, rfl⟩ := List.exists_cons_of_ne_nil hword.ne_nil
    exact ⟨c, cs, rfl, ne_lineFeed_of_not_isBlank
      (isBlank_of_isWordChar (hword.chars c List.mem_cons_self))⟩
  | string | openString | openComment => exact ⟨_, _, rfl, by decide⟩

/-- A word that is no token is a number that is too large, or a digit leads it. -/
theorem Unreadable.of_ofWord? {before word after : List Char}
    (hword : IsWholeWord before word after) (h : Lexeme.ofWord? word = none) :
    Unreadable before after .invalidToken word := by
  unfold Lexeme.ofWord? at h
  split at h
  · cases h
  · split at h
    · rename_i hdigits
      split at h
      · cases h
      · rename_i hlarge
        rw [cappedValue_eq] at hlarge
        refine .number hword (List.all_eq_true.1 hdigits) ?_
        have hlargest : largestInteger = 32767 := rfl
        omega
    · rename_i hother
      split at h
      · rename_i hhead
        obtain ⟨d, cs, rfl⟩ := List.exists_cons_of_ne_nil hword.ne_nil
        have hd : d.isDigit = true := by simpa using hhead
        exact .mixed hword ⟨d, rfl, hd⟩ (by simpa [hd] using hother)
      · cases h

namespace Lexer

variable {s t : State} {e : LexError} {c : Char} {cs before front after : List Char}
  {here start : Position} {tokens : List Token} {reversed : List Char}

/-! ### What has been read -/

/-- The lexer is in the state once it has read the characters. -/
structure State.Reads (s : State) (before : List Char) : Prop where
  run : ∀ rest, State.initial.run (before ++ rest) = s.run rest
  place : placeAfter before = s.position

/-- What the characters read last belong to, and where that begins. -/
def Mode.Follows (before : List Char) : Mode → Prop
  | .gap => ∀ c ∈ before.getLast?, isWordChar c = false
  | .slash start => ∃ front, before = front ++ ['/'] ∧ Begins front start
  | .word start reversed => ∃ front, before = front ++ reversed.reverse ∧ Begins front start
    ∧ reversed ≠ [] ∧ (∀ c ∈ reversed, isWordChar c = true)
    ∧ ∀ c ∈ front.getLast?, isWordChar c = false
  | .string start reversed => ∃ front, before = front ++ '"' :: reversed.reverse
    ∧ Begins front start ∧ ∀ c ∈ reversed, c ≠ '"' ∧ c ≠ '\n'
  | .lineComment => True
  | .blockComment start starred => ∃ front body, before = front ++ '/' :: '*' :: body
    ∧ Begins front start ∧ ¬['*', '/'] <:+: body ∧ (starred = false → body.getLast? ≠ some '*')

theorem position_enter (h : enter tokens here c = .ok s) : s.position = here.after c := by
  unfold enter at h
  repeat' split at h
  all_goals cases h
  all_goals rfl

theorem position_read (h : s.read c = .ok t) : t.position = s.position.after c := by
  unfold State.read at h
  repeat' split at h
  all_goals first | exact position_enter h | cases h
  all_goals rfl

namespace State.Reads

theorem initial : State.initial.Reads [] := ⟨fun _ => rfl, rfl⟩

theorem read (h : s.Reads before) (hread : s.read c = .ok t) : t.Reads (before ++ [c]) := by
  refine ⟨fun rest => ?_, ?_⟩
  · rw [List.append_assoc, List.singleton_append, h.run, State.run, hread]
  · rw [position_read hread, ← h.place, placeAfter_append]
    rfl

/-- Where the text could end, it can be read. -/
theorem begins (h : s.Reads before) {stream : TokenStream} (hfinish : s.finish = .ok stream) :
    Begins before s.position := by
  refine ⟨h.place, stream, ?_⟩
  have hrun := h.run []
  rw [List.append_nil] at hrun
  rw [tokenize, String.toList_ofList]
  exact hrun.trans hfinish

end State.Reads

/-! ### Faults in one part of a text -/

theorem explains_closeWord (hclose : closeWord start reversed = .error e)
    (hbegins : Begins front start) (hne : reversed ≠ [])
    (hchars : ∀ c ∈ reversed, isWordChar c = true)
    (hleft : ∀ c ∈ front.getLast?, isWordChar c = false) (hright : EndWord after) :
    Explains e (front ++ reversed.reverse ++ after) := by
  have hword : IsWholeWord front reversed.reverse after :=
    ⟨by simpa using hne, fun c hc => hchars c (List.mem_reverse.1 hc), hleft, hright⟩
  unfold closeWord at hclose
  split at hclose
  · cases hclose
  · rename_i hnone
    cases hclose
    refine ⟨front, after, ?_, hbegins, ?_⟩
    · rw [String.toList_ofList]
    · rw [String.toList_ofList]
      exact .of_ofWord? hword hnone

theorem explains_closeString (hclose : closeString start reversed = .error e)
    (hbegins : Begins front start) (hbody : ∀ c ∈ reversed, c ≠ '"' ∧ c ≠ '\n') :
    Explains e (front ++ ('"' :: reversed.reverse ++ ['"']) ++ after) := by
  unfold closeString at hclose
  split at hclose
  · cases hclose
  · rename_i hfits
    cases hclose
    refine ⟨front, after, ?_, hbegins, ?_⟩
    · rw [String.toList_ofList]
    · rw [String.toList_ofList]
      refine .string (fun c hc => hbody c (List.mem_reverse.1 hc)) ?_
      rw [fitsConstants_iff, not_and_or] at hfits
      exact hfits.imp Nat.lt_of_not_le fun h => by simpa [largestInteger] using h

theorem explains_openString (hbegins : Begins front start)
    (hbody : ∀ c ∈ reversed, c ≠ '"' ∧ c ≠ '\n') (hend : ∀ c ∈ after.head?, c = '\n') :
    Explains (openString start reversed) (front ++ '"' :: reversed.reverse ++ after) := by
  refine ⟨front, after, ?_, hbegins, ?_⟩
  · rw [openString, String.toList_ofList]
  · rw [openString, String.toList_ofList]
    exact .openString (fun c hc => hbody c (List.mem_reverse.1 hc)) hend

/-! ### One character more -/

/-- What reading a character comes to: what the characters belong to then, or a fault that they
explain. -/
def Accounted (before : List Char) (c : Char) : Except LexError State → Prop
  | .ok t => t.mode.Follows (before ++ [c])
  | .error e => ∀ rest, Explains e (before ++ c :: rest)

theorem follows_gap (h : isWordChar c = false) : Mode.gap.Follows (before ++ [c]) := by
  intro d hd
  rw [List.getLast?_concat] at hd
  obtain rfl := Option.some.inj hd
  exact h

/-- A character that stands outside of everything, behind a text that can be read. -/
theorem accounted_enter (hbegins : Begins before here)
    (hleft : isWordChar c = true → ∀ d ∈ before.getLast?, isWordChar d = false) :
    Accounted before c (enter tokens here c) := by
  unfold enter
  by_cases hblank : isBlank c = true
  · rw [if_pos hblank]
    exact follows_gap (isWordChar_of_isBlank hblank)
  by_cases hquote : c = '"'
  · rw [if_neg hblank, if_pos hquote, hquote]
    exact ⟨before, rfl, hbegins, by simp⟩
  by_cases hslash : c = '/'
  · rw [if_neg hblank, if_neg hquote, if_pos hslash, hslash]
    exact ⟨before, rfl, hbegins⟩
  by_cases hword : isWordChar c = true
  · rw [if_neg hblank, if_neg hquote, if_neg hslash, if_pos hword]
    exact ⟨before, rfl, hbegins, List.cons_ne_nil _ _, by simpa using hword, hleft hword⟩
  rw [if_neg hblank, if_neg hquote, if_neg hslash, if_neg hword]
  rw [Bool.not_eq_true] at hblank hword
  cases hmark : Punctuation.ofChar? c with
  | some m => exact follows_gap hword
  | none =>
    intro rest
    have hnone : ∀ m : Punctuation, m.char ≠ c := by
      intro m hm
      rw [Punctuation.ofChar?_eq_some_iff.2 hm] at hmark
      cases hmark
    have hlexeme : c.toString.toList = [c] := by simp
    refine ⟨before, rest, ?_, hbegins, ?_⟩
    · rw [hlexeme, List.append_assoc]
      rfl
    · rw [hlexeme]
      exact .character hblank hquote hword hnone

/-- An end that a body of a comment has with one character more ends there. -/
theorem end_infix_concat {body : List Char} (h : ['*', '/'] <:+: body ++ [c]) :
    ['*', '/'] <:+: body ∨ body.getLast? = some '*' ∧ c = '/' := by
  rcases List.infix_concat_iff.1 h with hend | hinside
  · obtain ⟨front, hfront⟩ := hend
    have hsplit : (front ++ ['*']) ++ ['/'] = body ++ [c] := by
      rw [← hfront, List.append_assoc]
      rfl
    obtain ⟨rfl, hc⟩ := List.append_inj' hsplit rfl
    exact Or.inr ⟨List.getLast?_concat, (List.cons.inj hc).1.symm⟩
  · exact Or.inl hinside

theorem accounted_slash (hreads : (⟨.slash start, here, tokens⟩ : State).Reads before)
    (hfollows : (Mode.slash start).Follows before) :
    Accounted before c (State.read ⟨.slash start, here, tokens⟩ c) := by
  obtain ⟨front, rfl, hbegins⟩ := hfollows
  simp only [State.read]
  by_cases hline : c = '/'
  · rw [if_pos hline]
    trivial
  by_cases hblock : c = '*'
  · rw [if_neg hline, if_pos hblock, hblock]
    exact ⟨front, [], by rw [List.append_assoc]; rfl, hbegins, by simp, by simp⟩
  · -- the slash is a token, so the text up to here can be read
    rw [if_neg hline, if_neg hblock]
    refine accounted_enter (hreads.begins rfl) fun _ d hd => ?_
    rw [List.getLast?_concat] at hd
    obtain rfl := Option.some.inj hd
    rfl

theorem accounted_word (hreads : (⟨.word start reversed, here, tokens⟩ : State).Reads before)
    (hfollows : (Mode.word start reversed).Follows before) :
    Accounted before c (State.read ⟨.word start reversed, here, tokens⟩ c) := by
  obtain ⟨front, rfl, hbegins, hne, hchars, hleft⟩ := hfollows
  simp only [State.read]
  by_cases hword : isWordChar c = true
  · rw [if_pos hword]
    refine ⟨front, ?_, hbegins, List.cons_ne_nil _ _, List.forall_mem_cons.2 ⟨hword, hchars⟩, hleft⟩
    rw [List.reverse_cons, List.append_assoc]
  · rw [if_neg hword]
    rw [Bool.not_eq_true] at hword
    cases hclose : closeWord start reversed with
    | ok t =>
      have hfinish : State.finish ⟨.word start reversed, here, tokens⟩
          = .ok ⟨(t :: tokens).reverse, here⟩ := by
        simp only [State.finish, hclose]
      exact accounted_enter (hreads.begins hfinish) fun hc => absurd hc (by simp [hword])
    | error e =>
      intro rest
      refine explains_closeWord hclose hbegins hne hchars hleft fun d hd => ?_
      obtain rfl := Option.some.inj hd
      exact hword

theorem accounted_string (hfollows : (Mode.string start reversed).Follows before) :
    Accounted before c (State.read ⟨.string start reversed, here, tokens⟩ c) := by
  obtain ⟨front, rfl, hbegins, hbody⟩ := hfollows
  simp only [State.read]
  by_cases hquote : c = '"'
  · rw [if_pos hquote, hquote]
    cases hclose : closeString start reversed with
    | ok t => exact follows_gap rfl
    | error e =>
      intro rest
      have hexplains : Explains e (front ++ ('"' :: reversed.reverse ++ ['"']) ++ rest) :=
        explains_closeString hclose hbegins hbody
      simpa only [List.append_assoc, List.cons_append, List.nil_append] using hexplains
  by_cases hfeed : c = '\n'
  · rw [if_neg hquote, if_pos hfeed, hfeed]
    intro rest
    exact explains_openString hbegins hbody fun d hd => (Option.some.inj hd).symm
  · rw [if_neg hquote, if_neg hfeed]
    refine ⟨front, ?_, hbegins, List.forall_mem_cons.2 ⟨⟨hquote, hfeed⟩, hbody⟩⟩
    rw [List.reverse_cons, List.append_assoc]
    rfl

theorem accounted_blockComment {starred : Bool}
    (hfollows : (Mode.blockComment start starred).Follows before) :
    Accounted before c (State.read ⟨.blockComment start starred, here, tokens⟩ c) := by
  obtain ⟨front, body, rfl, hbegins, hopen, hstarred⟩ := hfollows
  simp only [State.read]
  split
  · rename_i hend
    rw [Bool.and_eq_true, decide_eq_true_eq] at hend
    rw [hend.2]
    exact follows_gap rfl
  · rename_i hgoes
    refine ⟨front, body ++ [c], by simp, hbegins, fun hinfix => ?_, fun hc => ?_⟩
    · -- a star and a slash behind each other would have ended the comment
      rcases end_infix_concat hinfix with hinside | ⟨hstar, rfl⟩
      · exact hopen hinside
      · cases starred with
        | false => exact hstarred rfl hstar
        | true => exact hgoes rfl
    · rw [List.getLast?_concat]
      simpa using hc

theorem accounted_read (hreads : s.Reads before) (hfollows : s.mode.Follows before) :
    Accounted before c (s.read c) := by
  obtain ⟨mode, here, tokens⟩ := s
  cases mode with
  | gap => exact accounted_enter (hreads.begins rfl) fun _ => hfollows
  | slash start => exact accounted_slash hreads hfollows
  | word start reversed => exact accounted_word hreads hfollows
  | string start reversed => exact accounted_string hfollows
  | lineComment =>
    simp only [State.read]
    by_cases hfeed : c = '\n'
    · rw [hfeed]
      exact follows_gap rfl
    · rw [if_neg hfeed]
      trivial
  | blockComment start starred => exact accounted_blockComment hfollows

/-! ### The whole text -/

theorem explains_finish (hfollows : s.mode.Follows before) (h : s.finish = .error e) :
    Explains e before := by
  obtain ⟨mode, here, tokens⟩ := s
  cases mode with
  | gap | lineComment | slash start => cases h
  | word start reversed =>
    obtain ⟨front, rfl, hbegins, hne, hchars, hleft⟩ := hfollows
    simp only [State.finish] at h
    cases hclose : closeWord start reversed with
    | ok t =>
      rw [hclose] at h
      cases h
    | error fault =>
      rw [hclose] at h
      cases h
      rw [← List.append_nil (front ++ reversed.reverse)]
      exact explains_closeWord hclose hbegins hne hchars hleft nofun
  | string start reversed =>
    obtain ⟨front, rfl, hbegins, hbody⟩ := hfollows
    cases h
    rw [← List.append_nil (front ++ '"' :: reversed.reverse)]
    exact explains_openString hbegins hbody nofun
  | blockComment start starred =>
    obtain ⟨front, body, rfl, hbegins, hopen, -⟩ := hfollows
    cases h
    have hlexeme : "/*".toList = ['/', '*'] := rfl
    refine ⟨front, body, ?_, hbegins, ?_⟩
    · rw [hlexeme, List.append_assoc]
      rfl
    · rw [hlexeme]
      exact .openComment hopen

/-- By induction on what is left: every state that the lexer comes to says what it is in and where
that begins, which explains the fault that ends the run. -/
theorem explains_of_run {rest : List Char} (hreads : s.Reads before)
    (hfollows : s.mode.Follows before) (h : s.run rest = .error e) :
    Explains e (before ++ rest) := by
  induction rest generalizing s before with
  | nil =>
    rw [List.append_nil]
    exact explains_finish hfollows h
  | cons c rest ih =>
    have haccounted := accounted_read (c := c) hreads hfollows
    rw [State.run] at h
    cases hread : s.read c with
    | ok t =>
      rw [hread] at h haccounted
      rw [List.append_cons]
      exact ih (hreads.read hread) haccounted h
    | error fault =>
      rw [hread] at h haccounted
      cases h
      exact haccounted rest

end Lexer

variable {source : String} {e : LexError}

theorem explains_of_fault (h : tokenize source = .error e) : Explains e source.toList :=
  Lexer.explains_of_run .initial nofun h

/-- The fault of a text stands at the first place from which the text cannot be read: the text
before it is a text of tokens, the lexeme is what stands there, and the fault is one that the
lexeme has. -/
theorem fault_at_first_unreadable_text (h : tokenize source = .error e) :
    ∃ before after, source.toList = before ++ e.lexeme.toList ++ after
      ∧ e.position = placeAfter before
      ∧ (∃ stream, tokenize (String.ofList before) = .ok stream)
      ∧ Unreadable before after e.fault e.lexeme.toList := by
  obtain ⟨before, after, htext, hbegins, hunreadable⟩ := explains_of_fault h
  exact ⟨before, after, htext, hbegins.place.symm, hbegins.readable, hunreadable⟩

/-- A quote and the opening of a comment stand in comments, and the open string has a comment's
opening in it. -/
theorem open_string_behind_comments :
    tokenize "x/*\"*/ //*\n\"//\n" = .error ⟨.unterminatedString, "\"//", ⟨2, 1⟩⟩
      ∧ ∃ before after, "x/*\"*/ //*\n\"//\n".toList = before ++ "\"//".toList ++ after
        ∧ (⟨2, 1⟩ : Position) = placeAfter before
        ∧ (∃ stream, tokenize (String.ofList before) = .ok stream)
        ∧ Unreadable before after .unterminatedString "\"//".toList := by
  have h : tokenize "x/*\"*/ //*\n\"//\n" = .error ⟨.unterminatedString, "\"//", ⟨2, 1⟩⟩ := by rfl
  exact ⟨h, fault_at_first_unreadable_text h⟩

/-- A character other than a line feed stands at this place of the text. -/
def StandsIn (text : List Char) (p : Position) : Prop :=
  ∃ before c after, text = before ++ c :: after ∧ c ≠ '\n' ∧ placeAfter before = p

/-- The fault of a text stands at one of its characters. -/
theorem standsIn_of_fault (h : tokenize source = .error e) :
    StandsIn source.toList e.position := by
  obtain ⟨before, after, htext, hbegins, hunreadable⟩ := explains_of_fault h
  obtain ⟨c, cs, hlexeme, hc⟩ := hunreadable.exists_cons
  refine ⟨before, c, cs ++ after, ?_, hc, hbegins.place⟩
  rw [htext, hlexeme, List.append_assoc]
  rfl

end Jack
