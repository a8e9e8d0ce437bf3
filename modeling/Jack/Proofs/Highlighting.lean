import Jack.Viewer.SourcePane

/-! How a line is highlighted. Its spans are the line, cut into pieces: no piece is empty, and every
word outside quotes and comments is one piece. However the line is marked in the pane of the source,
its pieces keep their text. -/

namespace Jack

/-! ### What stands outside quotes and comments -/

/-- A comment begins behind the characters `before` of a line: with two slashes, with a slash and a
star, or with a star that nothing but white space stands before. -/
def OpensComment (before rest : List Char) : Prop :=
  ['/', '/'] <+: rest ∨ ['/', '*'] <+: rest ∨ ['*'] <+: rest ∧ ∀ c ∈ before, isBlank c = true

/-- Between the two parts of a line is a place that is in no quoted part and in no comment. -/
inductive InCode : List Char → List Char → Prop
  | start {line : List Char} : InCode [] line
  | char {before rest : List Char} {c : Char} (h : InCode before (c :: rest)) (hquote : c ≠ '"')
    (hcomment : ¬OpensComment before (c :: rest)) : InCode (before ++ [c]) rest
  | quoted {before body rest : List Char} (h : InCode before ('"' :: body ++ '"' :: rest))
    (hbody : '"' ∉ body) : InCode (before ++ ('"' :: body ++ ['"'])) rest

/-- A run of letters, digits and underscores outside quotes and comments that goes as far as it can,
to both sides. -/
structure IsCodeWord (before word after : List Char) : Prop where
  inCode : InCode before (word ++ after)
  ne_nil : word ≠ []
  chars : ∀ c ∈ word, isHighlightChar c = true
  left : ∀ c ∈ before.getLast?, isHighlightChar c = false
  right : ∀ c ∈ after.head?, isHighlightChar c = false

/-- White space is no part of a word, in any script. -/
theorem isHighlightChar_of_isBlank {c : Char} (h : isBlank c = true) :
    isHighlightChar c = false := by
  have hcodes : blankCodes.all (fun n => !isHighlightChar (Char.ofNat n)) = true := by
    decide +kernel
  rw [isBlank, List.contains_iff_mem] at h
  have hc := List.all_eq_true.1 hcodes c.toNat h
  rwa [Char.ofNat_toNat, Bool.not_eq_true'] at hc

theorem isBlank_of_isHighlightChar {c : Char} (h : isHighlightChar c = true) :
    isBlank c = false := by
  cases hblank : isBlank c with
  | false => rfl
  | true =>
    rw [isHighlightChar_of_isBlank hblank] at h
    cases h

theorem startsComment_iff {before rest : List Char} {c : Char} :
    startsComment (before.all isBlank) c rest = true ↔ OpensComment before (c :: rest) := by
  have hhead : ∀ d, rest.head? = some d ↔ [d] <+: rest := by
    intro d
    cases rest with
    | nil => simp
    | cons e rest => simp [eq_comm]
  simp only [startsComment, OpensComment, List.cons_prefix_cons, hhead, List.nil_prefix, and_true,
    Bool.or_eq_true, Bool.and_eq_true, decide_eq_true_eq, List.all_eq_true, and_or_left, or_assoc,
    eq_comm (a := c)]

theorem startsComment_of_isHighlightChar {c : Char} (h : isHighlightChar c = true) (blank : Bool)
    (rest : List Char) : startsComment blank c rest = false := by
  have hslash : c ≠ '/' := by
    rintro rfl
    cases h
  have hstar : c ≠ '*' := by
    rintro rfl
    cases h
  simp [startsComment, hslash, hstar]

/-! ### Reading a line in parts -/

theorem closeHighlight_append (done base : List Span) (word : List Char) (called : Bool) :
    closeHighlight (done ++ base) word called = closeHighlight done word called ++ base := by
  unfold closeHighlight
  split
  · rfl
  · rfl

theorem textOf_append (spans more : List Span) :
    textOf (spans ++ more) = textOf spans ++ textOf more := List.flatMap_append

theorem textOf_closeHighlight (done : List Span) (word : List Char) (called : Bool) :
    textOf (closeHighlight done word called).reverse = textOf done.reverse ++ word.reverse := by
  unfold closeHighlight
  cases word with
  | nil => exact (List.append_nil _).symm
  | cons c word =>
    rw [if_neg (by simp), List.reverse_cons, textOf_append]
    exact congrArg _ (List.flatMap_singleton Span.text _)

/-- What a span of a highlighted line can be. -/
inductive IsHighlight : Span → Prop
  | word {text : List Char} (h : text ≠ []) (called : Bool) :
    IsHighlight ⟨text, wordStyle text called⟩
  | mark (c : Char) : IsHighlight ⟨[c], markStyle c⟩
  | quoted {text : List Char} (h : text ≠ []) : IsHighlight ⟨text, Style.ink Theme.literal⟩
  | comment {text : List Char} (h : text ≠ []) : IsHighlight ⟨text, Style.ink Theme.muted⟩

theorem IsHighlight.text_ne_nil {span : Span} (h : IsHighlight span) : span.text ≠ [] := by
  cases h with
  | word h called => exact h
  | mark c => exact List.cons_ne_nil c []
  | quoted h | comment h => exact h

theorem isHighlight_closeHighlight {done : List Span} (h : ∀ span ∈ done, IsHighlight span)
    (word : List Char) (called : Bool) :
    ∀ span ∈ closeHighlight done word called, IsHighlight span := by
  unfold closeHighlight
  cases word with
  | nil => exact h
  | cons c word => exact List.forall_mem_cons.2 ⟨.word (by simp) called, h⟩

namespace Highlighter

/-- The spans that a highlighter has closed. -/
def done : Highlighter → List Span
  | .code done _ _ | .quoted done _ => done

/-- The highlighter with more spans closed before. -/
def above (base : List Span) : Highlighter → Highlighter
  | .code done blank word => .code (done ++ base) blank word
  | .quoted done text => .quoted (done ++ base) text

/-- The characters that are read and in no span yet. -/
def pending : Highlighter → List Char
  | .code _ _ word => word.reverse
  | .quoted _ text => text.reverse

variable {done : List Span} {blank : Bool} {word text cs rest : List Char} {c : Char}

/-- What is closed is not looked at again. -/
theorem run_above (base : List Span) (state : Highlighter) (cs : List Char) :
    (state.above base).run cs = base.reverse ++ state.run cs := by
  induction cs generalizing state with
  | nil =>
    cases state with
    | code done blank word => rw [above, run, run, closeHighlight_append, List.reverse_append]
    | quoted done text => rw [above, run, run, ← List.cons_append, List.reverse_append]
  | cons c cs ih =>
    cases state with
    | code done blank word =>
      rw [above, run, run]
      split
      · rw [closeHighlight_append, ← List.cons_append, List.reverse_append]
      split
      · rw [closeHighlight_append]
        exact ih (.quoted _ _)
      split
      · exact ih (.code _ _ _)
      · rw [closeHighlight_append]
        exact ih (.code (_ :: _) _ _)
    | quoted done text =>
      rw [above, run, run]
      split
      · exact ih (.code (_ :: _) _ _)
      · exact ih (.quoted _ _)

theorem run_code (done : List Span) (blank : Bool) (word cs : List Char) :
    (code done blank word).run cs = done.reverse ++ (code [] blank word).run cs :=
  run_above done (.code [] blank word) cs

/-- No character is lost, and none is shown twice. -/
theorem textOf_run (state : Highlighter) (cs : List Char) :
    textOf (state.run cs) = textOf state.done.reverse ++ state.pending ++ cs := by
  have hspan : ∀ (done : List Span) (span : Span),
      textOf (span :: done).reverse = textOf done.reverse ++ span.text := by
    intro done span
    rw [List.reverse_cons, textOf_append]
    exact congrArg _ (List.flatMap_singleton Span.text span)
  induction cs generalizing state with
  | nil =>
    cases state with
    | code done blank word => rw [run, textOf_closeHighlight, List.append_nil]; rfl
    | quoted done text => rw [run, hspan, List.append_nil]; rfl
  | cons c cs ih =>
    cases state with
    | code done blank word =>
      rw [run]
      split
      · rw [hspan, textOf_closeHighlight]; rfl
      split
      · rw [ih]
        simp [Highlighter.done, pending, textOf_closeHighlight]
      split
      · rw [ih]
        simp [Highlighter.done, pending]
      · rw [ih]
        simp only [Highlighter.done, pending, hspan, textOf_closeHighlight]
        simp
    | quoted done text =>
      rw [run]
      split
      · rw [ih]
        simp only [Highlighter.done, pending, hspan]
        simp
      · rw [ih]
        simp [Highlighter.done, pending]

/-- What is closed are spans as they can be, and so is what will be closed next. -/
def Closes : Highlighter → Prop
  | .code done _ _ => ∀ span ∈ done, IsHighlight span
  | .quoted done text => (∀ span ∈ done, IsHighlight span) ∧ text ≠ []

theorem isHighlight_of_mem_run (state : Highlighter) (h : state.Closes) (cs : List Char) :
    ∀ span ∈ state.run cs, IsHighlight span := by
  have hliteral : ∀ {text : List Char}, text ≠ [] →
      IsHighlight ⟨text.reverse, Style.ink Theme.literal⟩ := fun h =>
    .quoted (mt List.reverse_eq_nil_iff.1 h)
  induction cs generalizing state with
  | nil =>
    cases state with
    | code done blank word =>
      simp only [run, List.mem_reverse]
      exact isHighlight_closeHighlight h word false
    | quoted done text =>
      simp only [run, List.mem_reverse]
      exact List.forall_mem_cons.2 ⟨hliteral h.2, h.1⟩
  | cons c cs ih =>
    cases state with
    | code done blank word =>
      have hclosed := isHighlight_closeHighlight h word
      rw [run]
      split
      · simp only [List.mem_reverse]
        exact List.forall_mem_cons.2 ⟨.comment (List.cons_ne_nil _ _), hclosed false⟩
      split
      · exact ih (.quoted _ _) ⟨hclosed false, List.cons_ne_nil _ _⟩
      split
      · exact ih (.code _ _ _) h
      · exact ih (.code _ _ _) (List.forall_mem_cons.2 ⟨.mark c, hclosed _⟩)
    | quoted done text =>
      rw [run]
      split
      · exact ih (.code _ _ _)
          (List.forall_mem_cons.2 ⟨hliteral (List.cons_ne_nil _ _), h.1⟩)
      · exact ih (.quoted _ _) ⟨h.1, List.cons_ne_nil _ _⟩

/-! ### What a highlighter reads in one piece -/

/-- A run of letters, digits and underscores goes on with the word. -/
theorem run_word (done : List Span) (blank : Bool) (word rest : List Char)
    (hc : isHighlightChar c = true) (hcs : ∀ d ∈ cs, isHighlightChar d = true) :
    (code done blank word).run (c :: cs ++ rest)
      = (code done false ((c :: cs).reverse ++ word)).run rest := by
  have hread : ∀ {blank : Bool} {word : List Char} {c : Char} {more : List Char},
      isHighlightChar c = true →
      (code done blank word).run (c :: more) = (code done false (c :: word)).run more := by
    intro blank word c more hc
    have hquote : c ≠ '"' := by
      rintro rfl
      cases hc
    rw [run, startsComment_of_isHighlightChar hc]
    simp only [Bool.false_eq_true, if_false, hquote, hc, if_true]
  induction cs generalizing blank word c with
  | nil => exact hread hc
  | cons d cs ih =>
    obtain ⟨hd, hcs⟩ := List.forall_mem_cons.1 hcs
    rw [List.cons_append, hread hc, ih _ _ hd hcs]
    simp

/-- A word that what follows does not go on with is closed, in one style or another. -/
theorem run_endWord (blank : Bool) (hword : word ≠ [])
    (hrest : ∀ c ∈ rest.head?, isHighlightChar c = false) :
    ∃ style, (code [] blank word).run rest
      = ⟨word.reverse, style⟩ :: (code [] blank []).run rest := by
  have hclose : ∀ called, closeHighlight [] word called
      = [⟨word.reverse, wordStyle word.reverse called⟩] := by
    intro called
    rw [closeHighlight, if_neg (by simpa using hword)]
  have hnil : ∀ called, closeHighlight [] [] called = [] := fun _ => rfl
  cases rest with
  | nil => exact ⟨_, by rw [run, hclose, run]; rfl⟩
  | cons c rest =>
    have hc := hrest c rfl
    rw [run, run]
    simp only [hclose, hnil, hc, Bool.false_eq_true, if_false]
    split
    · exact ⟨_, rfl⟩
    split
    · exact ⟨_, run_above [_] (.quoted [] [c]) rest⟩
    · exact ⟨_, run_above [_] (.code [_] _ []) rest⟩

theorem run_quoted (hcs : '"' ∉ cs) :
    (quoted done text).run (cs ++ '"' :: rest)
      = (code (⟨text.reverse ++ cs ++ ['"'], Style.ink Theme.literal⟩ :: done) false []).run
          rest := by
  induction cs generalizing text with
  | nil => simp [run]
  | cons c cs ih =>
    rw [List.mem_cons, not_or] at hcs
    rw [List.cons_append, run, if_neg (Ne.symm hcs.1), ih hcs.2]
    simp

/-- A part in quotes is one span. -/
theorem run_quotes (hcs : '"' ∉ cs) :
    (code [] blank word).run ('"' :: cs ++ '"' :: rest)
      = (closeHighlight [] word false).reverse
          ++ ⟨'"' :: cs ++ ['"'], Style.ink Theme.literal⟩ :: (code [] false []).run rest := by
  have hcomment : ∀ more, startsComment blank '"' more = false := fun _ => rfl
  rw [List.cons_append, run, hcomment]
  simp only [Bool.false_eq_true, if_false, if_true]
  rw [run_quoted hcs, run_code]
  simp

/-- Any other character closes the word before it, and is a span of its own. -/
theorem run_mark (hcomment : startsComment blank c rest = false) (hquote : c ≠ '"')
    (hc : isHighlightChar c = false) :
    (code [] blank word).run (c :: rest)
      = (closeHighlight [] word (c = '(')).reverse
          ++ ⟨[c], markStyle c⟩ :: (code [] (blank && isBlank c) []).run rest := by
  rw [run, hcomment]
  simp only [Bool.false_eq_true, if_false, hquote, hc]
  rw [run_code]
  simp

end Highlighter

/-! ### The words of a line -/

section

variable {line before word after rest : List Char}

theorem textOf_highlight (line : List Char) : textOf (highlight line) = line :=
  Highlighter.textOf_run (.code [] true []) line

theorem isHighlight_of_mem (line : List Char) : ∀ span ∈ highlight line, IsHighlight span :=
  Highlighter.isHighlight_of_mem_run (.code [] true []) (List.forall_mem_nil _) line

/-- At a place in no quoted part and in no comment, what stands before is in spans, but for a word
that may go on. -/
theorem InCode.exists_run (h : InCode before rest) :
    ∃ spans reversed, highlight (before ++ rest)
        = spans ++ (Highlighter.code [] (before.all isBlank) reversed).run rest
      ∧ textOf spans ++ reversed.reverse = before
      ∧ ∀ c ∈ reversed, isHighlightChar c = true := by
  induction h with
  | start => exact ⟨[], [], rfl, rfl, List.forall_mem_nil _⟩
  | @char before rest c h hquote hcomment ih =>
    obtain ⟨spans, reversed, hrun, htext, hword⟩ := ih
    rw [List.append_assoc, List.singleton_append, hrun]
    by_cases hc : isHighlightChar c = true
    · refine ⟨spans, c :: reversed, ?_, ?_, List.forall_mem_cons.2 ⟨hc, hword⟩⟩
      · have hread := Highlighter.run_word [] (before.all isBlank) reversed rest hc
          (List.forall_mem_nil _)
        rw [List.all_append, List.all_cons, isBlank_of_isHighlightChar hc, Bool.false_and,
          Bool.and_false]
        exact congrArg (spans ++ ·) hread
      · rw [← htext, List.reverse_cons, List.append_assoc]
    · have hstarts := Bool.eq_false_iff.2 (mt startsComment_iff.1 hcomment)
      refine ⟨spans ++ ((closeHighlight [] reversed (c = '(')).reverse ++ [⟨[c], markStyle c⟩]), [],
        ?_, ?_, List.forall_mem_nil _⟩
      · rw [Highlighter.run_mark hstarts hquote (Bool.eq_false_iff.2 hc), List.all_append,
          List.all_cons, List.all_nil, Bool.and_true]
        simp only [List.append_assoc, List.singleton_append]
      · rw [textOf_append, textOf_append, textOf_closeHighlight, ← htext]
        simp [textOf]
  | @quoted before body rest h hbody ih =>
    obtain ⟨spans, reversed, hrun, htext, hword⟩ := ih
    refine ⟨spans ++ ((closeHighlight [] reversed false).reverse
      ++ [⟨'"' :: body ++ ['"'], Style.ink Theme.literal⟩]), [], ?_, ?_, List.forall_mem_nil _⟩
    · have hblank : (before ++ ('"' :: body ++ ['"'])).all isBlank = false := by
        rw [List.all_append, List.cons_append, List.all_cons]
        exact Bool.and_false _
      have hline : before ++ ('"' :: body ++ ['"']) ++ rest
          = before ++ ('"' :: body ++ '"' :: rest) := by
        simp
      rw [hblank, hline, hrun, Highlighter.run_quotes hbody]
      simp only [List.append_assoc, List.singleton_append]
    · rw [textOf_append, textOf_append, textOf_closeHighlight, ← htext]
      simp [textOf]

/-- A word outside quotes and comments is one span, at its place. -/
theorem IsCodeWord.exists_span (h : IsCodeWord before word after) :
    ∃ front style back, highlight (before ++ (word ++ after)) = front ++ ⟨word, style⟩ :: back
      ∧ textOf front = before := by
  obtain ⟨spans, reversed, hrun, htext, hreversed⟩ := h.inCode.exists_run
  obtain ⟨c, cs, rfl⟩ := List.exists_cons_of_ne_nil h.ne_nil
  obtain ⟨hc, hcs⟩ := List.forall_mem_cons.1 h.chars
  -- a word that was open would go on to the left
  obtain rfl : reversed = [] := by
    cases reversed with
    | nil => rfl
    | cons d ds =>
      have hleft := h.left d (by rw [← htext, List.reverse_cons]; simp)
      rw [hreversed d List.mem_cons_self] at hleft
      cases hleft
  rw [List.reverse_nil, List.append_nil] at htext
  rw [hrun, Highlighter.run_word _ _ _ _ hc hcs, List.append_nil]
  obtain ⟨style, hspan⟩ := Highlighter.run_endWord false
    (mt List.reverse_eq_nil_iff.1 (List.cons_ne_nil c cs)) h.right
  exact ⟨spans, style, _, by rw [hspan, List.reverse_reverse], htext⟩

end

/-! ### The lines of the source pane -/

theorem text_sourceLine (mark : LineMark) (number : Nat) (line : List Char) :
    (sourceLine mark number line).map Span.text
      = (padded 4 number ++ " ").toList :: (highlight line).map Span.text := by
  simp only [sourceLine, List.map_cons, List.map_map, Span.of]
  exact congrArg _ (List.map_congr_left fun _ _ => rfl)

theorem getElem?_pane {style : Style} {title : String} {width height i : Nat}
    {lines : List (List Span)} {spans : List Span} (hi : i < inside height)
    (hline : lines[i]? = some spans) :
    (pane style title width height lines)[i + 1]? = some (innerRow style width spans) := by
  have hheight : 2 < height := by
    unfold inside at hi
    omega
  have hshown : (lines.take (inside height))[i]? = some spans := by
    rw [List.getElem?_take, if_pos hi, hline]
  obtain ⟨hlt, hspans⟩ := List.getElem?_eq_some_iff.1 hshown
  rw [pane, if_neg (by omega), if_neg (by omega), List.cons_append, List.getElem?_cons_succ,
    List.map_append, List.append_assoc, List.getElem?_append_left (by simpa using hlt),
    List.getElem?_map, hshown, Option.map_some]

/-- The row of the source pane for a line that it shows, however the line is marked. -/
theorem exists_row_sourcePane {source : String} {line : List Char} (current : Nat)
    (error? : Option Nat) (focused : Bool) (scroll : Scroll) (width : Nat) {height i : Nat}
    (hi : i < inside height) {top : Scroll} {rows : List Row}
    (hpane : sourcePane source current error? focused scroll width height = (top, rows))
    (hline : (linesOf source)[top.offset + i]? = some line) :
    ∃ spans, rows[i + 1]? = some (innerRow (Theme.border focused) width spans)
      ∧ spans.map Span.text
        = (padded 4 (top.offset + 1 + i) ++ " ").toList :: (highlight line).map Span.text := by
  have hvisible : i < visibleRows height := Nat.lt_of_lt_of_le hi (Nat.le_max_left _ _)
  refine ⟨sourceLine (lineMark current error? (top.offset + 1 + i)) (top.offset + 1 + i) line, ?_,
    text_sourceLine _ _ _⟩
  rw [sourcePane] at hpane
  obtain ⟨rfl, rfl⟩ := Prod.mk.inj hpane
  apply getElem?_pane hi
  simp only [shownLines] at hline ⊢
  rw [List.getElem?_map, List.getElem?_zipIdx, List.getElem?_take, if_pos hvisible,
    List.getElem?_drop, hline]
  rfl

/-- The spans of a highlighted line are not empty and make up the line, every word outside quotes
and comments is one of them, and the rows of the source pane show the texts of these spans behind
the line's number, however the line is marked. -/
theorem highlight_cuts_line :
    (∀ line, textOf (highlight line) = line
      ∧ (∀ span ∈ highlight line, span.text ≠ [])
      ∧ ∀ before word after, before ++ (word ++ after) = line → IsCodeWord before word after →
          ∃ front style back, highlight line = front ++ ⟨word, style⟩ :: back
            ∧ textOf front = before)
      ∧ ∀ source current error? focused scroll width height top rows,
          sourcePane source current error? focused scroll width height = (top, rows) →
          ∀ i line, i < inside height → (linesOf source)[top.offset + i]? = some line →
            ∃ spans, rows[i + 1]? = some (innerRow (Theme.border focused) width spans)
              ∧ spans.map Span.text
                = (padded 4 (top.offset + 1 + i) ++ " ").toList
                  :: (highlight line).map Span.text := by
  refine ⟨fun line => ⟨textOf_highlight line, ?_, ?_⟩, ?_⟩
  · exact fun span hspan => (isHighlight_of_mem line span hspan).text_ne_nil
  · rintro before word after rfl hword
    exact hword.exists_span
  · intro source current error? focused scroll width height top rows hpane i line hi hline
    exact exists_row_sourcePane current error? focused scroll width hi hpane hline

theorem word_between_quotes_and_comment :
    IsCodeWord ['"', ' ', '"'] ['d', '1'] ['/', '/']
      ∧ ∃ front style back, highlight ['"', ' ', '"', 'd', '1', '/', '/']
          = front ++ ⟨['d', '1'], style⟩ :: back ∧ textOf front = ['"', ' ', '"']
      ∧ ∃ spans, (sourcePane "x\n" 1 (some 1) true ⟨0, none⟩ 20 4).2[1]?
          = some (innerRow (Theme.border true) 20 spans)
        ∧ spans.map Span.text = (padded 4 1 ++ " ").toList :: (highlight ['x']).map Span.text := by
  have hword : IsCodeWord ['"', ' ', '"'] ['d', '1'] ['/', '/'] := by
    refine ⟨@InCode.quoted [] [' '] ['d', '1', '/', '/'] .start (by decide), List.cons_ne_nil _ _,
      List.forall_mem_cons.2 ⟨rfl, List.forall_mem_singleton.2 rfl⟩, ?_, ?_⟩
    · rintro c ⟨⟩
      rfl
    · rintro c ⟨⟩
      rfl
  obtain ⟨front, style, back, hline, hfront⟩ := (highlight_cuts_line.1 _).2.2 _ _ _ rfl hword
  have hrow := highlight_cuts_line.2 "x\n" 1 (some 1) true ⟨0, none⟩ 20 4 _ _ rfl 0 ['x']
    (by decide) rfl
  exact ⟨hword, front, style, back, hline, hfront, hrow⟩

end Jack
