import Jack.Proofs.Highlighting

/-! Flags for errors. A pane of the source that has room for all lines flags the row of the error
line in the colors of errors; no other row has these colors, however its line is highlighted. -/

namespace Jack

/-! ### Rows that show an error -/

/-- The colors of errors. -/
def Style.ShowsError (s : Style) : Prop :=
  s.foreground = some Theme.error ∨ s.background = some Theme.error

instance (s : Style) : Decidable s.ShowsError :=
  inferInstanceAs (Decidable (_ ∨ _))

/-- The row is flagged for an error. -/
def Flagged (row : Row) : Prop := ∃ cell ∈ row, cell.style.ShowsError

section

variable {cell : Cell} {spans : List Span} {style : Style} {width height : Nat}

theorem style_of_mem_fit {room : Nat} {cs : List (Char × Style)} (h : cell ∈ fit room cs) :
    cell.style = .plain ∨ ∃ g ∈ cs, cell.style = g.2 := by
  induction cs generalizing room with
  | nil => cases h
  | cons g cs ih =>
    obtain ⟨c, s⟩ := g
    have hlater : ∀ {n : Nat}, cell ∈ fit n cs →
        cell.style = .plain ∨ ∃ g ∈ (c, s) :: cs, cell.style = g.2 := by
      intro n hn
      rcases ih hn with hplain | ⟨g, hg, hstyle⟩
      · exact Or.inl hplain
      · exact Or.inr ⟨g, List.mem_cons_of_mem _ hg, hstyle⟩
    rw [fit] at h
    by_cases hwide : isWide c = true
    · rw [if_pos hwide] at h
      by_cases hroom : 2 ≤ room
      · rw [if_pos hroom] at h
        rcases List.mem_cons.1 h with rfl | h
        · exact Or.inr ⟨(c, s), List.mem_cons_self, rfl⟩
        · rcases List.mem_cons.1 h with rfl | h
          · exact Or.inl rfl
          · exact hlater h
      · rw [if_neg hroom] at h
        cases h
    · rw [if_neg hwide] at h
      by_cases hroom : 1 ≤ room
      · rw [if_pos hroom] at h
        rcases List.mem_cons.1 h with rfl | h
        · exact Or.inr ⟨(c, s), List.mem_cons_self, rfl⟩
        · exact hlater h
      · rw [if_neg hroom] at h
        cases h

theorem style_of_mem_glyphs {area : Style} {g : Char × Style} (h : g ∈ glyphs area spans) :
    ∃ span ∈ spans, g.2 = area.under span.style := by
  obtain ⟨span, hspan, hg⟩ := List.mem_flatMap.1 h
  obtain ⟨c, -, rfl⟩ := List.mem_map.1 hg
  exact ⟨span, hspan, rfl⟩

theorem style_of_mem_borderRow {left right : Char} {middle : Row}
    (h : cell ∈ borderRow style width left right middle) :
    cell.style = style ∨ cell ∈ middle := by
  have hrow : ∀ row, row = ⟨left, style⟩ :: middle.take (inside width)
      ++ List.replicate (inside width - middle.length) (Cell.mk '─' style) →
      cell ∈ row → cell.style = style ∨ cell ∈ middle := by
    rintro row rfl hcell
    rcases List.mem_append.1 hcell with hcell | hcell
    · rcases List.mem_cons.1 hcell with rfl | hcell
      · exact Or.inl rfl
      · exact Or.inr (List.mem_of_mem_take hcell)
    · rw [List.eq_of_mem_replicate hcell]
      exact Or.inl rfl
  unfold borderRow at h
  by_cases hzero : width = 0
  · rw [if_pos hzero] at h
    cases h
  · rw [if_neg hzero] at h
    by_cases hone : width = 1
    · rw [if_pos hone] at h
      rw [List.mem_singleton.1 h]
      exact Or.inl rfl
    · rw [if_neg hone] at h
      rcases List.mem_append.1 h with h | h
      · exact hrow _ rfl h
      · rw [List.mem_singleton.1 h]
        exact Or.inl rfl

theorem style_of_mem_innerRow (h : cell ∈ innerRow style width spans) :
    cell.style = style ∨ cell.style = .plain ∨ ∃ span ∈ spans, cell.style = span.style := by
  rcases style_of_mem_borderRow h with hstyle | hcell
  · exact Or.inl hstyle
  · right
    rcases List.mem_append.1 hcell with hcell | hcell
    · rcases style_of_mem_fit hcell with hplain | ⟨g, hg, hstyle⟩
      · exact Or.inl hplain
      · obtain ⟨span, hspan, hunder⟩ := style_of_mem_glyphs hg
        rw [Style.plain_under] at hunder
        exact Or.inr ⟨span, hspan, hstyle.trans hunder⟩
    · rw [List.eq_of_mem_replicate hcell]
      exact Or.inl rfl

theorem not_flagged_innerRow (hstyle : ¬style.ShowsError)
    (hspans : ∀ span ∈ spans, ¬span.style.ShowsError) : ¬Flagged (innerRow style width spans) := by
  rintro ⟨cell, hcell, herror⟩
  rcases style_of_mem_innerRow hcell with h | h | ⟨span, hspan, h⟩
  · exact hstyle (h ▸ herror)
  · rw [h] at herror
    exact absurd herror (by decide)
  · exact hspans span hspan (h ▸ herror)

theorem not_flagged_topRow (hstyle : ¬style.ShowsError) (title : String) :
    ¬Flagged (topRow style title width) := by
  rintro ⟨cell, hcell, herror⟩
  have hself : style.under style = style := by
    simp [Style.under]
  rcases style_of_mem_borderRow hcell with h | h
  · exact hstyle (h ▸ herror)
  · rcases style_of_mem_fit h with h | ⟨g, hg, h⟩
    · rw [h] at herror
      exact absurd herror (by decide)
    · obtain ⟨span, hspan, hunder⟩ := style_of_mem_glyphs hg
      rw [List.mem_singleton.1 hspan, Span.of, hself] at hunder
      rw [h, hunder] at herror
      exact hstyle herror

theorem not_flagged_bottomRow (hstyle : ¬style.ShowsError) : ¬Flagged (bottomRow style width) := by
  rintro ⟨cell, hcell, herror⟩
  rcases style_of_mem_borderRow hcell with h | h
  · exact hstyle (h ▸ herror)
  · cases h

/-- The first span is seen in every row that has room. -/
theorem flagged_innerRow {c : Char} {text : List Char} {rest : List Span}
    (hwidth : 0 < inside width) (hc : isWide c = false) {ink : Style} (hink : ink.ShowsError) :
    Flagged (innerRow style width (⟨c :: text, ink⟩ :: rest)) := by
  have hfirst : (leftRow .plain (inside width) (⟨c :: text, ink⟩ :: rest)).head?
      = some ⟨c, ink⟩ := by
    simp [leftRow, glyphs, fit, hc, Nat.one_le_iff_ne_zero.2 (Nat.ne_of_gt hwidth)]
  obtain ⟨more, hmore⟩ := List.head?_eq_some_iff.1 hfirst
  have hzero : width ≠ 0 := by
    rintro rfl
    exact absurd hwidth (by decide)
  have hone : width ≠ 1 := by
    rintro rfl
    exact absurd hwidth (by decide)
  obtain ⟨n, hn⟩ : ∃ n, inside width = n + 1 := ⟨inside width - 1, by omega⟩
  refine ⟨⟨c, ink⟩, ?_, hink⟩
  rw [innerRow, borderRow, if_neg hzero, if_neg hone, hmore, hn, List.take_succ_cons]
  simp

/-- The rows that a pane shows for its lines are the only ones that can be flagged. -/
theorem flagged_pane_iff {title : String} {lines : List (List Span)} (hstyle : ¬style.ShowsError)
    (hheight : lines.length ≤ inside height) (i : Nat) :
    (∃ row ∈ (pane style title width height lines)[i]?, Flagged row)
      ↔ ∃ j, i = j + 1 ∧ ∃ line ∈ lines[j]?, Flagged (innerRow style width line) := by
  have hrow : ∀ {P : Row → Prop} {rows : List Row} {n : Nat}, (∀ row ∈ rows, ¬P row) →
      ¬∃ row ∈ rows[n]?, P row := by
    rintro P rows n h ⟨row, hmem, hP⟩
    exact h row (List.mem_of_getElem? hmem) hP
  by_cases hframe : 2 ≤ height
  · rw [pane, if_neg (by omega), if_neg (by omega), List.take_of_length_le hheight]
    cases i with
    | zero =>
      constructor
      · rintro ⟨row, hmem, hflagged⟩
        obtain rfl : topRow style title width = row := Option.some.inj hmem
        exact absurd hflagged (not_flagged_topRow hstyle title)
      · rintro ⟨j, hj, -⟩
        omega
    | succ j =>
      have hblank : ∀ row ∈ (List.replicate (inside height - lines.length) []).map
          (innerRow style width) ++ [bottomRow style width], ¬Flagged row := by
        intro row hmem
        rcases List.mem_append.1 hmem with hmem | hmem
        · obtain ⟨line, hline, rfl⟩ := List.mem_map.1 hmem
          rw [List.eq_of_mem_replicate hline]
          exact not_flagged_innerRow hstyle (List.forall_mem_nil _)
        · rw [List.mem_singleton.1 hmem]
          exact not_flagged_bottomRow hstyle
      simp only [List.cons_append, List.getElem?_cons_succ, List.map_append, List.append_assoc,
        Nat.add_right_cancel_iff]
      by_cases hj : j < lines.length
      · rw [List.getElem?_append_left (by simpa using hj)]
        simp [hj]
      · rw [List.getElem?_append_right (by simpa using hj)]
        constructor
        · intro h
          exact absurd h (hrow hblank)
        · rintro ⟨k, rfl, line, hline, -⟩
          obtain ⟨hlt, -⟩ := List.getElem?_eq_some_iff.1 hline
          exact absurd hlt hj
  · have hnone : lines = [] := by
      unfold inside at hheight
      exact List.eq_nil_of_length_eq_zero (by omega)
    subst hnone
    constructor
    · intro h
      refine absurd h (hrow ?_)
      intro row hmem
      unfold pane at hmem
      by_cases hzero : height = 0
      · rw [if_pos hzero] at hmem
        cases hmem
      · rw [if_neg hzero, if_pos (by omega)] at hmem
        rw [List.mem_singleton.1 hmem]
        exact not_flagged_topRow hstyle title
    · rintro ⟨j, -, line, hline, -⟩
      cases hline

end

/-! ### The styles of a highlighted line -/

theorem not_showsError_wordStyle (word : List Char) (called : Bool) :
    ¬(wordStyle word called).ShowsError := by
  unfold wordStyle
  repeat' split
  all_goals decide

theorem not_showsError_markStyle (c : Char) : ¬(markStyle c).ShowsError := by
  unfold markStyle
  split
  · decide
  · decide

theorem IsHighlight.not_showsError {span : Span} (h : IsHighlight span) :
    ¬span.style.ShowsError := by
  have hliteral : ¬(Style.ink Theme.literal).ShowsError := by decide
  have hcomment : ¬(Style.ink Theme.muted).ShowsError := by decide
  cases h with
  | @word text _ called => exact not_showsError_wordStyle text called
  | mark c => exact not_showsError_markStyle c
  | quoted _ => exact hliteral
  | comment _ => exact hcomment

theorem not_showsError_highlight (line : List Char) :
    ∀ span ∈ highlight line, ¬span.style.ShowsError := by
  intro span hspan
  exact (isHighlight_of_mem line span hspan).not_showsError

/-! ### The source pane -/

theorem not_showsError_sourceLine {mark : LineMark} (hmark : mark ≠ .error) (number : Nat)
    (line : List Char) : ∀ span ∈ sourceLine mark number line, ¬span.style.ShowsError := by
  have hcurrent : ∀ {s : Style}, ¬s.ShowsError → ¬(s.on Theme.selection).ShowsError := by
    intro s hs herror
    have hselection : some Theme.selection ≠ some Theme.error := by decide
    rcases herror with herror | herror
    · exact hs (Or.inl herror)
    · exact hselection herror
  have hspans : ∀ span ∈ highlight line, ¬(mark.restyle span.style).ShowsError := by
    intro span hspan
    have hplain := not_showsError_highlight line span hspan
    cases mark with
    | plain => exact hplain
    | current => exact hcurrent hplain
    | error => exact absurd rfl hmark
  have hnumber : ¬mark.numberStyle.ShowsError := by
    cases mark with
    | plain | current => decide
    | error => exact absurd rfl hmark
  exact List.forall_mem_cons.2 ⟨hnumber, List.forall_mem_map.2 hspans⟩

theorem not_isWide_of_ascii {c : Char} (h : c.toNat < 128) : isWide c = false := by
  have hlow : ¬0x1100 ≤ c.toNat := by omega
  simp [isWide, hlow]

/-- A line number begins with a blank or a digit. -/
theorem exists_padded (width n : Nat) :
    ∃ c text, (padded width n ++ " ").toList = c :: text ∧ isWide c = false := by
  have hdigit : ∀ c ∈ (toString n).toList, isWide c = false := by
    intro c hc
    rw [Nat.toString_eq_ofList_toDigits, String.toList_ofList] at hc
    have hc := Nat.isDigit_of_mem_toDigits (by decide) (by decide) hc
    simp only [Char.isDigit, Bool.and_eq_true, decide_eq_true_eq] at hc
    exact not_isWide_of_ascii (Nat.lt_of_le_of_lt hc.2 (by decide))
  have hnarrow : ∀ c ∈ (padded width n ++ " ").toList, isWide c = false := by
    intro c hc
    simp only [padded, String.toList_append, String.toList_ofList, List.mem_append] at hc
    rcases hc with (hc | hc) | hc
    · rw [List.eq_of_mem_replicate hc]
      decide
    · exact hdigit c hc
    · rw [List.mem_singleton.1 hc]
      decide
  cases htext : (padded width n ++ " ").toList with
  | nil => simp at htext
  | cons c text => exact ⟨c, text, rfl, hnarrow c (htext ▸ List.mem_cons_self)⟩

theorem lineMark_eq_error_iff {current number line : Nat} :
    lineMark current (some line) number = .error ↔ line = number := by
  unfold lineMark
  by_cases h : line = number
  · simp [h]
  · rw [if_neg (by simpa using h)]
    by_cases hcurrent : number = current
    · simp [hcurrent, hcurrent ▸ h]
    · simp [hcurrent, h]

theorem flagged_sourceLine_iff {width : Nat} (hwidth : 0 < inside width) {style : Style}
    (hstyle : ¬style.ShowsError) (mark : LineMark) (number : Nat) (line : List Char) :
    Flagged (innerRow style width (sourceLine mark number line)) ↔ mark = .error := by
  constructor
  · intro hflagged
    by_cases hmark : mark = .error
    · exact hmark
    · exact absurd hflagged
        (not_flagged_innerRow hstyle (not_showsError_sourceLine hmark number line))
  · rintro rfl
    obtain ⟨c, text, htext, hc⟩ := exists_padded 4 number
    rw [sourceLine, Span.of, htext]
    exact flagged_innerRow hwidth hc (by decide)

theorem not_showsError_border (focused : Bool) : ¬(Theme.border focused).ShowsError := by
  cases focused with
  | true => decide
  | false => decide

/-- The line of an error is all in the colors of errors. -/
theorem showsError_sourceLine (number : Nat) (line : List Char) :
    ∀ span ∈ sourceLine .error number line, span.style.ShowsError :=
  List.forall_mem_cons.2 ⟨Or.inl rfl, List.forall_mem_map.2 fun _ _ => Or.inr rfl⟩

section

variable {source : String} {current line height : Nat}

/-- A pane that has room for all lines of a source shows them all, each with its number. -/
theorem shownLines_eq (hcurrent : 0 < current) (error? : Option Nat) (scroll : Scroll)
    (hheight : (linesOf source).length ≤ inside height) :
    (shownLines source current error? scroll height).2
      = ((linesOf source).zipIdx 1).map fun (line, number) =>
          sourceLine (lineMark current error? number) number line := by
  have hvisible : (linesOf source).length ≤ visibleRows height := by
    unfold visibleRows
    omega
  have htop : (followLine scroll current (linesOf source).length (visibleRows height)).offset
      = 0 := by
    rw [followLine, if_pos hcurrent, Scroll.follow, if_neg (by omega)]
  simp only [shownLines, htop, List.drop_zero, List.take_of_length_le hvisible]

/-- A property that the line of the error alone has, it has at its place among the shown lines. -/
theorem exists_shownLine_iff (hcurrent : 0 < current) (scroll : Scroll)
    (hheight : (linesOf source).length ≤ inside height) {P : List Span → Prop}
    (hP : ∀ mark number text, P (sourceLine mark number text) ↔ mark = .error) (j : Nat) :
    (∃ spans ∈ (shownLines source current (some line) scroll height).2[j]?, P spans)
      ↔ j + 1 = line ∧ line ≤ (linesOf source).length := by
  rw [shownLines_eq hcurrent _ _ hheight]
  simp only [List.getElem?_map, List.getElem?_zipIdx]
  constructor
  · rintro ⟨spans, hspans, hmarked⟩
    obtain ⟨⟨text, number⟩, hnumber, rfl⟩ := Option.map_eq_some_iff.1 hspans
    obtain ⟨text, htext, hpair⟩ := Option.map_eq_some_iff.1 hnumber
    obtain ⟨rfl, rfl⟩ := Prod.mk.inj hpair
    obtain ⟨hlt, -⟩ := List.getElem?_eq_some_iff.1 htext
    rw [hP, lineMark_eq_error_iff] at hmarked
    omega
  · rintro ⟨rfl, hlast⟩
    have hmarked := (hP (lineMark current (some (j + 1)) (j + 1)) (j + 1)
      (linesOf source)[j]).2 (lineMark_eq_error_iff.2 rfl)
    refine ⟨_, ?_, hmarked⟩
    rw [List.getElem?_eq_getElem hlast, Nat.add_comm 1 j]
    rfl

/-- Of the lines that are handed on to be drawn, the one of the error is all in the colors of
errors and no other has any of them. -/
theorem showsError_shownLines_iff (hcurrent : 0 < current) (scroll : Scroll)
    (hheight : (linesOf source).length ≤ inside height) (j : Nat) :
    ((∃ spans ∈ (shownLines source current (some line) scroll height).2[j]?,
        ∃ span ∈ spans, span.style.ShowsError)
      ↔ j + 1 = line ∧ line ≤ (linesOf source).length)
    ∧ ((∃ spans ∈ (shownLines source current (some line) scroll height).2[j]?,
        ∀ span ∈ spans, span.style.ShowsError)
      ↔ j + 1 = line ∧ line ≤ (linesOf source).length) := by
  constructor
  · refine exists_shownLine_iff hcurrent scroll hheight (fun mark number text => ?_) j
    constructor
    · rintro ⟨span, hspan, herror⟩
      exact Decidable.byContradiction fun hmark =>
        not_showsError_sourceLine hmark number text span hspan herror
    · rintro rfl
      exact ⟨_, List.mem_cons_self, showsError_sourceLine number text _ List.mem_cons_self⟩
  · refine exists_shownLine_iff hcurrent scroll hheight (fun mark number text => ?_) j
    constructor
    · intro herror
      exact Decidable.byContradiction fun hmark =>
        not_showsError_sourceLine hmark number text _ List.mem_cons_self
          (herror _ List.mem_cons_self)
    · rintro rfl
      exact showsError_sourceLine number text

/-- A pane that has room for all lines of a source flags the line of an error, and no other row. -/
theorem flagged_sourcePane_iff (hcurrent : 0 < current) (hline : 0 < line) (focused : Bool)
    (scroll : Scroll) {width : Nat} (hwidth : 0 < inside width)
    (hheight : (linesOf source).length ≤ inside height) (i : Nat) :
    (∃ row ∈ (sourcePane source current (some line) focused scroll width height).2[i]?, Flagged row)
      ↔ i = line ∧ line ≤ (linesOf source).length := by
  have hborder := not_showsError_border focused
  have hroom : (shownLines source current (some line) scroll height).2.length ≤ inside height := by
    rw [shownLines_eq hcurrent _ _ hheight]
    simpa using hheight
  have hrows : ∀ j, (∃ spans ∈ (shownLines source current (some line) scroll height).2[j]?,
      Flagged (innerRow (Theme.border focused) width spans))
      ↔ j + 1 = line ∧ line ≤ (linesOf source).length :=
    exists_shownLine_iff hcurrent scroll hheight (flagged_sourceLine_iff hwidth hborder)
  simp only [sourcePane]
  rw [flagged_pane_iff hborder hroom]
  constructor
  · rintro ⟨j, rfl, hflagged⟩
    exact (hrows j).1 hflagged
  · rintro ⟨rfl, hlast⟩
    exact ⟨i - 1, by omega, (hrows (i - 1)).2 ⟨by omega, hlast⟩⟩

end

end Jack
