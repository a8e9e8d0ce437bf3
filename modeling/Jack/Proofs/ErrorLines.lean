import Jack.Proofs.Faults
import Jack.Proofs.Flagging
import Jack.Proofs.Viewing

/-! The line of an error. The pane of the source flags one row for it, unless the text ended too
early with nothing on its last line: then the error is past the last line that the pane has. -/

namespace Jack

/-! ### The viewer of a source that fails -/

/-- The text has ended with no character on its last line, and the place is there. -/
def PastLines (source : String) (p : Position) : Prop :=
  p = placeAfter source.toList ∧ ∀ c ∈ source.toList.getLast?, c = '\n'

theorem length_splitLines_of_lineFeed (reversed : List Char) (done : List (List Char))
    (cs : List Char) :
    (splitLines reversed done (cs ++ ['\n'])).length = done.length + cs.count '\n' + 1 := by
  induction cs generalizing reversed done with
  | nil => simp [splitLines]
  | cons c cs ih =>
    rw [List.cons_append, splitLines, List.count_cons]
    by_cases hc : c = '\n'
    · rw [if_pos hc, ih, if_pos (by simp [hc]), List.length_cons]
      omega
    · rw [if_neg hc, ih, if_neg (by simp [hc])]
      omega

section

variable {source : String} {p : Position}

theorem line_of_standsIn (h : StandsIn source.toList p) :
    0 < p.line ∧ p.line ≤ (linesOf source).length := by
  obtain ⟨before, c, after, htext, hc, rfl⟩ := h
  have hcount := count_lt_splitLines hc [] [] before after
  rw [linesOf, htext]
  simp only [placeAfter, List.length_nil, Nat.zero_add] at hcount ⊢
  omega

/-- The end of a text is past its lines, unless a character stands on the last of them. -/
theorem line_placeAfter_le_iff :
    (placeAfter source.toList).line ≤ (linesOf source).length
      ↔ ¬∀ c ∈ source.toList.getLast?, c = '\n' := by
  rw [linesOf]
  rcases List.eq_nil_or_concat source.toList with htext | ⟨before, c, htext⟩
  · simp [htext, placeAfter, splitLines]
  · rw [htext, List.concat_eq_append, List.getLast?_concat]
    simp only [Option.mem_some_iff, forall_eq', placeAfter, List.count_append]
    by_cases hc : c = '\n'
    · subst hc
      have hlength := length_splitLines_of_lineFeed [] [] before
      simp at hlength ⊢
      omega
    · have hcount := count_lt_splitLines hc [] [] before []
      simp [hc] at hcount ⊢
      omega

/-- A place on a line is not past the lines; the end of the text may be. -/
theorem line_le_iff_of_place
    (h : 0 < p.line ∧ p.line ≤ (linesOf source).length ∨ p = placeAfter source.toList) :
    0 < p.line ∧ (p.line ≤ (linesOf source).length ↔ ¬PastLines source p) := by
  rcases h with ⟨hfirst, hlast⟩ | rfl
  · refine ⟨hfirst, ⟨?_, fun _ => hlast⟩⟩
    rintro - ⟨rfl, hend⟩
    exact line_placeAfter_le_iff.1 hlast hend
  · have hfirst : 0 < 1 + source.toList.count '\n' := by omega
    refine ⟨hfirst, line_placeAfter_le_iff.trans (not_congr ?_)⟩
    exact ⟨fun hend => ⟨rfl, hend⟩, fun hpast => hpast.2⟩

end

namespace Viewer

theorem source_ofSource (source : String) (outlined : Bool) :
    (ofSource source outlined).source = source := by
  unfold ofSource
  split
  · rfl
  · rfl

/-- An error stands on a line of the source, or at its end. -/
theorem place_of_error {source : String} {outlined : Bool} {e : CompileError} {p : Position}
    (h : (ofSource source outlined).error? = some e) (hp : e.position? = some p) :
    0 < p.line ∧ p.line ≤ (linesOf source).length ∨ p = placeAfter source.toList := by
  unfold ofSource compilation at h
  cases hs : tokenize source with
  | error fault =>
    rw [hs] at h
    cases h
    cases hp
    exact Or.inl (line_of_standsIn (standsIn_of_fault hs))
  | ok stream =>
    rw [hs] at h
    have hfinish : stream.finish = placeAfter source.toList := by
      obtain ⟨y, -, htext, rfl⟩ := exists_layout hs
      rw [← htext]
      rfl
    have htokens : ∀ t ∈ stream.tokens,
        0 < t.position.line ∧ t.position.line ≤ (linesOf source).length := by
      intro t ht
      exact line_of_mem_tokens hs ht
    obtain ⟨q, hq, hplace⟩ := (TokenStream.within_compile
      (Q := fun p => 0 < p.line ∧ p.line ≤ (linesOf source).length ∨ p = placeAfter source.toList)
      (fun _ hline => Or.inl hline) htokens (Or.inr hfinish)).2 e h
    rw [hp] at hq
    cases hq
    exact hplace

end Viewer

/-- The rows of the source pane of a viewer, in a part of the screen of this size. -/
def Viewer.sourceRows (v : Viewer) (width height : Nat) : List Row :=
  (sourcePane v.source v.currentLine v.errorLine? (v.focus = .source) v.sourceScroll width
    height).2

/-- The lines that the source pane of a viewer, in a part of the screen of this height, hands on to
be drawn. -/
def Viewer.sourceLines (v : Viewer) (height : Nat) : List (List Span) :=
  (shownLines v.source v.currentLine v.errorLine? v.sourceScroll height).2

/-- There is always a current line in a viewer with an error line: the line of an instruction, or
that of the error. -/
theorem Viewer.currentLine_pos {v : Viewer} {line : Nat} (hline : 0 < line)
    (herror : v.errorLine? = some line) (hcode : ∀ e ∈ v.instructions, 0 < e.position.line) :
    0 < v.currentLine := by
  unfold currentLine
  cases hselected : v.instructions[v.selected]? with
  | none =>
    rw [herror]
    exact hline
  | some e => exact hcode e (List.mem_of_getElem? hselected)

/-- However the viewer of a failed source is used, its error line is one of the lines of the source
and the pane of the source, where it has room for all lines, hands this line alone on in the colors
of errors, and its row is the only one that is flagged. The exception is an error at the end of a
text whose last line has ended or that is empty: it is past the lines, and no row is flagged. -/
theorem error_line_flagged_iff {source : String} {outlined : Bool} {e : CompileError} {p : Position}
    (herror : (Viewer.ofSource source outlined).error? = some e) (hp : e.position? = some p)
    (screen : Extent) (acts : List Act) {d : Display}
    (hd : Display.use ⟨.ofSource source outlined, screen⟩ acts = d) :
    d.viewer.errorLine? = some p.line ∧ 0 < p.line
      ∧ (p.line ≤ (linesOf source).length ↔ ¬PastLines source p)
      ∧ (∀ height, (linesOf source).length ≤ inside height → ∀ j,
          ((∃ spans ∈ (d.viewer.sourceLines height)[j]?, ∃ span ∈ spans, span.style.ShowsError)
            ↔ j + 1 = p.line ∧ ¬PastLines source p)
          ∧ ((∃ spans ∈ (d.viewer.sourceLines height)[j]?, ∀ span ∈ spans, span.style.ShowsError)
            ↔ j + 1 = p.line ∧ ¬PastLines source p))
      ∧ ∀ width height, 0 < inside width → (linesOf source).length ≤ inside height → ∀ i,
          (∃ row ∈ (d.viewer.sourceRows width height)[i]?, Flagged row)
            ↔ i = p.line ∧ ¬PastLines source p := by
  subst hd
  obtain ⟨hfirst, hlast⟩ := line_le_iff_of_place (Viewer.place_of_error herror hp)
  have hkeeps := Display.keeps_use ⟨.ofSource source outlined, screen⟩ acts
  have hline : (Display.use ⟨.ofSource source outlined, screen⟩ acts).viewer.errorLine?
      = some p.line := by
    rw [Viewer.errorLine?, hkeeps.error]
    simp only [herror, Option.bind_some, hp, Option.map_some]
  have hsource : (Display.use ⟨.ofSource source outlined, screen⟩ acts).viewer.source = source :=
    hkeeps.source.trans (Viewer.source_ofSource source outlined)
  have hcurrent :
      0 < (Display.use ⟨.ofSource source outlined, screen⟩ acts).viewer.currentLine := by
    apply Viewer.currentLine_pos hfirst hline
    intro line hmem
    rw [hkeeps.instructions] at hmem
    exact (Viewer.line_of_mem_instructions hmem).1
  refine ⟨hline, hfirst, hlast, ?_, ?_⟩
  · intro height hheight j
    rw [Viewer.sourceLines, hline, hsource, ← hlast]
    exact showsError_shownLines_iff hcurrent _ hheight j
  · intro width height hwidth hheight i
    rw [Viewer.sourceRows, hline, hsource,
      flagged_sourcePane_iff hcurrent hfirst _ _ hwidth hheight, hlast]

def stringOpenOnSecondLine : String := "class A\x7b\n\"open\n\x7d\n"

theorem open_string_flagged_on_second_line :
    ∃ e d, (Viewer.ofSource stringOpenOnSecondLine false).error? = some e
      ∧ e.position? = some ⟨2, 1⟩
      ∧ Display.use ⟨.ofSource stringOpenOnSecondLine false, ⟨80, 24⟩⟩
          [.draw, .press .tab, .press .up] = d
      ∧ d.viewer.errorLine? = some 2
      ∧ (∀ j, (∃ spans ∈ (d.viewer.sourceLines 6)[j]?, ∀ span ∈ spans, span.style.ShowsError)
        ↔ j = 1)
      ∧ ∀ i, (∃ row ∈ (d.viewer.sourceRows 30 6)[i]?, Flagged row) ↔ i = 2 := by
  have herror : (Viewer.ofSource stringOpenOnSecondLine false).error?
      = some (.lexical ⟨.unterminatedString, "\"open", ⟨2, 1⟩⟩) := by rfl
  have hlines : (linesOf stringOpenOnSecondLine).length = 3 := by rfl
  obtain ⟨hline, -, hlast, hshown, hrows⟩ := error_line_flagged_iff herror rfl ⟨80, 24⟩
    [.draw, .press .tab, .press .up] rfl
  rw [hlines] at hlast hshown hrows
  have hwithin : ¬PastLines stringOpenOnSecondLine ⟨2, 1⟩ := hlast.1 (by decide)
  refine ⟨_, _, herror, rfl, rfl, hline, fun j => ?_, fun i => ?_⟩
  · rw [(hshown 6 (by decide) j).2]
    exact ⟨fun h => Nat.succ.inj h.1, fun h => ⟨congrArg Nat.succ h, hwithin⟩⟩
  · rw [hrows 30 6 (by decide) (by decide) i]
    exact ⟨fun h => h.1, fun h => ⟨h, hwithin⟩⟩

/-- A class that its text leaves open, with a line feed at the end. -/
def classOnOneOpenLine : String := "class A\x7b\n"

/-- The error of an open class is on no line that the pane has, and no row is flagged for it. -/
theorem error_of_open_class_flags_nothing :
    (Viewer.ofSource classOnOneOpenLine false).errorLine? = some 2
      ∧ (linesOf classOnOneOpenLine).length = 1
      ∧ (∀ j : Nat, ¬∃ spans ∈ ((Viewer.ofSource classOnOneOpenLine false).sourceLines 6)[j]?,
          ∃ span ∈ spans, span.style.ShowsError)
      ∧ ∀ i : Nat, ¬∃ row ∈ ((Viewer.ofSource classOnOneOpenLine false).sourceRows 30 6)[i]?,
          Flagged row := by
  have hline : (Viewer.ofSource classOnOneOpenLine false).errorLine? = some 2 := by rfl
  have hcurrent : (Viewer.ofSource classOnOneOpenLine false).currentLine = 2 := by rfl
  have hlines : (linesOf classOnOneOpenLine).length = 1 := by rfl
  have hroom : (linesOf classOnOneOpenLine).length ≤ inside 6 := by
    rw [hlines]
    decide
  refine ⟨hline, hlines, fun j => ?_, fun i => ?_⟩
  · rw [Viewer.sourceLines, hline, hcurrent, Viewer.source_ofSource,
      (showsError_shownLines_iff (by decide) _ hroom j).1, hlines]
    omega
  · rw [Viewer.sourceRows, hline, hcurrent, Viewer.source_ofSource,
      flagged_sourcePane_iff (by decide) (by decide) _ _ (by decide) hroom, hlines]
    omega

end Jack
