import Jack.Proofs.Lexing
import Jack.Proofs.Places
import Jack.Proofs.Scrolling
import Jack.Proofs.Selection

/-! What a viewer shows. However it has been used, once it is drawn the selected instruction and
its line are in view, and no pane is scrolled past the end of what it shows. -/

namespace Jack

/-! ### The lines of a text -/

theorem length_le_splitLines (reversed : List Char) (done : List (List Char)) (cs : List Char) :
    done.length ≤ (splitLines reversed done cs).length := by
  induction cs generalizing reversed done with
  | nil =>
    rw [splitLines, List.length_reverse]
    split
    · exact Nat.le_refl _
    · exact Nat.le_succ _
  | cons c cs ih =>
    rw [splitLines]
    split
    · exact Nat.le_trans (Nat.le_succ _) (ih [] (closeLine reversed :: done))
    · exact ih _ _

/-- A line that has begun is one of the lines. -/
theorem length_lt_splitLines {reversed : List Char} (h : reversed ≠ []) (done : List (List Char))
    (cs : List Char) : done.length < (splitLines reversed done cs).length := by
  induction cs generalizing reversed with
  | nil => simp [splitLines, h]
  | cons c cs ih =>
    rw [splitLines]
    split
    · exact length_le_splitLines [] (closeLine reversed :: done) cs
    · exact ih (List.cons_ne_nil _ _)

theorem count_lt_splitLines {c : Char} (hc : c ≠ '\n') (reversed : List Char)
    (done : List (List Char)) (before after : List Char) :
    done.length + before.count '\n' < (splitLines reversed done (before ++ c :: after)).length := by
  induction before generalizing reversed done with
  | nil =>
    rw [List.nil_append, splitLines, if_neg hc]
    exact length_lt_splitLines (List.cons_ne_nil _ _) done after
  | cons b before ih =>
    rw [List.cons_append, splitLines, List.count_cons]
    by_cases hb : b = '\n'
    · have hline := ih [] (closeLine reversed :: done)
      rw [List.length_cons] at hline
      rw [if_pos hb, if_pos (by simp [hb])]
      omega
    · have hline := ih (b :: reversed) done
      rw [if_neg hb, if_neg (by simp [hb])]
      omega

/-- No token begins with a line feed. -/
theorem Lexeme.WrittenAs.exists_cons {l : Lexeme} {cs : List Char} (hv : l.Valid)
    (h : l.WrittenAs cs) : ∃ c rest, cs = c :: rest ∧ c ≠ '\n' := by
  by_cases hword : l.IsWord
  · obtain ⟨hne, hall⟩ := h.word hword hv
    obtain ⟨c, rest, rfl⟩ := List.exists_cons_of_ne_nil hne
    refine ⟨c, rest, rfl, ?_⟩
    rintro rfl
    have hfeed := hall _ List.mem_cons_self
    cases hfeed
  · cases l with
    | symbol m => exact ⟨m.char, [], h, by cases m <;> decide⟩
    | string text => exact ⟨'"', _, h, by decide⟩
    | keyword k | integer n | identifier name => exact absurd trivial hword

theorem LaidOut.line_le {pieces : List Piece} {last before : List Char} {t : Token}
    (h : LaidOut last pieces) (ht : t ∈ tokensAfter before pieces) :
    0 < t.position.line
      ∧ t.position.line ≤ (splitLines [] [] (before ++ charsOf pieces last)).length := by
  induction pieces generalizing before with
  | nil => cases ht
  | cons x xs ih =>
    obtain ⟨-, hv, hw, -, hxs⟩ := h
    rw [charsOf_cons]
    rcases List.mem_cons.1 ht with rfl | ht
    · obtain ⟨c, rest, hc, hfeed⟩ := hw.exists_cons hv
      have hcount := count_lt_splitLines hfeed [] [] (before ++ x.gap) (rest ++ charsOf xs last)
      rw [hc, ← List.append_assoc]
      simp only [placeAfter, List.length_nil, Nat.zero_add, List.cons_append] at hcount ⊢
      omega
    · have hline := ih hxs ht
      rwa [Piece.chars, List.append_assoc, List.append_assoc] at hline

/-- Every token stands on one of the lines of its text. -/
theorem line_of_mem_tokens {source : String} {stream : TokenStream} {t : Token}
    (h : tokenize source = .ok stream) (ht : t ∈ stream.tokens) :
    0 < t.position.line ∧ t.position.line ≤ (linesOf source).length := by
  obtain ⟨y, hlaid, htext, rfl⟩ := exists_layout h
  rw [linesOf, ← htext]
  exact hlaid.line_le ht

/-! ### Using the viewer -/

/-- The viewer of a source, with the instructions up to the first error. -/
def Viewer.ofSource (source : String) (outlined : Bool) : Viewer :=
  match compilation source outlined with
  | .ok c => .initial source c.instructions c.error?
  | .error e => .initial source [] (some (.lexical e))

/-- The viewer is one of these instructions of a source, and one of them is selected. -/
structure Viewer.Views (v : Viewer) (source : String) (code : List Emitted) : Prop where
  source : v.source = source
  instructions : v.instructions = code
  selected : v.selected < code.length

namespace Viewer

variable {v : Viewer} {source : String} {code : List Emitted}

/-- To draw changes nothing but how the panes are scrolled. -/
theorem fst_draw (v : Viewer) (screen : Extent) :
    (v.draw screen).1 = { v with
      sourceScroll := followLine v.sourceScroll v.currentLine (linesOf v.source).length
        (visibleRows (screen.height - 1))
      codeScroll := v.codeScroll.follow v.selected v.instructions.length
        (visibleRows (screen.height - 1)) } := rfl

/-- The viewer shows the selected instruction and its line, in panes of so many rows. -/
structure Shows (v : Viewer) (source : String) (code : List Emitted) (rows : Nat) : Prop where
  instruction : v.codeScroll.Shows rows v.selected
  line : ∃ e, code[v.selected]? = some e ∧ v.currentLine = e.position.line
    ∧ 0 < e.position.line ∧ e.position.line ≤ (linesOf source).length
    ∧ v.sourceScroll.Shows rows (e.position.line - 1)
  fillsCode : v.codeScroll.Fills rows code.length
  fillsSource : v.sourceScroll.Fills rows (linesOf source).length

/-- A viewer whose instructions stand on lines of the source shows them once it is drawn. -/
theorem Views.shows_draw (h : v.Views source code)
    (hcode : ∀ e ∈ code, 0 < e.position.line ∧ e.position.line ≤ (linesOf source).length)
    (screen : Extent) :
    (v.draw screen).1.Shows source code (visibleRows (screen.height - 1)) := by
  obtain ⟨rfl, rfl, hselected⟩ := h
  have hrows : 0 < visibleRows (screen.height - 1) := by
    unfold visibleRows
    omega
  obtain ⟨e, he⟩ : ∃ e, v.instructions[v.selected]? = some e :=
    ⟨_, List.getElem?_eq_getElem hselected⟩
  obtain ⟨hfirst, hlast⟩ := hcode e (List.mem_of_getElem? he)
  have hline : v.currentLine = e.position.line := by
    rw [currentLine, he]
  rw [fst_draw, followLine, hline, if_pos hfirst]
  refine ⟨?_, ⟨e, he, hline, hfirst, hlast, ?_⟩, ?_, ?_⟩
  · exact Scroll.shows_follow _ hselected hrows
  · exact Scroll.shows_follow _ (by omega) hrows
  · exact Scroll.fills_follow _ _ _ _
  · exact Scroll.fills_follow _ _ _ _

theorem views_ofSource {outlined : Bool} (h : (ofSource source outlined).instructions ≠ []) :
    (ofSource source outlined).Views source (ofSource source outlined).instructions := by
  refine ⟨?_, rfl, ?_⟩
  · unfold ofSource
    split
    · rfl
    · rfl
  · have hselected : (ofSource source outlined).selected = 0 := by
      unfold ofSource
      split
      · rfl
      · rfl
    rw [hselected]
    exact List.length_pos_iff.2 h

/-- Every instruction stands on a line of the source. -/
theorem line_of_mem_instructions {outlined : Bool} {e : Emitted}
    (h : e ∈ (ofSource source outlined).instructions) :
    0 < e.position.line ∧ e.position.line ≤ (linesOf source).length := by
  unfold ofSource compilation at h
  cases hs : tokenize source with
  | error fault =>
    rw [hs] at h
    cases h
  | ok stream =>
    rw [hs] at h
    obtain ⟨t, ht, hposition⟩ := TokenStream.exists_token_of_instruction h
    rw [← hposition]
    exact line_of_mem_tokens hs ht

end Viewer

namespace Display

variable {d : Display} {source : String} {code : List Emitted}

theorem views_use (h : d.viewer.Views source code) (acts : List Act) :
    (d.use acts).viewer.Views source code := by
  have hkeeps := d.keeps_use acts
  have hlast : d.viewer.selected ≤ d.viewer.last := by
    rw [Viewer.last, h.instructions]
    exact Nat.le_sub_one_of_lt h.selected
  have hwithin := Display.within_use hlast acts
  have hcode := hkeeps.instructions.trans h.instructions
  refine ⟨hkeeps.source.trans h.source, hcode, ?_⟩
  rcases hwithin.cases with hselected | ⟨hnil, -⟩
  · rwa [hcode] at hselected
  · rw [← hcode, hnil] at h
    exact absurd h.selected (Nat.not_lt_zero _)

end Display

/-- The last row of the screen is the status bar's, and two are the borders of the panes. -/
theorem visibleRows_of_screen {height : Nat} (h : 4 ≤ height) :
    visibleRows (height - 1) = height - 3 := by
  unfold visibleRows inside
  omega

/-- However a viewer of some instructions is used, once it is drawn it shows the selected one and
its line, on any screen that leaves room for a row. The screen is the one that the drawing package
gives, which `Extent.ofSize` makes smaller where the terminal has too many cells. -/
theorem drawn_viewer_shows_selection {source : String} {outlined : Bool} {code : List Emitted}
    (hcode : (Viewer.ofSource source outlined).instructions = code) (hne : code ≠ [])
    (screen : Extent) (acts : List Act) {d : Display}
    (hd : Display.use ⟨.ofSource source outlined, screen⟩ acts = d)
    (hheight : 4 ≤ d.screen.height) :
    (d.act .draw).viewer.Shows source code (d.screen.height - 3) := by
  subst hcode hd
  have hviews := Display.views_use (d := ⟨.ofSource source outlined, screen⟩)
    (Viewer.views_ofSource hne) acts
  rw [← visibleRows_of_screen hheight]
  exact hviews.shows_draw (fun e he => Viewer.line_of_mem_instructions he) _

def functionOnFiveLines : String :=
  "class A\x7b\nfunction void f()\x7b\nreturn;\n\x7d\n\x7d"

theorem small_screen_shows_last_instruction :
    ∃ code d, (Viewer.ofSource functionOnFiveLines false).instructions = code
      ∧ code.map Emitted.instruction = [.function "A.f" 0, .push .constant 0, .return_]
      ∧ Display.use ⟨.ofSource functionOnFiveLines false, ⟨80, 24⟩⟩
          [.draw, .press .up, .press .enter, .resize ⟨20, 4⟩] = d
      ∧ d.viewer.selected = 2 ∧ d.screen.height = 4
      ∧ (d.act .draw).viewer.Shows functionOnFiveLines code 1 := by
  have hcode : (Viewer.ofSource functionOnFiveLines false).instructions
      = [⟨.function "A.f" 0, ⟨2, 17⟩⟩, ⟨.push .constant 0, ⟨3, 1⟩⟩, ⟨.return_, ⟨3, 7⟩⟩] := by rfl
  refine ⟨_, _, hcode, rfl, rfl, ?_, rfl, ?_⟩
  · exact congrArg (fun code => code.length - 1) hcode
  · exact drawn_viewer_shows_selection hcode (List.cons_ne_nil _ _) _ _ rfl (Nat.le_refl 4)

end Jack
