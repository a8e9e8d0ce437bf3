import Jack.Proofs.ByteOrder
import Jack.Proofs.Independence
import Jack.Proofs.OutlineTree

/-! A source is no part of its own outputs: it begins with a gap or with the word for classes, its
instructions with a header or with nothing, its outline with a bracket. -/

namespace Jack

variable {source text : String} {outlined : Bool} {result : CompiledClass}

/-- A character that the text of a class can begin with. -/
def BeginsClass (c : Char) : Prop := isBlank c = true ∨ c = '/' ∨ c = 'c'

theorem IsGap.begins {gap rest : List Char} (h : IsGap gap)
    (hrest : ∃ c ∈ rest.head?, BeginsClass c) : ∃ c ∈ (gap ++ rest).head?, BeginsClass c := by
  cases h with
  | nil => exact hrest
  | blank hc _ => exact ⟨_, rfl, Or.inl hc⟩
  | lineComment _ _ => exact ⟨_, rfl, Or.inr (Or.inl rfl)⟩
  | blockComment _ _ => exact ⟨_, rfl, Or.inr (Or.inl rfl)⟩

theorem begins_of_compile (h : compile source outlined = .ok result) :
    ∃ c ∈ source.toList.head?, BeginsClass c := by
  obtain ⟨stream, hs, ⟨c, hc⟩, -⟩ := accepted_of_compile h
  obtain ⟨y, hvalid, htext, hstream, -⟩ := tokens_lay_out_text hs
  have hlexemes : c.lexemes = y.pieces.map Piece.lexeme := by
    rw [hc, ← hstream]
    exact lexeme_tokensAfter [] y.pieces
  cases hpieces : y.pieces with
  | nil =>
    rw [hpieces] at hlexemes
    cases hlexemes
  | cons x pieces =>
    have hx : x ∈ y.pieces := hpieces ▸ List.mem_cons_self
    have hword : x.lexeme = .keyword .class_ := by
      rw [hpieces] at hlexemes
      exact (List.cons.inj hlexemes).1.symm
    have hspelling : x.text = Keyword.class_.spelling.toList := by
      have hwritten := (hvalid.tokens x hx).2
      rw [hword] at hwritten
      exact hwritten
    rw [← htext, Layout.text, hpieces, charsOf_cons, hspelling]
    exact (hvalid.gaps x hx).begins ⟨_, rfl, Or.inr (Or.inr rfl)⟩

theorem toList_render (before : String) (lines : List Emitted) :
    (lines.foldl (fun text e => text ++ e.instruction.text ++ "\n") before).toList
      = before.toList ++ (render lines).toList := by
  unfold render
  induction lines generalizing before with
  | nil => simp
  | cons e rest ih =>
    rw [List.foldl_cons, List.foldl_cons, ih, ih ("" ++ e.instruction.text ++ "\n")]
    simp

/-- The text of instructions begins with the header of their first function. -/
theorem head?_code_of_compile (h : compile source outlined = .ok result) :
    ∀ c ∈ result.code.toList.head?, c = 'f' := by
  obtain ⟨stream, -, ⟨c, hc⟩, hall⟩ := accepted_of_compile h
  obtain ⟨-, hcode⟩ := hall c hc
  rw [CompiledClass.code]
  cases hlines : result.instructions with
  | nil =>
    intro c hc
    cases hc
  | cons e rest =>
    rw [hlines, List.map_cons, ClassDec.code] at hcode
    cases hsubroutines : c.subroutines with
    | nil =>
      rw [hsubroutines] at hcode
      cases hcode
    | cons d ds =>
      rw [hsubroutines] at hcode
      have hfirst : e.instruction
          = .function (c.name ++ "." ++ d.name) (UInt16.ofNat d.localCount) :=
        (List.cons.inj hcode).1
      intro c hc
      rw [render, List.foldl_cons, toList_render, hfirst] at hc
      simpa [Instruction.text, eq_comm] using hc

/-- The text of an outline begins with a bracket. -/
theorem head?_outline_of_compile (h : compile source outlined = .ok result)
    (ht : result.outline? = some text) : text.toList.head? = some '<' := by
  have houtlined := outlined_of_outline h ht
  subst houtlined
  obtain ⟨stream, -, ⟨c, hc⟩, hall⟩ := outline_of_compile h
  obtain ⟨-, -, houtline⟩ := hall c hc
  have htext : text = renderEntries "" 0 c.outline := Option.some.inj (ht.symm.trans houtline)
  obtain ⟨entries, hentries⟩ : ∃ entries, c.outline = .enter Production.class_.name :: entries :=
    ⟨_, rfl⟩
  obtain ⟨cs, hline⟩ : ∃ cs,
      (OutlineEntry.line 0 (.enter Production.class_.name)).toList = '<' :: cs :=
    ⟨_, rfl⟩
  rw [htext, hentries, renderEntries_cons, String.toList_append, hline]
  rfl

theorem not_part_of_code (h : compile source outlined = .ok result) :
    ¬bytesOf source <+: bytesOf result.code := by
  obtain ⟨c, hc, hbegins⟩ := begins_of_compile h
  refine not_bytesOf_part hc fun d hd => ?_
  rintro rfl
  rw [head?_code_of_compile h d hd] at hbegins
  revert hbegins
  unfold BeginsClass
  decide

theorem not_part_of_outline (h : compile source outlined = .ok result)
    (ht : result.outline? = some text) : ¬bytesOf source <+: bytesOf text := by
  obtain ⟨c, hc, hbegins⟩ := begins_of_compile h
  refine not_bytesOf_part hc fun d hd => ?_
  rintro rfl
  rw [head?_outline_of_compile h ht] at hd
  cases hd
  revert hbegins
  unfold BeginsClass
  decide

end Jack
