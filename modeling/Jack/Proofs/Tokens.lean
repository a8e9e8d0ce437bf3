import Jack.Token.Lexer

/-! What holds of every token of a text. -/

namespace Jack

/-- A property of words that holds of marks, and of words and strings as the lexer ends them. -/
structure Lexed (P : Lexeme → Prop) : Prop where
  symbol : ∀ m, P (.symbol m)
  word : ∀ w l, Lexeme.ofWord? w = some l → P l
  string : ∀ text, fitsConstants text = true → P (.string (String.ofList text))

namespace Lexer

variable {P : Lexeme → Prop}

def State.All (P : Lexeme → Prop) (s : State) : Prop := ∀ t ∈ s.tokens, P t.lexeme

theorem all_enter (hP : Lexed P) {tokens : List Token} (h : ∀ t ∈ tokens, P t.lexeme)
    {here : Position} {c : Char} {s : State} (hs : enter tokens here c = .ok s) : s.All P := by
  unfold enter at hs
  split at hs
  · cases hs; exact h
  · split at hs
    · cases hs; exact h
    · split at hs
      · cases hs; exact h
      · split at hs
        · cases hs; exact h
        · split at hs
          · rename_i m _
            cases hs
            exact List.forall_mem_cons.2 ⟨hP.symbol m, h⟩
          · cases hs

theorem all_closeWord (hP : Lexed P) {start : Position} {reversed : List Char} {t : Token}
    (h : closeWord start reversed = .ok t) : P t.lexeme := by
  unfold closeWord at h
  split at h
  · rename_i l hl
    cases h
    exact hP.word _ l hl
  · cases h

theorem all_closeString (hP : Lexed P) {start : Position} {reversed : List Char} {t : Token}
    (h : closeString start reversed = .ok t) : P t.lexeme := by
  unfold closeString at h
  split at h
  · rename_i hf
    cases h
    exact hP.string _ hf
  · cases h

theorem all_read (hP : Lexed P) {s t : State} {c : Char} (h : s.All P)
    (ht : s.read c = .ok t) : t.All P := by
  unfold State.read at ht
  split at ht
  · exact all_enter hP h ht
  · split at ht
    · cases ht; exact h
    · split at ht
      · cases ht; exact h
      · exact all_enter hP (List.forall_mem_cons.2 ⟨hP.symbol .slash, h⟩) ht
  · split at ht
    · cases ht; exact h
    · split at ht
      · rename_i hw
        exact all_enter hP (List.forall_mem_cons.2 ⟨all_closeWord hP hw, h⟩) ht
      · cases ht
  · split at ht
    · split at ht
      · rename_i hw
        cases ht
        exact List.forall_mem_cons.2 ⟨all_closeString hP hw, h⟩
      · cases ht
    · split at ht
      · cases ht
      · cases ht; exact h
  · cases ht; exact h
  · split at ht
    · cases ht; exact h
    · cases ht; exact h

theorem all_finish (hP : Lexed P) {s : State} {stream : TokenStream} (h : s.All P)
    (hs : s.finish = .ok stream) : ∀ t ∈ stream.tokens, P t.lexeme := by
  have hrev : ∀ {ts : List Token}, (∀ t ∈ ts, P t.lexeme) → ∀ t ∈ ts.reverse, P t.lexeme :=
    fun hts t ht => hts t (List.mem_reverse.1 ht)
  unfold State.finish at hs
  split at hs
  · cases hs; exact hrev h
  · cases hs; exact hrev h
  · cases hs; exact hrev (List.forall_mem_cons.2 ⟨hP.symbol .slash, h⟩)
  · split at hs
    · rename_i hw
      cases hs
      exact hrev (List.forall_mem_cons.2 ⟨all_closeWord hP hw, h⟩)
    · cases hs
  · cases hs
  · cases hs

theorem all_run (hP : Lexed P) {s : State} {cs : List Char} {stream : TokenStream} (h : s.All P)
    (hs : s.run cs = .ok stream) : ∀ t ∈ stream.tokens, P t.lexeme := by
  induction cs generalizing s with
  | nil => exact all_finish hP h hs
  | cons c cs ih =>
    rw [State.run] at hs
    split at hs
    · rename_i ht
      exact ih (all_read hP h ht) hs
    · cases hs

end Lexer

/-- A property of words that the lexer keeps holds of every token of a text. -/
theorem forall_mem_tokens {P : Lexeme → Prop} (hP : Lexed P) {source : String}
    {stream : TokenStream} (h : tokenize source = .ok stream) : ∀ t ∈ stream.tokens, P t.lexeme :=
  Lexer.all_run hP (fun _ ht => absurd ht List.not_mem_nil) h

/-- No identifier is spelled like a reserved word. -/
theorem lexed_not_reserved : Lexed fun l => ∀ k : Keyword, l ≠ .identifier k.spelling := by
  refine ⟨fun m k => by simp, fun w l hl k hk => ?_, fun text _ k => by simp⟩
  subst hk
  unfold Lexeme.ofWord? at hl
  split at hl
  · cases hl
  · rename_i hnone
    split at hl
    · split at hl <;> cases hl
    · split at hl
      · cases hl
      · injection hl with hl
        injection hl with hl
        rw [Keyword.ofSpelling?_eq_some_iff.2 hl.symm] at hnone
        cases hnone

end Jack
