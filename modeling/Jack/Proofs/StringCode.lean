import Jack.Proofs.Constants
import Jack.Proofs.Passes

/-! The code of a string. It names the number of characters and then each of them, and the lexer
admits a string only if a word of the machine holds all of these numbers. So nothing is lost on the
way into the code, and the string can be read out of it again. -/

namespace Jack

/-! ### Numbers that a word holds -/

theorem toNat_ofNat_of_le_largestInteger {n : Nat} (h : n ≤ largestInteger) :
    (UInt16.ofNat n).toNat = n := by
  have hword : largestInteger ≤ 65535 := by decide
  exact toNat_ofNat (Nat.le_trans h hword)

/-- The codes of the characters, as the words that are pushed. -/
def letterCodes (cs : List Char) : List UInt16 := cs.map fun c => UInt16.ofNat c.toNat

theorem stringCode_eq (text : String) :
    stringCode text = .push .constant (UInt16.ofNat text.length) :: .call Routine.newString 1
      :: (letterCodes text.toList).flatMap
        fun code => [.push .constant code, .call Routine.appendChar 2] := by
  rw [stringCode, letterCodes, List.flatMap_map]
  rfl

theorem toNat_letterCodes {cs : List Char} (h : ∀ c ∈ cs, c.toNat ≤ largestInteger) :
    (letterCodes cs).map UInt16.toNat = cs.map Char.toNat := by
  rw [letterCodes, List.map_map]
  refine List.map_congr_left ?_
  intro c hc
  exact toNat_ofNat_of_le_largestInteger (h c hc)

/-! ### Reading a string out of code -/

/-- Reads so many letters at the front of some code, and leaves the code behind them. -/
def letters? : Nat → List Instruction → Option (List Char × List Instruction)
  | 0, code => some ([], code)
  | n + 1, .push .constant letter :: .call routine args :: code =>
    if routine = Routine.appendChar ∧ args = 2 then
      (letters? n code).map fun read => (Char.ofNat letter.toNat :: read.1, read.2)
    else none
  | _ + 1, _ => none

/-- Reads a string at the front of some code: how many letters it has, and the letters. -/
def text? : List Instruction → Option (String × List Instruction)
  | .push .constant length :: .call routine args :: code =>
    if routine = Routine.newString ∧ args = 1 then
      (letters? length.toNat code).map fun read => (String.ofList read.1, read.2)
    else none
  | _ => none

theorem letters?_append {cs : List Char} (h : ∀ c ∈ cs, c.toNat ≤ largestInteger)
    (rest : List Instruction) :
    letters? cs.length (cs.flatMap appendCode ++ rest) = some (cs, rest) := by
  induction cs with
  | nil => rfl
  | cons c cs ih =>
    obtain ⟨hc, hcs⟩ := List.forall_mem_cons.1 h
    rw [List.flatMap_cons, List.append_assoc, appendCode, List.length_cons, List.cons_append,
      List.singleton_append, letters?, if_pos ⟨rfl, rfl⟩, ih hcs,
      toNat_ofNat_of_le_largestInteger hc, Char.ofNat_toNat, Option.map_some]

/-- What is read is the string that the code was made for. -/
theorem text?_stringCode {text : String} (h : (Lexeme.string text).FitsConstants)
    (rest : List Instruction) : text? (stringCode text ++ rest) = some (text, rest) := by
  obtain ⟨hlength, hletters⟩ := h
  rw [stringCode, List.cons_append, List.cons_append, text?, if_pos ⟨rfl, rfl⟩,
    toNat_ofNat_of_le_largestInteger hlength, ← String.length_toList, letters?_append hletters,
    Option.map_some, String.ofList_toList]

theorem eq_of_stringCode_append {text text' : String} (h : (Lexeme.string text).FitsConstants)
    (h' : (Lexeme.string text').FitsConstants) {rest rest' : List Instruction}
    (heq : stringCode text ++ rest = stringCode text' ++ rest') : text = text' := by
  have hread := text?_stringCode h rest
  rw [heq, text?_stringCode h' rest'] at hread
  exact (Prod.mk.inj (Option.some.inj hread)).1.symm

/-! ### The string of a token -/

/-- A string in the place of a term emits its code, which stands for the string's token. -/
theorem Session.pass_string (s : Session) {c : Cursor} {text : String} {p : Position}
    (hc : c.rest.head? = some ⟨.string text, p⟩) :
    ∃ t, s.pass [.term] c = ⟨t, c.to c.rest.tail, none⟩
      ∧ t.listing.lines.toList = s.listing.lines.toList ++ (stringCode text).map (⟨·, p⟩) := by
  obtain ⟨rest, hrest⟩ := List.head?_eq_some_iff.1 hc
  have hg : Goal.term.meet c
      = .ok ⟨[.take ⟨.string text, p⟩, .emit (stringCode text), .leave .term], [],
        c.to c.rest.tail⟩ := by
    simp only [Goal.meet, meetTerm, hrest, List.tail_cons]
  have hpass := Session.pass_of_ok hg s []
  simp only [Session.performAll, Session.perform, List.append_nil, Session.pass_nil] at hpass
  refine ⟨_, hpass, ?_⟩
  simp only [Session.emit, Session.note, Session.moveTo, Listing.toList_emitAll,
    Listing.lines_moveTo, Listing.position_moveTo]

/-- The code of a string that a text holds names the string's length and the code point of each of
its characters, all of them at most the largest integer. The string can be read back from the code,
whatever follows, and no other string of a text has a code that begins alike. -/
theorem string_read_back_from_code {source : String} {stream : TokenStream}
    (h : tokenize source = .ok stream) {text : String} {p : Position}
    (ht : ⟨.string text, p⟩ ∈ stream.tokens) :
    (∃ (n : UInt16) (codes : List UInt16),
      stringCode text = .push .constant n :: .call "String.new" 1
        :: codes.flatMap (fun code => [.push .constant code, .call "String.appendChar" 2])
      ∧ n.toNat = text.length ∧ codes.map UInt16.toNat = text.toList.map Char.toNat
      ∧ n.toNat ≤ 32767 ∧ ∀ code ∈ codes, code.toNat ≤ 32767)
    ∧ (∀ (s : Session) (c : Cursor), c.rest.head? = some ⟨.string text, p⟩ →
      ∃ t, s.pass [.term] c = ⟨t, c.to c.rest.tail, none⟩
        ∧ t.listing.lines.toList = s.listing.lines.toList ++ (stringCode text).map (⟨·, p⟩))
    ∧ (∀ rest, text? (stringCode text ++ rest) = some (text, rest))
    ∧ ∀ (source' : String) (stream' : TokenStream) (text' : String) (p' : Position),
      tokenize source' = .ok stream' → ⟨.string text', p'⟩ ∈ stream'.tokens →
        ∀ rest rest', stringCode text ++ rest = stringCode text' ++ rest' → text = text' := by
  have hfits : (Lexeme.string text).FitsConstants := forall_mem_tokens lexed_fitsConstants h _ ht
  obtain ⟨hlength, hletters⟩ := hfits
  have hcount := toNat_ofNat_of_le_largestInteger hlength
  have hcodes := toNat_letterCodes hletters
  refine ⟨⟨UInt16.ofNat text.length, letterCodes text.toList, stringCode_eq text, hcount, hcodes,
    Nat.le_trans (Nat.le_of_eq hcount) hlength, ?_⟩, ?_, text?_stringCode ⟨hlength, hletters⟩, ?_⟩
  · intro code hcode
    have hmem : code.toNat ∈ text.toList.map Char.toNat := hcodes ▸ List.mem_map_of_mem hcode
    obtain ⟨c, hc, hcode⟩ := List.mem_map.1 hmem
    exact hcode ▸ hletters c hc
  · intro s c hc
    exact s.pass_string hc
  · intro source' stream' text' p' h' ht' rest rest'
    have hfits' := forall_mem_tokens lexed_fitsConstants h' _ ht'
    exact eq_of_stringCode_append ⟨hlength, hletters⟩ hfits'

/-- Two letters beyond ASCII, read back from the code of a call. -/
theorem string_of_call_read_back :
    ∃ stream, tokenize "do f(\"é€\");" = .ok stream
      ∧ ⟨.string "é€", ⟨1, 6⟩⟩ ∈ stream.tokens
      ∧ text? (stringCode "é€" ++ [.call "A.f" 1]) = some ("é€", [.call "A.f" 1]) := by
  obtain ⟨stream, hs⟩ : ∃ stream, tokenize "do f(\"é€\");" = .ok stream := ⟨_, rfl⟩
  have ht : ⟨.string "é€", ⟨1, 6⟩⟩ ∈ stream.tokens := by
    obtain rfl := Except.ok.inj (hs.symm.trans rfl)
    decide
  obtain ⟨-, -, hread, -⟩ := string_read_back_from_code hs ht
  exact ⟨stream, hs, ht, hread _⟩

end Jack
