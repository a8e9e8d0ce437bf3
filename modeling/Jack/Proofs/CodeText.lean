import Jack.Proofs.Labels
import Jack.Token.Lexer
import Mathlib.Logic.Basic

/-!
The text of code can be read again. A line is one instruction, in words that stand one space apart;
its names have no spaces and its operands are numbers of 16 bits, so it is read in one way.
-/

namespace Jack

/-! ### The format -/

/-- A name of labels and functions: ASCII letters, digits, underscores and dots, at least one. -/
def IsCodeName (name : String) : Prop :=
  name ≠ "" ∧ ∀ c ∈ name.toList, isWordChar c = true ∨ c = '.'

theorem isCodeName_iff {name : String} :
    IsCodeName name
      ↔ name ≠ "" ∧ (name.toList.all fun c => isWordChar c || c = '.') = true := by
  simp [IsCodeName]

instance (name : String) : Decidable (IsCodeName name) := decidable_of_iff' _ isCodeName_iff

/-- The word is a decimal number, and `n` is its value. -/
def IsOperand (word : String) (n : UInt16) : Prop :=
  word ≠ "" ∧ (∀ c ∈ word.toList, c.isDigit = true) ∧ Nat.ofDigitChars 10 word.toList 0 = n.toNat

/-- The word for a segment. -/
def Segment.word : Segment → String
  | .constant => "constant"
  | .argument => "argument"
  | .local_ => "local"
  | .static => "static"
  | .this => "this"
  | .that => "that"
  | .pointer => "pointer"
  | .temp => "temp"

/-- The word for a command. -/
def Command.word : Command → String
  | .add => "add"
  | .sub => "sub"
  | .neg => "neg"
  | .eq => "eq"
  | .gt => "gt"
  | .lt => "lt"
  | .and => "and"
  | .or => "or"
  | .not => "not"

/-- The words are those of a line that says the instruction. -/
inductive Instruction.SpelledBy : List String → Instruction → Prop
  | push {segment : Segment} {word : String} {index : UInt16} (h : IsOperand word index) :
    SpelledBy ["push", segment.word, word] (.push segment index)
  | pop {segment : Segment} {word : String} {index : UInt16} (h : IsOperand word index) :
    SpelledBy ["pop", segment.word, word] (.pop segment index)
  | arithmetic {command : Command} : SpelledBy [command.word] (.arithmetic command)
  | label {name : String} (h : IsCodeName name) : SpelledBy ["label", name] (.label name)
  | goto {name : String} (h : IsCodeName name) : SpelledBy ["goto", name] (.goto name)
  | ifGoto {name : String} (h : IsCodeName name) : SpelledBy ["if-goto", name] (.ifGoto name)
  | call {name word : String} {args : UInt16} (h : IsCodeName name) (hn : IsOperand word args) :
    SpelledBy ["call", name, word] (.call name args)
  | function {name word : String} {locals : UInt16} (h : IsCodeName name)
    (hn : IsOperand word locals) : SpelledBy ["function", name, word] (.function name locals)
  | return_ : SpelledBy ["return"] .return_

/-- The line says the instruction, in words that stand one space apart. -/
def Instruction.LineOf (i : Instruction) (line : List Char) : Prop :=
  ∃ words, i.SpelledBy words ∧ line = [' '].intercalate (words.map String.toList)

/-! ### Reading it -/

def Segment.ofWord? (word : String) : Option Segment :=
  Segment.all.find? fun segment => segment.word = word

def Command.ofWord? (word : String) : Option Command :=
  Command.all.find? fun command => command.word = word

def codeName? (word : String) : Option String := if IsCodeName word then some word else none

/-- The value of a decimal number that 16 bits hold. -/
def operand? (word : String) : Option UInt16 :=
  let value := Nat.ofDigitChars 10 word.toList 0
  if word ≠ "" ∧ word.toList.all Char.isDigit = true ∧ value < 65536 then
    some (UInt16.ofNat value)
  else none

def Instruction.ofWords? : List String → Option Instruction
  | ["push", segment, index] => do return .push (← Segment.ofWord? segment) (← operand? index)
  | ["pop", segment, index] => do return .pop (← Segment.ofWord? segment) (← operand? index)
  | ["label", name] => do return .label (← codeName? name)
  | ["goto", name] => do return .goto (← codeName? name)
  | ["if-goto", name] => do return .ifGoto (← codeName? name)
  | ["call", name, args] => do return .call (← codeName? name) (← operand? args)
  | ["function", name, locals] => do return .function (← codeName? name) (← operand? locals)
  | ["return"] => some .return_
  | [command] => do return .arithmetic (← Command.ofWord? command)
  | _ => none

def Instruction.ofLine? (line : List Char) : Option Instruction :=
  Instruction.ofWords? ((line.splitOn ' ').map String.ofList)

/-- The lines of a text, each ended by a line feed. -/
def codeLines (text : String) : List (List Char) := (text.toList.splitOn '\n').dropLast

/-- The instructions that the lines of a text say, if each says one. -/
def readCode? (text : String) : Option (List Instruction) :=
  (codeLines text).mapM Instruction.ofLine?

/-! ### The reader keeps to the format -/

variable {word name : String} {words : List String} {i : Instruction} {n : UInt16}

theorem Segment.ofWord?_eq_some_iff {segment : Segment} :
    Segment.ofWord? word = some segment ↔ segment.word = word := by
  constructor
  · intro h
    simpa using List.find?_some h
  · rintro rfl
    cases segment <;> decide

theorem Command.ofWord?_eq_some_iff {command : Command} :
    Command.ofWord? word = some command ↔ command.word = word := by
  constructor
  · intro h
    simpa using List.find?_some h
  · rintro rfl
    cases command <;> decide

theorem codeName?_eq_some_iff : codeName? word = some name ↔ IsCodeName name ∧ word = name := by
  unfold codeName?
  constructor
  · intro h
    split at h
    · rename_i hname
      cases h
      exact ⟨hname, rfl⟩
    · cases h
  · rintro ⟨h, rfl⟩
    exact if_pos h

theorem operand?_eq_some_iff : operand? word = some n ↔ IsOperand word n := by
  unfold operand?
  constructor
  · intro h
    dsimp only at h
    split at h
    · rename_i hword
      obtain ⟨hne, hdigits, hlt⟩ := hword
      cases h
      exact ⟨hne, List.all_eq_true.1 hdigits, by rw [UInt16.toNat_ofNat_of_lt' hlt]⟩
    · cases h
  · rintro ⟨hne, hdigits, hvalue⟩
    dsimp only
    rw [hvalue, if_pos ⟨hne, List.all_eq_true.2 hdigits, n.toNat_lt⟩, UInt16.ofNat_toNat]

theorem Instruction.spelledBy_of_ofWords? (h : Instruction.ofWords? words = some i) :
    i.SpelledBy words := by
  unfold Instruction.ofWords? at h
  split at h
  all_goals simp only [Option.bind_eq_bind, Option.bind_eq_some_iff, Option.pure_def,
    Option.some.injEq, Segment.ofWord?_eq_some_iff, Command.ofWord?_eq_some_iff,
    codeName?_eq_some_iff, operand?_eq_some_iff, reduceCtorEq] at h
  · obtain ⟨segment, rfl, index, hindex, rfl⟩ := h
    exact .push hindex
  · obtain ⟨segment, rfl, index, hindex, rfl⟩ := h
    exact .pop hindex
  · obtain ⟨name, ⟨hname, rfl⟩, rfl⟩ := h
    exact .label hname
  · obtain ⟨name, ⟨hname, rfl⟩, rfl⟩ := h
    exact .goto hname
  · obtain ⟨name, ⟨hname, rfl⟩, rfl⟩ := h
    exact .ifGoto hname
  · obtain ⟨name, ⟨hname, rfl⟩, args, hargs, rfl⟩ := h
    exact .call hname hargs
  · obtain ⟨name, ⟨hname, rfl⟩, locals, hlocals, rfl⟩ := h
    exact .function hname hlocals
  · subst h
    exact .return_
  · obtain ⟨command, rfl, rfl⟩ := h
    exact .arithmetic

theorem Instruction.SpelledBy.ofWords? (h : i.SpelledBy words) :
    Instruction.ofWords? words = some i := by
  cases h with
  | @push segment word index h | @pop segment word index h =>
    have hsegment : Segment.ofWord? segment.word = some segment :=
      Segment.ofWord?_eq_some_iff.2 rfl
    simp [Instruction.ofWords?, hsegment, operand?_eq_some_iff.2 h]
  | @arithmetic command => cases command <;> decide
  | label h | goto h | ifGoto h =>
    simp [Instruction.ofWords?, codeName?_eq_some_iff.2 ⟨h, rfl⟩]
  | call h hn | function h hn =>
    simp [Instruction.ofWords?, codeName?_eq_some_iff.2 ⟨h, rfl⟩, operand?_eq_some_iff.2 hn]
  | return_ => rfl

/-! ### Lines -/

theorem IsOperand.not_mem {c : Char} (h : IsOperand word n) (hc : c.isDigit = false) :
    c ∉ word.toList := by
  intro hmem
  rw [h.2.1 c hmem] at hc
  cases hc

theorem IsCodeName.not_mem {c : Char} (h : IsCodeName name) (hc : isWordChar c = false)
    (hdot : c ≠ '.') : c ∉ name.toList := by
  intro hmem
  rcases h.2 c hmem with hword | rfl
  · rw [hword] at hc
    cases hc
  · exact hdot rfl

/-- No word of a line ends the word or the line. -/
theorem Instruction.SpelledBy.not_mem (h : i.SpelledBy words) {w : String} (hw : w ∈ words) :
    ' ' ∉ w.toList ∧ '\n' ∉ w.toList := by
  have hoperand {word : String} {n : UInt16} (h : IsOperand word n) :
      ' ' ∉ word.toList ∧ '\n' ∉ word.toList := ⟨h.not_mem rfl, h.not_mem rfl⟩
  have hname {name : String} (h : IsCodeName name) : ' ' ∉ name.toList ∧ '\n' ∉ name.toList :=
    ⟨h.not_mem rfl (by decide), h.not_mem rfl (by decide)⟩
  cases h with
  | @push segment word index h | @pop segment word index h =>
    simp only [List.mem_cons, List.not_mem_nil, or_false] at hw
    rcases hw with rfl | rfl | rfl
    · decide
    · cases segment <;> decide
    · exact hoperand h
  | @arithmetic command =>
    obtain rfl := List.mem_singleton.1 hw
    cases command <;> decide
  | label h | goto h | ifGoto h =>
    simp only [List.mem_cons, List.not_mem_nil, or_false] at hw
    rcases hw with rfl | rfl
    · decide
    · exact hname h
  | call h hn | function h hn =>
    simp only [List.mem_cons, List.not_mem_nil, or_false] at hw
    rcases hw with rfl | rfl | rfl
    · decide
    · exact hname h
    · exact hoperand hn
  | return_ =>
    obtain rfl := List.mem_singleton.1 hw
    decide

theorem Instruction.SpelledBy.ne_nil (h : i.SpelledBy words) : words ≠ [] := by
  cases h <;> exact List.cons_ne_nil _ _

/-- A line is read as the one instruction that it says. -/
theorem Instruction.ofLine?_eq_some_iff {line : List Char} :
    Instruction.ofLine? line = some i ↔ i.LineOf line := by
  constructor
  · intro h
    refine ⟨_, Instruction.spelledBy_of_ofWords? h, ?_⟩
    rw [List.map_map]
    have hid : (String.toList ∘ String.ofList) = id := by
      funext cs
      exact String.toList_ofList
    rw [hid, List.map_id, List.intercalate_splitOn]
  · rintro ⟨words, h, rfl⟩
    have hsplit : ([' '].intercalate (words.map String.toList)).splitOn ' '
        = words.map String.toList := by
      apply List.splitOn_intercalate
      · intro w hw
        obtain ⟨word, hword, rfl⟩ := List.mem_map.1 hw
        exact (h.not_mem hword).1
      · simpa using h.ne_nil
    rw [Instruction.ofLine?, hsplit, List.map_map]
    have hid : (String.ofList ∘ String.toList) = id := by
      funext word
      exact String.ofList_toList
    rw [hid, List.map_id]
    exact h.ofWords?

/-! ### The text of instructions -/

/-- The name of a label or a function that an instruction has. -/
def Instruction.name? : Instruction → Option String
  | .label name | .goto name | .ifGoto name | .call name _ | .function name _ => some name
  | .push _ _ | .pop _ _ | .arithmetic _ | .return_ => none

/-- The name in the instruction is one of the format. -/
def Instruction.Printable (i : Instruction) : Prop := ∀ name ∈ i.name?, IsCodeName name

theorem toList_toString (n : Nat) : (toString n).toList = Nat.toDigits 10 n := String.toList_ofList

theorem isOperand_toString (n : UInt16) : IsOperand (toString n.toNat) n := by
  refine ⟨?_, ?_, ?_⟩
  · intro h
    have hdigits := congrArg String.toList h
    rw [toList_toString] at hdigits
    exact Nat.toDigits_ne_nil hdigits
  · intro c hc
    rw [toList_toString] at hc
    exact Nat.isDigit_of_mem_toDigits (by decide) (by decide) hc
  · rw [toList_toString, Nat.ofDigitChars_ten_toDigits]

theorem Segment.word_eq_name (segment : Segment) : segment.word = segment.name := by
  cases segment <;> rfl

theorem Command.word_eq_name (command : Command) : command.word = command.name := by
  cases command <;> rfl

theorem Instruction.Printable.lineOf (h : i.Printable) : i.LineOf i.text.toList := by
  cases i with
  | push segment index | pop segment index =>
    refine ⟨_, by constructor; exact isOperand_toString index, ?_⟩
    simp [Instruction.text, List.intercalate, Segment.word_eq_name]
  | arithmetic command =>
    exact ⟨_, .arithmetic, by simp [Instruction.text, Command.word_eq_name]⟩
  | label name | goto name | ifGoto name =>
    refine ⟨_, by constructor; exact h name rfl, ?_⟩
    simp [Instruction.text, List.intercalate]
  | call name args | function name args =>
    refine ⟨_, by constructor; exacts [h name rfl, isOperand_toString args], ?_⟩
    simp [Instruction.text, List.intercalate]
  | return_ => exact ⟨_, .return_, rfl⟩

theorem mem_of_mem_intercalate {c space : Char} {ls : List (List Char)}
    (h : c ∈ [space].intercalate ls) : c = space ∨ ∃ l ∈ ls, c ∈ l := by
  induction ls with
  | nil => cases h
  | cons l ls ih =>
    by_cases hls : ls = []
    · subst hls
      exact Or.inr ⟨l, List.mem_cons_self, by simpa [List.intercalate] using h⟩
    · rw [List.intercalate_cons_of_ne_nil hls, List.append_assoc, List.mem_append,
        List.singleton_append, List.mem_cons] at h
      rcases h with h | rfl | h
      · exact Or.inr ⟨l, List.mem_cons_self, h⟩
      · exact Or.inl rfl
      · exact (ih h).imp_right fun ⟨m, hm, hc⟩ => ⟨m, List.mem_cons_of_mem l hm, hc⟩

theorem Instruction.LineOf.not_mem {line : List Char} (h : i.LineOf line) : '\n' ∉ line := by
  obtain ⟨words, hwords, rfl⟩ := h
  intro hmem
  rcases mem_of_mem_intercalate hmem with hspace | ⟨l, hl, hc⟩
  · cases hspace
  · obtain ⟨word, hword, rfl⟩ := List.mem_map.1 hl
    exact (hwords.not_mem hword).2 hc

variable {lines : List Emitted}

theorem codeLines_render (h : ∀ e ∈ lines, e.instruction.Printable) :
    codeLines (render lines) = lines.map fun e => e.instruction.text.toList := by
  induction lines with
  | nil => rfl
  | cons e lines ih =>
    obtain ⟨he, hlines⟩ := List.forall_mem_cons.1 h
    have hfeed : '\n' ∉ e.instruction.text.toList := he.lineOf.not_mem
    have htext : (render (e :: lines)).toList
        = e.instruction.text.toList ++ '\n' :: (render lines).toList := by
      simp
    have hne : (render lines).toList.splitOn '\n' ≠ [] := by simp
    rw [codeLines, htext, List.splitOn_append_cons_self_of_not_mem hfeed,
      List.dropLast_cons_of_ne_nil hne, ← codeLines, ih hlines]
    rfl

/-- The text is its lines, and nothing stands behind the last line feed. -/
theorem toList_render_eq (h : ∀ e ∈ lines, e.instruction.Printable) :
    (render lines).toList = (codeLines (render lines)).flatMap (· ++ ['\n']) := by
  rw [codeLines_render h, List.flatMap_map]
  clear h
  induction lines with
  | nil => rfl
  | cons e lines ih =>
    rw [render_cons, List.flatMap_cons, ← ih, String.toList_append, String.toList_append]
    rfl

theorem readCode?_render (h : ∀ e ∈ lines, e.instruction.Printable) :
    readCode? (render lines) = some (lines.map Emitted.instruction) := by
  have hread : ∀ e ∈ lines, Instruction.ofLine? e.instruction.text.toList = some e.instruction :=
    fun e he => Instruction.ofLine?_eq_some_iff.2 (h e he).lineOf
  rw [readCode?, codeLines_render h]
  clear h
  induction lines with
  | nil => rfl
  | cons e lines ih =>
    obtain ⟨he, hlines⟩ := List.forall_mem_cons.1 hread
    rw [List.map_cons, List.mapM_cons, he, ih hlines]
    rfl

end Jack
