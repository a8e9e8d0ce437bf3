import Jack.Proofs.CodeText
import Jack.Proofs.Correctness
import Jack.Proofs.Functions
import Jack.Proofs.Lexing

/-!
The names in code. Labels are letters and a number, and functions are named after classes, types
and subroutines, which are words of the text, so every name is one of the format and the text of a
compiled class can be read again.
-/

namespace Jack

/-- An identifier is a name of the format. -/
def Lexeme.Nameable : Lexeme → Prop
  | .identifier name => IsCodeName name
  | .keyword _ | .symbol _ | .integer _ | .string _ => True

def Printable (is : List Instruction) : Prop := ∀ i ∈ is, i.Printable

/-- The names that the context puts into calls are names of the format. -/
structure Context.Nameable (k : Context) : Prop where
  className : IsCodeName k.className
  type : ∀ {name : String} {v : Variable}, k.lookup name = some v → IsCodeName v.type

namespace Printable

variable {i : Instruction} {is js : List Instruction}

theorem nil : Printable [] := by simp [Printable]

theorem cons (hi : i.Printable) (h : Printable is) : Printable (i :: is) :=
  List.forall_mem_cons.2 ⟨hi, h⟩

theorem append (h : Printable is) (h' : Printable js) : Printable (is ++ js) :=
  List.forall_mem_append.2 ⟨h, h'⟩

end Printable

/-! ### Names -/

theorem isCodeName_append {front back : String} (h : IsCodeName front)
    (hback : ∀ c ∈ back.toList, isWordChar c = true ∨ c = '.') : IsCodeName (front ++ back) := by
  refine ⟨?_, ?_⟩
  · intro hempty
    exact h.1 (String.append_eq_empty_iff.1 hempty).1
  · intro c hc
    rw [String.toList_append, List.mem_append] at hc
    rcases hc with hc | hc
    · exact h.2 c hc
    · exact hback c hc

theorem IsCodeName.qualified {owner name : String} (h : IsCodeName owner) (hn : IsCodeName name) :
    IsCodeName (owner ++ "." ++ name) := by
  refine isCodeName_append (isCodeName_append h ?_) hn.2
  intro c hc
  exact Or.inr (by simpa using hc)

theorem Label.isCodeName_at (l : Label) (n : Nat) : IsCodeName (l.at n) := by
  refine isCodeName_append (by cases l <;> decide) ?_
  intro c hc
  rw [toList_toString] at hc
  have hdigit : c.isDigit = true := Nat.isDigit_of_mem_toDigits (by decide) (by decide) hc
  exact Or.inl (by simp [isWordChar, Char.isAlphanum, hdigit])

theorem Lexeme.Valid.nameable {l : Lexeme} (h : l.Valid) : l.Nameable := by
  cases l with
  | identifier name =>
    obtain ⟨⟨c, cs, hname, -, hchars⟩, -⟩ := h
    refine ⟨?_, ?_⟩
    · rintro rfl
      cases hname
    · intro d hd
      exact Or.inl (hchars d (hname ▸ hd))
  | keyword | symbol | integer | string => trivial

theorem TypeName.isCodeName_spelling {t : TypeName} (h : t.lexeme.Nameable) :
    IsCodeName t.spelling := by
  cases t with
  | int | char | boolean => decide
  | class_ name => exact h

/-! ### The code of a tree -/

/-- Words whose identifiers are names of the format. -/
def AllNameable (ls : List Lexeme) : Prop := ∀ l ∈ ls, l.Nameable

@[simp] theorem allNameable_append (ls ms : List Lexeme) :
    AllNameable (ls ++ ms) ↔ AllNameable ls ∧ AllNameable ms :=
  List.forall_mem_append

@[simp] theorem allNameable_cons (l : Lexeme) (ls : List Lexeme) :
    AllNameable (l :: ls) ↔ l.Nameable ∧ AllNameable ls :=
  List.forall_mem_cons

variable {k : Context}

/-- Instructions that neither call nor branch have no name. -/
theorem printable_of_name? {is : List Instruction} (h : ∀ i ∈ is, i.name? = none) :
    Printable is := by
  intro i hi name hname
  rw [h i hi] at hname
  cases hname

theorem Instruction.printable_call {name : String} {args : UInt16} (h : IsCodeName name) :
    (Instruction.call name args).Printable := by
  rintro _ ⟨⟩
  exact h

theorem Context.printable_read (k : Context) (name : String) : Printable (k.read name) := by
  apply printable_of_name?
  intro i hi
  obtain ⟨⟨_, _, kind, _⟩, -, rfl⟩ := List.mem_map.1 hi
  cases kind <;> rfl

theorem Context.printable_write (k : Context) (name : String) : Printable (k.write name) := by
  apply printable_of_name?
  intro i hi
  obtain ⟨⟨_, _, kind, _⟩, -, rfl⟩ := List.mem_map.1 hi
  cases kind <;> rfl

theorem printable_stringValue (text : String) : Printable (stringValue text) := by
  refine .cons nofun (.cons (Instruction.printable_call (by decide)) ?_)
  intro i hi
  obtain ⟨c, -, hc⟩ := List.mem_flatMap.1 hi
  have hletter : Printable [.push .constant (UInt16.ofNat c.toNat), .call "String.appendChar" 2] :=
    .cons nofun (.cons (Instruction.printable_call (by decide)) .nil)
  exact hletter i hc

theorem KeywordConstant.printable_value (word : KeywordConstant) : Printable word.value := by
  apply printable_of_name?
  cases word <;> decide

theorem BinaryOp.printable_code (op : BinaryOp) : op.code.Printable := by
  cases op with
  | multiply | divide => exact Instruction.printable_call (by decide)
  | add | subtract | and | or | less | greater | equal => nofun

theorem UnaryOp.printable_code (op : UnaryOp) : op.code.Printable := by
  cases op <;> nofun

/-- What is called is named after a class or the type of a variable. -/
theorem Context.Nameable.target (hk : k.Nameable) {c : Call} (hc : AllNameable c.lexemes) :
    IsCodeName (k.target c) := by
  cases c with
  | own name args =>
    simp only [Call.lexemes, List.cons_append, allNameable_cons] at hc
    exact hk.className.qualified hc.1
  | member owner name args =>
    simp only [Call.lexemes, List.cons_append, allNameable_cons] at hc
    rw [Context.target]
    cases hv : k.lookup owner with
    | some v => exact (hk.type hv).qualified hc.2.2.1
    | none => exact hc.1.qualified hc.2.2.1

mutual

theorem Term.printable_code (hk : k.Nameable) (t : Term) (ht : AllNameable t.lexemes) :
    Printable (t.code k) := by
  match t with
  | .integer value => exact .cons nofun .nil
  | .string text => exact printable_stringValue text
  | .constant word => exact word.printable_value
  | .variable name => exact k.printable_read name
  | .element name index =>
    simp only [Term.lexemes, List.cons_append, allNameable_cons, allNameable_append] at ht
    exact ((k.printable_read name).append (index.printable_code hk ht.2.2.1)).append
      (printable_of_name? (by decide))
  | .call call => exact call.printable_code hk ht
  | .group inner =>
    simp only [Term.lexemes, List.cons_append, allNameable_cons, allNameable_append] at ht
    exact inner.printable_code hk ht.2.1
  | .unary op operand =>
    simp only [Term.lexemes, allNameable_cons] at ht
    exact (operand.printable_code hk ht.2).append (.cons op.printable_code .nil)

theorem Expression.printable_code (hk : k.Nameable) (e : Expression) (he : AllNameable e.lexemes) :
    Printable (e.code k) := by
  match e with
  | .term operand => exact operand.printable_code hk he
  | .binary left op right =>
    simp only [Expression.lexemes, allNameable_cons, allNameable_append] at he
    exact ((left.printable_code hk he.1).append (right.printable_code hk he.2.2)).append
      (.cons op.printable_code .nil)

theorem Call.printable_code (hk : k.Nameable) (c : Call) (hc : AllNameable c.lexemes) :
    Printable (c.code k) := by
  have hcall : Printable [.call (k.target c) (UInt16.ofNat (c.args.length + k.hidden c))] :=
    .cons (Instruction.printable_call (hk.target hc)) .nil
  rw [Call.code_eq]
  match c with
  | .own name args =>
    simp only [Call.lexemes, List.cons_append, allNameable_cons, allNameable_append] at hc
    have hreceiver : Printable [.push .pointer 0] := .cons nofun .nil
    exact (hreceiver.append (arguments_printable hk args hc.2.2.1)).append hcall
  | .member owner name args =>
    simp only [Call.lexemes, List.cons_append, allNameable_cons, allNameable_append] at hc
    exact ((k.printable_read owner).append
      (arguments_printable hk args hc.2.2.2.2.1)).append hcall

theorem arguments_printable (hk : k.Nameable) (args : List Expression)
    (h : AllNameable (argumentLexemes args)) : Printable (argumentCode k args) := by
  match args with
  | [] => exact .nil
  | e :: es =>
    simp only [argumentLexemes, allNameable_append] at h
    exact (e.printable_code hk h.1).append (moreArguments_printable hk es h.2)

theorem moreArguments_printable (hk : k.Nameable) (args : List Expression)
    (h : AllNameable (moreArgumentLexemes args)) : Printable (argumentCode k args) := by
  match args with
  | [] => exact .nil
  | e :: es =>
    simp only [moreArgumentLexemes, List.cons_append, allNameable_cons, allNameable_append] at h
    exact (e.printable_code hk h.2.1).append (moreArguments_printable hk es h.2.2)

end

theorem Label.printable (l : Label) (n : Nat) :
    Printable [.label (l.at n)] ∧ Printable [.goto (l.at n)] ∧ Printable [.ifGoto (l.at n)] := by
  have hname := l.isCodeName_at n
  refine ⟨.cons ?_ .nil, .cons ?_ .nil, .cons ?_ .nil⟩ <;> rintro _ ⟨⟩ <;> exact hname

mutual

theorem Statement.printable_code (hk : k.Nameable) (n : Nat) (s : Statement)
    (hs : AllNameable s.lexemes) : Printable (s.code k n) := by
  match s with
  | .letVariable target value =>
    simp only [Statement.lexemes, List.cons_append, allNameable_cons, allNameable_append] at hs
    exact (value.printable_code hk hs.2.2.2.1).append (k.printable_write target)
  | .letElement target index value =>
    simp only [Statement.lexemes, List.cons_append, List.append_assoc, allNameable_cons,
      allNameable_append] at hs
    have hindex := index.printable_code hk hs.2.2.2.1
    have hvalue := value.printable_code hk hs.2.2.2.2.2.2.1
    have haddress : Printable (.arithmetic .add :: value.code k) := .cons nofun hvalue
    exact (((k.printable_read target).append hindex).append haddress).append
      (printable_of_name? (by decide))
  | .if_ condition body otherwise =>
    simp only [Statement.lexemes, Expression.conditionLexemes, inBraces, List.cons_append,
      List.append_assoc, allNameable_cons, allNameable_append] at hs
    have hcondition := condition.printable_code hk hs.2.2.1
    have hbody := statements_printable hk (n + 1) body hs.2.2.2.2.2.2.1
    have hother := otherwise_printable hk (n + 1 + constructsOf body) otherwise
      hs.2.2.2.2.2.2.2.2.2
    have hskip : Printable [.arithmetic .not, .ifGoto (Label.ifFalse.at n)] :=
      .cons nofun (Label.ifFalse.printable n).2.2
    have hend := (Label.ifEnd.printable n).2.1.append (Label.ifFalse.printable n).1
    exact ((((hcondition.append hskip).append hbody).append hend).append hother).append
      (Label.ifEnd.printable n).1
  | .while_ condition body =>
    simp only [Statement.lexemes, Expression.conditionLexemes, inBraces, List.cons_append,
      List.append_assoc, allNameable_cons, allNameable_append] at hs
    have hcondition := condition.printable_code hk hs.2.2.1
    have hbody := statements_printable hk (n + 1) body hs.2.2.2.2.2.2.1
    have hskip : Printable [.arithmetic .not, .ifGoto (Label.whileEnd.at n)] :=
      .cons nofun (Label.whileEnd.printable n).2.2
    have hend := (Label.whileStart.printable n).2.1.append (Label.whileEnd.printable n).1
    exact ((((Label.whileStart.printable n).1.append hcondition).append hskip).append hbody).append
      hend
  | .do_ call =>
    simp only [Statement.lexemes, List.cons_append, allNameable_cons, allNameable_append] at hs
    exact (call.printable_code hk hs.2.1).append (.cons nofun .nil)
  | .return_ none => exact .cons nofun (.cons nofun .nil)
  | .return_ (some value) =>
    simp only [Statement.lexemes, List.cons_append, allNameable_cons, allNameable_append] at hs
    exact (value.printable_code hk hs.2.1).append (.cons nofun .nil)

theorem statements_printable (hk : k.Nameable) (n : Nat) (ss : List Statement)
    (h : AllNameable (statementLexemes ss)) : Printable (statementCode k n ss) := by
  match ss with
  | [] => exact .nil
  | s :: ss =>
    simp only [statementLexemes, allNameable_append] at h
    exact (s.printable_code hk n h.1).append (statements_printable hk _ ss h.2)

theorem otherwise_printable (hk : k.Nameable) (n : Nat) (o : Option (List Statement))
    (h : AllNameable (otherwiseLexemes o)) : Printable (otherwiseCode k n o) := by
  match o with
  | none => exact .nil
  | some body =>
    simp only [otherwiseLexemes, inBraces, List.cons_append, allNameable_cons, allNameable_append] at h
    exact statements_printable hk n body h.2.2.1

end

theorem Role.printable_prologue (fields : Nat) (r : Role) : Printable (r.prologue fields) := by
  cases r with
  | constructor =>
    exact .cons nofun (.cons (Instruction.printable_call (by decide)) (.cons nofun .nil))
  | function => exact .nil
  | method => exact .cons nofun (.cons nofun .nil)

/-! ### The code of a class -/

variable {c : ClassDec} {d : SubroutineDec}

theorem ClassDec.nameable_context (hd : d ∈ c.subroutines) (h : AllNameable c.lexemes) :
    (c.context d).Nameable := by
  have hname : IsCodeName c.name := h (.identifier c.name) (by simp [ClassDec.lexemes])
  refine ⟨hname, ?_⟩
  intro name v hv
  rcases ClassDec.type_of_lookup hd hv with htype | ⟨t, ht, htype⟩
  · rw [htype]
    exact hname
  · rw [htype]
    exact TypeName.isCodeName_spelling (h _ ht)

theorem ClassDec.printable_code (c : ClassDec) (h : AllNameable c.lexemes) :
    Printable c.code := by
  intro i hi
  rw [ClassDec.code, ← c.flatMap_functions] at hi
  obtain ⟨f, hf, hi⟩ := List.mem_flatMap.1 hi
  obtain ⟨d, hd, n, rfl⟩ := ClassDec.exists_of_mem_functions hf
  have hwords : AllNameable d.lexemes := fun l hl =>
    h l (ClassDec.mem_lexemes_of_subroutine hd hl)
  have hk := c.nameable_context hd h
  rcases List.mem_cons.1 hi with rfl | hi
  · rintro _ ⟨⟩
    exact hk.className.qualified (hwords (.identifier d.name) (by simp [SubroutineDec.lexemes]))
  · simp only [SubroutineDec.lexemes, inBraces, List.cons_append, List.append_assoc,
      allNameable_cons, allNameable_append] at hwords
    exact ((d.role.printable_prologue c.fieldCount).append
      (statements_printable hk n d.body (by tauto))) i hi

variable {source : String} {outlined : Bool} {result : CompiledClass}

theorem printable_of_compile (h : compile source outlined = .ok result) :
    ∀ e ∈ result.instructions, e.instruction.Printable := by
  obtain ⟨stream, hs, ⟨c, hc⟩, hall⟩ := accepted_of_compile h
  have hcode := (hall c hc).2
  have hwords : AllNameable c.lexemes := by
    rw [hc]
    exact fun l hl => (valid_of_tokenize hs l hl).nameable
  intro e he
  apply c.printable_code hwords
  rw [← hcode]
  exact List.mem_map_of_mem he

/-- The text of a compiled class is lines, each ended by a line feed, and each line says one
instruction in the words of the format. Reading the lines gives back the instructions of the class,
so classes with the same text have the same instructions. -/
theorem code_reads_back (h : compile source outlined = .ok result) :
    result.code.toList = (codeLines result.code).flatMap (· ++ ['\n'])
      ∧ (∀ line ∈ codeLines result.code, ∃ i : Instruction, i.LineOf line)
      ∧ readCode? result.code = some (result.instructions.map Emitted.instruction)
      ∧ ∀ (source' : String) (outlined' : Bool) (result' : CompiledClass),
        compile source' outlined' = .ok result' → result'.code = result.code →
        result'.instructions.map Emitted.instruction
          = result.instructions.map Emitted.instruction := by
  have hprints := printable_of_compile h
  have hreads : readCode? result.code = some (result.instructions.map Emitted.instruction) :=
    readCode?_render hprints
  refine ⟨toList_render_eq hprints, ?_, hreads, ?_⟩
  · intro line hline
    rw [CompiledClass.code, codeLines_render hprints] at hline
    obtain ⟨e, he, rfl⟩ := List.mem_map.1 hline
    exact ⟨e.instruction, (hprints e he).lineOf⟩
  · intro source' outlined' result' h' hsame
    have hreads' : readCode? result'.code
        = some (result'.instructions.map Emitted.instruction) :=
      readCode?_render (printable_of_compile h')
    rw [hsame, hreads] at hreads'
    exact (Option.some.inj hreads').symm

theorem code_of_call_reads_back :
    readCode? "function A.f 0\ncall A.f 0\npop temp 0\npush constant 0\nreturn\n"
      = some [.function "A.f" 0, .call "A.f" 0, .pop .temp 0, .push .constant 0, .return_] := by
  have h : compile "class A{function void f(){do A.f();return;}}" false
      = .ok ⟨"A", [⟨.function "A.f" 0, ⟨1, 25⟩⟩, ⟨.call "A.f" 0, ⟨1, 30⟩⟩,
        ⟨.pop .temp 0, ⟨1, 35⟩⟩, ⟨.push .constant 0, ⟨1, 36⟩⟩, ⟨.return_, ⟨1, 42⟩⟩], none⟩ := by
    rfl
  exact (code_reads_back h).2.2.1

end Jack
