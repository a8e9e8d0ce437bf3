import Jack.Proofs.Labels

/-! The functions that a file of instructions consists of. No header stands in the code of
statements, so the translation of a class has one function for each subroutine. -/

namespace Jack

def Headless (is : List Instruction) : Prop := ∀ i ∈ is, i.header? = none

namespace Headless

variable {i : Instruction} {is js : List Instruction}

theorem nil : Headless [] := by simp [Headless]

theorem cons (hi : i.header? = none) (h : Headless is) : Headless (i :: is) :=
  List.forall_mem_cons.2 ⟨hi, h⟩

theorem append (h : Headless is) (h' : Headless js) : Headless (is ++ js) :=
  List.forall_mem_append.2 ⟨h, h'⟩

end Headless

theorem Plain.headless {is : List Instruction} (h : Plain is) : Headless is := by
  intro i hi
  have := h i hi
  cases i <;> first | rfl | cases this

mutual

theorem Statement.headless_code (k : Context) (n : Nat) (s : Statement) :
    Headless (s.code k n) := by
  match s with
  | .letVariable target value =>
    exact ((value.plain_code k).append (k.plain_write target)).headless
  | .letElement target index value =>
    exact (Statement.plain_letElement k n target index value).headless
  | .if_ condition body otherwise =>
    have hcondition : Headless
        (condition.code k ++ [.arithmetic .not, .ifGoto ("IF_FALSE" ++ toString n)]) :=
      (condition.plain_code k).headless.append (.cons rfl (.cons rfl .nil))
    have hbody := statements_headless k (n + 1) body
    have hother := otherwise_headless k (n + 1 + constructsOf body) otherwise
    exact (((hcondition.append hbody).append (.cons rfl (.cons rfl .nil))).append hother).append
      (.cons rfl .nil)
  | .while_ condition body =>
    have hcondition := Headless.cons (i := .label ("WHILE_EXP" ++ toString n)) rfl
      (condition.plain_code k).headless
    have hbody := statements_headless k (n + 1) body
    exact ((hcondition.append (.cons rfl (.cons rfl .nil))).append hbody).append
      (.cons rfl (.cons rfl .nil))
  | .do_ call => exact ((call.plain_code k).append (.cons rfl .nil)).headless
  | .return_ none => exact .cons rfl (.cons rfl .nil)
  | .return_ (some value) => exact (value.plain_code k).headless.append (.cons rfl .nil)

theorem statements_headless (k : Context) (n : Nat) (ss : List Statement) :
    Headless (statementCode k n ss) := by
  match ss with
  | [] => exact .nil
  | s :: ss => exact (s.headless_code k n).append (statements_headless k (n + s.constructs) ss)

theorem otherwise_headless (k : Context) (n : Nat) (o : Option (List Statement)) :
    Headless (otherwiseCode k n o) := by
  match o with
  | none => exact .nil
  | some body => exact statements_headless k n body

end

/-- The blocks of a file: what follows each header, up to the next one. -/
def blocks : List Instruction → List (List Instruction)
  | [] => []
  | i :: is =>
    if i.header?.isSome then is.takeWhile (fun j => j.header?.isNone) :: blocks is else blocks is

/-- A header with its block. -/
structure FunctionCode where
  name : String
  locals : UInt16
  block : List Instruction

def FunctionCode.code (f : FunctionCode) : List Instruction := .function f.name f.locals :: f.block

def functions : List Instruction → List FunctionCode
  | [] => []
  | i :: is =>
    match i with
    | .function name locals =>
      ⟨name, locals, is.takeWhile fun j => j.header?.isNone⟩ :: functions is
    | _ => functions is

theorem map_block_functions (is : List Instruction) :
    (functions is).map FunctionCode.block = blocks is := by
  induction is with
  | nil => rfl
  | cons i is ih =>
    cases i with
    | function name locals => exact congrArg (List.cons (is.takeWhile _)) ih
    | _ => exact ih

theorem Headless.functions_append {is : List Instruction} (h : Headless is)
    (more : List Instruction) : functions (is ++ more) = functions more := by
  induction is with
  | nil => rfl
  | cons i is ih =>
    obtain ⟨hi, his⟩ := List.forall_mem_cons.1 h
    cases i with
    | function name locals => cases hi
    | _ => exact ih his

theorem ClassDec.headless_bodyCode (c : ClassDec) (n : Nat) (d : SubroutineDec) :
    Headless (c.bodyCode n d) :=
  (d.role.plain_prologue c.fieldCount).headless.append (statements_headless _ _ _)

/-- The function of a subroutine whose first construct has the number `n`. -/
def ClassDec.functionCode (c : ClassDec) (n : Nat) (d : SubroutineDec) : FunctionCode :=
  ⟨c.name ++ "." ++ d.name, UInt16.ofNat d.localCount, c.bodyCode n d⟩

theorem ClassDec.functions_codeFrom_cons (c : ClassDec) (n : Nat) (d : SubroutineDec)
    (ds : List SubroutineDec) :
    functions (c.codeFrom n (d :: ds))
      = c.functionCode n d :: functions (c.codeFrom (n + constructsOf d.body) ds) := by
  have hbody := c.headless_bodyCode n d
  have hblock : (c.bodyCode n d ++ c.codeFrom (n + constructsOf d.body) ds).takeWhile
      (fun j => j.header?.isNone) = c.bodyCode n d := by
    rw [List.takeWhile_append_of_pos fun i hi => by rw [hbody i hi]; rfl]
    cases ds with
    | nil => rw [ClassDec.codeFrom, List.takeWhile_nil, List.append_nil]
    | cons d' ds => rw [ClassDec.codeFrom, ClassDec.subroutineCode, List.cons_append,
        List.takeWhile_cons_of_neg (by simp [Instruction.header?]), List.append_nil]
  rw [ClassDec.codeFrom, ClassDec.subroutineCode, List.cons_append, functions]
  simp only [hblock, hbody.functions_append]
  rfl

/-- Each subroutine has a function, with the constructs before it in the file counted. -/
theorem ClassDec.functions_codeFrom (c : ClassDec) (n : Nat) (ds : List SubroutineDec) :
    List.Forall₂ (fun d f => ∃ n, f = c.functionCode n d) ds (functions (c.codeFrom n ds)) := by
  induction ds generalizing n with
  | nil => exact .nil
  | cons d ds ih =>
    rw [c.functions_codeFrom_cons]
    exact .cons ⟨n, rfl⟩ (ih _)

theorem ClassDec.exists_of_mem_functions {c : ClassDec} {n : Nat} {ds : List SubroutineDec}
    {f : FunctionCode} (h : f ∈ functions (c.codeFrom n ds)) :
    ∃ d ∈ ds, ∃ n, f = c.functionCode n d := by
  induction ds generalizing n with
  | nil => cases h
  | cons d ds ih =>
    rw [c.functions_codeFrom_cons, List.mem_cons] at h
    rcases h with rfl | h
    · exact ⟨d, List.mem_cons_self, n, rfl⟩
    · obtain ⟨d', hd', hf⟩ := ih h
      exact ⟨d', List.mem_cons_of_mem d hd', hf⟩

theorem ClassDec.exists_mem_functions (c : ClassDec) (n : Nat) {ds : List SubroutineDec}
    {d : SubroutineDec} (h : d ∈ ds) : ∃ m, c.functionCode m d ∈ functions (c.codeFrom n ds) := by
  induction ds generalizing n with
  | nil => cases h
  | cons d' ds ih =>
    rw [c.functions_codeFrom_cons]
    rcases List.mem_cons.1 h with rfl | h
    · exact ⟨n, List.mem_cons_self⟩
    · obtain ⟨m, hm⟩ := ih (n + constructsOf d'.body) h
      exact ⟨m, List.mem_cons_of_mem _ hm⟩

/-- Every instruction belongs to a function. -/
theorem ClassDec.flatMap_functions (c : ClassDec) (n : Nat) (ds : List SubroutineDec) :
    (functions (c.codeFrom n ds)).flatMap FunctionCode.code = c.codeFrom n ds := by
  induction ds generalizing n with
  | nil => rfl
  | cons d ds ih =>
    rw [c.functions_codeFrom_cons, List.flatMap_cons, ih, ClassDec.codeFrom]
    rfl

/-- Each subroutine has a block, with the constructs before it in the file counted. -/
theorem ClassDec.blocks_codeFrom (c : ClassDec) (n : Nat) (ds : List SubroutineDec) :
    List.Forall₂ (fun d block => ∃ n, block = c.bodyCode n d) ds (blocks (c.codeFrom n ds)) := by
  rw [← map_block_functions, List.forall₂_map_right_iff]
  apply (c.functions_codeFrom n ds).imp
  rintro d f ⟨n, rfl⟩
  exact ⟨n, rfl⟩

end Jack
