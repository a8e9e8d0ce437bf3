import Mathlib.Logic.Equiv.Basic
import Jack.Proofs.Correctness
import Jack.Proofs.Functions

/-! The subroutines of a class in another order. A subroutine sees the declarations of the class and
its own, and of the subroutines before it only how many constructs they hold: they number the labels
in its block. -/

namespace Jack

/-- The class with its subroutines in the order that the permutation gives. -/
def ClassDec.reorder (c : ClassDec) (σ : Equiv.Perm (Fin c.subroutines.length)) : ClassDec :=
  { c with subroutines := List.ofFn fun i => c.subroutines[σ i] }

/-! ### Numbers of labels -/

/-- The same instruction, but for the number of a label, which is larger by `z`. -/
inductive Instruction.Shifted (z : Int) : Instruction → Instruction → Prop
  | label (l : Label) {m n : Nat} (h : (n : Int) = m + z) :
    Shifted z (.label (l.at m)) (.label (l.at n))
  | goto (l : Label) {m n : Nat} (h : (n : Int) = m + z) :
    Shifted z (.goto (l.at m)) (.goto (l.at n))
  | ifGoto (l : Label) {m n : Nat} (h : (n : Int) = m + z) :
    Shifted z (.ifGoto (l.at m)) (.ifGoto (l.at n))
  | same {i : Instruction} (hl : i.label? = none) (ht : i.target? = none) : Shifted z i i

/-- The same code, but for the numbers of its labels, which are all larger by `z`. -/
abbrev ShiftedCode (z : Int) : List Instruction → List Instruction → Prop :=
  List.Forall₂ (Instruction.Shifted z)

namespace ShiftedCode

variable {z : Int} {is js is' js' : List Instruction}

theorem append (h : ShiftedCode z is js) (h' : ShiftedCode z is' js') :
    ShiftedCode z (is ++ is') (js ++ js') :=
  List.rel_append h h'

/-- Code without labels has none to number. -/
theorem plain (h : Plain is) : ShiftedCode z is is := by
  refine List.forall₂_same.2 fun i hi => ?_
  have hplain := h i hi
  cases i with
  | label | goto | ifGoto => cases hplain
  | _ => exact .same rfl rfl

/-- The jump when a condition does not hold. -/
theorem test (l : Label) {m n : Nat} (h : (n : Int) = m + z) :
    ShiftedCode z [.arithmetic .not, .ifGoto (l.at m)] [.arithmetic .not, .ifGoto (l.at n)] :=
  .cons (.same rfl rfl) (.cons (.ifGoto l h) .nil)

/-- A jump and the label that follows it. -/
theorem turn (l l' : Label) {m n : Nat} (h : (n : Int) = m + z) :
    ShiftedCode z [.goto (l.at m), .label (l'.at m)] [.goto (l.at n), .label (l'.at n)] :=
  .cons (.goto l h) (.cons (.label l' h) .nil)

theorem labelled (l : Label) {m n : Nat} (h : (n : Int) = m + z) :
    ShiftedCode z [.label (l.at m)] [.label (l.at n)] :=
  .cons (.label l h) .nil

end ShiftedCode

mutual

/-- Code that is numbered from another construct on has its labels shifted by the difference. -/
theorem Statement.shifted_code (k : Context) {z : Int} {m n : Nat} (h : (n : Int) = m + z)
    (s : Statement) : ShiftedCode z (s.code k m) (s.code k n) := by
  match s with
  | .letVariable target value =>
    exact .plain ((value.plain_code k).append (k.plain_write target))
  | .letElement target index value =>
    exact .plain (Statement.plain_letElement k m target index value)
  | .if_ condition body otherwise =>
    have hcondition := ShiftedCode.plain (z := z) (condition.plain_code k)
    have hbody := statements_shifted k (z := z) (m := m + 1) (n := n + 1) (by omega) body
    have hother := otherwise_shifted k (z := z) (m := m + 1 + constructsOf body)
      (n := n + 1 + constructsOf body) (by omega) otherwise
    exact ((((hcondition.append (.test .ifFalse h)).append hbody).append
      (.turn .ifEnd .ifFalse h)).append hother).append (.labelled .ifEnd h)
  | .while_ condition body =>
    have hcondition := ShiftedCode.plain (z := z) (condition.plain_code k)
    have hbody := statements_shifted k (z := z) (m := m + 1) (n := n + 1) (by omega) body
    exact ((((ShiftedCode.labelled .whileStart h).append hcondition).append
      (.test .whileEnd h)).append hbody).append (.turn .whileStart .whileEnd h)
  | .do_ call => exact .plain ((call.plain_code k).append (.cons rfl .nil))
  | .return_ none => exact .cons (.same rfl rfl) (.cons (.same rfl rfl) .nil)
  | .return_ (some value) =>
    exact (ShiftedCode.plain (value.plain_code k)).append (.cons (.same rfl rfl) .nil)

theorem statements_shifted (k : Context) {z : Int} {m n : Nat} (h : (n : Int) = m + z)
    (ss : List Statement) : ShiftedCode z (statementCode k m ss) (statementCode k n ss) := by
  match ss with
  | [] => exact .nil
  | s :: ss =>
    have hrest := statements_shifted k (z := z) (m := m + s.constructs)
      (n := n + s.constructs) (by omega) ss
    exact (s.shifted_code k h).append hrest

theorem otherwise_shifted (k : Context) {z : Int} {m n : Nat} (h : (n : Int) = m + z)
    (o : Option (List Statement)) :
    ShiftedCode z (otherwiseCode k m o) (otherwiseCode k n o) := by
  match o with
  | none => exact .nil
  | some body => exact statements_shifted k h body

end

/-! ### Functions -/

/-- The same function, but for the numbers of its labels, to which one constant was added. -/
structure FunctionCode.ShiftOf (f f' : FunctionCode) : Prop where
  name : f'.name = f.name
  locals : f'.locals = f.locals
  block : ∃ z, ShiftedCode z f.block f'.block

/-- A function depends on the constructs before it in its labels only. -/
theorem ClassDec.shiftOf_functionCode (c : ClassDec) (d : SubroutineDec) (m n : Nat) :
    (c.functionCode m d).ShiftOf (c.functionCode n d) := by
  refine ⟨rfl, rfl, (n : Int) - m, ?_⟩
  exact (ShiftedCode.plain (d.role.plain_prologue c.fieldCount)).append
    (statements_shifted (c.context d) (by omega) d.body)

theorem ClassDec.mem_reorder {c : ClassDec} {σ : Equiv.Perm (Fin c.subroutines.length)}
    {d : SubroutineDec} (h : d ∈ (c.reorder σ).subroutines) : d ∈ c.subroutines := by
  obtain ⟨i, rfl⟩ := List.mem_ofFn.1 h
  exact List.getElem_mem _

/-- What a class needs to be accepted is needed of each subroutine alone. -/
theorem ClassDec.Accepted.reorder {c : ClassDec} (h : c.Accepted)
    (σ : Equiv.Perm (Fin c.subroutines.length)) : (c.reorder σ).Accepted :=
  ⟨h.vars, fun d hd => h.subroutines d (ClassDec.mem_reorder hd)⟩

theorem ClassDec.exists_function {c : ClassDec} {i : Nat} {d : SubroutineDec}
    (h : c.subroutines[i]? = some d) : ∃ n, (functions c.code)[i]? = some (c.functionCode n d) := by
  obtain ⟨hlength, hall⟩ := List.forall₂_iff_get.1 (c.functions_codeFrom 0 c.subroutines)
  obtain ⟨hi, rfl⟩ := List.getElem?_eq_some_iff.1 h
  obtain ⟨n, hn⟩ := hall i hi (hlength ▸ hi)
  exact ⟨n, List.getElem?_eq_some_iff.2 ⟨_, hn⟩⟩

/-- The functions of a reordered class are those of the class, reordered and with their labels
numbered anew. -/
theorem ClassDec.shiftOf_reorder (c : ClassDec) (σ : Equiv.Perm (Fin c.subroutines.length))
    (i : Fin c.subroutines.length) :
    ∃ f f', (functions c.code)[(σ i : Nat)]? = some f
      ∧ (functions (c.reorder σ).code)[(i : Nat)]? = some f'
      ∧ f.name = c.name ++ "." ++ c.subroutines[σ i].name ∧ f.ShiftOf f' := by
  have hold : c.subroutines[(σ i : Nat)]? = some c.subroutines[σ i] :=
    List.getElem?_eq_getElem (σ i).isLt
  have hnew : (c.reorder σ).subroutines[(i : Nat)]? = some c.subroutines[σ i] := by
    simp [ClassDec.reorder]
  obtain ⟨m, hm⟩ := ClassDec.exists_function hold
  obtain ⟨n, hn⟩ := ClassDec.exists_function hnew
  exact ⟨_, _, hm, hn, rfl, c.shiftOf_functionCode _ m n⟩

theorem ClassDec.length_functions (c : ClassDec) :
    (functions c.code).length = c.subroutines.length :=
  (c.functions_codeFrom 0 c.subroutines).length_eq.symm

/-- Code that has the functions of a class in the order of the declarations, and code that has them
in another order and with the labels of each numbered anew. -/
structure ClassDec.ReorderedCode (c : ClassDec) (σ : Equiv.Perm (Fin c.subroutines.length))
    (is js : List Instruction) : Prop where
  ordered : (functions is).flatMap FunctionCode.code = is
    ∧ (functions is).length = c.subroutines.length
  reordered : (functions js).flatMap FunctionCode.code = js
    ∧ (functions js).length = c.subroutines.length
  shifted : ∀ i : Fin c.subroutines.length, ∃ f g, (functions is)[(σ i : Nat)]? = some f
    ∧ (functions js)[(i : Nat)]? = some g
    ∧ f.name = c.name ++ "." ++ c.subroutines[σ i].name ∧ f.ShiftOf g

theorem ClassDec.reorderedCode (c : ClassDec) (σ : Equiv.Perm (Fin c.subroutines.length)) :
    c.ReorderedCode σ c.code (c.reorder σ).code where
  ordered := ⟨c.flatMap_functions 0 c.subroutines, c.length_functions⟩
  reordered := by
    refine ⟨(c.reorder σ).flatMap_functions 0 _, ?_⟩
    rw [(c.reorder σ).length_functions]
    exact List.length_ofFn
  shifted := c.shiftOf_reorder σ

/-- A text that compiles also compiles with its subroutines in any other order: to the functions of
the text in that order, with one constant added to the numbers of the labels of each. -/
theorem reordered_subroutines_compile {source : String} {outlined : Bool} {result : CompiledClass}
    (h : compile source outlined = .ok result) :
    ∃ stream, tokenize source = .ok stream
      ∧ (∃ c : ClassDec, c.lexemes = stream.tokens.map Token.lexeme)
      ∧ ∀ c : ClassDec, c.lexemes = stream.tokens.map Token.lexeme →
        ∀ (σ : Equiv.Perm (Fin c.subroutines.length)) (other : String) (otherStream : TokenStream),
          tokenize other = .ok otherStream →
          (c.reorder σ).lexemes = otherStream.tokens.map Token.lexeme →
          ∃ otherResult, compile other outlined = .ok otherResult
            ∧ c.ReorderedCode σ (result.instructions.map (·.instruction))
              (otherResult.instructions.map (·.instruction)) := by
  obtain ⟨stream, hs, hexists, hall⟩ := accepted_of_compile h
  refine ⟨stream, hs, hexists, ?_⟩
  intro c hc σ other otherStream ho hr
  obtain ⟨hacc, hcode⟩ := hall c hc
  obtain ⟨hiff, hother⟩ := TokenStream.compile_of_lexemes hr outlined
  have hotherAcc := hacc.reorder σ
  refine ⟨_, (compile_eq_ok_iff ho).2 ⟨hiff.2 hotherAcc, rfl⟩, ?_⟩
  change c.ReorderedCode σ _ (otherStream.compile outlined).session.code
  rw [hcode, hother hotherAcc]
  exact c.reorderedCode σ

/-- A loop and a branch, whose subroutines change places. -/
theorem swapped_subroutines_compile :
    ∃ result otherResult,
      compile "class A{function void f(){while(true){}return;}method int g(){if(true){}return 1;}}"
          false = .ok result
        ∧ compile
          "class A{method int g(){if(true){}return 1;}function void f(){while(true){}return;}}"
          false = .ok otherResult
        ∧ ∃ f g : FunctionCode,
          (functions (result.instructions.map (·.instruction)))[1]? = some f
            ∧ (functions (otherResult.instructions.map (·.instruction)))[0]? = some g
            ∧ f.name = "A.g" ∧ f.ShiftOf g := by
  let c : ClassDec := ⟨"A", [],
    [⟨.function, none, "f", [], [], [.while_ (.term (.constant .true_)) [], .return_ none]⟩,
      ⟨.method, some .int, "g", [], [],
        [.if_ (.term (.constant .true_)) [] none, .return_ (some (.term (.integer 1)))]⟩]⟩
  let first : Fin c.subroutines.length := ⟨0, by decide⟩
  let second : Fin c.subroutines.length := ⟨1, by decide⟩
  let σ := Equiv.swap first second
  obtain ⟨result, h⟩ : ∃ result,
      compile "class A{function void f(){while(true){}return;}method int g(){if(true){}return 1;}}"
        false = .ok result := ⟨_, rfl⟩
  have hc : (tokenize
      "class A{function void f(){while(true){}return;}method int g(){if(true){}return 1;}}").map
        (fun s => s.tokens.map Token.lexeme) = .ok c.lexemes := by rfl
  obtain ⟨otherStream, ho⟩ : ∃ otherStream, tokenize
      "class A{method int g(){if(true){}return 1;}function void f(){while(true){}return;}}"
        = .ok otherStream := ⟨_, rfl⟩
  have hr : (tokenize
      "class A{method int g(){if(true){}return 1;}function void f(){while(true){}return;}}").map
        (fun s => s.tokens.map Token.lexeme) = .ok (c.reorder σ).lexemes := by rfl
  obtain ⟨stream, hs, -, hall⟩ := reordered_subroutines_compile h
  rw [hs] at hc
  rw [ho] at hr
  obtain ⟨otherResult, hother, hcode⟩ := hall c (Except.ok.inj hc).symm σ _ otherStream ho
    (Except.ok.inj hr).symm
  obtain ⟨f, g, hf, hg, hname, hshift⟩ := hcode.shifted first
  exact ⟨result, otherResult, h, hother, f, g, hf, hg, hname, hshift⟩

end Jack
