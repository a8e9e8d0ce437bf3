import Mathlib.Data.List.Nodup
import Jack.Proofs.Emission

/-! Where labels stand in translated code. Expressions have none; the labels of statements bear the
numbers of their constructs and are all different, so a jump has one target. -/

namespace Jack

/-! ### Code without control -/

/-- Runs on to the next instruction, and is no label. -/
def Instruction.isPlain : Instruction → Bool
  | .push _ _ | .pop _ _ | .arithmetic _ | .call _ _ => true
  | .label _ | .goto _ | .ifGoto _ | .function _ _ | .return_ => false

def Plain (is : List Instruction) : Prop := ∀ i ∈ is, i.isPlain = true

namespace Plain

variable {i : Instruction} {is js : List Instruction}

theorem nil : Plain [] := by simp [Plain]

theorem cons (hi : i.isPlain = true) (h : Plain is) : Plain (i :: is) :=
  List.forall_mem_cons.2 ⟨hi, h⟩

theorem append (h : Plain is) (h' : Plain js) : Plain (is ++ js) :=
  List.forall_mem_append.2 ⟨h, h'⟩

end Plain

theorem Context.plain_read (k : Context) (name : String) : Plain (k.read name) := by
  intro i hi
  obtain ⟨v, -, rfl⟩ := List.mem_map.1 hi
  obtain ⟨_, _, kind, _⟩ := v
  cases kind <;> rfl

theorem Context.plain_write (k : Context) (name : String) : Plain (k.write name) := by
  intro i hi
  obtain ⟨v, -, rfl⟩ := List.mem_map.1 hi
  obtain ⟨_, _, kind, _⟩ := v
  cases kind <;> rfl

theorem BinaryOp.plain_code (op : BinaryOp) : Plain [op.code] := by
  cases op <;> exact .cons rfl .nil

theorem UnaryOp.plain_code (op : UnaryOp) : Plain [op.code] := by
  cases op <;> exact .cons rfl .nil

theorem KeywordConstant.plain_value (word : KeywordConstant) : Plain word.value := by
  cases word with
  | true_ => exact .cons rfl (.cons rfl .nil)
  | false_ | null | this => exact .cons rfl .nil

theorem plain_stringValue (text : String) : Plain (stringValue text) := by
  refine .cons rfl (.cons rfl fun i hi => ?_)
  obtain ⟨c, -, hc⟩ := List.mem_flatMap.1 hi
  exact (show Plain _ from .cons rfl (.cons rfl .nil)) i hc

mutual

theorem Term.plain_code (k : Context) (e : Term) : Plain (e.code k) := by
  match e with
  | .integer value => exact .cons rfl .nil
  | .string text => exact plain_stringValue text
  | .constant word => exact word.plain_value
  | .variable name => exact k.plain_read name
  | .element name index =>
    exact ((k.plain_read name).append (index.plain_code k)).append
      (.cons rfl (.cons rfl (.cons rfl .nil)))
  | .call call => exact call.plain_code k
  | .group inner => exact inner.plain_code k
  | .unary op operand => exact (operand.plain_code k).append op.plain_code

theorem Expression.plain_code (k : Context) (e : Expression) : Plain (e.code k) := by
  match e with
  | .term operand => exact operand.plain_code k
  | .binary left op right =>
    exact ((left.plain_code k).append (right.plain_code k)).append op.plain_code

theorem Call.plain_code (k : Context) (c : Call) : Plain (c.code k) := by
  rw [Call.code_eq]
  match c with
  | .own name args =>
    exact .cons rfl ((arguments_plain k args).append (.cons rfl .nil))
  | .member owner name args =>
    exact ((k.plain_read owner).append (arguments_plain k args)).append (.cons rfl .nil)

theorem arguments_plain (k : Context) (args : List Expression) : Plain (argumentCode k args) := by
  match args with
  | [] => exact .nil
  | e :: es => exact (e.plain_code k).append (arguments_plain k es)

end

theorem Statement.plain_letElement (k : Context) (n : Nat) (target : String)
    (index value : Expression) : Plain ((Statement.letElement target index value).code k n) := by
  have haddress := (k.plain_read target).append (index.plain_code k)
  have hvalue := Plain.cons (i := .arithmetic .add) rfl (value.plain_code k)
  exact (haddress.append hvalue).append (.cons rfl (.cons rfl (.cons rfl (.cons rfl .nil))))

theorem Role.plain_prologue (fields : Nat) (r : Role) : Plain (r.prologue fields) := by
  cases r with
  | constructor => exact .cons rfl (.cons rfl (.cons rfl .nil))
  | function => exact .nil
  | method => exact .cons rfl (.cons rfl .nil)

/-! ### The names of labels -/

theorem Label.not_isDigit_of_mem_stem (l : Label) {c : Char} (hc : c ∈ l.stem.toList) :
    c.isDigit = false := by
  have hall : l.stem.toList.all (fun c => !c.isDigit) = true := by cases l <;> rfl
  have hnot := List.all_eq_true.1 hall c hc
  rwa [Bool.not_eq_true'] at hnot

theorem Label.stem_inj {l l' : Label} (h : l.stem = l'.stem) : l = l' := by
  cases l <;> cases l' <;> first | rfl | exact absurd h (by decide)

theorem Label.toList_at (l : Label) (n : Nat) :
    (l.at n).toList = l.stem.toList ++ Nat.toDigits 10 n := by
  rw [Label.at, String.toList_append]
  exact congrArg _ (String.toList_ofList)

/-- The letters of a label are its stem, the digits its number. -/
theorem Label.at_inj {l l' : Label} {n n' : Nat} (h : l.at n = l'.at n') : l = l' ∧ n = n' := by
  have hat := congrArg String.toList h
  rw [Label.toList_at, Label.toList_at] at hat
  have hdigit : ∀ n : Nat, ∀ c ∈ Nat.toDigits 10 n, c.isDigit = true :=
    fun n c hc => Nat.isDigit_of_mem_toDigits (by decide) (by decide) hc
  have hstem : l.stem.toList = l'.stem.toList := by
    have hf := congrArg (List.filter fun c => !c.isDigit) hat
    have hkeep : ∀ l : Label, l.stem.toList.filter (fun c => !c.isDigit) = l.stem.toList :=
      fun l => List.filter_eq_self.2 fun c hc => by rw [l.not_isDigit_of_mem_stem hc]; rfl
    have hdrop : ∀ n : Nat, (Nat.toDigits 10 n).filter (fun c => !c.isDigit) = [] :=
      fun n => List.filter_eq_nil_iff.2 fun c hc => by rw [hdigit n c hc]; decide
    rwa [List.filter_append, List.filter_append, hkeep, hkeep, hdrop, hdrop, List.append_nil,
      List.append_nil] at hf
  rw [hstem] at hat
  have hn := congrArg (fun ds => Nat.ofDigitChars 10 ds 0) (List.append_cancel_left hat)
  simp only [Nat.ofDigitChars_ten_toDigits] at hn
  exact ⟨Label.stem_inj (String.toList_inj.1 hstem), hn⟩

/-! ### Labels are different -/

def Instruction.label? : Instruction → Option String
  | .label name => some name
  | _ => none

/-- The label that a jump goes to. -/
def Instruction.target? : Instruction → Option String
  | .goto name | .ifGoto name => some name
  | _ => none

def labels (is : List Instruction) : List String := is.filterMap Instruction.label?

@[simp] theorem labels_append (is js : List Instruction) :
    labels (is ++ js) = labels is ++ labels js := List.filterMap_append

@[simp] theorem labels_nil : labels [] = [] := rfl

@[simp] theorem labels_cons (i : Instruction) (is : List Instruction) :
    labels (i :: is) = i.label?.toList ++ labels is := by
  cases i <;> rfl

theorem Plain.labels {is : List Instruction} (h : Plain is) : labels is = [] := by
  apply List.filterMap_eq_nil_iff.2
  intro i hi
  have := h i hi
  cases i <;> first | rfl | cases this

theorem mem_labels {name : String} {is : List Instruction} :
    name ∈ labels is ↔ .label name ∈ is := by
  rw [labels, List.mem_filterMap]
  constructor
  · rintro ⟨i, hi, hl⟩
    cases i <;> cases hl
    exact hi
  · exact fun h => ⟨.label name, h, rfl⟩

/-- The labels of the code are all different and bear numbers from `lo` on, below `hi`. -/
structure LabelsWithin (is : List Instruction) (lo hi : Nat) : Prop where
  nodup : (labels is).Nodup
  within : ∀ name ∈ labels is, ∃ l n, name = Label.at l n ∧ lo ≤ n ∧ n < hi

namespace LabelsWithin

variable {is js : List Instruction} {lo mid hi : Nat}

theorem of_nil (h : labels is = []) : LabelsWithin is lo hi := by
  constructor
  · rw [h]
    exact List.nodup_nil
  · intro name hname
    rw [h] at hname
    cases hname

theorem mono {lo' hi' : Nat} (h : LabelsWithin is lo hi) (hlo : lo' ≤ lo) (hhi : hi ≤ hi') :
    LabelsWithin is lo' hi' := by
  refine ⟨h.nodup, ?_⟩
  intro name hname
  obtain ⟨l, n, rfl, hl, hu⟩ := h.within name hname
  exact ⟨l, n, rfl, by omega, by omega⟩

theorem perm (h : LabelsWithin is lo hi) (hp : (labels js).Perm (labels is)) :
    LabelsWithin js lo hi := by
  refine ⟨hp.nodup_iff.2 h.nodup, ?_⟩
  intro name hname
  exact h.within name (hp.mem_iff.1 hname)

theorem left (h : LabelsWithin (is ++ js) lo hi) : LabelsWithin is lo hi := by
  have hall := h.within
  have hnodup := h.nodup
  rw [labels_append] at hall hnodup
  refine ⟨(List.nodup_append'.1 hnodup).1, ?_⟩
  intro name hname
  exact hall name (List.mem_append_left _ hname)

theorem append (h : LabelsWithin is lo mid) (h' : LabelsWithin js mid hi) (hlo : lo ≤ mid)
    (hhi : mid ≤ hi) : LabelsWithin (is ++ js) lo hi := by
  constructor
  · rw [labels_append]
    refine List.nodup_append'.2 ⟨h.nodup, h'.nodup, ?_⟩
    intro name hi hj
    obtain ⟨l, n, rfl, -, hn⟩ := h.within name hi
    obtain ⟨l', n', heq, hn', -⟩ := h'.within _ hj
    have := (Label.at_inj heq).2
    omega
  · intro name hname
    rw [labels_append, List.mem_append] at hname
    rcases hname with hi | hj
    · exact (h.mono (Nat.le_refl lo) hhi).within name hi
    · exact (h'.mono hlo (Nat.le_refl hi)).within name hj

theorem notMem (h : LabelsWithin is lo hi) {l : Label} {n : Nat} (hn : n < lo) :
    l.at n ∉ labels is := by
  intro hmem
  obtain ⟨l', n', heq, hlo, -⟩ := h.within _ hmem
  have := (Label.at_inj heq).2
  omega

/-- A construct adds two labels of its own number to those of its parts. -/
theorem construct {code : List Instruction} (l l' : Label) (hne : l ≠ l')
    (h : LabelsWithin is (lo + 1) hi) (hlt : lo < hi)
    (hp : (labels code).Perm (l.at lo :: l'.at lo :: labels is)) : LabelsWithin code lo hi := by
  have hdiff : l.at lo ≠ l'.at lo := fun heq => hne (Label.at_inj heq).1
  constructor
  · apply hp.nodup_iff.2
    have hl : l.at lo ∉ l'.at lo :: labels is :=
      List.not_mem_cons_of_ne_of_not_mem hdiff (h.notMem (Nat.lt_succ_self lo))
    exact List.nodup_cons.2 ⟨hl, List.nodup_cons.2 ⟨h.notMem (Nat.lt_succ_self lo), h.nodup⟩⟩
  · intro name hname
    rw [hp.mem_iff, List.mem_cons, List.mem_cons] at hname
    rcases hname with rfl | rfl | hname
    · exact ⟨l, lo, rfl, Nat.le_refl lo, hlt⟩
    · exact ⟨l', lo, rfl, Nat.le_refl lo, hlt⟩
    · exact (h.mono (Nat.le_succ lo) (Nat.le_refl hi)).within name hname

end LabelsWithin

theorem Statement.labels_if (k : Context) (n : Nat) (condition : Expression)
    (body : List Statement) (otherwise : Option (List Statement)) :
    labels ((Statement.if_ condition body otherwise).code k n)
      = labels (statementCode k (n + 1) body) ++ Label.ifFalse.at n
        :: (labels (otherwiseCode k (n + 1 + constructsOf body) otherwise)
          ++ [Label.ifEnd.at n]) := by
  rw [Statement.code]
  simp [(condition.plain_code k).labels, Instruction.label?, Label.at, Label.stem]

theorem Statement.labels_while (k : Context) (n : Nat) (condition : Expression)
    (body : List Statement) :
    labels ((Statement.while_ condition body).code k n)
      = Label.whileStart.at n
        :: (labels (statementCode k (n + 1) body) ++ [Label.whileEnd.at n]) := by
  rw [Statement.code]
  simp [(condition.plain_code k).labels, Instruction.label?, Label.at, Label.stem]

mutual

theorem Statement.labelsWithin (k : Context) (n : Nat) (s : Statement) :
    LabelsWithin (s.code k n) n (n + s.constructs) := by
  match s with
  | .letVariable target value =>
    exact .of_nil ((value.plain_code k).append (k.plain_write target)).labels
  | .letElement target index value =>
    exact .of_nil (Statement.plain_letElement k n target index value).labels
  | .if_ condition body otherwise =>
    have hbody := statements_labelsWithin k (n + 1) body
    have hother := otherwise_labelsWithin k (n + 1 + constructsOf body) otherwise
    refine LabelsWithin.construct .ifFalse .ifEnd (by decide)
      ((hbody.append hother (by omega) (by omega)).mono (Nat.le_refl _)
        (by simp only [Statement.constructs]; omega))
      (by simp only [Statement.constructs]; omega) ?_
    rw [Statement.labels_if, labels_append]
    refine List.perm_middle.trans (.cons _ ?_)
    rw [← List.append_assoc]
    exact List.perm_append_singleton _ _
  | .while_ condition body =>
    have hbody := statements_labelsWithin k (n + 1) body
    refine LabelsWithin.construct .whileStart .whileEnd (by decide)
      (hbody.mono (Nat.le_refl _) (by simp only [Statement.constructs]; omega))
      (by simp only [Statement.constructs]; omega) ?_
    rw [Statement.labels_while]
    exact .cons _ (List.perm_append_singleton _ _)
  | .do_ call => exact .of_nil ((call.plain_code k).append (.cons rfl .nil)).labels
  | .return_ none => exact .of_nil rfl
  | .return_ (some value) =>
    refine .of_nil ?_
    rw [Statement.code, labels_append, (value.plain_code k).labels]
    rfl

theorem statements_labelsWithin (k : Context) (n : Nat) (ss : List Statement) :
    LabelsWithin (statementCode k n ss) n (n + constructsOf ss) := by
  match ss with
  | [] => exact .of_nil rfl
  | s :: ss =>
    have hs := s.labelsWithin k n
    have hss := statements_labelsWithin k (n + s.constructs) ss
    rw [constructsOf, ← Nat.add_assoc]
    exact hs.append hss (Nat.le_add_right _ _) (Nat.le_add_right _ _)

theorem otherwise_labelsWithin (k : Context) (n : Nat) (o : Option (List Statement)) :
    LabelsWithin (otherwiseCode k n o) n (n + constructsOfOtherwise o) := by
  match o with
  | none => exact .of_nil rfl
  | some body => exact statements_labelsWithin k n body

end

end Jack
