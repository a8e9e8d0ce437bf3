import Jack.Proofs.Correctness
import Jack.Proofs.Freshness
import Jack.Proofs.Functions

/-! Where jumps go. A construct jumps to its own labels only, so every jump stays in its function;
and since no label is defined twice, it has one target in the file. -/

namespace Jack

/-- Every jump goes to one of the names. -/
def JumpsInto (names : List String) (is : List Instruction) : Prop :=
  ∀ i ∈ is, ∀ name, i.target? = some name → name ∈ names

namespace JumpsInto

variable {names more : List String} {i : Instruction} {is js : List Instruction}

theorem nil (names : List String) : JumpsInto names [] := by simp [JumpsInto]

theorem cons (hi : ∀ name, i.target? = some name → name ∈ names) (h : JumpsInto names is) :
    JumpsInto names (i :: is) :=
  List.forall_mem_cons.2 ⟨hi, h⟩

theorem append (h : JumpsInto names is) (h' : JumpsInto names js) : JumpsInto names (is ++ js) :=
  List.forall_mem_append.2 ⟨h, h'⟩

theorem mono (h : JumpsInto names is) (hsub : names ⊆ more) : JumpsInto more is := by
  intro i hi name hname
  exact hsub (h i hi name hname)

theorem plain (h : Plain is) : JumpsInto names is := by
  intro i hi name hname
  have hplain := h i hi
  cases i with
  | goto | ifGoto => cases hplain
  | _ => cases hname

/-- The jump when a condition does not hold. -/
theorem test {name : String} (h : name ∈ names) :
    JumpsInto names [.arithmetic .not, .ifGoto name] := by
  refine cons (fun _ hn => by cases hn) (cons ?_ (nil names))
  intro name' hname
  cases hname
  exact h

/-- The jump over a branch, or back to a condition, before the label that follows it. -/
theorem turn {name : String} (h : name ∈ names) (name' : String) :
    JumpsInto names [.goto name, .label name'] := by
  refine cons ?_ (cons (fun _ hn => by cases hn) (nil names))
  intro name' hname
  cases hname
  exact h

end JumpsInto

mutual

theorem Statement.jumpsInto (k : Context) (n : Nat) (s : Statement) :
    JumpsInto (labels (s.code k n)) (s.code k n) := by
  match s with
  | .letVariable target value =>
    exact .plain ((value.plain_code k).append (k.plain_write target))
  | .letElement target index value =>
    exact .plain (Statement.plain_letElement k n target index value)
  | .if_ condition body otherwise =>
    have hlabels := Statement.labels_if k n condition body otherwise
    have hbody := statements_jumpInto k (n + 1) body
    have hother := otherwise_jumpsInto k (n + 1 + constructsOf body) otherwise
    have hfalse :
        Label.ifFalse.at n ∈ labels ((Statement.if_ condition body otherwise).code k n) := by
      simp [hlabels]
    have hend : Label.ifEnd.at n ∈ labels ((Statement.if_ condition body otherwise).code k n) := by
      simp [hlabels]
    have htest := (JumpsInto.plain (condition.plain_code k)).append (.test hfalse)
    have hthen := (htest.append (hbody.mono fun _ h => by simp [hlabels, h])).append
      (.turn hend (Label.ifFalse.at n))
    exact (hthen.append (hother.mono fun _ h => by simp [hlabels, h])).append
      (.cons (fun _ h => by cases h) (.nil _))
  | .while_ condition body =>
    have hlabels := Statement.labels_while k n condition body
    have hbody := statements_jumpInto k (n + 1) body
    have hstart : Label.whileStart.at n ∈ labels ((Statement.while_ condition body).code k n) := by
      simp [hlabels]
    have hend : Label.whileEnd.at n ∈ labels ((Statement.while_ condition body).code k n) := by
      simp [hlabels]
    have hlabel : JumpsInto (labels ((Statement.while_ condition body).code k n))
        (.label (Label.whileStart.at n) :: condition.code k) :=
      .cons (fun _ h => by cases h) (.plain (condition.plain_code k))
    exact ((hlabel.append (.test hend)).append (hbody.mono fun _ h => by simp [hlabels, h])).append
      (.turn hstart (Label.whileEnd.at n))
  | .do_ call => exact .plain ((call.plain_code k).append (.cons rfl .nil))
  | .return_ none =>
    exact .cons (fun _ h => by cases h) (.cons (fun _ h => by cases h) (.nil _))
  | .return_ (some value) =>
    exact (JumpsInto.plain (value.plain_code k)).append (.cons (fun _ h => by cases h) (.nil _))

theorem statements_jumpInto (k : Context) (n : Nat) (ss : List Statement) :
    JumpsInto (labels (statementCode k n ss)) (statementCode k n ss) := by
  match ss with
  | [] => exact .nil _
  | s :: ss =>
    have hs := s.jumpsInto k n
    have hss := statements_jumpInto k (n + s.constructs) ss
    rw [statementCode, labels_append]
    exact (hs.mono (List.subset_append_left _ _)).append (hss.mono (List.subset_append_right _ _))

theorem otherwise_jumpsInto (k : Context) (n : Nat) (o : Option (List Statement)) :
    JumpsInto (labels (otherwiseCode k n o)) (otherwiseCode k n o) := by
  match o with
  | none => exact .nil _
  | some body => exact statements_jumpInto k n body

end

theorem ClassDec.jumpsInto_bodyCode (c : ClassDec) (n : Nat) (d : SubroutineDec) :
    JumpsInto (labels (c.bodyCode n d)) (c.bodyCode n d) := by
  have hbody := statements_jumpInto (c.context d) n d.body
  have hprologue := d.role.plain_prologue c.fieldCount
  rw [ClassDec.bodyCode, labels_append, hprologue.labels, List.nil_append]
  exact (JumpsInto.plain hprologue).append hbody

theorem exists_stream_of_compilation {source : String} {outlined : Bool} {c : Compilation}
    (h : compilation source outlined = .ok c) :
    ∃ stream : TokenStream, c = stream.compile outlined := by
  unfold compilation at h
  split at h
  · rename_i stream _
    cases h
    exact ⟨stream, rfl⟩
  · cases h

/-- Once a text is read as tokens, no label is defined twice, whether it compiles or not. If it
does, the file is its functions, and the target of a jump is defined once in the file, namely in the
function of the jump. -/
theorem jumps_stay_in_function {source : String} {outlined : Bool} {c : Compilation}
    (h : compilation source outlined = .ok c) :
    (labels c.session.code).Nodup
      ∧ (c.error? = none →
        (functions c.session.code).flatMap FunctionCode.code = c.session.code
          ∧ ∀ f ∈ functions c.session.code, ∀ i ∈ f.block, ∀ name, i.target? = some name →
            name ∈ labels f.block ∧ (labels c.session.code).count name = 1) := by
  obtain ⟨stream, rfl⟩ := exists_stream_of_compilation h
  have hnodup := stream.nodup_labels_compile outlined
  refine ⟨hnodup, ?_⟩
  intro he
  obtain ⟨d, hd, hacc⟩ := TokenStream.exists_classDec he
  have hcode := (TokenStream.compile_of_lexemes hd outlined).2 hacc
  rw [hcode, ClassDec.code] at hnodup ⊢
  have hflat := d.flatMap_functions 0 d.subroutines
  refine ⟨hflat, ?_⟩
  intro f hf i hi name hname
  obtain ⟨r, -, n, rfl⟩ := ClassDec.exists_of_mem_functions hf
  have hlabel := d.jumpsInto_bodyCode n r i hi name hname
  refine ⟨hlabel, List.count_eq_one_of_mem hnodup ?_⟩
  have hmem : Instruction.label name ∈ d.codeFrom 0 d.subroutines := by
    rw [← hflat]
    exact List.mem_flatMap.2 ⟨_, hf, List.mem_cons_of_mem _ (mem_labels.1 hlabel)⟩
  exact mem_labels.2 hmem

/-- A loop around a branch, with another loop in the next function; and a text that fails inside
its second construct. -/
theorem jumps_of_nested_constructs :
    (∃ c,
      compilation "class A{method int f(){while(true){if(true){}}}function int g(){while(true){}}}" false
        = .ok c
      ∧ c.error? = none
      ∧ labels c.session.code = ["WHILE_EXP0", "IF_FALSE1", "IF_END1", "WHILE_END0", "WHILE_EXP2",
        "WHILE_END2"]
      ∧ (labels c.session.code).Nodup
      ∧ ∀ f ∈ functions c.session.code, ∀ i ∈ f.block, ∀ name, i.target? = some name →
        name ∈ labels f.block ∧ (labels c.session.code).count name = 1)
    ∧ ∃ c,
      compilation "class A{function int g(){while(true){}while(x){}}}" false = .ok c
      ∧ c.error? = some (.undefinedVariable .term "x" ⟨1, 45⟩)
      ∧ labels c.session.code = ["WHILE_EXP0", "WHILE_END0", "WHILE_EXP1"]
      ∧ (labels c.session.code).Nodup := by
  constructor
  · obtain ⟨c, h, he, hlabels⟩ : ∃ c,
        compilation "class A{method int f(){while(true){if(true){}}}function int g(){while(true){}}}" false
          = .ok c
        ∧ c.error? = none
        ∧ labels c.session.code = ["WHILE_EXP0", "IF_FALSE1", "IF_END1", "WHILE_END0", "WHILE_EXP2",
          "WHILE_END2"] :=
      ⟨_, by rfl, by rfl, by rfl⟩
    obtain ⟨hnodup, hjumps⟩ := jumps_stay_in_function h
    exact ⟨c, h, he, hlabels, hnodup, (hjumps he).2⟩
  · obtain ⟨c, h, he, hlabels⟩ : ∃ c,
        compilation "class A{function int g(){while(true){}while(x){}}}" false = .ok c
        ∧ c.error? = some (.undefinedVariable .term "x" ⟨1, 45⟩)
        ∧ labels c.session.code = ["WHILE_EXP0", "WHILE_END0", "WHILE_EXP1"] :=
      ⟨_, by rfl, by rfl, by rfl⟩
    exact ⟨c, h, he, hlabels, (jumps_stay_in_function h).1⟩

end Jack
