import Jack.Proofs.Execution
import Jack.Proofs.Functions

/-! The code of a subroutine does what its statements do. A jump finds its target since the labels
of the code are different, and whatever is left in `that` and `temp` is never read. -/

namespace Jack

variable {library : Library} {k : Context} {code : List Instruction}

/-! ### Points of a run -/

/-- What of a machine counts; `that` and `temp` are scratch. -/
structure Point where
  rest : List Instruction
  stack : List Word
  state : State

def Machine.point (m : Machine) : Point := ⟨m.rest, m.stack, ⟨m.frame, m.store⟩⟩

/-- Machines get from one point to the other. -/
def Leads (library : Library) (code : List Instruction) (p q : Point) : Prop :=
  ∀ m : Machine, m.point = p → ∃ n, Runs library code m n ∧ n.point = q

namespace Leads

variable {p q r : Point} {rest : List Instruction} {stack : List Word} {s : State}

theorem refl (p : Point) : Leads library code p p := fun m hm => ⟨m, .refl m, hm⟩

theorem trans (h : Leads library code p q) (h' : Leads library code q r) :
    Leads library code p r := by
  intro m hm
  obtain ⟨n, hrun, hn⟩ := h m hm
  obtain ⟨o, hrun', ho⟩ := h' n hn
  exact ⟨o, hrun.trans hrun', ho⟩

/-- One step, whatever the scratch words are. -/
theorem step (h : ∀ that temp, ∃ n, Machine.step? library code
      ⟨p.rest, p.stack, p.state.frame, p.state.store, that, temp⟩ = some n ∧ n.point = q) :
    Leads library code p q := by
  rintro ⟨_, _, _, _, that, temp⟩ rfl
  obtain ⟨n, hstep, hn⟩ := h that temp
  exact ⟨n, .step hstep, hn⟩

theorem computes {is : List Instruction} {us ws : List Word} {t : Store}
    (h : Computes library s.frame is us s.store ws t) (rest : List Instruction)
    (stack : List Word) :
    Leads library code ⟨is ++ rest, us ++ stack, s⟩ ⟨rest, ws ++ stack, ⟨s.frame, t⟩⟩ := by
  rintro ⟨_, _, frame, store, that, temp⟩ hm
  cases hm
  obtain ⟨that', hrun⟩ := h code rest ⟨is ++ rest, us ++ stack, frame, store, that, temp⟩ stack
    rfl rfl rfl rfl
  exact ⟨_, hrun, rfl⟩

theorem label (name : String) (rest : List Instruction) (stack : List Word) (s : State) :
    Leads library code ⟨.label name :: rest, stack, s⟩ ⟨rest, stack, s⟩ :=
  step fun _ _ => ⟨_, rfl, rfl⟩

theorem goto {name : String} {target : List Instruction} (h : fromLabel? name code = some target)
    (rest : List Instruction) (stack : List Word) (s : State) :
    Leads library code ⟨.goto name :: rest, stack, s⟩ ⟨target, stack, s⟩ := by
  refine step fun that temp => ⟨⟨target, stack, s.frame, s.store, that, temp⟩, ?_, rfl⟩
  rw [Machine.step?]
  simp [h]

theorem holds (name : String) (rest : List Instruction) (stack : List Word) (s : State) :
    Leads library code ⟨.arithmetic .not :: .ifGoto name :: rest, 65535 :: stack, s⟩
      ⟨rest, stack, s⟩ :=
  (step (q := ⟨.ifGoto name :: rest, 0 :: stack, s⟩) fun _ _ => ⟨_, rfl, rfl⟩).trans
    (step fun _ _ => ⟨_, rfl, rfl⟩)

theorem fails {name : String} {target : List Instruction}
    (h : fromLabel? name code = some target) {w : Word} (hw : w ≠ 65535)
    (rest : List Instruction) (stack : List Word) (s : State) :
    Leads library code ⟨.arithmetic .not :: .ifGoto name :: rest, w :: stack, s⟩
      ⟨target, stack, s⟩ := by
  have hnot : ~~~w ≠ 0 := by
    intro h0
    have hones : w = -1 := by simpa using congrArg (fun x : Word => ~~~x) h0
    exact hw (hones.trans rfl)
  refine (step (q := ⟨.ifGoto name :: rest, (~~~w) :: stack, s⟩) fun _ _ => ⟨_, rfl, rfl⟩).trans
    (step fun that temp => ⟨⟨target, stack, s.frame, s.store, that, temp⟩, ?_, rfl⟩)
  rw [Machine.step?]
  simp [h, hnot]

theorem write {name : String} {v : Variable} (h : k.lookup name = some v) (w : Word)
    (rest : List Instruction) (stack : List Word) (s : State) :
    Leads library code ⟨k.write name ++ rest, w :: stack, s⟩ ⟨rest, stack, s.assign v w⟩ := by
  rw [Context.write, h]
  obtain ⟨_, _, kind, index⟩ := v
  cases kind <;> exact step fun _ _ => ⟨_, rfl, rfl⟩

/-- The word on top goes to the address below it. -/
theorem put (address w : Word) (rest : List Instruction) (stack : List Word) (s : State) :
    Leads library code ⟨[.pop .temp 0, .pop .pointer 1, .push .temp 0, .pop .that 0] ++ rest,
      w :: address :: stack, s⟩ ⟨rest, stack, s.put address w⟩ := by
  rintro ⟨_, _, frame, store, that, temp⟩ hm
  cases hm
  refine ⟨_, .trans (.step rfl) (.trans (.step rfl) (.trans (.step rfl) (.step rfl))), ?_⟩
  simp [Machine.point, State.put, putWord]

theorem drop (w : Word) (rest : List Instruction) (stack : List Word) (s : State) :
    Leads library code ⟨.pop .temp 0 :: rest, w :: stack, s⟩ ⟨rest, stack, s⟩ :=
  step fun _ _ => ⟨_, rfl, rfl⟩

end Leads

/-! ### Statements -/

/-- A label that is the only one of its name is found. -/
theorem fromLabel?_of_suffix (hn : (labels code).Nodup) {name : String}
    {rest : List Instruction} (h : .label name :: rest <:+ code) :
    fromLabel? name code = some (.label name :: rest) := by
  obtain ⟨before, rfl⟩ := h
  refine fromLabel?_append (fun hmem => ?_) rest
  rw [labels_append, List.nodup_append'] at hn
  exact hn.2.2 (mem_labels.2 hmem) (mem_labels.2 (List.mem_cons_self ..))

theorem otherwiseCode_eq (k : Context) (n : Nat) (o : Option (List Statement)) :
    otherwiseCode k n o = statementCode k n (o.getD []) := by
  cases o <;> rfl

theorem otherwiseUses_eq (o : Option (List Statement)) :
    otherwiseUses o = statementUses (o.getD []) := by
  cases o <;> rfl

theorem returnsOfOtherwise_eq (o : Option (List Statement)) :
    returnsOfOtherwise o = returnsOf (o.getD []) := by
  cases o <;> rfl

theorem Plain.count_return {is : List Instruction} (h : Plain is) : is.count .return_ = 0 := by
  apply List.count_eq_zero.2
  intro hmem
  have := h _ hmem
  cases this

mutual

theorem Statement.count_return (k : Context) (n : Nat) (s : Statement) :
    (s.code k n).count .return_ = s.returns := by
  match s with
  | .letVariable target value =>
    exact ((value.plain_code k).append (k.plain_write target)).count_return
  | .letElement target index value =>
    exact (Statement.plain_letElement k n target index value).count_return
  | .if_ condition body otherwise =>
    have hbody := statements_count_return k (n + 1) body
    have hother := otherwise_count_return k (n + 1 + constructsOf body) otherwise
    simp [Statement.code, Statement.returns, (condition.plain_code k).count_return, hbody, hother]
  | .while_ condition body =>
    have hbody := statements_count_return k (n + 1) body
    simp [Statement.code, Statement.returns, (condition.plain_code k).count_return, hbody]
  | .do_ call => exact ((call.plain_code k).append (.cons rfl .nil)).count_return
  | .return_ none => rfl
  | .return_ (some value) =>
    simp [Statement.code, Statement.returns, (value.plain_code k).count_return]

theorem statements_count_return (k : Context) (n : Nat) (ss : List Statement) :
    (statementCode k n ss).count .return_ = returnsOf ss := by
  match ss with
  | [] => rfl
  | s :: ss =>
    rw [statementCode, List.count_append, s.count_return, statements_count_return k _ ss, returnsOf]

theorem otherwise_count_return (k : Context) (n : Nat) (o : Option (List Statement)) :
    (otherwiseCode k n o).count .return_ = returnsOfOtherwise o := by
  match o with
  | none => rfl
  | some body => exact statements_count_return k n body

end

/-- From a point, machines end as said over the words that were on the stack: before `more`, or at
the `return` instruction that has `later` others between it and `more`, with one word more. -/
def Outcome.Ends (library : Library) (code more : List Instruction) (base : List Word) (t : State)
    (p : Point) : Outcome → Prop
  | .through => Leads library code p ⟨more, base, t⟩
  | .returned later w => ∃ after, after.count .return_ = later + more.count .return_
      ∧ Leads library code p ⟨.return_ :: after, w :: base, t⟩

theorem Outcome.Ends.after {o : Outcome} {more : List Instruction} {base : List Word} {t : State}
    {p q : Point} (h : o.Ends library code more base t q) (hp : Leads library code p q) :
    o.Ends library code more base t p := by
  cases o with
  | through => exact hp.trans h
  | returned later w =>
    obtain ⟨after, hcount, hq⟩ := h
    exact ⟨after, hcount, hp.trans hq⟩

/-- The same `return` instruction, seen from before `more'`. -/
theorem Outcome.Ends.before {later later' : Nat} {w : Word} {more more' : List Instruction}
    {base : List Word} {t : State} {p : Point}
    (h : (Outcome.returned later w).Ends library code more base t p)
    (hcount : later + more.count .return_ = later' + more'.count .return_) :
    (Outcome.returned later' w).Ends library code more' base t p := by
  obtain ⟨after, hafter, hp⟩ := h
  exact ⟨after, hafter.trans hcount, hp⟩

theorem Leads.expression {e : Expression} (hp : k.Permits e.uses) {s : State} {w : Word}
    {u : Store} (he : e.eval library k s.frame s.store = some (w, u)) (rest : List Instruction)
    (stack : List Word) :
    Leads library code ⟨e.code k ++ rest, stack, s⟩ ⟨rest, w :: stack, ⟨s.frame, u⟩⟩ := by
  obtain ⟨w', u', he', hc⟩ := e.computes library s.frame hp s.store
  obtain ⟨rfl, rfl⟩ := Prod.mk.inj (Option.some.inj (he.symm.trans he'))
  exact .computes hc rest stack

theorem Leads.call {c : Call} (hp : k.Permits c.uses) {s : State} {w : Word}
    {u : Store} (he : c.eval library k s.frame s.store = some (w, u)) (rest : List Instruction)
    (stack : List Word) :
    Leads library code ⟨c.code k ++ rest, stack, s⟩ ⟨rest, w :: stack, ⟨s.frame, u⟩⟩ := by
  obtain ⟨w', u', he', hc⟩ := c.computes library s.frame hp s.store
  obtain ⟨rfl, rfl⟩ := Prod.mk.inj (Option.some.inj (he.symm.trans he'))
  exact .computes hc rest stack

theorem ifCode_append (k : Context) (n : Nat) (condition : Expression) (body : List Statement)
    (otherwise : Option (List Statement)) (rest : List Statement) (more : List Instruction) :
    statementCode k n (.if_ condition body otherwise :: rest) ++ more
      = condition.code k ++ .arithmetic .not :: .ifGoto (Label.ifFalse.at n)
        :: (statementCode k (n + 1) body ++ .goto (Label.ifEnd.at n)
          :: .label (Label.ifFalse.at n)
          :: (statementCode k (n + 1 + constructsOf body) (otherwise.getD [])
            ++ .label (Label.ifEnd.at n)
              :: (statementCode k (n + (Statement.if_ condition body otherwise).constructs) rest
                ++ more))) := by
  rw [← otherwiseCode_eq]
  simp [statementCode, Statement.code, Label.at, Label.stem]

theorem whileCode_append (k : Context) (n : Nat) (condition : Expression)
    (body rest : List Statement) (more : List Instruction) :
    statementCode k n (.while_ condition body :: rest) ++ more
      = .label (Label.whileStart.at n) :: (condition.code k ++ .arithmetic .not
        :: .ifGoto (Label.whileEnd.at n) :: (statementCode k (n + 1) body
          ++ .goto (Label.whileStart.at n) :: .label (Label.whileEnd.at n)
            :: (statementCode k (n + (Statement.while_ condition body).constructs) rest
              ++ more))) := by
  simp [statementCode, Statement.code, Label.at, Label.stem]

theorem elementCode_append (k : Context) (n : Nat) (target : String) (index value : Expression)
    (rest : List Statement) (more : List Instruction) :
    statementCode k n (.letElement target index value :: rest) ++ more
      = k.read target ++ (index.code k ++ .arithmetic .add :: (value.code k
        ++ ([Instruction.pop .temp 0, .pop .pointer 1, .push .temp 0, .pop .that 0]
          ++ (statementCode k n rest ++ more)))) := by
  simp [statementCode, Statement.code, Statement.constructs]

theorem suffixes_of_branch {is body more : List Instruction} {i j : Instruction}
    (h : is ++ i :: j :: (body ++ more) <:+ code) : body ++ more <:+ code ∧ more <:+ code := by
  have htest := (List.suffix_append is _).trans h
  have hbody := ((List.suffix_cons j _).trans (List.suffix_cons i _)).trans htest
  exact ⟨hbody, (List.suffix_append body more).trans hbody⟩

/-- Statements that run to an outcome have code that ends so, wherever it stands in code whose
labels are different. -/
theorem Executes.ends {ss : List Statement} {s t : State} {o : Outcome}
    (h : Executes library k ss s o t) (hp : k.Permits (statementUses ss))
    (hnodup : (labels code).Nodup) {n : Nat} {more : List Instruction}
    (hcode : statementCode k n ss ++ more <:+ code) (base : List Word) :
    o.Ends library code more base t ⟨statementCode k n ss ++ more, base, s⟩ := by
  induction h generalizing n more with
  | nil s => exact .refl _
  | @letVariable target value rest s t v w u o hv he hrest ih =>
    rw [statementUses, Statement.uses, List.cons_append, Context.permits_variable,
      Context.permits_append] at hp
    rw [statementCode, Statement.code, List.append_assoc, List.append_assoc] at hcode ⊢
    have hnext := (List.suffix_append _ _).trans ((List.suffix_append _ _).trans hcode)
    refine .after ?_ (.expression hp.2.1 he _ base)
    refine .after ?_ (.write hv w _ base _)
    exact ih hp.2.2 hnext
  | @letElement target index value rest s t address offset w u u' o hb hi he hrest ih =>
    rw [statementUses, Statement.uses, List.cons_append, Context.permits_variable,
      Context.permits_append, Context.permits_append] at hp
    rw [elementCode_append] at hcode ⊢
    have hnext := (List.suffix_append _ _).trans ((List.suffix_append _ _).trans
      ((List.suffix_cons _ _).trans ((List.suffix_append _ _).trans
        ((List.suffix_append _ _).trans hcode))))
    have hadd : Computes library s.frame [.arithmetic .add] [offset, address] u
        [address + offset] u := .command rfl u
    refine .after ?_ (.computes (.ofName hb) _ base)
    refine .after ?_ (.expression hp.2.1.1 hi _ (address :: base))
    refine .after ?_ (.computes (s := ⟨s.frame, u⟩) hadd _ base)
    -- the address waits on the stack, so the value may read elements of its own
    refine .after ?_ (.expression hp.2.1.2 he _ ((address + offset) :: base))
    refine .after ?_ (.put (address + offset) w _ base _)
    exact ih hp.2.2 hnext
  | @then_ condition body otherwise rest s t t' u o hc hbody hrest ihbody ihrest =>
    simp only [statementUses, Statement.uses, Context.permits_append] at hp
    rw [ifCode_append] at hcode ⊢
    obtain ⟨hthen, hjump⟩ := suffixes_of_branch hcode
    have hend := (List.suffix_append _ _).trans
      ((List.suffix_cons _ _).trans ((List.suffix_cons _ _).trans hjump))
    refine .after ?_ (.expression hp.1.1.1 hc _ base)
    refine .after ?_ (.holds _ _ base _)
    refine .after ?_ (ihbody hp.1.1.2 hthen)
    refine .after ?_ (.goto (fromLabel?_of_suffix hnodup hend) _ base t)
    refine .after ?_ (.label _ _ base t)
    exact ihrest hp.2 ((List.suffix_cons _ _).trans hend)
  | @else_ condition body otherwise rest s t t' w u o hc hw hbody hrest ihbody ihrest =>
    simp only [statementUses, Statement.uses, Context.permits_append, otherwiseUses_eq] at hp
    rw [ifCode_append] at hcode ⊢
    have hfalse := (List.suffix_cons _ _).trans (suffixes_of_branch hcode).2
    have hend := (List.suffix_append _ _).trans ((List.suffix_cons _ _).trans hfalse)
    refine .after ?_ (.expression hp.1.1.1 hc _ base)
    refine .after ?_ (.fails (fromLabel?_of_suffix hnodup hfalse) hw _ base _)
    refine .after ?_ (.label _ _ base _)
    refine .after ?_ (ihbody hp.1.2 ((List.suffix_cons _ _).trans hfalse))
    refine .after ?_ (.label _ _ base t)
    exact ihrest hp.2 ((List.suffix_cons _ _).trans hend)
  | thenReturn hc hbody ih =>
    simp only [statementUses, Statement.uses, Context.permits_append] at hp
    rw [ifCode_append] at hcode ⊢
    obtain ⟨hthen, -⟩ := suffixes_of_branch hcode
    refine .after ?_ (.expression hp.1.1.1 hc _ base)
    refine .after ?_ (.holds _ _ base _)
    refine (ih hp.1.1.2 hthen).before ?_
    simp [statements_count_return, returnsOfOtherwise_eq]
    omega
  | elseReturn hc hw hbody ih =>
    simp only [statementUses, Statement.uses, Context.permits_append, otherwiseUses_eq] at hp
    rw [ifCode_append] at hcode ⊢
    have hfalse := (List.suffix_cons _ _).trans (suffixes_of_branch hcode).2
    refine .after ?_ (.expression hp.1.1.1 hc _ base)
    refine .after ?_ (.fails (fromLabel?_of_suffix hnodup hfalse) hw _ base _)
    refine .after ?_ (.label _ _ base _)
    refine (ih hp.1.2 ((List.suffix_cons _ _).trans hfalse)).before ?_
    simp [statements_count_return]
    omega
  | whileEnd hc hw hrest ih =>
    simp only [statementUses, Statement.uses, Context.permits_append] at hp
    rw [whileCode_append] at hcode ⊢
    obtain ⟨-, hjump⟩ := suffixes_of_branch ((List.suffix_cons _ _).trans hcode)
    have hend := (List.suffix_cons _ _).trans hjump
    refine .after ?_ (.label _ _ base _)
    refine .after ?_ (.expression hp.1.1 hc _ base)
    refine .after ?_ (.fails (fromLabel?_of_suffix hnodup hend) hw _ base _)
    refine .after ?_ (.label _ _ base _)
    exact ih hp.2 ((List.suffix_cons _ _).trans hend)
  | @whileStep condition body rest s t t' u o hc hbody hagain ihbody ihagain =>
    have hagain := ihagain hp hcode
    simp only [statementUses, Statement.uses, Context.permits_append] at hp
    rw [whileCode_append] at hcode hagain ⊢
    obtain ⟨hstep, -⟩ := suffixes_of_branch ((List.suffix_cons _ _).trans hcode)
    refine .after ?_ (.label _ _ base s)
    refine .after ?_ (.expression hp.1.1 hc _ base)
    refine .after ?_ (.holds _ _ base _)
    refine .after ?_ (ihbody hp.1.2 hstep)
    exact hagain.after (.goto (fromLabel?_of_suffix hnodup hcode) _ base t)
  | whileReturn hc hbody ih =>
    simp only [statementUses, Statement.uses, Context.permits_append] at hp
    rw [whileCode_append] at hcode ⊢
    obtain ⟨hstep, -⟩ := suffixes_of_branch ((List.suffix_cons _ _).trans hcode)
    refine .after ?_ (.label _ _ base _)
    refine .after ?_ (.expression hp.1.1 hc _ base)
    refine .after ?_ (.holds _ _ base _)
    refine (ih hp.1.2 hstep).before ?_
    simp [statements_count_return]
    omega
  | do_ hc hrest ih =>
    rw [statementUses, Statement.uses, Context.permits_append] at hp
    rw [statementCode, Statement.code, List.append_assoc, List.append_assoc] at hcode ⊢
    have hnext := (List.suffix_append _ _).trans ((List.suffix_append _ _).trans hcode)
    refine .after ?_ (.call hp.1 hc _ base)
    refine .after ?_ (.drop _ _ base _)
    exact ih hp.2 hnext
  | returnNone rest s =>
    refine ⟨statementCode k (n + 0) rest ++ more, ?_, ?_⟩
    · rw [List.count_append, statements_count_return]
    · exact .computes (.constant 0 s.store) _ base
  | @returnSome value rest s w u he =>
    rw [statementUses, Statement.uses, Context.permits_append] at hp
    refine ⟨statementCode k (n + 0) rest ++ more, ?_, ?_⟩
    · rw [List.count_append, statements_count_return]
    · rw [statementCode, Statement.code, List.append_assoc, List.append_assoc]
      exact .expression hp.1 he _ base

/-! ### Subroutines -/

theorem Leads.prologue (role : Role) (fields : Nat) (rest : List Instruction)
    (stack : List Word) (s : State) :
    Leads library code ⟨role.prologue fields ++ rest, stack, s⟩
      ⟨rest, stack, role.enter library fields s⟩ := by
  cases role with
  | constructor =>
    have halloc : Computes library s.frame
        [.push .constant (UInt16.ofNat fields), .call "Memory.alloc" 1] [] s.store
        [(library "Memory.alloc" [UInt16.ofNat fields] s.store).1]
        (library "Memory.alloc" [UInt16.ofNat fields] s.store).2 :=
      (Computes.constant _ _).cons (.call "Memory.alloc" [UInt16.ofNat fields] rfl s.store)
    exact (computes halloc (.pop .pointer 0 :: rest) stack).trans (step fun _ _ => ⟨_, rfl, rfl⟩)
  | function => exact .refl _
  | method =>
    have hthis : Computes library s.frame [.push .argument 0] [] s.store [s.frame.arguments 0]
        s.store := .push fun m hf _ => by rw [← hf]; rfl
    exact (computes hthis (.pop .pointer 0 :: rest) stack).trans (step fun _ _ => ⟨_, rfl, rfl⟩)

theorem ClassDec.nodup_labels_bodyCode (c : ClassDec) (n : Nat) (d : SubroutineDec) :
    (labels (c.bodyCode n d)).Nodup := by
  rw [ClassDec.bodyCode, labels_append, (d.role.plain_prologue _).labels, List.nil_append]
  exact (statements_labelsWithin (c.context d) n d.body).nodup

/-- A subroutine that runs to an outcome has a block that ends so. -/
theorem ClassDec.Executes.ends {c : ClassDec} {d : SubroutineDec} {s t : State} {o : Outcome}
    (h : c.Executes library d s o t) (hp : (c.context d).Permits (statementUses d.body)) (n : Nat)
    (base : List Word) :
    o.Ends library (c.bodyCode n d) [] base t ⟨c.bodyCode n d, base, s⟩ := by
  have hcode : statementCode (c.context d) n d.body ++ [] <:+ c.bodyCode n d := by
    rw [List.append_nil]
    exact List.suffix_append _ _
  have hbody := Jack.Executes.ends h hp (c.nodup_labels_bodyCode n d) hcode base
  rw [List.append_nil] at hbody
  exact hbody.after (.prologue d.role c.fieldCount _ base s)

/-- When a text compiles, each subroutine of its class has a block, in order. Where the statements
of a subroutine run to an outcome, its block started over any stack runs to its end with the same
stack, or to the same `return` with the returned word on that stack, and the locals, arguments,
statics, heap and object are those that the statements leave. -/
theorem subroutine_blocks_execute {source : String} {outlined : Bool} {result : CompiledClass}
    (h : compile source outlined = .ok result) (library : Library) :
    ∃ stream, tokenize source = .ok stream
      ∧ (∃ c : ClassDec, c.lexemes = stream.tokens.map Token.lexeme)
      ∧ ∀ c : ClassDec, c.lexemes = stream.tokens.map Token.lexeme →
        List.Forall₂ (fun d block => ∀ (s t : State) (o : Outcome) (base : List Word),
            c.Executes library d s o t → o.Ends library block [] base t ⟨block, base, s⟩)
          c.subroutines (blocks (result.instructions.map (·.instruction))) := by
  obtain ⟨stream, hstream, hexists, hall⟩ := accepted_of_compile h
  refine ⟨stream, hstream, hexists, ?_⟩
  intro c hc
  obtain ⟨hacc, hcode⟩ := hall c hc
  rw [hcode, ClassDec.code]
  have hblocks := (List.forall₂_and_left _ _).2
    ⟨hacc.subroutines, c.blocks_codeFrom 0 c.subroutines⟩
  refine hblocks.imp ?_
  rintro d block ⟨haccepts, n, rfl⟩ s t o base hexec
  exact hexec.ends haccepts.2 n base

/-- A loop that runs once: the argument goes from zero to one, which is returned. -/
theorem counting_block_returns :
    ∃ result block, compile "class A{function int f(int n){while(n<1){let n=n+1;}return n;}}" false
        = .ok result
      ∧ blocks (result.instructions.map (·.instruction)) = [block]
      ∧ ∀ (library : Library) (base : List Word), ∃ t,
        (Outcome.returned 0 1).Ends library block [] base t
          ⟨block, base, ⟨fun _ => 0, fun _ => 0, 0⟩, ⟨fun _ => 0, fun _ => 0⟩⟩ := by
  obtain ⟨result, block, h, hblock⟩ : ∃ result block,
      compile "class A{function int f(int n){while(n<1){let n=n+1;}return n;}}" false = .ok result
        ∧ blocks (result.instructions.map (·.instruction)) = [block] := ⟨_, _, by rfl, by rfl⟩
  refine ⟨result, block, h, hblock, ?_⟩
  intro library base
  obtain ⟨stream, hstream, -, hall⟩ := subroutine_blocks_execute h library
  have hlexemes : ClassDec.lexemes ⟨"A", [], [⟨.function, some .int, "f", [⟨.int, "n"⟩], [],
      [.while_ (.binary (.variable "n") .less (.term (.integer 1)))
        [.letVariable "n" (.binary (.variable "n") .add (.term (.integer 1)))],
      .return_ (some (.term (.variable "n")))]⟩]⟩ = stream.tokens.map Token.lexeme := by
    have := congrArg (Except.map fun stream => stream.tokens.map Token.lexeme) hstream
    exact Except.ok.inj this
  have hforall := hall _ hlexemes
  rw [hblock] at hforall
  obtain ⟨hends, -⟩ := List.forall₂_cons.1 hforall
  exact ⟨_, hends _ _ _ base (Executes.whileStep (by rfl)
    (.letVariable (by rfl) (by rfl) (.nil _))
    (.whileEnd (w := 0) (by rfl) (by decide) (.returnSome (by rfl))))⟩

end Jack
