import Jack.Proofs.Recognition
import Jack.Proofs.Translation

/-! What a session emits for the actions of a derivation tree: the translation of the tree, unless
a name does not stand for a variable or a call has too many arguments. -/

namespace Jack

/-- The instructions emitted so far, without their places. -/
def Session.code (s : Session) : List Instruction := s.listing.lines.toList.map (·.instruction)

def Session.context (s : Session) : Context := ⟨s.className, s.scope.lookup⟩

theorem Variable.pushCode_eq_read (v : Variable) : v.pushCode = v.read := by
  obtain ⟨_, _, kind, _⟩ := v
  cases kind <;> rfl

theorem Variable.popCode_eq_write (v : Variable) : v.popCode = v.write := by
  obtain ⟨_, _, kind, _⟩ := v
  cases kind <;> rfl

/-- One session goes on as another by emitting code, and nothing else of weight. -/
structure Session.Adds (s : Session) (is : List Instruction) (t : Session) : Prop where
  scope : t.scope = s.scope
  className : t.className = s.className
  slot? : t.slot? = s.slot?
  code : t.code = s.code ++ is

namespace Session.Adds

variable {s t u : Session} {is js : List Instruction}

theorem refl (s : Session) : s.Adds [] s := ⟨rfl, rfl, rfl, (List.append_nil _).symm⟩

theorem trans (h : s.Adds is t) (k : t.Adds js u) : s.Adds (is ++ js) u := by
  refine ⟨k.scope.trans h.scope, k.className.trans h.className, k.slot?.trans h.slot?, ?_⟩
  rw [k.code, h.code, List.append_assoc]

theorem context (h : s.Adds is t) : t.context = s.context := by
  rw [Session.context, Session.context, h.scope, h.className]

theorem emit (s : Session) (is : List Instruction) : s.Adds is (s.emit is) := by
  refine ⟨rfl, rfl, rfl, ?_⟩
  simp only [Session.code, Session.emit, Listing.toList_emitAll, List.map_append, List.map_map]
  rw [show (fun e : Emitted => e.instruction) ∘ (fun i => ⟨i, s.listing.position⟩) = id from rfl,
    List.map_id]

theorem moveTo {x : Position} (h : (s.moveTo x).Adds is t) : s.Adds is t :=
  ⟨h.scope, h.className, h.slot?, h.code⟩

end Session.Adds

/-- The uses are admitted where names mean what they mean in the context. -/
def Context.Permits (k : Context) (us : List Use) : Prop := ∀ u ∈ us, k.Admits u

@[simp] theorem Context.permits_nil (k : Context) : k.Permits [] := by simp [Context.Permits]

@[simp] theorem Context.permits_variable (k : Context) (name : String) (us : List Use) :
    k.Permits (.variable name :: us) ↔ (k.lookup name).isSome ∧ k.Permits us := by
  simp [Context.Permits, Context.Admits]

@[simp] theorem Context.permits_append (k : Context) (us more : List Use) :
    k.Permits (us ++ more) ↔ k.Permits us ∧ k.Permits more := List.forall_mem_append

@[simp] theorem Context.permits_call (k : Context) (call : Call) :
    k.Permits [.call call] ↔ call.args.length + k.hidden call ≤ 65535 := by
  simp [Context.Permits, Context.Admits]

/-- Under the condition the actions are performed and end as said; otherwise they meet an error. -/
structure Session.Attains (s : Session) (as : List Action) (p : Prop) (post : Session → Prop) :
    Prop where
  ok : p → ∃ t, s.performAll as = (t, none) ∧ post t
  error : ¬p → (s.performAll as).2 ≠ none

namespace Session.Attains

variable {s : Session} {as bs : List Action} {p q : Prop} {post post' : Session → Prop}

theorem nil (h : post s) : s.Attains [] True post :=
  ⟨fun _ => ⟨s, rfl, h⟩, fun hn => absurd trivial hn⟩

theorem congr (h : s.Attains as p post) (hp : q ↔ p) (ht : ∀ t, post t → post' t) :
    s.Attains as q post' := by
  refine ⟨fun hq => ?_, fun hq => h.error fun hp' => hq (hp.2 hp')⟩
  obtain ⟨t, he, hpost⟩ := h.ok (hp.1 hq)
  exact ⟨t, he, ht t hpost⟩

theorem append (h : s.Attains as p post) (h' : ∀ t, post t → t.Attains bs q post') :
    s.Attains (as ++ bs) (p ∧ q) post' := by
  constructor
  · intro hpq
    obtain ⟨t, ht, hpost⟩ := h.ok hpq.1
    rw [Session.performAll_append, ht]
    exact (h' t hpost).ok hpq.2
  · intro hpq
    rw [Session.performAll_append]
    by_cases hp : p
    · obtain ⟨t, ht, hpost⟩ := h.ok hp
      rw [ht]
      exact (h' t hpost).error fun hq => hpq ⟨hp, hq⟩
    · have he := h.error hp
      split
      · rename_i ht
        rw [ht] at he
        exact absurd rfl he
      · exact Option.some_ne_none _

theorem step {a : Action} {t : Session} (h : s.perform a = (t, none)) (hpost : post t) :
    s.Attains [a] True post := by
  refine ⟨fun _ => ⟨t, ?_, hpost⟩, fun hn => absurd trivial hn⟩
  rw [Session.performAll_cons, h]
  rfl

theorem stop {a : Action} {e : CompileError} (h : (s.perform a).2 = some e) (hp : ¬p) :
    s.Attains [a] p post := by
  refine ⟨fun hp' => absurd hp' hp, ?_⟩
  intro _
  rw [Session.performAll_cons]
  split
  · rename_i ht
    rw [ht] at h
    cases h
  · exact Option.some_ne_none _

end Session.Attains

/-- In a context, the actions emit the code under the condition, and meet an error otherwise. -/
def Performs (k : Context) (as : List Action) (p : Prop) (is : List Instruction) : Prop :=
  ∀ s : Session, s.context = k → s.Attains as p (s.Adds is)

namespace Performs

variable {k : Context} {as bs : List Action} {p q : Prop} {is js : List Instruction}

theorem nil (k : Context) : Performs k [] True [] := fun s _ => .nil (.refl s)

theorem congr (h : Performs k as p is) (hp : q ↔ p) (hi : is = js) : Performs k as q js := by
  subst hi
  exact fun s hs => (h s hs).congr hp fun _ ht => ht

theorem append (h : Performs k as p is) (h' : Performs k bs q js) :
    Performs k (as ++ bs) (p ∧ q) (is ++ js) := by
  intro s hs
  apply (h s hs).append
  intro t ht
  exact (h' t (ht.context.trans hs)).congr Iff.rfl fun _ hu => ht.trans hu

theorem cons {a : Action} (h : Performs k [a] p is) (h' : Performs k as q js) :
    Performs k (a :: as) (p ∧ q) (is ++ js) :=
  h.append h'

theorem step {a : Action}
    (h : ∀ s : Session, s.context = k → ∃ t, s.perform a = (t, none) ∧ s.Adds is t) :
    Performs k [a] True is := by
  intro s hs
  obtain ⟨t, ht, ha⟩ := h s hs
  exact .step ht ha

theorem stop {a : Action} (hp : ¬p)
    (h : ∀ s : Session, s.context = k → ∃ e, (s.perform a).2 = some e) :
    Performs k [a] p is := by
  intro s hs
  obtain ⟨e, he⟩ := h s hs
  exact .stop he hp

theorem enter (k : Context) (x : Production) : Performs k [.enter x] True [] :=
  step fun s _ => ⟨s.note (.enter x.name), rfl, rfl, rfl, rfl, (List.append_nil _).symm⟩

theorem leave (k : Context) (x : Production) : Performs k [.leave x] True [] :=
  step fun s _ => ⟨s.note (.leave x.name), rfl, rfl, rfl, rfl, (List.append_nil _).symm⟩

theorem take (k : Context) (t : Token) : Performs k [.take t] True [] :=
  step fun _ _ => ⟨_, rfl, rfl, rfl, rfl, (List.append_nil _).symm⟩

theorem mention (k : Context) (o : Occurrence) : Performs k [.mention o] True [] :=
  step fun _ _ => ⟨_, rfl, rfl, rfl, rfl, (List.append_nil _).symm⟩

theorem mentionFirst (k : Context) (o : Occurrence) : Performs k [.mentionFirst o] True [] := by
  apply step
  intro s _
  rw [Session.perform]
  cases s.scope.lookup o.name with
  | none => exact ⟨_, rfl, rfl, rfl, rfl, (List.append_nil _).symm⟩
  | some v => exact ⟨_, rfl, rfl, rfl, rfl, (List.append_nil _).symm⟩

theorem emit (k : Context) (is : List Instruction) : Performs k [.emit is] True is :=
  step fun s _ => ⟨s.emit is, rfl, .emit s is⟩

theorem emitAt (k : Context) (x : Position) (is : List Instruction) :
    Performs k [.emitAt x is] True is :=
  step fun s _ => ⟨(s.moveTo x).emit is, rfl, (Session.Adds.emit (s.moveTo x) is).moveTo⟩

/-- A name that has to stand for a variable, with the code that the variable gives. -/
theorem resolve {a : Action} {x : Production} {o : Occurrence}
    {next : Session → Variable → Session} (ha : ∀ s : Session, s.perform a = s.resolve x o next)
    (h : ∀ (s : Session) (v : Variable), k.lookup o.name = some v → s.Adds is (next s v)) :
    Performs k [a] ((k.lookup o.name).isSome) is := by
  cases hv : k.lookup o.name with
  | some v =>
    refine (step fun s hs => ⟨next s v, ?_, h s v hv⟩).congr (by simp) rfl
    rw [ha, Session.resolve, show s.scope.lookup o.name = k.lookup o.name by rw [← hs]; rfl, hv]
  | none =>
    refine stop (by simp) fun s hs => ⟨.undefinedVariable x o.name o.position, ?_⟩
    rw [ha, Session.resolve, show s.scope.lookup o.name = k.lookup o.name by rw [← hs]; rfl, hv]

theorem require (k : Context) (x : Production) (o : Occurrence) :
    Performs k [.require x o] ((k.lookup o.name).isSome) [] :=
  resolve (fun _ => rfl) fun s _ _ => .refl s

theorem load (k : Context) (x : Production) (o : Occurrence) :
    Performs k [.load x o] ((k.lookup o.name).isSome) (k.read o.name) := by
  apply resolve (fun _ => rfl)
  intro s v hv
  rw [Context.read, hv, Option.toList_some, List.map_singleton, ← v.pushCode_eq_read]
  exact .emit s [v.pushCode]

theorem store (k : Context) (x : Production) (o : Occurrence) :
    Performs k [.store x o] ((k.lookup o.name).isSome) (k.write o.name) := by
  apply resolve (fun _ => rfl)
  intro s v hv
  rw [Context.write, hv, Option.toList_some, List.map_singleton, ← v.popCode_eq_write]
  exact .emit s [v.popCode]

theorem loadReceiver (k : Context) (o : Occurrence) :
    Performs k [.loadReceiver o] True (k.read o.name) := by
  apply step
  intro s hs
  have hl : s.scope.lookup o.name = k.lookup o.name := by rw [← hs]; rfl
  rw [Session.perform, hl, Context.read]
  cases k.lookup o.name with
  | none => exact ⟨s, rfl, .refl s⟩
  | some v =>
    refine ⟨s.emit [v.pushCode], rfl, ?_⟩
    rw [Option.toList_some, List.map_singleton, ← v.pushCode_eq_read]
    exact .emit s [v.pushCode]

theorem inExpression (h : Performs k as p is) : Performs k (inExpression as) p is :=
  ((enter k .expression).cons ((enter k .term).cons (h.append (leave k .expression)))).congr
    (by simp) (by simp)

end Performs

def Context.target (k : Context) : Call → String
  | .own name _ => k.className ++ "." ++ name
  | .member owner name _ =>
    match k.lookup owner with
    | some v => v.type ++ "." ++ name
    | none => owner ++ "." ++ name

def Call.callee : Call → Callee
  | .own name _ => .own (unplaced name)
  | .member owner name _ => .member (unplaced owner) name

theorem Session.target_callee (s : Session) (c : Call) :
    s.target c.callee
      = (s.context.target c, UInt16.ofNat (s.context.hidden c)) := by
  cases c with
  | own name args => rfl
  | member owner name args =>
    cases hv : s.scope.lookup owner with
    | none =>
      have hk : s.context.lookup owner = none := hv
      simp [Session.target, Call.callee, Context.target, Context.hidden, unplaced, hv, hk,
        qualified]
    | some v =>
      have hk : s.context.lookup owner = some v := hv
      simp [Session.target, Call.callee, Context.target, Context.hidden, unplaced, hv, hk,
        qualified]

theorem Context.hidden_le (k : Context) (c : Call) : k.hidden c ≤ 1 := by
  cases c with
  | own name args => exact Nat.le_refl 1
  | member owner name args =>
    rw [Context.hidden]
    split <;> omega

theorem Performs.call (k : Context) (p : Production) {c : Call} (hc : c.args.length ≤ 65535) :
    Performs k [.call p c.callee (UInt16.ofNat c.args.length)]
      (c.args.length + k.hidden c ≤ 65535)
      [.call (k.target c) (UInt16.ofNat (c.args.length + k.hidden c))] := by
  by_cases h : c.args.length + k.hidden c ≤ 65535
  · refine (Performs.step fun s hs => ?_).congr (by simpa using h) rfl
    refine ⟨_, ?_, (Session.Adds.emit (s.moveTo c.callee.first.position) _).moveTo⟩
    rw [Session.perform, Session.call, Session.target_callee, hs]
    simp only [addWords?_ofNat h]
  · refine Performs.stop h fun s hs => ⟨.tooMany p .callArguments c.callee.first.position, ?_⟩
    have hk := k.hidden_le c
    rw [Session.perform, Session.call, Session.target_callee, hs]
    simp only [addWords?_ofNat_eq_none hc (Nat.le_trans hk (by omega)) h]

/-! ### Expressions -/

theorem BinaryOp.instruction_eq_code (op : BinaryOp) : op.instruction = op.code := by
  cases op <;> rfl

theorem UnaryOp.command_eq_code (op : UnaryOp) :
    Instruction.arithmetic op.command = op.code := by
  cases op <;> rfl

theorem KeywordConstant.code_eq_value (word : KeywordConstant) : word.code = word.value := by
  cases word <;> rfl

theorem stringCode_eq_value (text : String) : stringCode text = stringValue text := rfl

/-- The code of a call: the receiver first, then the arguments in order, then the call. -/
theorem Call.code_eq (k : Context) (c : Call) :
    c.code k = (match c with | .own _ _ => [.push .pointer 0] | .member owner _ _ => k.read owner)
      ++ argumentCode k c.args
      ++ [.call (k.target c) (UInt16.ofNat (c.args.length + k.hidden c))] := by
  cases c with
  | own name args => simp [Call.code, Context.target, Context.hidden, Call.args]
  | member owner name args =>
    simp only [Call.code, Context.target, Context.hidden, Call.args, Context.read]
    cases k.lookup owner <;> simp

mutual

theorem Term.performs (k : Context) (t : Term) (hc : Counted t.uses) :
    Performs k t.actions (k.Permits t.uses) (t.code k) := by
  match t with
  | .integer value =>
    exact ((Performs.take k _).cons ((Performs.emit k _).cons (Performs.leave k _))).congr
      (by simp [Term.uses]) rfl
  | .string text =>
    exact ((Performs.take k _).cons ((Performs.emit k _).cons (Performs.leave k _))).congr
      (by simp [Term.uses]) (by rw [Term.code, stringCode_eq_value]; simp)
  | .constant word =>
    exact ((Performs.take k _).cons ((Performs.emit k _).cons (Performs.leave k _))).congr
      (by simp [Term.uses]) (by rw [Term.code, word.code_eq_value]; simp)
  | .variable name =>
    exact ((Performs.mention k _).cons ((Performs.load k _ _).cons (Performs.leave k _))).congr
      (by simp [Term.uses, unplaced]) (by simp [Term.code, unplaced])
  | .element name index =>
    have hi := (index.performs k (by simpa [Term.uses] using hc)).inExpression
    have hn := (Performs.mention k (unplaced name)).cons
      ((Performs.require k .term (unplaced name)).cons
        ((Performs.take k (Lexeme.symbol .leftBracket).token).cons
          (Performs.load k .term (unplaced name))))
    have he := (Performs.take k (Lexeme.symbol .rightBracket).token).cons
      ((Performs.emit k fetchCode).cons (Performs.leave k .term))
    refine ((hn.append hi).append he).congr ?_ ?_
    · simp [Term.uses, unplaced]
    · simp [Term.code, unplaced, fetchCode]
  | .call call =>
    exact ((call.performs k .term (by simpa [Term.uses] using hc)).append
      (Performs.leave k .term)).congr (by simp [Term.uses]) (by simp [Term.code])
  | .group inner =>
    have hi := (inner.performs k (by simpa [Term.uses] using hc)).inExpression
    refine (((Performs.take k (Lexeme.symbol .leftParen).token).cons hi).append
      ((Performs.take k (Lexeme.symbol .rightParen).token).cons (Performs.leave k .term))).congr
      ?_ ?_
    · simp [Term.uses]
    · simp [Term.code]
  | .unary op operand =>
    have ho := operand.performs k (by simpa [Term.uses] using hc)
    refine (((Performs.take k (Lexeme.symbol op.mark).token).cons
      ((Performs.enter k .term).cons ho)).append
      ((Performs.emitAt k .nowhere [.arithmetic op.command]).cons (Performs.leave k .term))).congr
      ?_ ?_
    · simp [Term.uses]
    · simp [Term.code, op.command_eq_code]

theorem Expression.performs (k : Context) (e : Expression) (hc : Counted e.uses) :
    Performs k e.chain (k.Permits e.uses) (e.code k) := by
  match e with
  | .term operand => exact operand.performs k hc
  | .binary left op right =>
    rw [Expression.uses, counted_append] at hc
    have hl := left.performs k hc.1
    have hr := right.performs k hc.2
    refine ((hl.append ((Performs.take k (Lexeme.symbol op.mark).token).cons
      ((Performs.enter k .term).cons hr))).append
      (Performs.emitAt k .nowhere [op.instruction])).congr ?_ ?_
    · simp [Expression.uses]
    · simp [Expression.code, op.instruction_eq_code]

theorem Call.performs (k : Context) (p : Production) (c : Call) (hc : Counted c.uses) :
    Performs k (c.actions p) (k.Permits c.uses) (c.code k) := by
  match c with
  | .own name args =>
    rw [Call.uses, counted_append, counted_call] at hc
    have ha := arguments_perform k args hc.1
    have hb := (Performs.mentionFirst k (unplaced name)).cons
      ((Performs.emit k [.push .pointer 0]).cons
        ((Performs.take k (Lexeme.symbol .leftParen).token).cons
          (Performs.enter k .expressionList)))
    have he := (Performs.leave k .expressionList).cons
      ((Performs.take k (Lexeme.symbol .rightParen).token).cons
        (Performs.call k p (show (Call.own name args).args.length ≤ 65535 from hc.2)))
    refine ((hb.append ha).append he).congr ?_ ?_
    · simp [Call.uses]
    · rw [Call.code_eq]
      simp [Call.args]
  | .member owner name args =>
    rw [Call.uses, counted_append, counted_call] at hc
    have ha := arguments_perform k args hc.1
    have hb := (Performs.mentionFirst k (unplaced owner)).cons
      ((Performs.take k (Lexeme.symbol .dot).token).cons
        ((Performs.take k (Lexeme.identifier name).token).cons
          ((Performs.loadReceiver k (unplaced owner)).cons
            ((Performs.take k (Lexeme.symbol .leftParen).token).cons
              (Performs.enter k .expressionList)))))
    have he := (Performs.leave k .expressionList).cons
      ((Performs.take k (Lexeme.symbol .rightParen).token).cons
        (Performs.call k p (show (Call.member owner name args).args.length ≤ 65535 from hc.2)))
    refine ((hb.append ha).append he).congr ?_ ?_
    · simp [Call.uses]
    · rw [Call.code_eq]
      simp [Call.args, unplaced]

theorem arguments_perform (k : Context) (args : List Expression) (hc : Counted (usesOf args)) :
    Performs k (argumentActions args) (k.Permits (usesOf args)) (argumentCode k args) := by
  match args with
  | [] => exact (Performs.nil k).congr (by simp [usesOf]) rfl
  | e :: es =>
    rw [usesOf, counted_append] at hc
    have he := (e.performs k hc.1).inExpression
    have hes := moreArguments_perform k es hc.2
    exact (he.append hes).congr (by simp [usesOf]) rfl

theorem moreArguments_perform (k : Context) (args : List Expression)
    (hc : Counted (usesOf args)) :
    Performs k (moreArgumentActions args) (k.Permits (usesOf args)) (argumentCode k args) := by
  match args with
  | [] => exact (Performs.nil k).congr (by simp [usesOf]) rfl
  | e :: es =>
    rw [usesOf, counted_append] at hc
    have he := (e.performs k hc.1).inExpression
    have hes := moreArguments_perform k es hc.2
    refine (((Performs.take k (Lexeme.symbol .comma).token).cons he).append hes).congr ?_ rfl
    simp [usesOf]

end

theorem Expression.performs_actions (k : Context) (e : Expression) (hc : Counted e.uses) :
    Performs k e.actions (k.Permits e.uses) (e.code k) :=
  (e.performs k hc).inExpression

/-! ### Statements -/

theorem Expression.performs_condition (k : Context) (label : String) (e : Expression)
    (hc : Counted e.uses) :
    Performs k (e.conditionActions label) (k.Permits e.uses)
      (e.code k ++ [.arithmetic .not, .ifGoto label]) := by
  refine (((Performs.take k (Lexeme.symbol .leftParen).token).cons (e.performs_actions k hc)).append
    ((Performs.take k (Lexeme.symbol .rightParen).token).cons
      (Performs.emit k [.arithmetic .not, .ifGoto label]))).congr ?_ ?_
  · simp
  · simp

theorem Performs.inBlock {k : Context} {as : List Action} {p : Prop} {is : List Instruction}
    (h : Performs k as p is) : Performs k (inBlock as) p is := by
  have hs := (Performs.enter k .statements).cons (h.append (Performs.leave k .statements))
  refine (((Performs.take k (Lexeme.symbol .leftBrace).token).cons hs).append
    (Performs.take k (Lexeme.symbol .rightBrace).token)).congr ?_ ?_
  · simp
  · simp

mutual

theorem Statement.performs (k : Context) (n : Nat) (s : Statement) (hc : Counted s.uses) :
    Performs k (s.actions n) (k.Permits s.uses) (s.code k n) := by
  match s with
  | .letVariable target value =>
    have hv := value.performs_actions k (by simpa [Statement.uses] using hc)
    have hb := (Performs.enter k .letStatement).cons
      ((Performs.take k (Lexeme.keyword .let_).token).cons
        ((Performs.mention k (unplaced target)).cons
          ((Performs.take k (Lexeme.symbol .equal).token).cons
            (Performs.require k .letStatement (unplaced target)))))
    have he := (Performs.take k (Lexeme.symbol .semicolon).token).cons
      ((Performs.store k .letStatement (unplaced target)).cons (Performs.leave k .letStatement))
    refine ((hb.append hv).append he).congr ?_ ?_
    · simp [Statement.uses, unplaced]
      tauto
    · simp [Statement.code, unplaced]
  | .letElement target index value =>
    rw [Statement.uses, counted_variable, counted_append] at hc
    have hi := index.performs_actions k hc.1
    have hv := value.performs_actions k hc.2
    have hb := (Performs.enter k .letStatement).cons
      ((Performs.take k (Lexeme.keyword .let_).token).cons
        ((Performs.mention k (unplaced target)).cons
          ((Performs.require k .letStatement (unplaced target)).cons
            ((Performs.take k (Lexeme.symbol .leftBracket).token).cons
              (Performs.load k .letStatement (unplaced target))))))
    have hm := (Performs.take k (Lexeme.symbol .rightBracket).token).cons
      ((Performs.emit k [.arithmetic .add]).cons (Performs.take k (Lexeme.symbol .equal).token))
    have he := (Performs.take k (Lexeme.symbol .semicolon).token).cons
      ((Performs.emit k assignCode).cons (Performs.leave k .letStatement))
    refine ((((hb.append hi).append hm).append hv).append he).congr ?_ ?_
    · simp [Statement.uses, unplaced]
      tauto
    · simp [Statement.code, unplaced, assignCode]
  | .if_ condition body otherwise =>
    rw [Statement.uses, counted_append, counted_append] at hc
    have hcond := condition.performs_condition k (Label.ifFalse.at n) hc.1.1
    have hbody := (statements_perform k (n + 1) body hc.1.2).inBlock
    have hother := otherwise_performs k (n + 1 + constructsOf body) otherwise hc.2
    have hb := (Performs.enter k .ifStatement).cons
      ((Performs.take k (Lexeme.keyword .if_).token).cons hcond)
    have ho := (Performs.emit k
      [.goto (Label.ifEnd.at n), .label (Label.ifFalse.at n)]).cons hother
    have he := (Performs.emit k [.label (Label.ifEnd.at n)]).cons (Performs.leave k .ifStatement)
    refine (((hb.append hbody).append ho).append he).congr ?_ ?_
    · simp [Statement.uses, and_assoc]
    · simp [Statement.code, Label.at, Label.stem]
  | .while_ condition body =>
    rw [Statement.uses, counted_append] at hc
    have hcond := condition.performs_condition k (Label.whileEnd.at n) hc.1
    have hbody := (statements_perform k (n + 1) body hc.2).inBlock
    have hb := (Performs.enter k .whileStatement).cons
      ((Performs.take k (Lexeme.keyword .while_).token).cons
        (Performs.emit k [.label (Label.whileStart.at n)]))
    have he := (Performs.emit k [.goto (Label.whileStart.at n), .label (Label.whileEnd.at n)]).cons
      (Performs.leave k .whileStatement)
    refine (((hb.append hcond).append hbody).append he).congr ?_ ?_
    · simp [Statement.uses]
    · simp [Statement.code, Label.at, Label.stem]
  | .do_ call =>
    have hcall := call.performs k .doStatement (by simpa [Statement.uses] using hc)
    have hb := (Performs.enter k .doStatement).cons
      ((Performs.take k (Lexeme.keyword .do_).token).cons hcall)
    have he := (Performs.take k (Lexeme.symbol .semicolon).token).cons
      ((Performs.emit k [.pop .temp 0]).cons (Performs.leave k .doStatement))
    refine (hb.append he).congr ?_ ?_
    · simp [Statement.uses]
    · simp [Statement.code]
  | .return_ none =>
    have hb := (Performs.enter k .returnStatement).cons
      ((Performs.take k (Lexeme.keyword .return_).token).cons
        (Performs.emit k [.push .constant 0]))
    have he := (Performs.take k (Lexeme.symbol .semicolon).token).cons
      ((Performs.emit k [.return_]).cons (Performs.leave k .returnStatement))
    refine (hb.append he).congr ?_ ?_
    · simp [Statement.uses]
    · simp [Statement.code]
  | .return_ (some value) =>
    have hv := value.performs_actions k (by simpa [Statement.uses] using hc)
    have hb := (Performs.enter k .returnStatement).cons
      ((Performs.take k (Lexeme.keyword .return_).token).cons hv)
    have he := (Performs.take k (Lexeme.symbol .semicolon).token).cons
      ((Performs.emit k [.return_]).cons (Performs.leave k .returnStatement))
    refine (hb.append he).congr ?_ ?_
    · simp [Statement.uses]
    · simp [Statement.code]

theorem statements_perform (k : Context) (n : Nat) (ss : List Statement)
    (hc : Counted (statementUses ss)) :
    Performs k (statementActions n ss) (k.Permits (statementUses ss)) (statementCode k n ss) := by
  match ss with
  | [] => exact (Performs.nil k).congr (by simp [statementUses]) rfl
  | s :: ss =>
    rw [statementUses, counted_append] at hc
    have hs := s.performs k n hc.1
    have hss := statements_perform k (n + s.constructs) ss hc.2
    exact (hs.append hss).congr (by simp [statementUses]) rfl

theorem otherwise_performs (k : Context) (n : Nat) (o : Option (List Statement))
    (hc : Counted (otherwiseUses o)) :
    Performs k (otherwiseActions n o) (k.Permits (otherwiseUses o)) (otherwiseCode k n o) := by
  match o with
  | none => exact (Performs.nil k).congr (by simp [otherwiseUses]) rfl
  | some body =>
    have hb := (statements_perform k n body (by simpa [otherwiseUses] using hc)).inBlock
    refine ((Performs.take k (Lexeme.keyword .else_).token).cons hb).congr ?_ ?_
    · simp [otherwiseUses]
    · simp [otherwiseCode]

end

end Jack
