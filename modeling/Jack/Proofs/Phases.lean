import Jack.Proofs.Trails

/-! A goal that is met within a subroutine keeps to the trail: it asks for an instruction at the
present place only if no operator stands there, and it has every waiting instruction emitted at its
own operator. Between two goals a subroutine is in a phase, which says what may come next. -/

namespace Jack

/-! ### Phases -/

/-- How far a subroutine is between two goals. -/
inductive Phase where
  /-- Its first word is read. -/
  | result
  /-- The words before its name are read. -/
  | name
  /-- Its name is read, and its header is not emitted yet. -/
  | head
  /-- An instruction could be emitted at the place of the last token. -/
  | settled
  /-- A term begins. -/
  | opening
  /-- A term has ended. -/
  | closing
  /-- Nothing can be said. -/
  | any
  /-- Its last brace is read. -/
  | ended
  deriving DecidableEq, Repr

namespace Phase

def Holds (tr : Trail) : Phase → Prop
  | result => tr.name? = none ∧ tr.edge? = none ∧ tr.readings.length = 1
  | name => tr.name? = none ∧ tr.edge? = none ∧ tr.readings.length = 2
  | head => tr.name? = none ∧ tr.edge? = none ∧ IsPlain tr.readings tr.place
  | settled => tr.name?.isSome ∧ tr.edge? = none ∧ IsPlain tr.readings tr.place
  | opening => tr.name?.isSome ∧ tr.edge? = some .opening
  | closing => tr.name?.isSome ∧ tr.edge? = some .closing
  | any | ended => tr.name?.isSome

/-- The phase after something that can happen in certain phases. -/
def to? (x : Phase) (xs : List Phase) (y : Phase) : Option Phase := if x ∈ xs then some y else none

theorem to?_eq_some_iff {x y z : Phase} {xs : List Phase} :
    x.to? xs y = some z ↔ x ∈ xs ∧ y = z := by
  unfold to?
  split <;> simp [*]

theorem to?_singleton_eq_some_iff {x y z w : Phase} : x.to? [z] y = some w ↔ z = x ∧ y = w := by
  rw [to?_eq_some_iff, List.mem_singleton, eq_comm]

/-- The header of the subroutine is emitted. -/
def begun : Phase → Bool
  | result | name | head => false
  | settled | opening | closing | any | ended => true

theorem Holds.begun {tr : Trail} {x : Phase} {xs : List Phase} (hx : x.Holds tr) (hmem : x ∈ xs)
    (hxs : xs.all Phase.begun = true) : tr.name?.isSome := by
  have hbegun := List.all_eq_true.1 hxs x hmem
  cases x with
  | result | name | head => cases hbegun
  | settled | opening | closing => exact hx.1
  | any | ended => exact hx

/-- The phase after an action that is due. -/
def due? (x : Phase) : Action → Option Phase
  | .enter .term => x.to? [settled, any] opening
  | .leave .term => x.to? [settled, any] closing
  | .enter _ | .leave _ => x.to? [head, settled, any, ended] x
  | .emit code => if (code.all fun i => i.header?.isNone) then x.to? [settled] settled else none
  | .emitAt _ [.arithmetic _] => x.to? [closing, any] any
  | .require _ _ | .load _ _ | .store _ _ | .call _ _ _ => x.to? [settled] settled
  | .header _ => x.to? [head] settled
  | .complete _ => x.to? [ended] ended
  | _ => none

/-- The phase after a goal and all the goals that take its place. -/
def goal? (x : Phase) : Goal → Option Phase
  | .due a => x.due? a
  | .mark p m =>
    if x = head then some head
    else if m = .rightBrace ∧ p = .subroutineBody then x.to? [settled, any] ended
    else if m.operates then x.to? [settled] settled
    else x.to? [settled, any] settled
  | .resultType => x.to? [result] name
  | .subroutineName _ => x.to? [name] ended
  | .parameters | .typed .parameter _ | .named .parameter _ _ | .afterName .parameter _ _ _ =>
    x.to? [head] head
  | .typed (.locals _ _ _) _ | .named (.locals _ _ _) _ _ | .afterName (.locals _ _ _) _ _ _
    | .counted _ _ _ _ | .body _ _ => x.to? [settled] ended
  | .statements | .returned => x.to? [settled] any
  | .letTarget | .letValue _ | .otherwise | .callee _ _ | .member _ _ | .arguments _ _ =>
    x.to? [settled] settled
  | .call _ => x.to? [settled, opening] settled
  | .moreArguments _ _ _ _ => x.to? [any] settled
  | .term => x.to? [opening] closing
  | .operands _ => x.to? [closing] any
  | _ => none

theorem goal?_mark (x : Phase) (p : Production) (m : Punctuation) :
    x.goal? (.mark p m)
      = if x = head then some head
        else if m = .rightBrace ∧ p = .subroutineBody then x.to? [settled, any] ended
        else if m.operates then x.to? [settled] settled
        else x.to? [settled, any] settled := rfl

theorem goal?_emit (x : Phase) (code : List Instruction) :
    x.goal? (.due (.emit code))
      = if (code.all fun i => i.header?.isNone) then x.to? [settled] settled else none := rfl

def goals? (x : Phase) : List Goal → Option Phase
  | [] => some x
  | g :: goals => (x.goal? g).bind fun y => y.goals? goals

end Phase

/-! ### Goals that keep to a trail -/

/-- The instructions of operators that a goal holds back. -/
def Goal.owes : Goal → List Emitted
  | .operands waiting => waiting.map fun w => ⟨w.1.instruction, w.2⟩
  | .due (.emitAt p code) => code.map fun i => ⟨i, p⟩
  | _ => []

/-- What a goal remembers was read: the first name of a call, or the name of the subroutine. -/
def Goal.Recalls (rs : List Reading) : Goal → Prop
  | .due (.header name) => HasName rs name
  | .due (.call _ target _) | .arguments _ target | .moreArguments _ target _ _ =>
    IsPlain rs target.first.position
  | .callee _ o | .member _ o => IsPlain rs o.position
  | _ => True

/-- Actions that are always performed. -/
def Action.sure : Action → Bool
  | .enter _ | .leave _ | .take _ | .complete _ => true
  | _ => false

/-- A step that keeps to a trail, on the way to the phase `y`. -/
structure Step.Keeps (s : Step) (tr : Trail) (y : Phase) (owed : List Emitted) : Prop where
  allowed : tr.AllowsAll s.actions
  phase : ∃ x : Phase, x.Holds (tr.afterAll s.actions)
    ∧ (x = .ended → s.actions.all Action.sure = true) ∧ x.goals? s.goals = some y
  waiting : (tr.afterAll s.actions).waiting = s.goals.flatMap Goal.owes ++ owed
  recalls : ∀ g ∈ s.goals, g.Recalls (tr.afterAll s.actions).readings

/-! ### The steps of each goal -/

section

variable {tr : Trail} {s : Step} {c d : Cursor} {t : Token} {x y : Phase} {owed : List Emitted}

theorem Phase.settled_settle (h : tr.name?.isSome) (t : Token) : settled.Holds (tr.settle t) :=
  ⟨h, rfl, isPlain_concat _ t⟩

theorem Phase.head_settle (h : tr.name? = none) (t : Token) : head.Holds (tr.settle t) :=
  ⟨h, rfl, isPlain_concat _ t⟩

/-- A step that reads one token, which is no operator. -/
theorem Step.keeps_of_settle (hallowed : tr.AllowsAll s.actions)
    (hafter : tr.afterAll s.actions = tr.settle t) (hx : x.Holds (tr.settle t))
    (hended : x ≠ .ended) (hgoals : x.goals? s.goals = some y)
    (howes : s.goals.flatMap Goal.owes = [])
    (hrecalls : ∀ g ∈ s.goals, g.Recalls (tr.settle t).readings) (hw : tr.waiting = owed) :
    s.Keeps tr y owed := by
  refine ⟨hallowed, ⟨x, ?_, fun h => absurd h hended, hgoals⟩, ?_, ?_⟩
  · rwa [hafter]
  · rw [hafter, howes]
    exact hw
  · rwa [hafter]

/-- Behind the header. -/
theorem Step.keeps_of_settled (hallowed : tr.AllowsAll s.actions)
    (hafter : tr.afterAll s.actions = tr.settle t) (hname : tr.name?.isSome)
    (hgoals : Phase.settled.goals? s.goals = some y) (howes : s.goals.flatMap Goal.owes = [])
    (hrecalls : ∀ g ∈ s.goals, g.Recalls (tr.settle t).readings) (hw : tr.waiting = owed) :
    s.Keeps tr y owed :=
  keeps_of_settle hallowed hafter (Phase.settled_settle hname t) (by decide) hgoals howes hrecalls
    hw

/-- Before the header. -/
theorem Step.keeps_of_head (hallowed : tr.AllowsAll s.actions)
    (hafter : tr.afterAll s.actions = tr.settle t) (hname : tr.name? = none)
    (hgoals : Phase.head.goals? s.goals = some y) (howes : s.goals.flatMap Goal.owes = [])
    (hrecalls : ∀ g ∈ s.goals, g.Recalls (tr.settle t).readings) (hw : tr.waiting = owed) :
    s.Keeps tr y owed :=
  keeps_of_settle hallowed hafter (Phase.head_settle hname t) (by decide) hgoals howes hrecalls hw

/-- A step that reads nothing and asks for nothing. -/
theorem Step.keeps_of_stay {goals : List Goal} (hx : x.Holds tr)
    (hgoals : x.goals? goals = some y) (howes : goals.flatMap Goal.owes = [])
    (hrecalls : ∀ g ∈ goals, g.Recalls tr.readings) (hw : tr.waiting = owed) :
    Step.Keeps ⟨[], goals, c⟩ tr y owed := by
  refine ⟨trivial, ⟨x, hx, fun _ => rfl, hgoals⟩, ?_, hrecalls⟩
  rw [Trail.afterAll_nil, howes]
  exact hw

theorem keeps_meetSubroutineName {role : Role} (hx : Phase.name.Holds tr) (hw : tr.waiting = owed)
    (h : meetSubroutineName c role = .ok s) : s.Keeps tr .ended owed := by
  obtain ⟨hname, hedge, hlength⟩ := hx
  unfold meetSubroutineName at h
  split at h
  · rename_i o d hc
    cases h
    have hactions : tr.AllowsAll (.take o.token
          :: if role = .method then [.declareThis d.found.position] else [])
        ∧ tr.afterAll (.take o.token
          :: if role = .method then [.declareThis d.found.position] else [])
          = tr.settle o.token := by
      split
      · exact ⟨⟨trivial, trivial, trivial⟩, rfl⟩
      · exact ⟨⟨trivial, trivial⟩, rfl⟩
    have hrecalls : HasName (tr.settle o.token).readings o.name := by
      rw [HasName, Trail.settle, ← hlength, List.getElem?_concat_length]
      rfl
    exact Step.keeps_of_head hactions.1 hactions.2 hname rfl rfl
      (by simpa [Goal.Recalls] using hrecalls) hw
  · cases h

theorem keeps_meetAfterName {declared : Declaration} {type : String} {count : UInt16}
    {position : Position} (hx : x.Holds tr) (hw : tr.waiting = owed)
    (hy : x.goal? (.afterName declared type count position) = some y)
    (h : meetAfterName c declared type count position = .ok s) : s.Keeps tr y owed := by
  have hcomma : ∀ {t d}, c.mark? .comma = some (t, d) → tr.after (.take t) = tr.settle t :=
    fun hc => Trail.after_take_of_read? hc (Lexeme.operator?_symbol rfl)
  have hsemicolon : ∀ {t d}, c.mark? .semicolon = some (t, d) → tr.after (.take t) = tr.settle t :=
    fun hc => Trail.after_take_of_read? hc (Lexeme.operator?_symbol rfl)
  cases declared with
  | ofClass kind => cases hy
  | parameter =>
    obtain ⟨rfl, rfl⟩ := Phase.to?_singleton_eq_some_iff.1 hy
    unfold meetAfterName at h
    split at h
    · cases h
    · split at h
      · rename_i t d hc
        cases h
        exact Step.keeps_of_head ⟨trivial, trivial⟩ (hcomma hc) hx.1 rfl rfl
          (by simp [Goal.Recalls]) hw
      · cases h
        exact Step.keeps_of_stay hx rfl rfl (by simp [Declaration.endGoals]) hw
  | locals role before start =>
    obtain ⟨rfl, rfl⟩ := Phase.to?_singleton_eq_some_iff.1 hy
    unfold meetAfterName at h
    split at h
    · cases h
    · split at h
      · rename_i t d hc
        cases h
        exact Step.keeps_of_settled ⟨trivial, trivial⟩ (hcomma hc) hx.1 rfl rfl
          (by simp [Goal.Recalls]) hw
      · rw [if_neg Declaration.noConfusion] at h
        split at h
        · rename_i t d hc
          cases h
          exact Step.keeps_of_settled ⟨trivial, trivial⟩ (hsemicolon hc) hx.1 rfl rfl
            (by simp [Declaration.endGoals, Goal.Recalls]) hw
        · cases h

theorem keeps_meetBody (hx : Phase.settled.Holds tr) (hw : tr.waiting = owed) (role : Role)
    (locals : UInt16) : (meetBody c role locals).Keeps tr .ended owed := by
  obtain ⟨hname, hedge, hplain⟩ := hx
  unfold meetBody
  split
  · rename_i t d hc
    have hread : (tr.after (.enter .varDec)).after (.take t) = tr.settle t :=
      Trail.after_take_of_read? hc fun _ => rfl
    exact Step.keeps_of_settled ⟨trivial, trivial, trivial⟩ hread hname rfl rfl
      (by simp [Goal.Recalls]) hw
  · exact ⟨⟨⟨hname, hplain⟩, trivial⟩, ⟨.settled, ⟨hname, rfl, hplain⟩, Phase.noConfusion, rfl⟩, hw,
      by simp [statementsGoals, Goal.Recalls]⟩

theorem keeps_meetStatements (hx : Phase.settled.Holds tr) (hw : tr.waiting = owed) :
    (meetStatements c).Keeps tr .any owed := by
  obtain ⟨hname, hedge, hplain⟩ := hx
  have hread : ∀ {k t d p}, c.keyword? = some (k, t, d) →
      (tr.after (.enter p)).after (.take t) = tr.settle t := by
    intro k t d p hc
    exact Trail.after_take_of_plain (by rw [Cursor.lexeme_of_keyword? hc]; rfl)
  unfold meetStatements
  split
  case h_1 t d hc | h_2 t d hc | h_4 t d hc | h_5 t d hc =>
    refine Step.keeps_of_settled ⟨trivial, trivial, trivial⟩ (hread hc) hname rfl rfl ?_ hw
    simp [conditionGoals, expressionGoals, blockGoals, statementsGoals, Goal.Recalls]
  case h_3 t d hc =>
    have hemit : ((tr.after (.enter .whileStatement)).after (.take t)).Allows
        (.emit [.label (Label.whileStart.at c.constructs)]) := by
      rw [hread hc]
      exact ⟨hname, isPlain_concat _ t, .cons rfl .nil⟩
    have hafter : tr.afterAll [.enter .whileStatement, .take t,
        .emit [.label (Label.whileStart.at c.constructs)]] = tr.settle t := by
      simp only [Trail.afterAll_cons, Trail.afterAll_nil, hread hc]
      rfl
    refine Step.keeps_of_settled ⟨trivial, trivial, hemit, trivial⟩ hafter hname rfl rfl ?_ hw
    simp [conditionGoals, expressionGoals, blockGoals, statementsGoals, Goal.Recalls]
  case h_6 => exact Step.keeps_of_stay (x := .any) hname rfl rfl (List.forall_mem_nil _) hw

theorem keeps_meetLetValue (hx : Phase.settled.Holds tr) (hw : tr.waiting = owed)
    (target : Occurrence) : (meetLetValue c target).Keeps tr .settled owed := by
  have ⟨hname, hedge, hplain⟩ := hx
  unfold meetLetValue
  split
  · rename_i t d hc
    have hread : (tr.after (.require .letStatement target)).after (.take t) = tr.settle t :=
      Trail.after_take_of_read? hc (Lexeme.operator?_symbol rfl)
    have hload : ((tr.after (.require .letStatement target)).after (.take t)).Allows
        (.load .letStatement target) := by
      rw [hread]
      exact ⟨hname, isPlain_concat _ t⟩
    have hafter : tr.afterAll [.require .letStatement target, .take t, .load .letStatement target]
        = tr.settle t := by
      simp only [Trail.afterAll_cons, Trail.afterAll_nil, hread]
      rfl
    exact Step.keeps_of_settled ⟨trivial, trivial, hload, trivial⟩ hafter hname rfl rfl
      (by simp [expressionGoals, Goal.Recalls]) hw
  · exact Step.keeps_of_stay hx rfl rfl (by simp [expressionGoals, Goal.Recalls]) hw

theorem keeps_meetName (hx : Phase.opening.Holds tr) (hw : tr.waiting = owed) (o : Occurrence) :
    (meetName c o d).Keeps tr .closing owed := by
  have ⟨hname, hedge⟩ := hx
  have hplain : IsPlain (tr.readings ++ [⟨o.token, none⟩]) o.position := isPlain_concat _ o.token
  unfold meetName
  split
  · exact Step.keeps_of_settled (t := o.token) ⟨trivial, trivial, trivial⟩ rfl hname rfl rfl
      (by simp [expressionGoals, Goal.Recalls]) hw
  · split
    · exact Step.keeps_of_stay hx rfl rfl (by simp [Goal.Recalls]) hw
    · exact ⟨⟨trivial, ⟨hname, hplain⟩, trivial, trivial⟩,
        ⟨.closing, ⟨hname, rfl⟩, Phase.noConfusion, rfl⟩, hw, List.forall_mem_nil _⟩

/-- A constant is read, and its code emitted. -/
theorem Step.keeps_of_constant (hx : Phase.opening.Holds tr) (hw : tr.waiting = owed)
    (ht : t.lexeme.operator? tr.edge? = none) {code : List Instruction} (hcode : Headless code) :
    Step.Keeps ⟨[.take t, .emit code, .leave .term], [], c⟩ tr .closing owed := by
  obtain ⟨hname, hedge⟩ := hx
  have hread := Trail.after_take_of_plain ht
  have hemit : (tr.after (.take t)).Allows (.emit code) := by
    rw [hread]
    exact ⟨hname, isPlain_concat _ t, hcode⟩
  have hafter : tr.afterAll [.take t, .emit code, .leave .term]
      = { tr.settle t with edge? := some .closing } := by
    simp only [Trail.afterAll_cons, Trail.afterAll_nil, hread]
    rfl
  refine ⟨⟨trivial, hemit, trivial, trivial⟩, ⟨.closing, ?_, Phase.noConfusion, rfl⟩, ?_,
    List.forall_mem_nil _⟩
  · rw [hafter]
    exact ⟨hname, rfl⟩
  · rw [hafter]
    exact hw

theorem keeps_meetTerm (hx : Phase.opening.Holds tr) (hw : tr.waiting = owed)
    (h : meetTerm c = .ok s) : s.Keeps tr .closing owed := by
  have ⟨hname, hedge⟩ := hx
  unfold meetTerm at h
  split at h
  · cases h
  · rename_i t rest hc
    split at h
    · rename_i n hl
      cases h
      exact Step.keeps_of_constant hx hw (by rw [hl]; rfl) (.cons rfl .nil)
    · rename_i text hl
      cases h
      exact Step.keeps_of_constant hx hw (by rw [hl]; rfl) (plain_stringValue text).headless
    · cases h
      exact keeps_meetName hx hw _
    · rename_i k hl
      split at h
      · rename_i constant _
        cases h
        refine Step.keeps_of_constant hx hw (by rw [hl]; rfl) ?_
        cases constant <;> exact headless_of_all rfl
      · cases h
    · rename_i m hl
      split at h
      · rename_i hm
        cases h
        have hread : tr.after (.take t) = tr.settle t :=
          Trail.after_take_of_plain (by rw [hl, hm, Lexeme.operator?_symbol rfl])
        exact Step.keeps_of_settled ⟨trivial, trivial⟩ hread hname rfl rfl
          (by simp [expressionGoals, Goal.Recalls]) hw
      · split at h
        · rename_i op hop
          cases h
          have hoperator : t.lexeme.operator? tr.edge? = some (.arithmetic op.command) := by
            rw [hl, hedge, Lexeme.operator?, hop]
            rfl
          have hread := Trail.after_take_of_operator hoperator
          have hafter : tr.afterAll [.take t] = _ := hread
          refine ⟨⟨trivial, trivial⟩, ⟨.any, ?_, Phase.noConfusion, rfl⟩, ?_, ?_⟩
          · rw [hafter]
            exact hname
          · rw [hafter, hw]
            rfl
          · simp [Goal.Recalls]
        · cases h

/-- The operators that wait are emitted in order. -/
theorem Trail.emitAll {waiting : List (BinaryOp × Position)} (hname : tr.name?.isSome)
    (hw : tr.waiting = (waiting.map fun w => ⟨w.1.instruction, w.2⟩) ++ owed) :
    tr.AllowsAll (waiting.map fun w => .emitAt w.2 [w.1.instruction])
      ∧ (tr.afterAll (waiting.map fun w => .emitAt w.2 [w.1.instruction])).name?.isSome
      ∧ (tr.afterAll (waiting.map fun w => .emitAt w.2 [w.1.instruction])).waiting = owed := by
  induction waiting generalizing tr with
  | nil => exact ⟨trivial, hname, hw⟩
  | cons w waiting ih =>
    have hheader : w.1.instruction.header? = none := by cases w.1 <;> rfl
    have hname' : (tr.after (.emitAt w.2 [w.1.instruction])).name?.isSome := hname
    obtain ⟨hallowed, hrest⟩ := ih hname' (congrArg List.tail hw)
    exact ⟨⟨⟨hname, _, _, rfl, hheader, hw⟩, hallowed⟩, hrest⟩

theorem keeps_meetOperands {waiting : List (BinaryOp × Position)} (hx : Phase.closing.Holds tr)
    (hw : tr.waiting = (Goal.operands waiting).owes ++ owed) :
    (meetOperands c waiting).Keeps tr .any owed := by
  obtain ⟨hname, hedge⟩ := hx
  have hend : Step.Keeps ⟨waiting.map fun w => .emitAt w.2 [w.1.instruction], [], c⟩ tr .any
      owed := by
    obtain ⟨hallowed, hname', hw'⟩ := Trail.emitAll hname hw
    exact ⟨hallowed, ⟨.any, hname', Phase.noConfusion, rfl⟩, hw', List.forall_mem_nil _⟩
  unfold meetOperands
  split
  · rename_i m p rest hc
    split
    · rename_i op hop
      have hoperator : (Lexeme.symbol m).operator? tr.edge? = some op.instruction := by
        rw [hedge, Lexeme.operator?, hop]
        rfl
      have hread := Trail.after_take_of_operator (t := ⟨.symbol m, p⟩) hoperator
      have hafter : tr.afterAll [.take ⟨.symbol m, p⟩] = _ := hread
      refine ⟨⟨trivial, trivial⟩, ⟨.any, ?_, Phase.noConfusion, rfl⟩, ?_, by simp [Goal.Recalls]⟩
      · rw [hafter]
        exact hname
      · rw [hafter, hw]
        simp [Goal.owes]
    · exact hend
  · exact hend

theorem keeps_meetCallee {p : Production} {first : Occurrence} (hx : Phase.settled.Holds tr)
    (hw : tr.waiting = owed) (hfirst : IsPlain tr.readings first.position) :
    (meetCallee c p first).Keeps tr .settled owed := by
  obtain ⟨hname, hedge, hplain⟩ := hx
  unfold meetCallee
  split
  · rename_i t d hc
    have hread : tr.after (.take t) = tr.settle t :=
      Trail.after_take_of_read? hc (Lexeme.operator?_symbol rfl)
    exact Step.keeps_of_settled ⟨trivial, trivial⟩ hread hname rfl rfl
      (List.forall_mem_singleton.2 (hfirst.append _)) hw
  · refine ⟨⟨⟨hname, hplain, .cons rfl .nil⟩, trivial⟩,
      ⟨.settled, ⟨hname, rfl, hplain⟩, Phase.noConfusion, rfl⟩, hw, ?_⟩
    have hrecalls : IsPlain tr.readings (Callee.own first).first.position := hfirst
    exact List.forall_mem_cons.2 ⟨trivial, List.forall_mem_cons.2 ⟨trivial,
      List.forall_mem_singleton.2 hrecalls⟩⟩

theorem keeps_meetMoreArguments {p : Production} {target : Callee} {count : UInt16}
    {position : Position} (hx : Phase.any.Holds tr) (hw : tr.waiting = owed)
    (hfirst : IsPlain tr.readings target.first.position)
    (h : meetMoreArguments c p target count position = .ok s) : s.Keeps tr .settled owed := by
  unfold meetMoreArguments at h
  split at h
  · cases h
  · split at h
    · rename_i t d hc
      cases h
      have hread : tr.after (.take t) = tr.settle t :=
        Trail.after_take_of_read? hc (Lexeme.operator?_symbol rfl)
      have hrecalls : IsPlain (tr.settle t).readings target.first.position := hfirst.append _
      exact Step.keeps_of_settled ⟨trivial, trivial⟩ hread hx rfl rfl
        (by simpa [expressionGoals, Goal.Recalls] using hrecalls) hw
    · cases h
      exact Step.keeps_of_stay hx rfl rfl (by simpa [callGoals, Goal.Recalls] using hfirst) hw

/-- The phase stays as it is where a production other than a term begins or ends. -/
theorem Phase.Holds.outside (hx : x.Holds tr) (hmem : x ∈ [head, settled, any, ended]) :
    x.Holds { tr with edge? := none } := by
  simp only [List.mem_cons, List.not_mem_nil, or_false] at hmem
  rcases hmem with rfl | rfl | rfl | rfl
  · exact ⟨hx.1, rfl, hx.2.2⟩
  · exact ⟨hx.1, rfl, hx.2.2⟩
  · exact hx
  · exact hx

/-- A production other than a term begins or ends. -/
theorem keeps_due_outside {a : Action} (hy : x.to? [.head, .settled, .any, .ended] x = some y)
    (hx : x.Holds tr) (hw : tr.waiting = owed) (hallowed : tr.Allows a)
    (hafter : tr.after a = { tr with edge? := none }) (hsure : a.sure = true) :
    Step.Keeps ⟨[a], [], c⟩ tr y owed := by
  obtain ⟨hmem, rfl⟩ := Phase.to?_eq_some_iff.1 hy
  have hafter' : tr.afterAll [a] = { tr with edge? := none } := hafter
  refine ⟨⟨hallowed, trivial⟩, ⟨x, ?_, fun _ => by simp [hsure], rfl⟩, ?_, List.forall_mem_nil _⟩
  · rw [hafter']
    exact hx.outside hmem
  · rw [hafter']
    exact hw

theorem keeps_due_enter {p : Production} (hy : x.due? (.enter p) = some y) (hx : x.Holds tr)
    (hw : tr.waiting = owed) : Step.Keeps ⟨[.enter p], [], c⟩ tr y owed := by
  by_cases hp : p = .term
  · subst hp
    obtain ⟨hmem, rfl⟩ := Phase.to?_eq_some_iff.1 hy
    exact ⟨⟨trivial, trivial⟩, ⟨.opening, ⟨hx.begun hmem rfl, rfl⟩, Phase.noConfusion, rfl⟩, hw,
      List.forall_mem_nil _⟩
  · have hdue : x.due? (.enter p) = x.to? [.head, .settled, .any, .ended] x := by
      cases p <;> first | rfl | exact absurd rfl hp
    have hafter : tr.after (.enter p) = { tr with edge? := none } := by
      cases p <;> first | rfl | exact absurd rfl hp
    rw [hdue] at hy
    exact keeps_due_outside hy hx hw trivial hafter rfl

theorem keeps_due_leave {p : Production} (hy : x.due? (.leave p) = some y) (hx : x.Holds tr)
    (hw : tr.waiting = owed) : Step.Keeps ⟨[.leave p], [], c⟩ tr y owed := by
  by_cases hp : p = .term
  · subst hp
    obtain ⟨hmem, rfl⟩ := Phase.to?_eq_some_iff.1 hy
    exact ⟨⟨trivial, trivial⟩, ⟨.closing, ⟨hx.begun hmem rfl, rfl⟩, Phase.noConfusion, rfl⟩, hw,
      List.forall_mem_nil _⟩
  · have hdue : x.due? (.leave p) = x.to? [.head, .settled, .any, .ended] x := by
      cases p <;> first | rfl | exact absurd rfl hp
    have hafter : tr.after (.leave p) = { tr with edge? := none } := by
      cases p <;> first | rfl | exact absurd rfl hp
    rw [hdue] at hy
    exact keeps_due_outside hy hx hw trivial hafter rfl

theorem keeps_due {a : Action} (hy : x.due? a = some y) (hx : x.Holds tr)
    (hw : tr.waiting = (Goal.due a).owes ++ owed) (hr : (Goal.due a).Recalls tr.readings) :
    Step.Keeps ⟨[a], [], c⟩ tr y owed := by
  cases a with
  | enter p => exact keeps_due_enter hy hx hw
  | leave p => exact keeps_due_leave hy hx hw
  | take t | nameClass name | startSubroutine | declare p o type kind | declareThis p | mention o
    | mentionFirst o | loadReceiver o | preamble role => cases hy
  | require p o =>
    obtain ⟨rfl, rfl⟩ := Phase.to?_singleton_eq_some_iff.1 hy
    exact ⟨⟨trivial, trivial⟩, ⟨.settled, ⟨hx.1, rfl, hx.2.2⟩, Phase.noConfusion, rfl⟩, hw,
      List.forall_mem_nil _⟩
  | load p o | store p o =>
    obtain ⟨rfl, rfl⟩ := Phase.to?_singleton_eq_some_iff.1 hy
    exact ⟨⟨⟨hx.1, hx.2.2⟩, trivial⟩, ⟨.settled, ⟨hx.1, rfl, hx.2.2⟩, Phase.noConfusion, rfl⟩, hw,
      List.forall_mem_nil _⟩
  | emit code =>
    simp only [Phase.due?] at hy
    split at hy
    · rename_i hcode
      obtain ⟨rfl, rfl⟩ := Phase.to?_singleton_eq_some_iff.1 hy
      exact ⟨⟨⟨hx.1, hx.2.2, headless_of_all hcode⟩, trivial⟩,
        ⟨.settled, ⟨hx.1, rfl, hx.2.2⟩, Phase.noConfusion, rfl⟩, hw, List.forall_mem_nil _⟩
    · cases hy
  | emitAt p code =>
    obtain ⟨command, rfl, hany⟩ : ∃ command, code = [.arithmetic command]
        ∧ x.to? [.closing, .any] .any = some y := by
      match code with
      | [.arithmetic command] => exact ⟨command, rfl, hy⟩
    obtain ⟨hmem, rfl⟩ := Phase.to?_eq_some_iff.1 hany
    have hname := hx.begun hmem rfl
    exact ⟨⟨⟨hname, _, _, rfl, rfl, hw⟩, trivial⟩, ⟨.any, hname, Phase.noConfusion, rfl⟩,
      congrArg List.tail hw, List.forall_mem_nil _⟩
  | call p target args =>
    obtain ⟨rfl, rfl⟩ := Phase.to?_singleton_eq_some_iff.1 hy
    exact ⟨⟨⟨hx.1, hr⟩, trivial⟩, ⟨.settled, ⟨hx.1, rfl, hr⟩, Phase.noConfusion, rfl⟩, hw,
      List.forall_mem_nil _⟩
  | header name =>
    obtain ⟨rfl, rfl⟩ := Phase.to?_singleton_eq_some_iff.1 hy
    exact ⟨⟨⟨hx.1, hx.2.2, hr⟩, trivial⟩,
      ⟨.settled, ⟨rfl, rfl, hx.2.2⟩, Phase.noConfusion, rfl⟩, hw, List.forall_mem_nil _⟩
  | complete locals =>
    obtain ⟨rfl, rfl⟩ := Phase.to?_singleton_eq_some_iff.1 hy
    exact ⟨⟨hx, trivial⟩, ⟨.ended, hx, fun _ => rfl, rfl⟩, hw, List.forall_mem_nil _⟩

theorem keeps_mark {p : Production} {m : Punctuation} (hy : x.goal? (.mark p m) = some y)
    (hx : x.Holds tr) (hw : tr.waiting = owed) (h : (Goal.mark p m).meet c = .ok s) :
    s.Keeps tr y owed := by
  simp only [Goal.meet] at h
  split at h
  · rename_i t d hc
    cases h
    have hl : t.lexeme = .symbol m := Cursor.lexeme_of_read? hc
    rw [Phase.goal?_mark] at hy
    split at hy
    · rename_i hhead
      subst hhead
      cases hy
      have hread : tr.after (.take t) = tr.settle t :=
        Trail.after_take_of_plain (by rw [hx.2.1, Lexeme.operator?_none])
      exact Step.keeps_of_head ⟨trivial, trivial⟩ hread hx.1 rfl rfl (List.forall_mem_nil _) hw
    · split at hy
      · rename_i hend
        obtain ⟨hmem, rfl⟩ := Phase.to?_eq_some_iff.1 hy
        have hread : tr.after (.take t) = tr.settle t :=
          Trail.after_take_of_plain (by rw [hl, hend.1, Lexeme.operator?_symbol rfl])
        have hafter : tr.afterAll [.take t] = tr.settle t := hread
        refine ⟨⟨trivial, trivial⟩, ⟨.ended, ?_, fun _ => rfl, rfl⟩, ?_, List.forall_mem_nil _⟩
        · rw [hafter]
          exact hx.begun hmem rfl
        · rw [hafter]
          exact hw
      · obtain ⟨hname, hplain, rfl⟩ : tr.name?.isSome ∧ t.lexeme.operator? tr.edge? = none
            ∧ Phase.settled = y := by
          split at hy
          · obtain ⟨rfl, rfl⟩ := Phase.to?_singleton_eq_some_iff.1 hy
            exact ⟨hx.1, by rw [hx.2.1, Lexeme.operator?_none], rfl⟩
          · rename_i hm
            obtain ⟨hmem, rfl⟩ := Phase.to?_eq_some_iff.1 hy
            exact ⟨hx.begun hmem rfl, by
              rw [hl, Lexeme.operator?_symbol (Bool.eq_false_iff.2 hm)], rfl⟩
        exact Step.keeps_of_settled ⟨trivial, trivial⟩ (Trail.after_take_of_plain hplain) hname
          rfl rfl (List.forall_mem_nil _) hw
  · cases h

theorem Phase.Holds.settle (hx : x.Holds tr) (hmem : x ∈ [head, settled]) (t : Token) :
    x.Holds (tr.settle t) := by
  simp only [List.mem_cons, List.not_mem_nil, or_false] at hmem
  rcases hmem with rfl | rfl
  · exact Phase.head_settle hx.1 t
  · exact Phase.settled_settle hx.1 t

/-- Parameters are declared before the header is emitted, locals behind it. -/
theorem Phase.mem_of_typed {declared : Declaration} {count : UInt16}
    (hy : x.goal? (.typed declared count) = some y) : x ∈ [head, settled] := by
  cases declared with
  | ofClass kind => cases hy
  | parameter =>
    obtain ⟨rfl, -⟩ := Phase.to?_singleton_eq_some_iff.1 hy
    exact .head _
  | locals role before start =>
    obtain ⟨rfl, -⟩ := Phase.to?_singleton_eq_some_iff.1 hy
    exact .tail _ (.head _)

theorem Phase.goal?_named (x : Phase) (declared : Declaration) (type : String) (m n : UInt16) :
    x.goal? (.named declared type m) = x.goal? (.typed declared n) := by
  cases declared <;> rfl

theorem Phase.goal?_afterName (x : Phase) (declared : Declaration) (type : String) (m n : UInt16)
    (position : Position) :
    x.goal? (.afterName declared type m position) = x.goal? (.typed declared n) := by
  cases declared <;> rfl

theorem Phase.goals?_singleton (x : Phase) (g : Goal) : x.goals? [g] = x.goal? g := by
  rw [goals?]
  cases x.goal? g <;> rfl

/-- A goal that is met within a subroutine keeps to the trail. -/
theorem Goal.keeps_of_meet {g : Goal} (hy : x.goal? g = some y) (hx : x.Holds tr)
    (hw : tr.waiting = g.owes ++ owed) (hr : g.Recalls tr.readings) (h : g.meet c = .ok s) :
    s.Keeps tr y owed := by
  cases g with
  | due a =>
    cases h
    exact keeps_due hy hx hw hr
  | mark p m => exact keeps_mark hy hx hw h
  | classWord | className | classVarDecs | subroutineDecs | endOfFile => cases hy
  | typed declared count =>
    have hmem := Phase.mem_of_typed hy
    simp only [Goal.meet] at h
    split at h
    · rename_i type t d hc
      cases h
      have hread := Trail.after_take_of_plain (Cursor.operator?_of_type hc tr.edge?)
      have hgoals : x.goals? [.named declared type count] = some y := by
        rw [Phase.goals?_singleton, x.goal?_named declared type count count, hy]
      exact Step.keeps_of_settle ⟨trivial, trivial⟩ hread (hx.settle hmem t)
        (by rintro rfl; simp at hmem) hgoals rfl (by simp [Goal.Recalls]) hw
    · cases h
  | named declared type count =>
    rw [x.goal?_named declared type count count] at hy
    have hmem := Phase.mem_of_typed hy
    simp only [Goal.meet] at h
    split at h
    · rename_i o d hc
      cases h
      have hgoals : x.goals? [.afterName declared type count o.position] = some y := by
        rw [Phase.goals?_singleton, x.goal?_afterName declared type count count, hy]
      exact Step.keeps_of_settle (t := o.token) ⟨trivial, trivial⟩ rfl (hx.settle hmem _)
        (by rintro rfl; simp at hmem) hgoals rfl (by simp [Goal.Recalls]) hw
    · cases h
  | afterName declared type count position => exact keeps_meetAfterName hx hw hy h
  | resultType =>
    obtain ⟨rfl, rfl⟩ := Phase.to?_singleton_eq_some_iff.1 hy
    obtain ⟨t, d, rfl⟩ : ∃ t d, s = ⟨[.take t], [], d⟩ := by
      simp only [Goal.meet] at h
      split at h
      · cases h
        exact ⟨_, _, rfl⟩
      · split at h
        · cases h
          exact ⟨_, _, rfl⟩
        · cases h
    have hread : tr.after (.take t) = tr.settle t :=
      Trail.after_take_of_plain (by rw [hx.2.1, Lexeme.operator?_none])
    have hname : Phase.name.Holds (tr.settle t) :=
      ⟨hx.1, rfl, by rw [Trail.settle, List.length_append, hx.2.2]; rfl⟩
    exact Step.keeps_of_settle ⟨trivial, trivial⟩ hread hname (by decide) rfl rfl
      (List.forall_mem_nil _) hw
  | subroutineName role =>
    obtain ⟨rfl, rfl⟩ := Phase.to?_singleton_eq_some_iff.1 hy
    exact keeps_meetSubroutineName hx hw h
  | parameters =>
    obtain ⟨rfl, rfl⟩ := Phase.to?_singleton_eq_some_iff.1 hy
    simp only [Goal.meet] at h
    split at h
    · cases h
      exact Step.keeps_of_stay hx rfl rfl (List.forall_mem_nil _) hw
    · cases h
      exact Step.keeps_of_stay hx rfl rfl (by simp [Goal.Recalls]) hw
  | counted role before count start =>
    obtain ⟨rfl, rfl⟩ := Phase.to?_singleton_eq_some_iff.1 hy
    simp only [Goal.meet] at h
    split at h
    · cases h
      exact Step.keeps_of_stay hx rfl rfl (by simp [Goal.Recalls]) hw
    · cases h
  | body role locals =>
    obtain ⟨rfl, rfl⟩ := Phase.to?_singleton_eq_some_iff.1 hy
    cases h
    exact keeps_meetBody hx hw role locals
  | statements =>
    obtain ⟨rfl, rfl⟩ := Phase.to?_singleton_eq_some_iff.1 hy
    cases h
    exact keeps_meetStatements hx hw
  | letTarget =>
    obtain ⟨rfl, rfl⟩ := Phase.to?_singleton_eq_some_iff.1 hy
    simp only [Goal.meet] at h
    split at h
    · rename_i o d hc
      cases h
      exact Step.keeps_of_settled (t := o.token) ⟨trivial, trivial⟩ rfl hx.1 rfl rfl
        (by simp [Goal.Recalls]) hw
    · cases h
  | letValue target =>
    obtain ⟨rfl, rfl⟩ := Phase.to?_singleton_eq_some_iff.1 hy
    cases h
    exact keeps_meetLetValue hx hw target
  | otherwise =>
    obtain ⟨rfl, rfl⟩ := Phase.to?_singleton_eq_some_iff.1 hy
    simp only [Goal.meet] at h
    split at h
    · rename_i t d hc
      cases h
      have hread : tr.after (.take t) = tr.settle t :=
        Trail.after_take_of_read? hc fun _ => rfl
      exact Step.keeps_of_settled ⟨trivial, trivial⟩ hread hx.1 rfl rfl
        (by simp [blockGoals, statementsGoals, Goal.Recalls]) hw
    · cases h
      exact Step.keeps_of_stay hx rfl rfl (List.forall_mem_nil _) hw
  | returned =>
    obtain ⟨rfl, rfl⟩ := Phase.to?_singleton_eq_some_iff.1 hy
    simp only [Goal.meet] at h
    split at h
    · cases h
      exact ⟨⟨⟨hx.1, hx.2.2, .cons rfl .nil⟩, trivial⟩, ⟨.any, hx.1, Phase.noConfusion, rfl⟩, hw,
        List.forall_mem_nil _⟩
    · cases h
      exact Step.keeps_of_stay hx rfl rfl (by simp [expressionGoals, Goal.Recalls]) hw
  | term =>
    obtain ⟨rfl, rfl⟩ := Phase.to?_singleton_eq_some_iff.1 hy
    exact keeps_meetTerm hx hw h
  | operands waiting =>
    obtain ⟨rfl, rfl⟩ := Phase.to?_singleton_eq_some_iff.1 hy
    cases h
    exact keeps_meetOperands hx hw
  | call p =>
    obtain ⟨hmem, rfl⟩ := Phase.to?_eq_some_iff.1 hy
    have hname := hx.begun hmem rfl
    simp only [Goal.meet] at h
    split at h
    · rename_i o d hc
      cases h
      exact Step.keeps_of_settled (t := o.token) ⟨trivial, trivial⟩ rfl hname rfl rfl
        (List.forall_mem_singleton.2 (isPlain_concat _ o.token)) hw
    · cases h
  | callee p first =>
    obtain ⟨rfl, rfl⟩ := Phase.to?_singleton_eq_some_iff.1 hy
    cases h
    exact keeps_meetCallee hx hw hr
  | member p owner =>
    obtain ⟨rfl, rfl⟩ := Phase.to?_singleton_eq_some_iff.1 hy
    simp only [Goal.meet] at h
    split at h
    · rename_i o d hc
      cases h
      have hrecalls : IsPlain (tr.settle o.token).readings owner.position :=
        IsPlain.append hr _
      have hreceiver : (tr.after (.mentionFirst o)).Allows (.loadReceiver o) :=
        ⟨hx.1, isPlain_concat _ o.token⟩
      refine Step.keeps_of_settled (t := o.token) ⟨trivial, hreceiver, trivial⟩ rfl hx.1 rfl rfl
        ?_ hw
      exact List.forall_mem_cons.2 ⟨trivial, List.forall_mem_cons.2 ⟨trivial,
        List.forall_mem_singleton.2 hrecalls⟩⟩
    · cases h
  | arguments p target =>
    obtain ⟨rfl, rfl⟩ := Phase.to?_singleton_eq_some_iff.1 hy
    simp only [Goal.meet] at h
    split at h
    · cases h
      exact Step.keeps_of_stay hx rfl rfl (by simpa [callGoals, Goal.Recalls] using hr) hw
    · cases h
      exact Step.keeps_of_stay hx rfl rfl (by simpa [expressionGoals, Goal.Recalls] using hr)
        hw
  | moreArguments p target count position =>
    obtain ⟨rfl, rfl⟩ := Phase.to?_singleton_eq_some_iff.1 hy
    exact keeps_meetMoreArguments hx hw hr h

end

/-! ### The end of a subroutine -/

namespace Phase

variable {x y : Phase} {g : Goal} {goals : List Goal}

theorem goals?_cons (h : x.goals? (g :: goals) = some y) :
    ∃ z, x.goal? g = some z ∧ z.goals? goals = some y :=
  Option.bind_eq_some_iff.1 h

theorem goals?_append (h : x.goals? goals = some y) (more : List Goal) :
    x.goals? (goals ++ more) = y.goals? more := by
  induction goals generalizing x with
  | nil =>
    cases h
    rfl
  | cons g goals ih =>
    obtain ⟨z, hz, hgoals⟩ := goals?_cons h
    rw [List.cons_append, goals?, hz]
    exact ih hgoals

/-- Once the last brace is read, only actions that are always performed are due. -/
theorem sure_of_ended (h : ended.goal? g = some y) :
    y = ended ∧ ∃ a, g = .due a ∧ a.sure = true := by
  cases g with
  | due a =>
    cases a with
    | enter p =>
      cases p <;> cases h <;> exact ⟨rfl, _, rfl, rfl⟩
    | leave p => cases p <;> cases h <;> exact ⟨rfl, _, rfl, rfl⟩
    | complete locals =>
      cases h
      exact ⟨rfl, _, rfl, rfl⟩
    | emit code =>
      rw [goal?_emit] at h
      split at h <;> cases h
    | emitAt p code =>
      match code with
      | [.arithmetic command] => cases h
    | _ => cases h
  | mark p m =>
    rw [goal?_mark] at h
    split at h
    · rename_i hhead
      cases hhead
    · split at h
      · cases h
      · split at h <;> cases h
  | typed declared count => cases declared <;> cases h
  | named declared type count => cases declared <;> cases h
  | afterName declared type count position => cases declared <;> cases h
  | _ => cases h

/-- What is ended after a goal, and was not before, ends in a brace. -/
theorem goal_ne_nil_of_ended (hx : x ≠ ended) (h : x.goal? g = some ended) {rest ls : List Lexeme}
    (hls : g.Reads False rest ls) : ls ≠ [] := by
  have leads : ∀ {z : Phase} {xs : List Phase}, x.to? xs z = some ended → z = ended :=
    fun hto => (to?_eq_some_iff.1 hto).2
  cases g with
  | due a =>
    cases a with
    | enter p | leave p =>
      have hsame : x = ended := by
        cases p with
        | term => cases leads h
        | _ => exact leads h
      exact absurd hsame hx
    | complete locals =>
      exact absurd (to?_singleton_eq_some_iff.1 h).1.symm hx
    | emit code =>
      rw [goal?_emit] at h
      split at h
      · cases leads h
      · cases h
    | emitAt p code =>
      match code with
      | [.arithmetic command] => cases leads h
    | require p o | load p o | store p o | call p target args | header name => cases leads h
    | _ => cases h
  | mark p m =>
    obtain rfl := hls
    exact List.cons_ne_nil _ _
  | typed declared count =>
    obtain ⟨type, name, more, -, rfl⟩ := hls
    exact List.cons_ne_nil _ _
  | named declared type count =>
    obtain ⟨name, more, -, rfl⟩ := hls
    exact List.cons_ne_nil _ _
  | afterName declared type count position =>
    cases declared with
    | ofClass kind => cases h
    | parameter => cases leads h
    | locals role before start =>
      obtain ⟨more, vars, body, rfl⟩ := hls
      simp
  | subroutineName role =>
    obtain ⟨name, ps, vars, body, rfl⟩ := hls
    exact List.cons_ne_nil _ _
  | counted role before count start | body role locals =>
    obtain ⟨vars, body, rfl⟩ := hls
    simp [bodyLexemes]
  | classWord | className | classVarDecs | subroutineDecs | endOfFile => cases h
  | _ => cases leads h

/-- Before the last brace is read, some word is still to come. -/
theorem ne_nil_of_reads (hx : x ≠ ended) (h : x.goals? goals = some ended) {rest ls : List Lexeme}
    (hls : Reads False rest goals ls) : ls ≠ [] := by
  induction goals generalizing x ls with
  | nil =>
    cases h
    exact absurd rfl hx
  | cons g goals ih =>
    obtain ⟨z, hz, hgoals⟩ := goals?_cons h
    obtain ⟨ks, ms, hks, hms, rfl⟩ := hls
    intro hnil
    obtain ⟨hk, hm⟩ := List.append_eq_nil_iff.1 hnil
    by_cases hended : z = ended
    · exact goal_ne_nil_of_ended hx (hended ▸ hz) hks hk
    · exact ih hended hgoals hms hm

end Phase

end Jack
