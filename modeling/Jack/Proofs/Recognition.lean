import Jack.Proofs.Reading

/-! The words of a derivation tree are read as that tree and as no other: the script asks for the
tree's actions, or ends in a fault if the tree counts more than 16 bits hold. What follows a tree
decides where it ends. -/

namespace Jack

/-- The arguments of a call can be counted. -/
def Use.Counted : Use → Prop
  | .variable _ => True
  | .call c => c.args.length ≤ 65535

def Counted (us : List Use) : Prop := ∀ u ∈ us, u.Counted

@[simp] theorem counted_nil : Counted [] := by simp [Counted]

@[simp] theorem counted_variable (name : String) (us : List Use) :
    Counted (.variable name :: us) ↔ Counted us := by simp [Counted, Use.Counted]

@[simp] theorem counted_append (us more : List Use) :
    Counted (us ++ more) ↔ Counted us ∧ Counted more := List.forall_mem_append

@[simp] theorem counted_call (call : Call) :
    Counted [.call call] ↔ call.args.length ≤ 65535 := by simp [Counted, Use.Counted]

theorem BinaryOp.endName_mark (op : BinaryOp) (ls : List Lexeme) :
    EndName (.symbol op.mark :: ls) := by
  intro m _ hls
  obtain ⟨hm, -⟩ := List.cons.inj hls
  obtain rfl := Lexeme.symbol.inj hm
  cases op <;> decide

theorem Term.endedBy_of_endName {rest : List Lexeme} (h : EndName rest) (t : Term) :
    t.EndedBy rest := by
  match t with
  | .variable name => exact h
  | .unary op operand => exact operand.endedBy_of_endName h
  | .integer _ | .string _ | .constant _ | .element _ _ | .call _ | .group _ => trivial

/-- An expression is complete before a mark that closes it. -/
theorem Expression.endedBy_of_mem {m : Punctuation}
    (h : m ∈ [Punctuation.rightParen, .rightBracket, .semicolon, .comma]) (ls : List Lexeme)
    (e : Expression) : e.EndedBy (.symbol m :: ls) := by
  cases e with
  | term operand =>
    simp only [List.mem_cons, List.not_mem_nil, or_false] at h
    refine ⟨operand.endedBy_of_endName fun m' ls' hls => ?_, fun op ls' hls => ?_⟩
    · obtain ⟨hm, -⟩ := List.cons.inj hls
      obtain rfl := Lexeme.symbol.inj hm
      rcases h with rfl | rfl | rfl | rfl <;> decide
    · obtain ⟨hm, -⟩ := List.cons.inj hls
      obtain rfl := Lexeme.symbol.inj hm
      rcases h with h | h | h | h <;> cases op <;> cases h
  | binary left op right => exact right.endedBy_of_mem h ls

/-- A term begins with a word that ends nothing. -/
theorem Term.lexemes_eq_cons (t : Term) :
    ∃ l ls, t.lexemes = l :: ls ∧ l ≠ .symbol .rightParen ∧ l ≠ .symbol .semicolon := by
  match t with
  | .integer value | .string text | .constant word | .variable name | .element name index
  | .group inner => exact ⟨_, _, rfl, by simp⟩
  | .call (.own name args) | .call (.member owner name args) => exact ⟨_, _, rfl, by simp⟩
  | .unary op operand => exact ⟨_, _, rfl, by cases op <;> decide⟩

theorem Expression.lexemes_eq_cons (e : Expression) :
    ∃ l ls, e.lexemes = l :: ls ∧ l ≠ .symbol .rightParen ∧ l ≠ .symbol .semicolon := by
  cases e with
  | term operand => exact operand.lexemes_eq_cons
  | binary left op right =>
    obtain ⟨l, ls, h, hl⟩ := left.lexemes_eq_cons
    exact ⟨l, _, by rw [Expression.lexemes, h, List.cons_append], hl⟩

namespace Cursor

/-- The cursor before words that stand nowhere. -/
def before (ls : List Lexeme) (n : Nat) : Cursor := ⟨ls.map Lexeme.token, .nowhere, n⟩

theorem read?_before_self (l : Lexeme) (ls : List Lexeme) (n : Nat) :
    (before (l :: ls) n).read? l = some (l.token, before ls n) := by
  simp [before, read?, Lexeme.token, Cursor.to]

theorem read?_before_of_ne {l k : Lexeme} (h : k ≠ l) (ls : List Lexeme) (n : Nat) :
    (before (k :: ls) n).read? l = none := by
  simp [before, read?, Lexeme.token, h]

/-- A name before words that it cannot go on with stands alone. -/
theorem meetName_before {rest : List Lexeme} (h : EndName rest) (c : Cursor) (o : Occurrence)
    (n : Nat) :
    meetName c o (before rest n) = ⟨[.mention o, .load .term o, .leave .term], [], before rest n⟩ := by
  have hsees : ∀ m : Punctuation, m = .leftBracket ∨ m = .leftParen ∨ m = .dot →
      (before rest n).sees m = false := by
    intro m hm
    rw [sees, mark?]
    cases rest with
    | nil => rfl
    | cons l ls =>
      have hne : l ≠ .symbol m := by
        rintro rfl
        obtain ⟨hb, hp, hd⟩ := h m ls rfl
        rcases hm with rfl | rfl | rfl
        · exact hb rfl
        · exact hp rfl
        · exact hd rfl
      rw [read?_before_of_ne hne]
      rfl
  simp [meetName, hsees]

theorem position_found_before (ls : List Lexeme) (n : Nat) :
    (before ls n).found.position = .nowhere := by
  cases ls <;> rfl

end Cursor

namespace Script

/-- The script of words that stand nowhere, after the actions `done`. -/
def ofWords (goals : List Goal) (ls : List Lexeme) (n : Nat) (done : List Action) : Script :=
  ofGoals goals (.before ls n) done.toArray

theorem ofWords_of_meet {g : Goal} {ls ks : List Lexeme} {n m : Nat} {as : List Action}
    {gs : List Goal} (h : g.meet (.before ls n) = .ok ⟨as, gs, .before ks m⟩) (goals : List Goal)
    (done : List Action) :
    ofWords (g :: goals) ls n done = ofWords (gs ++ goals) ks m (done ++ as) := by
  rw [ofWords, ofGoals_cons_of_ok h, ofWords]
  simp

@[simp] theorem ofWords_due (a : Action) (goals : List Goal) (ls : List Lexeme) (n : Nat)
    (done : List Action) :
    ofWords (.due a :: goals) ls n done = ofWords goals ls n (done ++ [a]) := by
  have h : (Goal.due a).meet (.before ls n) = .ok ⟨[a], [], .before ls n⟩ := rfl
  exact ofWords_of_meet h goals done

@[simp] theorem ofWords_mark (p : Production) (m : Punctuation) (goals : List Goal)
    (ls : List Lexeme) (n : Nat) (done : List Action) :
    ofWords (.mark p m :: goals) (.symbol m :: ls) n done
      = ofWords goals ls n (done ++ [takeMark m]) := by
  have h : (Goal.mark p m).meet (.before (.symbol m :: ls) n)
      = .ok ⟨[takeMark m], [], .before ls n⟩ := by
    simp [Goal.meet, Cursor.mark?, Cursor.read?_before_self, takeMark]
  exact ofWords_of_meet h goals done

/-- One script goes on as another under a condition, and otherwise ends in a fault that is not about
a token. -/
structure LeadsTo (s : Script) (p : Prop) (t : Script) : Prop where
  eq : p → s = t
  fault : ¬p → ∃ e, s.fault? = some e ∧ e.found? = none

namespace LeadsTo

variable {s t u : Script} {p q r : Prop}

theorem refl (s : Script) : s.LeadsTo True s := ⟨fun _ => rfl, fun h => absurd trivial h⟩

theorem trans (h : s.LeadsTo p t) (k : p → t.LeadsTo q u) (hr : r ↔ p ∧ q) :
    s.LeadsTo r u := by
  constructor
  · intro hr'
    obtain ⟨hp, hq⟩ := hr.1 hr'
    exact (h.eq hp).trans ((k hp).eq hq)
  · intro hr'
    by_cases hp : p
    · have hq : ¬q := fun hq => hr' (hr.2 ⟨hp, hq⟩)
      rw [h.eq hp]
      exact (k hp).fault hq
    · exact h.fault hp

theorem congr (h : s.LeadsTo p t) (hp : q ↔ p) (ht : t = u) : s.LeadsTo q u := by
  subst ht
  exact ⟨fun hq => h.eq (hp.1 hq), fun hq => h.fault fun hp' => hq (hp.2 hp')⟩

theorem holds (h : s.LeadsTo p t) (hs : s.fault? = none) : p := by
  by_contra hp
  obtain ⟨e, he, -⟩ := h.fault hp
  rw [hs] at he
  cases he

end LeadsTo

end Script

open Script

theorem leadsTo_of_meet {g : Goal} {ls ks : List Lexeme} {n m : Nat} {as : List Action}
    (h : g.meet (.before ls n) = .ok ⟨as, [], .before ks m⟩) (goals : List Goal)
    (done : List Action) {p : Prop} (hp : p) :
    (ofWords (g :: goals) ls n done).LeadsTo p (ofWords goals ks m (done ++ as)) :=
  ⟨fun _ => ofWords_of_meet h goals done, fun hn => absurd hp hn⟩

theorem leadsTo_of_error {g : Goal} {ls : List Lexeme} {n : Nat} {e : CompileError}
    (h : g.meet (.before ls n) = .error e) (he : e.found? = none) (goals : List Goal)
    (done : List Action) {p : Prop} {t : Script} (hp : ¬p) :
    (ofWords (g :: goals) ls n done).LeadsTo p t := by
  refine ⟨fun hp' => absurd hp' hp, ?_⟩
  intro _
  rw [ofWords, ofGoals_cons_of_error h]
  exact ⟨e, rfl, he⟩

/-! ### Expressions -/

theorem toNat_ofNat {k : Nat} (h : k ≤ 65535) : (UInt16.ofNat k).toNat = k :=
  UInt16.toNat_ofNat_of_lt' (Nat.lt_succ_of_le h)

theorem nextWord?_ofNat {k : Nat} (h : k < 65535) :
    nextWord? (UInt16.ofNat k) = some (UInt16.ofNat (k + 1)) := by
  have hne : UInt16.ofNat k ≠ 65535 := by
    intro he
    have hk : (UInt16.ofNat k).toNat = k := toNat_ofNat (Nat.le_of_lt h)
    rw [he] at hk
    exact absurd hk (Nat.ne_of_gt h)
  rw [nextWord?, if_neg hne, UInt16.ofNat_add]
  rfl

theorem addWords?_ofNat {j k : Nat} (h : j + k ≤ 65535) :
    addWords? (UInt16.ofNat j) (UInt16.ofNat k) = some (UInt16.ofNat (j + k)) := by
  rw [addWords?, toNat_ofNat (Nat.le_of_add_right_le h), toNat_ofNat (Nat.le_of_add_left_le h),
    if_pos (Nat.lt_succ_of_le h), UInt16.ofNat_add]

theorem addWords?_ofNat_eq_none {j k : Nat} (hj : j ≤ 65535) (hk : k ≤ 65535)
    (h : ¬j + k ≤ 65535) : addWords? (UInt16.ofNat j) (UInt16.ofNat k) = none := by
  rw [addWords?, toNat_ofNat hj, toNat_ofNat hk, if_neg fun hlt => h (Nat.le_of_lt_succ hlt)]

theorem ofWords_expressionGoals (goals : List Goal) (ls : List Lexeme) (n : Nat)
    (done : List Action) :
    ofWords (expressionGoals ++ goals) ls n done
      = ofWords (.term :: .operands [] :: .due (.leave .expression) :: goals) ls n
          (done ++ [.enter .expression, .enter .term]) := by
  simp [expressionGoals]

/-- The waiting operators are applied where no other follows. -/
theorem ofWords_operands {rest : List Lexeme} (hrest : EndOperands rest) (goals : List Goal)
    (n : Nat) (done : List Action) (waiting : List (BinaryOp × Position)) :
    ofWords (.operands waiting :: goals) rest n done
      = ofWords goals rest n (done ++ waiting.map fun w => .emitAt w.2 [w.1.instruction]) := by
  have h : (Goal.operands waiting).meet (.before rest n)
      = .ok ⟨waiting.map fun w => .emitAt w.2 [w.1.instruction], [], .before rest n⟩ := by
    match rest with
    | [] | .keyword _ :: _ | .integer _ :: _ | .string _ :: _ | .identifier _ :: _ => rfl
    | .symbol m :: ls =>
      cases hm : BinaryOp.ofMark? m with
      | none => simp [Goal.meet, meetOperands, Cursor.before, Lexeme.token, hm]
      | some op =>
        rw [← BinaryOp.mark_of_ofMark? hm] at hrest
        exact absurd rfl (hrest op ls)
  exact ofWords_of_meet h goals done

theorem ofWords_operator (op : BinaryOp) (goals : List Goal) (ls : List Lexeme) (n : Nat)
    (done : List Action) (waiting : List (BinaryOp × Position)) :
    ofWords (.operands waiting :: goals) (.symbol op.mark :: ls) n done
      = ofWords (.term :: .operands ((op, .nowhere) :: waiting) :: goals) ls n
          (done ++ [takeMark op.mark, .enter .term]) := by
  have h : (Goal.operands waiting).meet (.before (.symbol op.mark :: ls) n)
      = .ok ⟨[takeMark op.mark], [.due (.enter .term), .term,
          .operands ((op, .nowhere) :: waiting)], .before ls n⟩ := by
    simp [Goal.meet, meetOperands, Cursor.before, Lexeme.token, Cursor.to, takeMark]
  rw [ofWords_of_meet h]
  simp

/-- The arguments of a call are there if the mark that ends them is not. -/
theorem ofWords_arguments_cons (e : Expression) (p : Production) (callee : Callee)
    (goals : List Goal) (ls : List Lexeme) (n : Nat) (done : List Action) :
    ofWords (.arguments p callee :: goals) (e.lexemes ++ ls) n done
      = ofWords (expressionGoals ++ .moreArguments p callee 0 .nowhere :: goals)
          (e.lexemes ++ ls) n done := by
  obtain ⟨l, ks, hl, hne, -⟩ := e.lexemes_eq_cons
  rw [hl, List.cons_append]
  have h : (Goal.arguments p callee).meet (.before (l :: (ks ++ ls)) n)
      = .ok ⟨[], expressionGoals ++ [.moreArguments p callee 0 .nowhere],
          .before (l :: (ks ++ ls)) n⟩ := by
    simp [Goal.meet, Cursor.sees, Cursor.mark?, Cursor.read?_before_of_ne hne]
    rfl
  rw [ofWords_of_meet h]
  simp

theorem ofWords_arguments_nil (p : Production) (callee : Callee)
    (goals : List Goal) (ls : List Lexeme) (n : Nat) (done : List Action) :
    ofWords (.arguments p callee :: goals) (.symbol .rightParen :: ls) n done
      = ofWords (callGoals p callee 0 ++ goals) (.symbol .rightParen :: ls) n done := by
  have h : (Goal.arguments p callee).meet (.before (.symbol .rightParen :: ls) n)
      = .ok ⟨[], callGoals p callee 0, .before (.symbol .rightParen :: ls) n⟩ := rfl
  rw [ofWords_of_meet h]
  simp

theorem ofWords_own (p : Production) (name : String) (goals : List Goal) (ls : List Lexeme)
    (n : Nat) (done : List Action) :
    ofWords (.call p :: goals) (.identifier name :: .symbol .leftParen :: ls) n done
      = ofWords (.arguments p (.own (unplaced name)) :: goals) ls n
          (done ++ [.mentionFirst (unplaced name), .emit [.push .pointer 0], takeMark .leftParen,
            .enter .expressionList]) := by
  have h : (Goal.call p).meet (.before (.identifier name :: .symbol .leftParen :: ls) n)
      = .ok ⟨[.mentionFirst (unplaced name)], [.callee p (unplaced name)],
          .before (.symbol .leftParen :: ls) n⟩ := rfl
  have h' : (Goal.callee p (unplaced name)).meet (.before (.symbol .leftParen :: ls) n)
      = .ok ⟨[.emit [.push .pointer 0]], argumentsGoals p (.own (unplaced name)),
          .before (.symbol .leftParen :: ls) n⟩ := rfl
  rw [ofWords_of_meet h, List.cons_append, List.nil_append, ofWords_of_meet h']
  simp [argumentsGoals]

theorem ofWords_member (p : Production) (owner name : String) (goals : List Goal)
    (ls : List Lexeme) (n : Nat) (done : List Action) :
    ofWords (.call p :: goals) (.identifier owner :: .symbol .dot :: .identifier name
        :: .symbol .leftParen :: ls) n done
      = ofWords (.arguments p (.member (unplaced owner) name) :: goals) ls n
          (done ++ [.mentionFirst (unplaced owner), takeMark .dot,
            .take (Lexeme.identifier name).token, .loadReceiver (unplaced owner),
            takeMark .leftParen, .enter .expressionList]) := by
  have h : (Goal.call p).meet (.before (.identifier owner :: .symbol .dot :: .identifier name
        :: .symbol .leftParen :: ls) n)
      = .ok ⟨[.mentionFirst (unplaced owner)], [.callee p (unplaced owner)],
          .before (.symbol .dot :: .identifier name :: .symbol .leftParen :: ls) n⟩ := rfl
  have h' : (Goal.callee p (unplaced owner)).meet
        (.before (.symbol .dot :: .identifier name :: .symbol .leftParen :: ls) n)
      = .ok ⟨[takeMark .dot], [.member p (unplaced owner)],
          .before (.identifier name :: .symbol .leftParen :: ls) n⟩ := rfl
  have h'' : (Goal.member p (unplaced owner)).meet
        (.before (.identifier name :: .symbol .leftParen :: ls) n)
      = .ok ⟨[.take (Lexeme.identifier name).token, .loadReceiver (unplaced owner)],
          argumentsGoals p (.member (unplaced owner) name),
          .before (.symbol .leftParen :: ls) n⟩ := rfl
  rw [ofWords_of_meet h, List.cons_append, List.nil_append, ofWords_of_meet h', List.cons_append,
    List.nil_append, ofWords_of_meet h'']
  simp [argumentsGoals]

theorem ofWords_callGoals (p : Production) (callee : Callee) (count : UInt16)
    (goals : List Goal) (ls : List Lexeme) (n : Nat) (done : List Action) :
    ofWords (callGoals p callee count ++ goals) (.symbol .rightParen :: ls) n done
      = ofWords goals ls n
          (done ++ [.leave .expressionList, takeMark .rightParen, .call p callee count]) := by
  simp [callGoals]

theorem Expression.endedBy_moreArguments (es : List Expression) (ls : List Lexeme)
    (e : Expression) : e.EndedBy (moreArgumentLexemes es ++ .symbol .rightParen :: ls) := by
  cases es with
  | nil => exact e.endedBy_of_mem (by simp) _
  | cons f es => exact e.endedBy_of_mem (by simp) _

mutual

theorem Term.leadsTo (t : Term) {rest : List Lexeme} (hrest : t.EndedBy rest)
    (goals : List Goal) (n : Nat) (done : List Action) :
    (ofWords (.term :: goals) (t.lexemes ++ rest) n done).LeadsTo (Counted t.uses)
      (ofWords goals rest n (done ++ t.actions)) := by
  match t with
  | .integer value =>
    have h : Goal.term.meet (.before (.integer value :: rest) n)
        = .ok ⟨(Term.integer value).actions, [], .before rest n⟩ := rfl
    exact leadsTo_of_meet h goals done (by simp [Term.uses])
  | .string text =>
    have h : Goal.term.meet (.before (.string text :: rest) n)
        = .ok ⟨(Term.string text).actions, [], .before rest n⟩ := rfl
    exact leadsTo_of_meet h goals done (by simp [Term.uses])
  | .constant word =>
    have h : Goal.term.meet (.before (.keyword word.keyword :: rest) n)
        = .ok ⟨(Term.constant word).actions, [], .before rest n⟩ := by
      cases word <;> rfl
    exact leadsTo_of_meet h goals done (by simp [Term.uses])
  | .variable name =>
    have h : Goal.term.meet (.before (.identifier name :: rest) n)
        = .ok ⟨(Term.variable name).actions, [], .before rest n⟩ := by
      exact congrArg Except.ok (Cursor.meetName_before hrest _ _ n)
    exact leadsTo_of_meet h goals done (by simp [Term.uses])
  | .element name index =>
    have h : Goal.term.meet (.before (.identifier name :: .symbol .leftBracket
          :: (index.lexemes ++ .symbol .rightBracket :: rest)) n)
        = .ok ⟨[.mention (unplaced name), .require .term (unplaced name)],
            [.mark .term .leftBracket, .due (.load .term (unplaced name))] ++ expressionGoals
              ++ [.mark .term .rightBracket, .due (.emit fetchCode), .due (.leave .term)],
            .before (.symbol .leftBracket
              :: (index.lexemes ++ .symbol .rightBracket :: rest)) n⟩ := rfl
    have hend : index.EndedBy (.symbol .rightBracket :: rest) := index.endedBy_of_mem (by simp) rest
    have hi := index.leadsTo hend []
    rw [Term.lexemes]
    simp only [List.cons_append, List.append_assoc, List.nil_append]
    rw [ofWords_of_meet h]
    simp only [List.cons_append, List.append_assoc, List.nil_append, ofWords_mark, ofWords_due]
    rw [ofWords_expressionGoals]
    refine (hi _ _ _).congr (by simp [Term.uses]) ?_
    simp [Term.actions, inExpression]
  | .call call =>
    have h : Goal.term.meet (.before (call.lexemes ++ rest) n)
        = .ok ⟨[], [.call .term, .due (.leave .term)], .before (call.lexemes ++ rest) n⟩ := by
      cases call <;> rfl
    rw [Term.lexemes, ofWords_of_meet h]
    refine (call.leadsTo .term _ _ _ _).congr Iff.rfl ?_
    simp [Term.actions]
  | .group inner =>
    have h : Goal.term.meet (.before ((Term.group inner).lexemes ++ rest) n)
        = .ok ⟨[takeMark .leftParen],
            expressionGoals ++ [.mark .term .rightParen, .due (.leave .term)],
            .before (inner.lexemes ++ .symbol .rightParen :: rest) n⟩ := by
      simp [Term.lexemes]
      rfl
    rw [ofWords_of_meet h, List.append_assoc, ofWords_expressionGoals]
    refine (inner.leadsTo (inner.endedBy_of_mem (by simp) rest) [] _ _ _).congr Iff.rfl ?_
    simp [Term.actions, inExpression]
  | .unary op operand =>
    have h : Goal.term.meet (.before (.symbol op.mark :: (operand.lexemes ++ rest)) n)
        = .ok ⟨[takeMark op.mark], [.due (.enter .term), .term,
            .due (.emitAt .nowhere [.arithmetic op.command]), .due (.leave .term)],
            .before (operand.lexemes ++ rest) n⟩ := by
      cases op <;> rfl
    rw [Term.lexemes, List.cons_append, ofWords_of_meet h, List.cons_append, ofWords_due]
    refine (operand.leadsTo hrest _ _ _).congr Iff.rfl ?_
    simp [Term.actions]

theorem Expression.leadsTo (e : Expression) {rest : List Lexeme} (hrest : e.EndedBy rest)
    (waiting : List (BinaryOp × Position)) (goals : List Goal) (n : Nat) (done : List Action) :
    (ofWords (.term :: .operands waiting :: goals) (e.lexemes ++ rest) n done).LeadsTo
      (Counted e.uses)
      (ofWords goals rest n
        (done ++ e.chain ++ waiting.map fun w => .emitAt w.2 [w.1.instruction])) := by
  match e with
  | .term operand =>
    refine (operand.leadsTo hrest.1 _ _ _).congr Iff.rfl ?_
    rw [ofWords_operands hrest.2]
    rfl
  | .binary left op right =>
    rw [Expression.lexemes, List.append_assoc, List.cons_append]
    have h := left.leadsTo (left.endedBy_of_endName (op.endName_mark (right.lexemes ++ rest)))
      (.operands waiting :: goals) n done
    rw [ofWords_operator] at h
    refine (h.trans (fun _ => right.leadsTo hrest _ _ _ _) (counted_append _ _)).congr Iff.rfl ?_
    simp [Expression.chain]

theorem Call.leadsTo (c : Call) (p : Production) (goals : List Goal) (ls : List Lexeme) (n : Nat)
    (done : List Action) :
    (ofWords (.call p :: goals) (c.lexemes ++ ls) n done).LeadsTo (Counted c.uses)
      (ofWords goals ls n (done ++ c.actions p)) := by
  match c with
  | .own name args =>
    rw [Call.lexemes]
    simp only [List.cons_append, List.append_assoc, List.nil_append, ofWords_own]
    refine (arguments_leadsTo args p _ _ _ _ _).congr (by simp [Call.uses, Call.args]) ?_
    rw [ofWords_callGoals]
    simp [Call.actions]
  | .member owner name args =>
    rw [Call.lexemes]
    simp only [List.cons_append, List.append_assoc, List.nil_append, ofWords_member]
    refine (arguments_leadsTo args p _ _ _ _ _).congr (by simp [Call.uses, Call.args]) ?_
    rw [ofWords_callGoals]
    simp [Call.actions]

theorem arguments_leadsTo (args : List Expression) (p : Production) (callee : Callee)
    (goals : List Goal) (ls : List Lexeme) (n : Nat) (done : List Action) :
    (ofWords (.arguments p callee :: goals) (argumentLexemes args ++ .symbol .rightParen :: ls)
      n done).LeadsTo (Counted (usesOf args) ∧ args.length ≤ 65535)
      (ofWords (callGoals p callee (UInt16.ofNat args.length) ++ goals)
        (.symbol .rightParen :: ls) n (done ++ argumentActions args)) := by
  match args with
  | [] =>
    refine (LeadsTo.refl _).congr (by simp [usesOf]) ?_
    rw [argumentLexemes, argumentActions, List.nil_append, List.append_nil]
    exact ofWords_arguments_nil p callee goals ls n done
  | e :: es =>
    have he := e.leadsTo (e.endedBy_moreArguments es ls) [] (.due (.leave .expression)
      :: .moreArguments p callee 0 .nowhere :: goals) n
      (done ++ [.enter .expression, .enter .term])
    have hes := moreArguments_leadsTo es (Nat.zero_le 65535) p callee .nowhere goals ls n
      (done ++ inExpression e.chain)
    rw [argumentLexemes, List.append_assoc, ofWords_arguments_cons, ofWords_expressionGoals]
    refine ((he.congr Iff.rfl ?_).trans (fun _ => hes) Iff.rfl).congr ?_ ?_
    · simp [inExpression]
    · rw [usesOf, counted_append, List.length_cons, and_assoc, Nat.add_comm es.length,
        Nat.zero_add]
    · rw [argumentActions, List.length_cons, Nat.add_comm es.length, Nat.zero_add,
        List.append_assoc]

theorem moreArguments_leadsTo (args : List Expression) {k : Nat} (hk : k ≤ 65535)
    (p : Production) (callee : Callee) (position : Position)
    (goals : List Goal) (ls : List Lexeme) (n : Nat) (done : List Action) :
    (ofWords (.moreArguments p callee (UInt16.ofNat k) position :: goals)
      (moreArgumentLexemes args ++ .symbol .rightParen :: ls) n done).LeadsTo
      (Counted (usesOf args) ∧ k + 1 + args.length ≤ 65535)
      (ofWords (callGoals p callee (UInt16.ofNat (k + 1 + args.length)) ++ goals)
        (.symbol .rightParen :: ls) n (done ++ moreArgumentActions args)) := by
  rcases Nat.lt_or_eq_of_le hk with hk | rfl
  · match args with
    | [] => 
      have h : (Goal.moreArguments p callee (UInt16.ofNat k) position).meet
          (.before (.symbol .rightParen :: ls) n)
          = .ok ⟨[], callGoals p callee (UInt16.ofNat (k + 1)),
              .before (.symbol .rightParen :: ls) n⟩ := by
        rw [Goal.meet, meetMoreArguments, nextWord?_ofNat hk]
        rfl
      refine (LeadsTo.refl _).congr (by simp [usesOf]; omega) ?_
      rw [moreArgumentLexemes, moreArgumentActions, List.nil_append, List.append_nil,
        ofWords_of_meet h, List.append_nil]
      rfl
    | e :: es =>
      have h : (Goal.moreArguments p callee (UInt16.ofNat k) position).meet (.before (.symbol .comma
            :: (e.lexemes ++ (moreArgumentLexemes es ++ .symbol .rightParen :: ls))) n)
          = .ok ⟨[takeMark .comma],
              expressionGoals ++ [.moreArguments p callee (UInt16.ofNat (k + 1)) .nowhere],
              .before (e.lexemes ++ (moreArgumentLexemes es ++ .symbol .rightParen :: ls)) n⟩ := by
        rw [Goal.meet, meetMoreArguments, nextWord?_ofNat hk, Cursor.mark?,
          Cursor.read?_before_self]
        simp only [Cursor.position_found_before]
        rfl
      have he := e.leadsTo (e.endedBy_moreArguments es ls) [] (.due (.leave .expression)
        :: .moreArguments p callee (UInt16.ofNat (k + 1)) .nowhere :: goals) n
        (done ++ [takeMark .comma, .enter .expression, .enter .term])
      have hes := moreArguments_leadsTo es (Nat.succ_le_of_lt hk) p callee .nowhere goals ls n
        (done ++ takeMark .comma :: inExpression e.chain)
      rw [moreArgumentLexemes]
      simp only [List.cons_append, List.append_assoc]
      rw [ofWords_of_meet h, List.append_assoc, ofWords_expressionGoals]
      simp only [List.append_assoc, List.cons_append, List.nil_append] 
      have hlen : k + 1 + (e :: es).length = k + 1 + 1 + es.length := by
        rw [List.length_cons]
        omega
      refine ((he.congr Iff.rfl ?_).trans (fun _ => hes) Iff.rfl).congr ?_ ?_
      · simp [inExpression]
      · rw [usesOf, counted_append, and_assoc, hlen]
      · rw [moreArgumentActions, hlen]
        simp
  · have h : (Goal.moreArguments p callee (UInt16.ofNat 65535) position).meet
        (.before (moreArgumentLexemes args ++ .symbol .rightParen :: ls) n)
        = .error (.tooMany .expressionList .callArguments position) := rfl
    exact leadsTo_of_error h rfl goals done (by omega)

end

theorem Expression.leadsTo_actions (e : Expression) {rest : List Lexeme}
    (hrest : e.EndedBy rest) (goals : List Goal) (n : Nat) (done : List Action) :
    (ofWords (expressionGoals ++ goals) (e.lexemes ++ rest) n done).LeadsTo (Counted e.uses)
      (ofWords goals rest n (done ++ e.actions)) := by
  rw [ofWords_expressionGoals]
  refine (e.leadsTo hrest [] _ _ _).congr Iff.rfl ?_
  simp [Expression.actions, inExpression]

/-- Words are those of one expression at most, as far as the actions tell. -/
theorem Expression.actions_eq_of_lexemes_eq {e e' : Expression} (h : e.lexemes = e'.lexemes)
    (hc : Counted e.uses) : Counted e'.uses ∧ e.actions = e'.actions := by
  have he := e.leadsTo_actions (e.endedBy_of_mem (m := .rightParen) (by simp) []) [] 0 []
  have he' := e'.leadsTo_actions (e'.endedBy_of_mem (m := .rightParen) (by simp) []) [] 0 []
  rw [← h] at he'
  have hc' : Counted e'.uses := he'.holds (by rw [he.eq hc, ofWords, ofGoals_nil])
  have heq := congrArg (fun s => s.actions.toList) ((he.eq hc).symm.trans (he'.eq hc'))
  simp only [ofWords, ofGoals_nil, List.nil_append] at heq
  exact ⟨hc', heq⟩

/-! ### Statements -/

theorem Expression.leadsTo_condition (e : Expression) (p : Production) (label : String)
    (goals : List Goal) (ls : List Lexeme) (n : Nat) (done : List Action) :
    (ofWords (conditionGoals p label ++ goals) (e.conditionLexemes ++ ls) n done).LeadsTo
      (Counted e.uses) (ofWords goals ls n (done ++ e.conditionActions label)) := by
  have hend : e.EndedBy (.symbol .rightParen :: ls) := e.endedBy_of_mem (by simp) ls
  have h := e.leadsTo_actions hend
    ([.mark p .rightParen, .due (.emit [.arithmetic .not, .ifGoto label])] ++ goals) n
    (done ++ [takeMark .leftParen])
  simp only [conditionGoals, Expression.conditionLexemes, List.cons_append, List.append_assoc,
    ofWords_mark, List.nil_append] at h ⊢
  refine h.congr Iff.rfl ?_
  simp [Expression.conditionActions]

theorem leadsTo_block {ks : List Lexeme} {n m : Nat} {as : List Action} {p : Prop}
    (h : ∀ goals ls done,
      (ofWords (.statements :: goals) (ks ++ .symbol .rightBrace :: ls) n done).LeadsTo p
        (ofWords goals (.symbol .rightBrace :: ls) m (done ++ as)))
    (q : Production) (goals : List Goal) (ls : List Lexeme) (done : List Action) :
    (ofWords (blockGoals q ++ goals) (inBraces ks ++ ls) n done).LeadsTo p
      (ofWords goals ls m (done ++ inBlock as)) := by
  simp only [blockGoals, statementsGoals, inBraces, List.cons_append, List.append_assoc,
    List.nil_append, ofWords_mark, ofWords_due]
  refine (h _ _ _).congr Iff.rfl ?_
  simp [inBlock, inStatements]

theorem Statement.lexemes_eq_cons (s : Statement) :
    ∃ l ls, s.lexemes = l :: ls ∧ l ≠ .keyword .else_ ∧ l ≠ .keyword .var := by
  cases s with
  | letVariable target value | letElement target index value | if_ condition body otherwise
  | while_ condition body | do_ call => exact ⟨_, _, rfl, by simp⟩
  | return_ value => cases value <;> exact ⟨_, _, rfl, by simp⟩

/-- The word after statements, or the first one of the next, begins no other branch. -/
theorem statementLexemes_eq_cons (ss : List Statement) (ls : List Lexeme) :
    ∃ l ks, statementLexemes ss ++ .symbol .rightBrace :: ls = l :: ks
      ∧ l ≠ .keyword .else_ ∧ l ≠ .keyword .var := by
  cases ss with
  | nil => exact ⟨_, _, rfl, by simp⟩
  | cons s ss =>
    obtain ⟨l, ks, hl, hne⟩ := s.lexemes_eq_cons
    exact ⟨l, _, by rw [statementLexemes, hl, List.cons_append, List.cons_append], hne⟩

theorem ofWords_let (target : String) (goals : List Goal) (ls : List Lexeme) (n : Nat)
    (done : List Action) :
    ofWords (.statements :: goals) (.keyword .let_ :: .identifier target :: ls) n done
      = ofWords (.letValue (unplaced target) :: .due (.leave .letStatement) :: .statements :: goals)
          ls n (done ++ [.enter .letStatement, takeKeyword .let_, .mention (unplaced target)]) := by
  have h : Goal.statements.meet (.before (.keyword .let_ :: .identifier target :: ls) n)
      = .ok ⟨[.enter .letStatement, takeKeyword .let_],
          [.letTarget, .due (.leave .letStatement), .statements],
          .before (.identifier target :: ls) n⟩ := rfl
  have h' : Goal.letTarget.meet (.before (.identifier target :: ls) n)
      = .ok ⟨[.mention (unplaced target)], [.letValue (unplaced target)], .before ls n⟩ := rfl
  rw [ofWords_of_meet h, List.cons_append, ofWords_of_meet h']
  simp

theorem ofWords_return (goals : List Goal) (ls : List Lexeme) (n : Nat) (done : List Action) :
    ofWords (.statements :: goals) (.keyword .return_ :: ls) n done
      = ofWords (.returned :: .mark .returnStatement .semicolon :: .due (.emit [.return_])
          :: .due (.leave .returnStatement) :: .statements :: goals) ls n
          (done ++ [.enter .returnStatement, takeKeyword .return_]) := by
  have h : Goal.statements.meet (.before (.keyword .return_ :: ls) n)
      = .ok ⟨[.enter .returnStatement, takeKeyword .return_],
          [.returned, .mark .returnStatement .semicolon, .due (.emit [.return_]),
            .due (.leave .returnStatement), .statements], .before ls n⟩ := rfl
  exact ofWords_of_meet h goals done

theorem ofWords_returned_some (value : Expression) (goals : List Goal) (ls : List Lexeme) (n : Nat)
    (done : List Action) :
    ofWords (.returned :: goals) (value.lexemes ++ ls) n done
      = ofWords (expressionGoals ++ goals) (value.lexemes ++ ls) n done := by
  obtain ⟨l, ks, hl, -, hne⟩ := value.lexemes_eq_cons
  rw [hl, List.cons_append]
  have h : Goal.returned.meet (.before (l :: (ks ++ ls)) n)
      = .ok ⟨[], expressionGoals, .before (l :: (ks ++ ls)) n⟩ := by
    simp [Goal.meet, Cursor.sees, Cursor.mark?, Cursor.read?_before_of_ne hne]
  rw [ofWords_of_meet h, List.append_nil]

theorem ofWords_otherwise_none {l : Lexeme} (hl : l ≠ .keyword .else_) (goals : List Goal)
    (ls : List Lexeme) (n : Nat) (done : List Action) :
    ofWords (.otherwise :: goals) (l :: ls) n done = ofWords goals (l :: ls) n done := by
  have h : Goal.otherwise.meet (.before (l :: ls) n) = .ok ⟨[], [], .before (l :: ls) n⟩ := by
    rw [Goal.meet, Cursor.read?_before_of_ne hl]
  rw [ofWords_of_meet h, List.nil_append, List.append_nil]

mutual

theorem Statement.leadsTo (s : Statement) {l : Lexeme} (hl : l ≠ .keyword .else_)
    (goals : List Goal) (ls : List Lexeme) (n : Nat) (done : List Action) :
    (ofWords (.statements :: goals) (s.lexemes ++ l :: ls) n done).LeadsTo (Counted s.uses)
      (ofWords (.statements :: goals) (l :: ls) (n + s.constructs) (done ++ s.actions n)) := by
  match s with
  | .letVariable target value =>
    have h : (Goal.letValue (unplaced target)).meet
          (.before (.symbol .equal :: (value.lexemes ++ .symbol .semicolon :: l :: ls)) n)
        = .ok ⟨[], [.mark .letStatement .equal, .due (.require .letStatement (unplaced target))]
            ++ expressionGoals
            ++ [.mark .letStatement .semicolon, .due (.store .letStatement (unplaced target))],
            .before (.symbol .equal :: (value.lexemes ++ .symbol .semicolon :: l :: ls)) n⟩ := rfl
    rw [Statement.lexemes]
    simp only [List.cons_append, List.append_assoc, List.nil_append, ofWords_let]
    rw [ofWords_of_meet h]
    simp only [List.cons_append, List.append_assoc, List.nil_append, ofWords_mark, ofWords_due]
    refine (value.leadsTo_actions (value.endedBy_of_mem (by simp) _) _ _ _).congr
      (by simp [Statement.uses]) ?_
    simp [Statement.actions, Statement.constructs]
  | .letElement target index value =>
    have h : (Goal.letValue (unplaced target)).meet (.before (.symbol .leftBracket
          :: (index.lexemes ++ .symbol .rightBracket :: .symbol .equal
            :: (value.lexemes ++ .symbol .semicolon :: l :: ls))) n)
        = .ok ⟨[.require .letStatement (unplaced target), takeMark .leftBracket,
            .load .letStatement (unplaced target)],
            expressionGoals ++ [.mark .letStatement .rightBracket,
              .due (.emit [.arithmetic .add]), .mark .letStatement .equal] ++ expressionGoals
              ++ [.mark .letStatement .semicolon, .due (.emit assignCode)],
            .before (index.lexemes ++ .symbol .rightBracket :: .symbol .equal
              :: (value.lexemes ++ .symbol .semicolon :: l :: ls)) n⟩ := rfl
    rw [Statement.lexemes]
    simp only [List.cons_append, List.append_assoc, List.nil_append, ofWords_let]
    rw [ofWords_of_meet h]
    simp only [List.cons_append, List.append_assoc, List.nil_append]
    refine ((index.leadsTo_actions (index.endedBy_of_mem (by simp) _) _ _ _).trans (fun _ => ?_)
      (by rw [Statement.uses, counted_variable, counted_append])).congr Iff.rfl rfl
    simp only [ofWords_mark, ofWords_due]
    refine (value.leadsTo_actions (value.endedBy_of_mem (by simp) _) _ _ _).congr Iff.rfl ?_
    simp [Statement.actions, Statement.constructs]
  | .if_ condition body otherwise =>
    have h : Goal.statements.meet (.before (.keyword .if_ :: (condition.conditionLexemes
          ++ (inBraces (statementLexemes body) ++ (otherwiseLexemes otherwise ++ l :: ls)))) n)
        = .ok ⟨[.enter .ifStatement, takeKeyword .if_],
            conditionGoals .ifStatement (Label.ifFalse.at n) ++ blockGoals .ifStatement
              ++ [.due (.emit [.goto (Label.ifEnd.at n), .label (Label.ifFalse.at n)]),
                .otherwise, .due (.emit [.label (Label.ifEnd.at n)]), .due (.leave .ifStatement),
                .statements],
            .before (condition.conditionLexemes ++ (inBraces (statementLexemes body)
              ++ (otherwiseLexemes otherwise ++ l :: ls))) (n + 1)⟩ := rfl
    have hb := leadsTo_block (statements_leadsTo body · · (n + 1) ·) .ifStatement
    rw [Statement.lexemes]
    simp only [List.cons_append, List.append_assoc]
    rw [ofWords_of_meet h]
    simp only [List.cons_append, List.append_assoc, List.nil_append]
    refine ((condition.leadsTo_condition _ _ _ _ _ _).trans
      (fun _ => (hb _ _ _).trans (fun _ => ?_) Iff.rfl)
      (by rw [Statement.uses, counted_append, counted_append, and_assoc])).congr Iff.rfl rfl
    simp only [ofWords_due]
    refine (otherwise_leadsTo otherwise hl _ _ _ _).congr Iff.rfl ?_
    simp [Statement.actions, Statement.constructs, Nat.add_assoc]
  | .while_ condition body =>
    have h : Goal.statements.meet (.before (.keyword .while_ :: (condition.conditionLexemes
          ++ (inBraces (statementLexemes body) ++ l :: ls))) n)
        = .ok ⟨[.enter .whileStatement, takeKeyword .while_,
              .emit [.label (Label.whileStart.at n)]],
            conditionGoals .whileStatement (Label.whileEnd.at n) ++ blockGoals .whileStatement
              ++ [.due (.emit [.goto (Label.whileStart.at n), .label (Label.whileEnd.at n)]),
                .due (.leave .whileStatement), .statements],
            .before (condition.conditionLexemes
              ++ (inBraces (statementLexemes body) ++ l :: ls)) (n + 1)⟩ := rfl
    have hb := leadsTo_block (statements_leadsTo body · · (n + 1) ·) .whileStatement
    rw [Statement.lexemes]
    simp only [List.cons_append, List.append_assoc]
    rw [ofWords_of_meet h]
    simp only [List.cons_append, List.append_assoc, List.nil_append]
    refine ((condition.leadsTo_condition _ _ _ _ _ _).trans (fun _ => hb _ _ _)
      (by rw [Statement.uses, counted_append])).congr Iff.rfl ?_
    simp [Statement.actions, Statement.constructs, Nat.add_assoc]
  | .do_ call =>
    have h : Goal.statements.meet
          (.before (.keyword .do_ :: (call.lexemes ++ .symbol .semicolon :: l :: ls)) n)
        = .ok ⟨[.enter .doStatement, takeKeyword .do_],
            [.call .doStatement, .mark .doStatement .semicolon, .due (.emit [.pop .temp 0]),
              .due (.leave .doStatement), .statements],
            .before (call.lexemes ++ .symbol .semicolon :: l :: ls) n⟩ := rfl
    rw [Statement.lexemes]
    simp only [List.cons_append, List.append_assoc, List.nil_append]
    rw [ofWords_of_meet h]
    refine (call.leadsTo .doStatement _ _ _ _).congr (by rw [Statement.uses]) ?_
    simp [Statement.actions, Statement.constructs]
  | .return_ none =>
    have h : Goal.returned.meet (.before (.symbol .semicolon :: l :: ls) n)
        = .ok ⟨[.emit [.push .constant 0]], [], .before (.symbol .semicolon :: l :: ls) n⟩ := rfl
    refine (LeadsTo.refl _).congr (by simp [Statement.uses]) ?_
    rw [Statement.lexemes]
    simp only [List.cons_append, List.nil_append, ofWords_return]
    rw [ofWords_of_meet h]
    simp [Statement.actions, Statement.constructs]
  | .return_ (some value) =>
    rw [Statement.lexemes]
    simp only [List.cons_append, List.append_assoc, List.nil_append, ofWords_return]
    rw [ofWords_returned_some]
    refine (value.leadsTo_actions (value.endedBy_of_mem (by simp) _) _ _ _).congr
      (by rw [Statement.uses]) ?_
    simp [Statement.actions, Statement.constructs]

theorem statements_leadsTo (ss : List Statement) (goals : List Goal) (ls : List Lexeme) (n : Nat)
    (done : List Action) :
    (ofWords (.statements :: goals) (statementLexemes ss ++ .symbol .rightBrace :: ls) n
      done).LeadsTo (Counted (statementUses ss))
      (ofWords goals (.symbol .rightBrace :: ls) (n + constructsOf ss)
        (done ++ statementActions n ss)) := by
  match ss with
  | [] =>
    have h : Goal.statements.meet (.before (.symbol .rightBrace :: ls) n)
        = .ok ⟨[], [], .before (.symbol .rightBrace :: ls) n⟩ := rfl
    exact leadsTo_of_meet h goals done (by simp [statementUses])
  | s :: ss =>
    obtain ⟨l, ks, hks, hl, -⟩ := statementLexemes_eq_cons ss ls
    have hs := s.leadsTo hl goals ks n done
    have hss := statements_leadsTo ss goals ls (n + s.constructs) (done ++ s.actions n)
    rw [statementLexemes, List.append_assoc]
    rw [hks] at hss ⊢
    refine (hs.trans (fun _ => hss) (by rw [statementUses, counted_append])).congr Iff.rfl ?_
    rw [constructsOf, statementActions, Nat.add_assoc, List.append_assoc]

theorem otherwise_leadsTo (o : Option (List Statement)) {l : Lexeme} (hl : l ≠ .keyword .else_)
    (goals : List Goal) (ls : List Lexeme) (n : Nat) (done : List Action) :
    (ofWords (.otherwise :: goals) (otherwiseLexemes o ++ l :: ls) n done).LeadsTo
      (Counted (otherwiseUses o))
      (ofWords goals (l :: ls) (n + constructsOfOtherwise o) (done ++ otherwiseActions n o)) := by
  match o with
  | none =>
    refine (LeadsTo.refl _).congr (by simp [otherwiseUses]) ?_
    rw [otherwiseLexemes, otherwiseActions, List.nil_append, List.append_nil]
    exact ofWords_otherwise_none hl goals ls n done
  | some body =>
    have hb := leadsTo_block (statements_leadsTo body · · n ·) .ifStatement goals (l :: ls)
      (done ++ [takeKeyword .else_])
    have h : Goal.otherwise.meet
        (.before (.keyword .else_ :: (inBraces (statementLexemes body) ++ l :: ls)) n)
        = .ok ⟨[takeKeyword .else_], blockGoals .ifStatement,
            .before (inBraces (statementLexemes body) ++ l :: ls) n⟩ := rfl
    rw [otherwiseLexemes, List.cons_append, ofWords_of_meet h]
    refine hb.congr Iff.rfl ?_
    simp [constructsOfOtherwise, otherwiseActions]

end

end Jack
