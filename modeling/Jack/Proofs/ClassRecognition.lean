import Jack.Proofs.Recognition

/-! The words of declarations, subroutines and a class are read as what they are, as long as their
names and arguments can be counted. -/

namespace Jack

open Script

theorem ofWords_typed (d : Declaration) (count : UInt16) (type : TypeName) (goals : List Goal)
    (ls : List Lexeme) (n : Nat) (done : List Action) :
    ofWords (.typed d count :: goals) (type.lexeme :: ls) n done
      = ofWords (.named d type.spelling count :: goals) ls n (done ++ [takeType type]) := by
  have h : (Goal.typed d count).meet (.before (type.lexeme :: ls) n)
      = .ok ⟨[takeType type], [.named d type.spelling count], .before ls n⟩ := by
    cases type <;> rfl
  exact ofWords_of_meet h goals done

theorem ofWords_named (d : Declaration) (type : String) (count : UInt16) (name : String)
    (goals : List Goal) (ls : List Lexeme) (n : Nat) (done : List Action) :
    ofWords (.named d type count :: goals) (.identifier name :: ls) n done
      = ofWords (.afterName d type count .nowhere :: goals) ls n
          (done ++ [declareAction d.production ⟨name, type, d.kind⟩]) := by
  have h : (Goal.named d type count).meet (.before (.identifier name :: ls) n)
      = .ok ⟨[declareAction d.production ⟨name, type, d.kind⟩],
          [.afterName d type count .nowhere], .before ls n⟩ := rfl
  exact ofWords_of_meet h goals done

/-- Names after the first one, of which there are `k`, up to the end of the declaration. -/
theorem leadsTo_moreNames {d : Declaration} (hd : d ≠ .parameter) (type : String)
    (more : List String) {k : Nat} (hk : k ≤ 65535) (goals : List Goal) (ls : List Lexeme)
    (n : Nat) (done : List Action) :
    (ofWords (.afterName d type (UInt16.ofNat k) .nowhere :: goals)
      (more.flatMap (fun name => [.symbol .comma, .identifier name])
        ++ .symbol .semicolon :: ls) n done).LeadsTo (k + 1 + more.length ≤ 65535)
      (ofWords (d.endGoals (UInt16.ofNat (k + 1 + more.length)) ++ goals) ls n
        (done ++ more.flatMap (fun name =>
          [takeMark .comma, declareAction d.production ⟨name, type, d.kind⟩])
          ++ [takeMark .semicolon])) := by
  induction more generalizing k done with
  | nil =>
    rcases Nat.lt_or_eq_of_le hk with hk | rfl
    · have h : (Goal.afterName d type (UInt16.ofNat k) .nowhere).meet
          (.before (.symbol .semicolon :: ls) n)
          = .ok ⟨[takeMark .semicolon], d.endGoals (UInt16.ofNat (k + 1)), .before ls n⟩ := by
        rw [Goal.meet, meetAfterName, nextWord?_ofNat hk]
        simp [Cursor.mark?, Cursor.read?_before_self, Cursor.read?_before_of_ne, hd, takeMark]
      refine (LeadsTo.refl _).congr (by simp; omega) ?_
      exact (ofWords_of_meet h goals done).trans (by simp)
    · exact leadsTo_of_error rfl rfl goals done (by omega)
  | cons name more ih =>
    rcases Nat.lt_or_eq_of_le hk with hk | rfl
    · have h : (Goal.afterName d type (UInt16.ofNat k) .nowhere).meet
          (.before (.symbol .comma :: .identifier name :: (more.flatMap
            (fun name => [Lexeme.symbol .comma, .identifier name]) ++ .symbol .semicolon :: ls)) n)
          = .ok ⟨[takeMark .comma], [.named d type (UInt16.ofNat (k + 1))],
              .before (.identifier name :: (more.flatMap
                (fun name => [Lexeme.symbol .comma, .identifier name])
                  ++ .symbol .semicolon :: ls)) n⟩ := by
        rw [Goal.meet, meetAfterName, nextWord?_ofNat hk]
        simp [Cursor.mark?, Cursor.read?_before_self, hd, takeMark]
      have hlen : k + 1 + (name :: more).length = k + 1 + 1 + more.length := by
        rw [List.length_cons]
        omega
      simp only [List.flatMap_cons, List.cons_append, List.nil_append, List.append_assoc]
      rw [ofWords_of_meet h, List.cons_append, List.nil_append, ofWords_named]
      refine (ih (Nat.succ_le_of_lt hk) _).congr (by rw [hlen]) ?_
      rw [hlen]
      simp
    · exact leadsTo_of_error rfl rfl goals done (by omega)

theorem leadsTo_names {d : Declaration} (hd : d ≠ .parameter) (type : TypeName) (first : String)
    (more : List String) (goals : List Goal) (ls : List Lexeme) (n : Nat) (done : List Action) :
    (ofWords (.typed d 0 :: goals)
      (type.lexeme :: nameLexemes first more ++ .symbol .semicolon :: ls) n done).LeadsTo
      ((first :: more).length ≤ 65535)
      (ofWords (d.endGoals (UInt16.ofNat (first :: more).length) ++ goals) ls n
        (done ++ takeType type :: nameActions d.production type.spelling d.kind first more
          ++ [takeMark .semicolon])) := by
  rw [nameLexemes, List.cons_append, List.cons_append, ofWords_typed, ofWords_named]
  have h := leadsTo_moreNames hd type.spelling more (Nat.zero_le _) goals ls n
    (done ++ [takeType type]
      ++ [declareAction d.production ⟨first, type.spelling, d.kind⟩])
  have hlen : (first :: more).length = 0 + 1 + more.length := by
    rw [List.length_cons]
    omega
  refine h.congr (by rw [hlen]) ?_
  rw [hlen]
  simp [nameActions]

theorem ClassVarDec.leadsTo (d : ClassVarDec) (goals : List Goal) (ls : List Lexeme) (n : Nat)
    (done : List Action) :
    (ofWords (.classVarDecs :: goals) (d.lexemes ++ ls) n done).LeadsTo (d.names.length ≤ 65535)
      (ofWords (.classVarDecs :: goals) ls n (done ++ d.actions)) := by
  obtain ⟨kind, hkind, type, first, more⟩ := d
  have h : Goal.classVarDecs.meet (.before (.keyword kind.keyword :: (type.lexeme
        :: nameLexemes first more ++ .symbol .semicolon :: ls)) n)
      = .ok ⟨[.enter .classVarDec, takeKeyword kind.keyword],
          [.typed (.ofClass kind) 0, .classVarDecs],
          .before (type.lexeme :: nameLexemes first more ++ .symbol .semicolon :: ls) n⟩ := by
    cases kind with
    | static => rfl
    | field => rfl
    | argument => cases hkind
    | var => cases hkind
  rw [ClassVarDec.lexemes]
  simp only [List.cons_append, List.append_assoc, List.nil_append] at h ⊢
  rw [ofWords_of_meet h]
  have hd : Declaration.ofClass kind ≠ .parameter := by simp
  refine (leadsTo_names hd type first more _ _ _ _).congr Iff.rfl ?_
  simp [ClassVarDec.actions, Declaration.endGoals, Declaration.production, Declaration.kind]

/-- Locals are added to `k` others. -/
theorem leadsTo_counted (role : Role) {j k : Nat} (hj : j ≤ 65535) (hk : k ≤ 65535)
    (start : Position) (goals : List Goal) (ls : List Lexeme) (n : Nat) (done : List Action) :
    (ofWords (.counted role (UInt16.ofNat k) (UInt16.ofNat j) start :: goals) ls n done).LeadsTo
      (k + j ≤ 65535) (ofWords (.body role (UInt16.ofNat (k + j)) :: goals) ls n done) := by
  by_cases hsum : k + j ≤ 65535
  · have h : (Goal.counted role (UInt16.ofNat k) (UInt16.ofNat j) start).meet (.before ls n)
        = .ok ⟨[], [.body role (UInt16.ofNat (k + j))], .before ls n⟩ := by
      rw [Goal.meet, addWords?_ofNat (Nat.add_comm k j ▸ hsum), Nat.add_comm j]
    refine (LeadsTo.refl _).congr (by simpa using hsum) ?_
    rw [ofWords_of_meet h, List.append_nil]
    rfl
  · have h : (Goal.counted role (UInt16.ofNat k) (UInt16.ofNat j) start).meet (.before ls n)
        = .error (.tooMany .subroutineBody (.variables .var) start) := by
      rw [Goal.meet, addWords?_ofNat_eq_none hj hk (by omega)]
    exact leadsTo_of_error h rfl goals done hsum

theorem VarDec.leadsTo (d : VarDec) (role : Role) {k : Nat} (hk : k ≤ 65535) (goals : List Goal)
    (ls : List Lexeme) (n : Nat) (done : List Action) :
    (ofWords (.body role (UInt16.ofNat k) :: goals) (d.lexemes ++ ls) n done).LeadsTo
      (k + d.names.length ≤ 65535)
      (ofWords (.body role (UInt16.ofNat (k + d.names.length)) :: goals) ls n
        (done ++ d.actions)) := by
  obtain ⟨type, first, more⟩ := d
  have h : (Goal.body role (UInt16.ofNat k)).meet (.before (.keyword .var :: (type.lexeme
        :: nameLexemes first more ++ .symbol .semicolon :: ls)) n)
      = .ok ⟨[.enter .varDec, takeKeyword .var],
          [.typed (.locals role (UInt16.ofNat k) .nowhere) 0],
          .before (type.lexeme :: nameLexemes first more ++ .symbol .semicolon :: ls) n⟩ := rfl
  have hd : Declaration.locals role (UInt16.ofNat k) .nowhere ≠ .parameter := by simp
  have hlen : (VarDec.mk type first more).names.length = (first :: more).length := rfl
  rw [VarDec.lexemes]
  simp only [List.cons_append, List.append_assoc, List.nil_append] at h ⊢
  rw [ofWords_of_meet h, hlen]
  refine ((leadsTo_names hd type first more _ _ _ _).trans (fun hj => ?_)
    ⟨fun hk' => ⟨Nat.le_trans (Nat.le_add_left _ k) hk', hk'⟩, And.right⟩).congr Iff.rfl rfl
  simp only [Declaration.endGoals, List.cons_append, List.nil_append, ofWords_due]
  refine (leadsTo_counted role hj hk .nowhere goals ls n _).congr Iff.rfl ?_
  simp [VarDec.actions, Declaration.production, Declaration.kind]

theorem vars_leadsTo (ds : List VarDec) (role : Role) {k : Nat} (hk : k ≤ 65535)
    (goals : List Goal) (ls : List Lexeme) (n : Nat) (done : List Action) :
    (ofWords (.body role (UInt16.ofNat k) :: goals) (ds.flatMap VarDec.lexemes ++ ls) n
      done).LeadsTo (k + (ds.flatMap VarDec.names).length ≤ 65535)
      (ofWords (.body role (UInt16.ofNat (k + (ds.flatMap VarDec.names).length)) :: goals) ls n
        (done ++ ds.flatMap VarDec.actions)) := by
  induction ds generalizing k done with
  | nil => exact (LeadsTo.refl _).congr (by simpa using hk) (by simp)
  | cons d ds ih =>
    have hlen : k + ((d :: ds).flatMap VarDec.names).length
        = k + d.names.length + (ds.flatMap VarDec.names).length := by
      rw [List.flatMap_cons, List.length_append]
      omega
    rw [List.flatMap_cons, List.append_assoc, hlen]
    refine ((d.leadsTo role hk _ _ _ _).trans (fun hd => ih hd _) ?_).congr Iff.rfl ?_
    · exact ⟨fun h => ⟨Nat.le_trans (Nat.le_add_right _ _) h, h⟩, And.right⟩
    · simp

theorem classVarDecs_leadsTo (ds : List ClassVarDec) {l : Lexeme}
    (hl : ∀ kind : Kind, l ≠ .keyword kind.keyword) (goals : List Goal) (ls : List Lexeme) (n : Nat)
    (done : List Action) :
    (ofWords (.classVarDecs :: goals) (ds.flatMap ClassVarDec.lexemes ++ l :: ls) n done).LeadsTo
      (∀ d ∈ ds, d.names.length ≤ 65535)
      (ofWords goals (l :: ls) n (done ++ ds.flatMap ClassVarDec.actions)) := by
  induction ds generalizing done with
  | nil =>
    have h : Goal.classVarDecs.meet (.before (l :: ls) n) = .ok ⟨[], [], .before (l :: ls) n⟩ := by
      cases l with
      | keyword k =>
        have hs : k ≠ .static := fun hk => hl .static (by rw [hk]; rfl)
        have hf : k ≠ .field := fun hk => hl .field (by rw [hk]; rfl)
        simp [Goal.meet, meetClassVarDecs, Cursor.keyword?, Cursor.before, Lexeme.token, hs, hf]
      | _ => rfl
    exact leadsTo_of_meet h goals done (by simp)
  | cons d ds ih =>
    rw [List.flatMap_cons, List.append_assoc]
    refine ((d.leadsTo _ _ _ _).trans (fun _ => ih _) List.forall_mem_cons).congr Iff.rfl ?_
    simp

theorem leadsTo_moreParameters (type : String) (ps : List Parameter) {k : Nat} (hk : k ≤ 65535)
    (goals : List Goal) (ls : List Lexeme) (n : Nat) (done : List Action) :
    (ofWords (.afterName .parameter type (UInt16.ofNat k) .nowhere :: goals)
      (ps.flatMap (fun p => .symbol .comma :: p.lexemes) ++ .symbol .rightParen :: ls) n
      done).LeadsTo (k + 1 + ps.length ≤ 65535)
      (ofWords goals (.symbol .rightParen :: ls) n
        (done ++ ps.flatMap fun p => takeMark .comma :: p.actions)) := by
  induction ps generalizing type k done with
  | nil =>
    rcases Nat.lt_or_eq_of_le hk with hk | rfl
    · have h : (Goal.afterName .parameter type (UInt16.ofNat k) .nowhere).meet
          (.before (.symbol .rightParen :: ls) n)
          = .ok ⟨[], [], .before (.symbol .rightParen :: ls) n⟩ := by
        rw [Goal.meet, meetAfterName, nextWord?_ofNat hk]
        rfl
      exact leadsTo_of_meet h goals done (by simp; omega)
    · exact leadsTo_of_error rfl rfl goals done (by omega)
  | cons p ps ih =>
    rcases Nat.lt_or_eq_of_le hk with hk | rfl
    · have h : (Goal.afterName .parameter type (UInt16.ofNat k) .nowhere).meet
          (.before (.symbol .comma :: p.type.lexeme :: .identifier p.name
            :: (ps.flatMap (fun p => .symbol .comma :: p.lexemes)
              ++ .symbol .rightParen :: ls)) n)
          = .ok ⟨[takeMark .comma], [.typed .parameter (UInt16.ofNat (k + 1))],
              .before (p.type.lexeme :: .identifier p.name
                :: (ps.flatMap (fun p => .symbol .comma :: p.lexemes)
                  ++ .symbol .rightParen :: ls)) n⟩ := by
        rw [Goal.meet, meetAfterName, nextWord?_ofNat hk]
        simp [Cursor.mark?, Cursor.read?_before_self, takeMark]
      have hlen : k + 1 + (p :: ps).length = k + 1 + 1 + ps.length := by
        rw [List.length_cons]
        omega
      simp only [List.flatMap_cons, Parameter.lexemes, List.cons_append, List.nil_append] at h ⊢
      rw [ofWords_of_meet h, List.cons_append, List.nil_append, ofWords_typed, ofWords_named]
      refine (ih _ (Nat.succ_le_of_lt hk) _).congr (by rw [hlen]) ?_
      simp [Parameter.actions, Parameter.declared, Declaration.production, Declaration.kind]
    · exact leadsTo_of_error rfl rfl goals done (by omega)

theorem parameters_leadsTo (ps : List Parameter) (goals : List Goal) (ls : List Lexeme) (n : Nat)
    (done : List Action) :
    (ofWords (.parameters :: goals) (parameterLexemes ps ++ .symbol .rightParen :: ls) n
      done).LeadsTo (ps.length ≤ 65535)
      (ofWords goals (.symbol .rightParen :: ls) n (done ++ parameterActions ps)) := by
  cases ps with
  | nil =>
    have h : Goal.parameters.meet (.before (.symbol .rightParen :: ls) n)
        = .ok ⟨[], [], .before (.symbol .rightParen :: ls) n⟩ := rfl
    exact leadsTo_of_meet h goals done (by simp)
  | cons p ps =>
    obtain ⟨type, name⟩ := p
    have h : Goal.parameters.meet (.before (type.lexeme :: .identifier name
          :: (ps.flatMap (fun p => .symbol .comma :: p.lexemes) ++ .symbol .rightParen :: ls)) n)
        = .ok ⟨[], [.typed .parameter 0], .before (type.lexeme :: .identifier name
          :: (ps.flatMap (fun p => .symbol .comma :: p.lexemes)
            ++ .symbol .rightParen :: ls)) n⟩ := by
      cases type <;> rfl
    have hps := leadsTo_moreParameters type.spelling ps (Nat.zero_le _) goals ls n
    rw [parameterLexemes]
    simp only [Parameter.lexemes, List.cons_append, List.nil_append] at h ⊢
    rw [ofWords_of_meet h, List.cons_append, List.nil_append, ofWords_typed, ofWords_named]
    refine (hps _).congr (by rw [List.length_cons, Nat.zero_add, Nat.add_comm]) ?_
    simp [parameterActions, Parameter.actions, Parameter.declared, Declaration.production,
      Declaration.kind]

theorem body_leadsTo (role : Role) (locals : UInt16) (ss : List Statement) (goals : List Goal)
    (ls : List Lexeme) (n : Nat) (done : List Action) :
    (ofWords (.body role locals :: goals) (statementLexemes ss ++ .symbol .rightBrace :: ls) n
      done).LeadsTo (Counted (statementUses ss))
      (ofWords goals ls (n + constructsOf ss) (done ++ bodyActions role n locals ss)) := by
  obtain ⟨l, ks, hks, -, hl⟩ := statementLexemes_eq_cons ss ls
  have h : (Goal.body role locals).meet (.before (l :: ks) n)
      = .ok ⟨[.preamble role], statementsGoals ++ [.mark .subroutineBody .rightBrace,
          .due (.complete locals), .due (.leave .subroutineBody)], .before (l :: ks) n⟩ := by
    rw [Goal.meet, meetBody, Cursor.read?_before_of_ne hl]
  have hs := statements_leadsTo ss (.due (.leave .statements)
    :: .mark .subroutineBody .rightBrace :: .due (.complete locals)
    :: .due (.leave .subroutineBody) :: goals) ls n
    (done ++ [.preamble role, .enter .statements])
  rw [hks] at hs ⊢
  rw [ofWords_of_meet h]
  simp only [statementsGoals, List.cons_append, List.nil_append, ofWords_due, List.append_assoc]
  refine hs.congr Iff.rfl ?_
  simp [bodyActions, inStatements]

/-- The parameters, the locals and the arguments in calls can be counted. -/
structure SubroutineDec.Countable (d : SubroutineDec) : Prop where
  parameters : d.parameters.length ≤ 65535
  locals : d.localCount ≤ 65535
  calls : Counted (statementUses d.body)

theorem SubroutineDec.countable_iff {d : SubroutineDec} :
    d.Countable ↔ d.parameters.length ≤ 65535 ∧ d.localCount ≤ 65535
      ∧ Counted (statementUses d.body) :=
  ⟨fun h => ⟨h.parameters, h.locals, h.calls⟩, fun ⟨hp, hl, hc⟩ => ⟨hp, hl, hc⟩⟩

theorem ofWords_subroutineDecs (role : Role) (goals : List Goal) (ls : List Lexeme) (n : Nat)
    (done : List Action) :
    ofWords (.subroutineDecs :: goals) (.keyword role.keyword :: ls) n done
      = ofWords (.resultType :: .subroutineName role :: .subroutineDecs :: goals) ls n
          (done ++ [.startSubroutine, .enter .subroutineDec, takeKeyword role.keyword]) := by
  have h : Goal.subroutineDecs.meet (.before (.keyword role.keyword :: ls) n)
      = .ok ⟨[.startSubroutine, .enter .subroutineDec, takeKeyword role.keyword],
          [.resultType, .subroutineName role, .subroutineDecs], .before ls n⟩ := by
    cases role <;> rfl
  exact ofWords_of_meet h goals done

theorem ofWords_subroutine (role : Role) (result : Option TypeName) (name : String)
    (goals : List Goal) (ls : List Lexeme) (n : Nat) (done : List Action) :
    ofWords (.resultType :: .subroutineName role :: goals)
        (resultLexeme result :: .identifier name :: ls) n done
      = ofWords ([Goal.mark .subroutineDec .leftParen, .due (.enter .parameterList), .parameters,
          .due (.leave .parameterList), .mark .subroutineDec .rightParen, .due (.header name),
          .due (.enter .subroutineBody), .mark .subroutineBody .leftBrace, .body role 0,
          .due (.leave .subroutineDec)] ++ goals) ls n
          (done ++ [Action.take (resultLexeme result).token, .take (Lexeme.identifier name).token]
            ++ role.hiddenActions) := by
  have h : Goal.resultType.meet (.before (resultLexeme result :: .identifier name :: ls) n)
      = .ok ⟨[.take (resultLexeme result).token], [], .before (.identifier name :: ls) n⟩ := by
    rcases result with _ | _ | _ | _ | _ <;> rfl
  have h' : (Goal.subroutineName role).meet (.before (.identifier name :: ls) n)
      = .ok ⟨.take (Lexeme.identifier name).token :: role.hiddenActions,
          [.mark .subroutineDec .leftParen, .due (.enter .parameterList), .parameters,
          .due (.leave .parameterList), .mark .subroutineDec .rightParen, .due (.header name),
          .due (.enter .subroutineBody), .mark .subroutineBody .leftBrace, .body role 0,
          .due (.leave .subroutineDec)], .before ls n⟩ := by
    cases role <;> cases ls <;> rfl
  rw [ofWords_of_meet h, List.nil_append, ofWords_of_meet h']
  simp

/-- The words of a subroutine behind its first one. -/
theorem SubroutineDec.leadsTo_tail (d : SubroutineDec) (goals : List Goal) (ls : List Lexeme)
    (n : Nat) (done : List Action) :
    (ofWords (.resultType :: .subroutineName d.role :: goals) (d.lexemes.tail ++ ls) n
      done).LeadsTo d.Countable
      (ofWords goals ls (n + constructsOf d.body) (done ++ (d.actions n).drop 3)) := by
  rw [SubroutineDec.lexemes]
  simp only [inBraces, List.cons_append, List.append_assoc, List.nil_append, List.tail_cons,
    ofWords_subroutine, ofWords_mark, ofWords_due]
  have hv := vars_leadsTo d.vars d.role (Nat.zero_le 65535)
  refine ((parameters_leadsTo d.parameters _ _ _ _).trans (fun _ => ?_)
    SubroutineDec.countable_iff).congr Iff.rfl rfl
  simp only [ofWords_mark, ofWords_due]
  refine ((hv _ _ _ _).trans (fun _ => body_leadsTo d.role _ d.body _ _ _ _)
    (by rw [Nat.zero_add]; rfl)).congr Iff.rfl ?_
  rw [ofWords_due, Nat.zero_add]
  simp [SubroutineDec.actions, SubroutineDec.localCount]

theorem SubroutineDec.leadsTo (d : SubroutineDec) (goals : List Goal) (ls : List Lexeme) (n : Nat)
    (done : List Action) :
    (ofWords (.subroutineDecs :: goals) (d.lexemes ++ ls) n done).LeadsTo d.Countable
      (ofWords (.subroutineDecs :: goals) ls (n + constructsOf d.body)
        (done ++ d.actions n)) := by
  have h := d.leadsTo_tail (.subroutineDecs :: goals) ls n
    (done ++ [.startSubroutine, .enter .subroutineDec, takeKeyword d.role.keyword])
  rw [← ofWords_subroutineDecs] at h
  refine h.congr Iff.rfl ?_
  rw [List.append_assoc]
  rfl

def constructsOfBodies : List SubroutineDec → Nat
  | [] => 0
  | d :: ds => constructsOf d.body + constructsOfBodies ds

theorem subroutineDecs_leadsTo (ds : List SubroutineDec) (goals : List Goal) (ls : List Lexeme)
    (n : Nat) (done : List Action) :
    (ofWords (.subroutineDecs :: goals)
      (ds.flatMap SubroutineDec.lexemes ++ .symbol .rightBrace :: ls) n done).LeadsTo
      (∀ d ∈ ds, d.Countable)
      (ofWords goals (.symbol .rightBrace :: ls) (n + constructsOfBodies ds)
        (done ++ subroutineActions n ds)) := by
  induction ds generalizing n done with
  | nil =>
    have h : Goal.subroutineDecs.meet (.before (.symbol .rightBrace :: ls) n)
        = .ok ⟨[], [], .before (.symbol .rightBrace :: ls) n⟩ := rfl
    exact leadsTo_of_meet h goals done (by simp)
  | cons d ds ih =>
    rw [List.flatMap_cons, List.append_assoc]
    refine ((d.leadsTo _ _ _ _).trans (fun _ => ih _ _) List.forall_mem_cons).congr Iff.rfl ?_
    simp [subroutineActions, constructsOfBodies, Nat.add_assoc]

/-- The names of each declaration and the arguments of each call can be counted. -/
structure ClassDec.Countable (c : ClassDec) : Prop where
  vars : ∀ d ∈ c.vars, d.names.length ≤ 65535
  subroutines : ∀ d ∈ c.subroutines, d.Countable

theorem ClassDec.countable_iff {c : ClassDec} :
    c.Countable ↔ (∀ d ∈ c.vars, d.names.length ≤ 65535) ∧ ∀ d ∈ c.subroutines, d.Countable :=
  ⟨fun h => ⟨h.vars, h.subroutines⟩, fun ⟨hv, hs⟩ => ⟨hv, hs⟩⟩

def ClassDec.constructs (c : ClassDec) : Nat := constructsOfBodies c.subroutines

theorem subroutineLexemes_eq_cons (ds : List SubroutineDec) (ls : List Lexeme) :
    ∃ l ks, ds.flatMap SubroutineDec.lexemes ++ .symbol .rightBrace :: ls = l :: ks
      ∧ ∀ kind : Kind, l ≠ .keyword kind.keyword := by
  cases ds with
  | nil => exact ⟨_, _, rfl, by simp⟩
  | cons d ds =>
    refine ⟨.keyword d.role.keyword, _, rfl, ?_⟩
    intro kind
    cases d.role <;> cases kind <;> decide

/-- The words of a class are read as its tree, or not at all. -/
theorem ClassDec.leadsTo (c : ClassDec) :
    (ofWords classGoals c.lexemes 0 []).LeadsTo c.Countable
      ⟨c.actions.toArray, .before [] c.constructs, none⟩ := by
  obtain ⟨l, ks, hks, hl⟩ := subroutineLexemes_eq_cons c.subroutines []
  have h : Goal.classWord.meet (.before c.lexemes 0)
      = .ok ⟨[takeKeyword .class_], [], .before (.identifier c.name :: inBraces
          (c.vars.flatMap ClassVarDec.lexemes
            ++ c.subroutines.flatMap SubroutineDec.lexemes)) 0⟩ := rfl
  have h' : Goal.className.meet (.before (.identifier c.name :: inBraces
        (c.vars.flatMap ClassVarDec.lexemes ++ c.subroutines.flatMap SubroutineDec.lexemes)) 0)
      = .ok ⟨[.take (Lexeme.identifier c.name).token, .nameClass c.name], [], .before (inBraces
          (c.vars.flatMap ClassVarDec.lexemes
            ++ c.subroutines.flatMap SubroutineDec.lexemes)) 0⟩ := rfl
  have he : Goal.endOfFile.meet (.before [] c.constructs)
      = .ok ⟨[], [], .before [] c.constructs⟩ := rfl
  have hs := fun goals => subroutineDecs_leadsTo c.subroutines goals [] 0
  rw [hks] at hs
  rw [classGoals, ofWords_due, ofWords_of_meet h, List.nil_append, ofWords_of_meet h',
    List.nil_append]
  simp only [inBraces, List.cons_append, List.append_assoc, ofWords_mark, hks]
  refine ((classVarDecs_leadsTo c.vars hl _ _ _ _).trans (fun _ => hs _ _)
    ClassDec.countable_iff).congr Iff.rfl ?_
  rw [ofWords_mark, ofWords_due, Nat.zero_add, ← ClassDec.constructs, ofWords_of_meet he, ofWords,
    List.nil_append, ofGoals_nil]
  simp [ClassDec.actions]

end Jack
