import Jack.Proofs.History
import Jack.Proofs.Moments

/-! Variables are counted twice: by the declarations that are being read, and by the scope. A goal
fits a scope when the two agree, and they go on to agree because no goal changes a count that a goal
below it relies on. -/

namespace Jack

/-! ### Actions and goals that declare nothing -/

/-- The productions that calls belong to. -/
def Production.calls : Production → Bool
  | .term | .doStatement => true
  | _ => false

/-- The action leaves every count alone, and belongs to a production of calls if it is a call. -/
def Action.plain : Action → Bool
  | .startSubroutine | .declare _ _ _ _ | .declareThis _ => false
  | .call p _ _ => p.calls
  | _ => true

/-- The goal asks for plain actions alone. -/
def Goal.plain : Goal → Bool
  | .due a => a.plain
  | .call p | .callee p _ | .member p _ | .arguments p _ | .moreArguments p _ _ _ => p.calls
  | .classVarDecs | .subroutineDecs | .typed _ _ | .named _ _ _ | .afterName _ _ _ _
  | .subroutineName _ | .parameters | .counted _ _ _ _ | .body _ _ => false
  | _ => true

structure Step.Plain (s : Step) : Prop where
  actions : s.actions.all Action.plain = true
  goals : s.goals.all Goal.plain = true

section

variable {c : Cursor} {s : Step}

theorem plain_meetTerm (h : meetTerm c = .ok s) : s.Plain := by
  unfold meetTerm at h
  split at h
  · cases h
  · split at h
    · cases h
      exact ⟨rfl, rfl⟩
    · cases h
      exact ⟨rfl, rfl⟩
    · cases h
      unfold meetName
      split
      · exact ⟨rfl, rfl⟩
      · split
        · exact ⟨rfl, rfl⟩
        · exact ⟨rfl, rfl⟩
    · split at h
      · cases h
        exact ⟨rfl, rfl⟩
      · cases h
    · split at h
      · cases h
        exact ⟨rfl, rfl⟩
      · split at h
        · cases h
          exact ⟨rfl, rfl⟩
        · cases h

theorem plain_meetOperands (c : Cursor) (waiting : List (BinaryOp × Position)) :
    (meetOperands c waiting).Plain := by
  have hend : Step.Plain ⟨waiting.map fun w => .emitAt w.2 [w.1.instruction], [], c⟩ := by
    refine ⟨?_, rfl⟩
    rw [List.all_map]
    exact List.all_eq_true.2 fun w _ => rfl
  unfold meetOperands
  split
  · split
    · exact ⟨rfl, rfl⟩
    · exact hend
  · exact hend

theorem plain_meetMoreArguments {p : Production} {callee : Callee} {count : UInt16}
    {position : Position} (hp : p.calls = true)
    (h : meetMoreArguments c p callee count position = .ok s) : s.Plain := by
  unfold meetMoreArguments at h
  split at h
  · cases h
  · split at h
    · cases h
      exact ⟨rfl, by simp [expressionGoals, Goal.plain, Action.plain, hp]⟩
    · cases h
      exact ⟨rfl, by simp [callGoals, Goal.plain, Action.plain, hp]⟩

/-- What takes the place of a plain goal is plain. -/
theorem Goal.plain_of_meet {g : Goal} (hg : g.plain = true) (h : g.meet c = .ok s) : s.Plain := by
  cases g with
  | due a =>
    cases h
    exact ⟨by simpa [Goal.plain] using hg, rfl⟩
  | classVarDecs | subroutineDecs | typed d count | named d type count
  | afterName d type count position | subroutineName role | parameters
  | counted role before count start | body role locals => cases hg
  | term => exact plain_meetTerm h
  | operands waiting =>
    cases h
    exact plain_meetOperands c waiting
  | moreArguments p callee count position => exact plain_meetMoreArguments hg h
  | statements =>
    cases h
    unfold meetStatements
    split <;> exact ⟨rfl, rfl⟩
  | letValue target =>
    cases h
    unfold meetLetValue
    split <;> exact ⟨rfl, rfl⟩
  | callee p first =>
    have hp : p.calls = true := hg
    cases h
    unfold meetCallee
    split <;> exact ⟨rfl, by simp [argumentsGoals, Goal.plain, Action.plain, hp]⟩
  | resultType =>
    simp only [Goal.meet] at h
    split at h
    · cases h
      exact ⟨rfl, rfl⟩
    · split at h <;> cases h
      exact ⟨rfl, rfl⟩
  | call p | member p owner =>
    have hp : p.calls = true := hg
    simp only [Goal.meet] at h
    split at h <;> cases h
    exact ⟨rfl, by simp [argumentsGoals, Goal.plain, Action.plain, hp]⟩
  | arguments p callee =>
    have hp : p.calls = true := hg
    simp only [Goal.meet] at h
    split at h <;> cases h
    · exact ⟨rfl, by simp [callGoals, Goal.plain, Action.plain, hp]⟩
    · exact ⟨rfl, by simp [expressionGoals, Goal.plain, Action.plain, hp]⟩
  | mark p m | classWord | className | letTarget | endOfFile =>
    simp only [Goal.meet] at h
    split at h <;> cases h
    exact ⟨rfl, rfl⟩
  | otherwise | returned =>
    simp only [Goal.meet] at h
    split at h <;> cases h <;> exact ⟨rfl, rfl⟩

end

namespace Session

variable {s t : Session}

theorem scope_perform_plain {a : Action} (h : a.plain = true) (s : Session) :
    (s.perform a).1.scope = s.scope := by
  cases a with
  | startSubroutine | declare p o type kind | declareThis position => cases h
  | mentionFirst o | loadReceiver o =>
    simp only [perform]
    cases s.scope.lookup o.name with
    | none => rfl
    | some v => rfl
  | require p o | load p o | store p o =>
    simp only [perform, resolve]
    cases s.scope.lookup o.name with
    | none => rfl
    | some v => rfl
  | call p callee args =>
    simp only [perform, call]
    cases addWords? args (s.target callee).2 with
    | none => rfl
    | some n => rfl
  | complete locals => exact scope_complete s locals
  | _ => rfl

theorem scope_performAll_plain {actions : List Action} (h : actions.all Action.plain = true)
    (s : Session) : (s.performAll actions).1.scope = s.scope := by
  induction actions generalizing s with
  | nil => rfl
  | cons a actions ih =>
    obtain ⟨ha, hactions⟩ := Bool.and_eq_true_iff.1 h
    have hstep := scope_perform_plain ha s
    rw [performAll_cons]
    rcases hp : s.perform a with ⟨t, - | e⟩
    all_goals rw [hp] at hstep
    · exact (ih hactions t).trans hstep
    · exact hstep

/-- Plain actions can only go wrong in the count of a call's arguments. -/
theorem tooMany_of_perform_plain {a : Action} (h : a.plain = true) {p : Production} {x : Excess}
    {position : Position} (hp : s.perform a = (t, some (.tooMany p x position))) :
    p.calls = true ∧ x = .callArguments := by
  cases a with
  | startSubroutine | declare p o type kind | declareThis position => cases h
  | call p callee args =>
    simp only [perform, call] at hp
    split at hp
    · cases hp
    · cases hp
      exact ⟨h, rfl⟩
  | mentionFirst o | loadReceiver o =>
    simp only [perform] at hp
    split at hp <;> cases hp
  | require p o | load p o | store p o =>
    simp only [perform, resolve] at hp
    split at hp <;> cases hp
  | complete locals =>
    simp only [perform] at hp
    unfold complete at hp
    split at hp
    · split at hp <;> cases hp
    · cases hp
  | enter p | leave p | take t | nameClass name | mention o | emit code | emitAt p code
  | header name | preamble role => cases hp

theorem tooMany_of_performAll_plain {actions : List Action}
    (h : actions.all Action.plain = true) {p : Production} {x : Excess} {position : Position}
    (hp : s.performAll actions = (t, some (.tooMany p x position))) :
    p.calls = true ∧ x = .callArguments := by
  induction actions generalizing s with
  | nil => cases hp
  | cons a actions ih =>
    obtain ⟨ha, hactions⟩ := Bool.and_eq_true_iff.1 h
    rw [performAll_cons] at hp
    rcases hstep : s.perform a with ⟨u, - | e⟩
    all_goals rw [hstep] at hp
    · exact ih hactions hp
    · cases hp
      exact tooMany_of_perform_plain ha hstep

end Session

/-! ### Counts that goals rely on -/

/-- The scope has counted the `n` names of the declaration. The locals of a subroutine are counted
from the first one on. -/
def Declaration.Counted (s : Scope) (n : Nat) : Declaration → Prop
  | .ofClass kind => kind.ofClass = true ∧ n ≤ (s.count kind).toNat
  | .parameter => n ≤ (s.count .argument).toNat
  | .locals _ before _ => before.toNat + n = (s.count .var).toNat

/-- The counts of the goal agree with those of the scope. -/
def Goal.Fits (s : Scope) : Goal → Prop
  | .typed d count | .named d _ count => d.Counted s count.toNat
  | .afterName d _ count _ => d.Counted s (count.toNat + 1)
  | .counted _ before count _ => before.toNat + count.toNat = (s.count .var).toNat
  | .body _ locals => locals = s.count .var
  | .subroutineName _ => s.count .argument = 0 ∧ s.count .var = 0
  | .classVarDecs | .subroutineDecs | .parameters => True
  | g => g.plain = true

/-- The kinds whose counts the goal relies on. -/
def Goal.watches : Goal → List Kind
  | .typed d _ | .named d _ _ | .afterName d _ _ _ => [d.kind]
  | .counted _ _ _ _ | .body _ _ => [.var]
  | .subroutineName _ => [.argument, .var]
  | _ => []

/-- The kinds whose counts may change until the goal is met. -/
def Goal.changes : Goal → List Kind
  | .classVarDecs => [.static, .field]
  | .subroutineDecs => [.argument, .var]
  | .parameters => [.argument]
  | g => g.watches

/-- The goal changes no count that the goal below it relies on. -/
def Goal.Spares (g below : Goal) : Prop := ∀ k ∈ g.changes, k ∉ below.watches

theorem Goal.Fits.of_plain {g : Goal} (h : g.plain = true) (s : Scope) : g.Fits s := by
  cases g with
  | classVarDecs | subroutineDecs | typed d count | named d type count
  | afterName d type count position | subroutineName role | parameters
  | counted role before count start | body role locals => cases h
  | _ => exact h

theorem Goal.changes_of_plain {g : Goal} (h : g.plain = true) : g.changes = [] := by
  cases g with
  | classVarDecs | subroutineDecs | typed d count | named d type count
  | afterName d type count position | subroutineName role | parameters
  | counted role before count start | body role locals => cases h
  | _ => rfl

theorem Declaration.Counted.congr {d : Declaration} {s t : Scope} {n : Nat} (h : d.Counted s n)
    (hcount : t.count d.kind = s.count d.kind) : d.Counted t n := by
  cases d with
  | ofClass kind => exact ⟨h.1, hcount ▸ h.2⟩
  | parameter => exact Nat.le_trans h (Nat.le_of_eq (congrArg UInt16.toNat hcount.symm))
  | locals role before start => exact Eq.trans h (congrArg UInt16.toNat hcount.symm)

/-- A goal goes on to fit while the counts that it relies on stay. -/
theorem Goal.Fits.congr {g : Goal} {s t : Scope} (h : g.Fits s)
    (hcount : ∀ k ∈ g.watches, t.count k = s.count k) : g.Fits t := by
  cases g with
  | typed d count | named d type count | afterName d type count position =>
    exact Declaration.Counted.congr h (hcount _ (.head _))
  | counted role before count start =>
    exact Eq.trans h (congrArg UInt16.toNat (hcount _ (.head _)).symm)
  | body role locals => exact Eq.trans h (hcount _ (.head _)).symm
  | subroutineName role =>
    exact ⟨(hcount _ (.head _)).trans h.1, (hcount _ (.tail _ (.head _))).trans h.2⟩
  | _ => exact h

theorem Goal.spares_of_plain {g : Goal} (h : g.plain = true) (below : Goal) : g.Spares below := by
  intro k hk
  rw [Goal.changes_of_plain h] at hk
  cases hk

theorem Goal.spares_plain (g : Goal) {below : Goal} (h : below.plain = true) : g.Spares below := by
  intro k _ hk
  cases below with
  | classVarDecs | subroutineDecs | typed d count | named d type count
  | afterName d type count position | subroutineName role | parameters
  | counted role before count start | body role locals => cases h
  | _ => cases hk

/-- All goals fit, and none changes what one below it relies on. -/
structure Scope.Suits (s : Scope) (goals : List Goal) : Prop where
  fits : ∀ g ∈ goals, g.Fits s
  apart : goals.Pairwise Goal.Spares

namespace Scope.Suits

variable {s t : Scope} {g : Goal} {goals more : List Goal}

theorem nil (s : Scope) : s.Suits [] := ⟨List.forall_mem_nil _, List.Pairwise.nil⟩

theorem cons (hg : g.Fits s) (hspares : ∀ below ∈ goals, g.Spares below) (h : s.Suits goals) :
    s.Suits (g :: goals) :=
  ⟨List.forall_mem_cons.2 ⟨hg, h.fits⟩, List.pairwise_cons.2 ⟨hspares, h.apart⟩⟩

theorem singleton (hg : g.Fits s) : s.Suits [g] := (nil s).cons hg (List.forall_mem_nil _)

theorem append (h : s.Suits goals) (hmore : s.Suits more)
    (hspares : ∀ g ∈ goals, ∀ below ∈ more, g.Spares below) : s.Suits (goals ++ more) :=
  ⟨List.forall_mem_append.2 ⟨h.fits, hmore.fits⟩,
    List.pairwise_append.2 ⟨h.apart, hmore.apart, hspares⟩⟩

theorem plain_append (goals : List Goal) (hplain : goals.all Goal.plain = true) (h : s.Suits more) :
    s.Suits (goals ++ more) := by
  induction goals with
  | nil => exact h
  | cons g goals ih =>
    obtain ⟨hg, hgoals⟩ := Bool.and_eq_true_iff.1 hplain
    exact (ih hgoals).cons (.of_plain hg s) fun below _ => Goal.spares_of_plain hg below

theorem plain (hplain : goals.all Goal.plain = true) (s : Scope) : s.Suits goals := by
  have h := plain_append goals hplain (nil s)
  rwa [List.append_nil] at h

/-- A goal with plain goals around it. -/
theorem single (goals : List Goal) (hplain : goals.all Goal.plain = true) (hg : g.Fits s)
    (hmore : more.all Goal.plain = true) : s.Suits (goals ++ g :: more) :=
  plain_append goals hplain ((plain hmore s).cons hg fun _ hbelow =>
    g.spares_plain (List.all_eq_true.1 hmore _ hbelow))

end Scope.Suits

theorem flatMap_changes_plain {goals : List Goal} (h : goals.all Goal.plain = true) :
    goals.flatMap Goal.changes = [] := by
  rw [List.flatMap_eq_nil_iff]
  intro g hg
  exact Goal.changes_of_plain (List.all_eq_true.1 h g hg)

/-! ### Counts that a step keeps -/

/-- The step changes the counts of the goal alone, and the scope suits the goals in its place. -/
structure Step.KeepsCounts (step : Step) (g : Goal) (s t : Scope) : Prop where
  count : ∀ k, k ∉ g.changes → t.count k = s.count k
  suits : t.Suits step.goals
  changes : step.goals.flatMap Goal.changes ⊆ g.changes

section

variable {step : Step} {g : Goal} {c : Cursor} {s t : Session}

/-- A step whose actions are plain leaves the scope as it is. -/
theorem Step.KeepsCounts.of_plain (hactions : step.actions.all Action.plain = true)
    (hp : s.performAll step.actions = (t, none)) (hsuits : s.scope.Suits step.goals)
    (hchanges : step.goals.flatMap Goal.changes ⊆ g.changes) :
    step.KeepsCounts g s.scope t.scope := by
  have hscope := Session.scope_performAll_plain hactions s
  rw [hp] at hscope
  rw [show t.scope = s.scope from hscope]
  exact ⟨fun _ _ => rfl, hsuits, hchanges⟩

theorem keepsCounts_plain (hplain : g.plain = true) (hg : g.meet c = .ok step)
    (hp : s.performAll step.actions = (t, none)) : step.KeepsCounts g s.scope t.scope := by
  obtain ⟨hactions, hgoals⟩ := Goal.plain_of_meet hplain hg
  refine .of_plain hactions hp (.plain hgoals _) ?_
  rw [flatMap_changes_plain hgoals]
  exact List.nil_subset _

theorem keepsCounts_classVarDecs (hg : Goal.classVarDecs.meet c = .ok step)
    (hp : s.performAll step.actions = (t, none)) :
    step.KeepsCounts .classVarDecs s.scope t.scope := by
  have hdone : s.scope.Suits [.classVarDecs] := .singleton trivial
  have hstep : meetClassVarDecs c = step := Except.ok.inj hg
  unfold meetClassVarDecs at hstep
  split at hstep
  · rename_i k _ _ _
    split at hstep
    · obtain rfl := hstep
      refine .of_plain rfl hp (hdone.cons ⟨?_, Nat.zero_le _⟩ ?_) ?_
      · split <;> rfl
      · exact List.forall_mem_singleton.2 fun _ _ => List.not_mem_nil
      · by_cases hk : k = .static <;> simp [Goal.changes, Goal.watches, Declaration.kind, hk]
    · obtain rfl := hstep
      exact .of_plain rfl hp (.nil _) (List.nil_subset _)
  · obtain rfl := hstep
    exact .of_plain rfl hp (.nil _) (List.nil_subset _)

theorem keepsCounts_subroutineDecs (hg : Goal.subroutineDecs.meet c = .ok step)
    (hp : s.performAll step.actions = (t, none)) :
    step.KeepsCounts .subroutineDecs s.scope t.scope := by
  have hstep : meetSubroutineDecs c = step := Except.ok.inj hg
  unfold meetSubroutineDecs at hstep
  split at hstep
  · split at hstep
    · obtain rfl := hstep
      cases hp
      have hcount : ∀ k : Kind, k.ofClass = false → s.scope.startSubroutine.count k = 0 := by
        intro k hk
        rw [Scope.count_startSubroutine, hk]
        rfl
      have hdone : s.scope.startSubroutine.Suits [.subroutineDecs] := .singleton trivial
      constructor
      · intro k hk
        change s.scope.startSubroutine.count k = _
        cases k with
        | static | field => rfl
        | argument | var => simp [Goal.changes] at hk
      · refine .plain_append [.resultType] rfl (hdone.cons ⟨?_, ?_⟩ ?_)
        · exact hcount .argument rfl
        · exact hcount .var rfl
        · exact List.forall_mem_singleton.2 fun _ _ => List.not_mem_nil
      · simp [Goal.changes, Goal.watches]
    · obtain rfl := hstep
      exact .of_plain rfl hp (.nil _) (List.nil_subset _)
  · obtain rfl := hstep
    exact .of_plain rfl hp (.nil _) (List.nil_subset _)

/-- A declaration that is performed is counted once by the scope. -/
theorem Session.count_of_declare {p : Production} {o : Occurrence} {type : String} {kind : Kind}
    (hp : s.perform (.declare p o type kind) = (t, none)) :
    (t.scope.count kind).toNat = (s.scope.count kind).toNat + 1
      ∧ ∀ k, k ≠ kind → t.scope.count k = s.scope.count k := by
  simp only [perform, define] at hp
  cases hd : (s.moveTo o.position).scope.define? o.name type kind with
  | none =>
    simp only [hd] at hp
    cases hp
  | some scope =>
    simp only [hd] at hp
    cases hp
    obtain ⟨n, hn, rfl⟩ := Scope.define?_eq_some hd
    constructor
    · simp only [note, Scope.count_add, if_true]
      exact toNat_of_nextWord? hn
    · intro k hk
      simp only [note, Scope.count_add, if_neg hk.symm]
      rfl

theorem Declaration.Counted.succ {d : Declaration} {s t : Scope} {n : Nat} (h : d.Counted s n)
    (hcount : (t.count d.kind).toNat = (s.count d.kind).toNat + 1) : d.Counted t (n + 1) := by
  cases d with
  | ofClass kind =>
    refine ⟨h.1, ?_⟩
    rw [show (t.count kind).toNat = _ from hcount]
    exact Nat.succ_le_succ h.2
  | parameter =>
    rw [Declaration.Counted, show (t.count .argument).toNat = _ from hcount]
    exact Nat.succ_le_succ h
  | locals role before start =>
    rw [Declaration.Counted, show (t.count .var).toNat = _ from hcount, ← Nat.add_assoc]
    exact congrArg Nat.succ h

theorem keepsCounts_named {d : Declaration} {type : String} {count : UInt16}
    (hfit : d.Counted s.scope count.toNat) (hg : (Goal.named d type count).meet c = .ok step)
    (hp : s.performAll step.actions = (t, none)) :
    step.KeepsCounts (.named d type count) s.scope t.scope := by
  simp only [Goal.meet] at hg
  split at hg
  · cases hg
    rw [Session.performAll_cons] at hp
    rcases hdeclare : s.perform _ with ⟨u, - | e⟩
    all_goals rw [hdeclare] at hp
    · cases hp
      obtain ⟨hcount, hother⟩ := Session.count_of_declare hdeclare
      constructor
      · intro k hk
        exact hother k fun heq => hk (List.mem_singleton.2 heq)
      · exact .singleton (hfit.succ hcount)
      · exact List.Subset.refl _
    · cases hp
  · cases hg

theorem keepsCounts_typed {d : Declaration} {count : UInt16}
    (hfit : d.Counted s.scope count.toNat) (hg : (Goal.typed d count).meet c = .ok step)
    (hp : s.performAll step.actions = (t, none)) :
    step.KeepsCounts (.typed d count) s.scope t.scope := by
  simp only [Goal.meet] at hg
  split at hg
  · cases hg
    exact .of_plain rfl hp (.singleton hfit) (List.Subset.refl _)
  · cases hg

theorem Declaration.suits_endGoals {d : Declaration} {s : Scope} {n : UInt16}
    (h : d.Counted s n.toNat) :
    s.Suits (d.endGoals n) ∧ (d.endGoals n).flatMap Goal.changes ⊆ [d.kind] := by
  cases d with
  | ofClass kind => exact ⟨.plain rfl s, List.nil_subset _⟩
  | parameter => exact ⟨.nil s, List.nil_subset _⟩
  | locals role before start =>
    exact ⟨.single [.due (.leave .varDec)] rfl h rfl, List.Subset.refl _⟩

/-- The names of a declaration are no more than the scope has counted, so their count fits. -/
theorem keepsCounts_afterName {d : Declaration} {type : String} {count : UInt16}
    {position : Position} (hfit : d.Counted s.scope (count.toNat + 1))
    (hg : (Goal.afterName d type count position).meet c = .ok step)
    (hp : s.performAll step.actions = (t, none)) :
    step.KeepsCounts (.afterName d type count position) s.scope t.scope := by
  simp only [Goal.meet, meetAfterName] at hg
  split at hg
  · cases hg
  · rename_i n hn
    rw [← toNat_of_nextWord? hn] at hfit
    obtain ⟨hend, hchanges⟩ := Declaration.suits_endGoals hfit
    split at hg
    · split at hg
      · cases hg
        exact .of_plain rfl hp (.singleton hfit) (List.Subset.refl _)
      · cases hg
        exact .of_plain rfl hp (.singleton hfit) (List.Subset.refl _)
    · split at hg
      · cases hg
        exact .of_plain rfl hp hend hchanges
      · split at hg
        · cases hg
          exact .of_plain rfl hp hend hchanges
        · cases hg

/-- The hidden argument of a method is the first one, so there is room for it. -/
theorem Session.exists_declareThis (position : Position) (h : s.scope.count .argument = 0) :
    ∃ t, s.perform (.declareThis position) = (t, none)
      ∧ ∀ k, k ≠ .argument → t.scope.count k = s.scope.count k := by
  simp only [perform, define]
  cases hd : s.scope.define? thisName s.className .argument with
  | none =>
    rw [Scope.define?_eq_none_iff, h] at hd
    cases hd
  | some scope =>
    obtain ⟨n, -, rfl⟩ := Scope.define?_eq_some hd
    refine ⟨_, rfl, ?_⟩
    intro k hk
    simp only [Scope.count_add, if_neg hk.symm]

theorem Session.exists_subroutineName {o : Occurrence} {role : Role} {position : Position}
    (h : s.scope.count .argument = 0) :
    ∃ t, s.performAll (.take o.token :: if role = .method then [.declareThis position] else [])
        = (t, none)
      ∧ ∀ k, k ≠ .argument → t.scope.count k = s.scope.count k := by
  by_cases hrole : role = .method
  · obtain ⟨t, ht, hcount⟩ := exists_declareThis position
      (s := (s.perform (.take o.token)).1) h
    refine ⟨t, ?_, hcount⟩
    rw [if_pos hrole, performAll_cons]
    simp only [performAll_cons, perform] at ht ⊢
    rw [ht]
    rfl
  · rw [if_neg hrole]
    exact ⟨_, rfl, fun _ _ => rfl⟩

theorem keepsCounts_subroutineName {role : Role}
    (hfit : s.scope.count .argument = 0 ∧ s.scope.count .var = 0)
    (hg : (Goal.subroutineName role).meet c = .ok step)
    (hp : s.performAll step.actions = (t, none)) :
    step.KeepsCounts (.subroutineName role) s.scope t.scope := by
  simp only [Goal.meet, meetSubroutineName] at hg
  split at hg
  · cases hg
    obtain ⟨u, hu, hcount⟩ := Session.exists_subroutineName hfit.1
    rw [hu] at hp
    cases hp
    constructor
    · intro k hk
      exact hcount k fun heq => hk (heq ▸ .head _)
    · -- only the hidden argument may have been counted, and the body counts locals from zero
      have hbody : (0 : UInt16) = t.scope.count .var :=
        ((hcount .var (by decide)).trans hfit.2).symm
      refine .plain_append [_, _] rfl (.cons trivial ?_ ?_)
      · simp [Goal.Spares, Goal.changes, Goal.watches]
      · exact .single [_, _, _, _, _] rfl hbody rfl
    · simp [Goal.changes, Goal.watches]
  · cases hg

theorem keepsCounts_parameters (hg : Goal.parameters.meet c = .ok step)
    (hp : s.performAll step.actions = (t, none)) :
    step.KeepsCounts .parameters s.scope t.scope := by
  simp only [Goal.meet] at hg
  split at hg
  · cases hg
    exact .of_plain rfl hp (.nil _) (List.nil_subset _)
  · cases hg
    exact .of_plain rfl hp (.singleton (Nat.zero_le _)) (List.Subset.refl _)

theorem keepsCounts_counted {role : Role} {before count : UInt16} {start : Position}
    (hfit : before.toNat + count.toNat = (s.scope.count .var).toNat)
    (hg : (Goal.counted role before count start).meet c = .ok step)
    (hp : s.performAll step.actions = (t, none)) :
    step.KeepsCounts (.counted role before count start) s.scope t.scope := by
  simp only [Goal.meet] at hg
  split at hg
  · rename_i n hn
    cases hg
    have hbody : n = s.scope.count .var := by
      apply UInt16.toNat.inj
      rw [toNat_of_addWords? hn, Nat.add_comm, hfit]
    exact .of_plain rfl hp (.singleton hbody) (List.Subset.refl _)
  · cases hg

theorem keepsCounts_body {role : Role} {locals : UInt16} (hfit : locals = s.scope.count .var)
    (hg : (Goal.body role locals).meet c = .ok step)
    (hp : s.performAll step.actions = (t, none)) :
    step.KeepsCounts (.body role locals) s.scope t.scope := by
  have hstep : meetBody c role locals = step := Except.ok.inj hg
  unfold meetBody at hstep
  split at hstep
  · obtain rfl := hstep
    refine .of_plain rfl hp (.singleton ?_) (List.Subset.refl _)
    exact congrArg UInt16.toNat hfit
  · obtain rfl := hstep
    exact .of_plain rfl hp (.plain rfl _) (List.nil_subset _)

/-- A goal that fits is met by a step that keeps the counts. -/
theorem Goal.Fits.keepsCounts (hfit : g.Fits s.scope) (hg : g.meet c = .ok step)
    (hp : s.performAll step.actions = (t, none)) : step.KeepsCounts g s.scope t.scope := by
  cases g with
  | classVarDecs => exact keepsCounts_classVarDecs hg hp
  | subroutineDecs => exact keepsCounts_subroutineDecs hg hp
  | typed d count => exact keepsCounts_typed hfit hg hp
  | named d type count => exact keepsCounts_named hfit hg hp
  | afterName d type count position => exact keepsCounts_afterName hfit hg hp
  | subroutineName role => exact keepsCounts_subroutineName hfit hg hp
  | parameters => exact keepsCounts_parameters hg hp
  | counted role before count start => exact keepsCounts_counted hfit hg hp
  | body role locals => exact keepsCounts_body hfit hg hp
  | _ => exact keepsCounts_plain hfit hg hp

/-- After the step the scope suits the goals in place of the one that was met, and those below. -/
theorem Scope.Suits.next {goals : List Goal} (h : s.scope.Suits (g :: goals))
    (hstep : step.KeepsCounts g s.scope t.scope) : t.scope.Suits (step.goals ++ goals) := by
  obtain ⟨hspares, hapart⟩ := List.pairwise_cons.1 h.apart
  have hbelow := (List.forall_mem_cons.1 h.fits).2
  refine hstep.suits.append ⟨?_, hapart⟩ ?_
  -- the goals below rely on none of the counts that the step may have changed
  · intro below hmem
    refine (hbelow below hmem).congr ?_
    intro k hk
    exact hstep.count k fun hchanged => hspares below hmem k hchanged hk
  · intro new hnew below hmem k hk
    exact hspares below hmem k (hstep.changes (List.mem_flatMap.2 ⟨new, hnew, hk⟩))

end

end Jack
