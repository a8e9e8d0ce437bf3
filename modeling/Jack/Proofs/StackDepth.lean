import Jack.Proofs.Correctness
import Jack.Proofs.Functions
import Jack.Proofs.Machine

/-! The depth of the stack at each instruction of a block. Code is balanced when a scan from the
first instruction to the last finds every operand there, labels and jumps at depth zero and returns
at depth one. Then all jumps agree with the scan, wherever they lead. -/

namespace Jack

/-! ### What an instruction takes and puts -/

def Command.operands : Command → Nat
  | .neg | .not => 1
  | .add | .sub | .eq | .gt | .lt | .and | .or => 2

def Instruction.takes : Instruction → Nat
  | .push _ _ | .label _ | .goto _ | .function _ _ => 0
  | .pop _ _ | .ifGoto _ | .return_ => 1
  | .arithmetic command => command.operands
  | .call _ args => args.toNat

def Instruction.puts : Instruction → Nat
  | .push _ _ | .arithmetic _ | .call _ _ => 1
  | .pop _ _ | .label _ | .goto _ | .ifGoto _ | .function _ _ | .return_ => 0

/-- The depth that an instruction leaves. -/
def Instruction.after (i : Instruction) (depth : Nat) : Nat := depth - i.takes + i.puts

def Instruction.fallsThrough : Instruction → Bool
  | .goto _ | .return_ => false
  | _ => true

theorem Command.length_of_run? {c : Command} {ws vs : List Word} (h : c.run? ws = some vs) :
    c.operands ≤ ws.length ∧ vs.length = ws.length - c.operands + 1 := by
  match ws with
  | [] => cases c <;> cases h
  | [w] => cases c <;> cases h <;> exact ⟨Nat.le_refl 1, rfl⟩
  | w :: v :: ws => cases c <;> cases h <;> simp [Command.operands]

theorem Machine.stack_of_write? {m n : Machine} {w : Word} {segment : Segment} {index : UInt16}
    (h : m.write? w segment index = some n) : n.stack = m.stack := by
  cases segment with
  | pointer =>
    simp only [Machine.write?] at h
    split at h
    · cases h
      rfl
    · split at h <;> cases h
      rfl
  | _ => cases h <;> rfl

/-- A step of the machine takes and puts as many words as its instruction says. -/
theorem Machine.length_of_step? {library : Library} {code rest : List Instruction} {m n : Machine}
    {i : Instruction} (hi : m.rest = i :: rest) (h : m.step? library code = some n) :
    i.takes ≤ m.stack.length ∧ n.stack.length = i.after m.stack.length := by
  obtain ⟨_, stack, frame, store, that, temp⟩ := m
  subst hi
  cases i with
  | push segment index =>
    obtain ⟨w, -, rfl⟩ := Option.map_eq_some_iff.1 h
    exact ⟨Nat.zero_le _, rfl⟩
  | pop segment index =>
    cases stack with
    | nil => cases h
    | cons w stack =>
      have hstack := Machine.stack_of_write? h
      rw [hstack]
      exact ⟨Nat.le_add_left 1 _, rfl⟩
  | arithmetic command =>
    obtain ⟨ws, hrun, rfl⟩ := Option.map_eq_some_iff.1 h
    exact Command.length_of_run? hrun
  | label name =>
    cases h
    exact ⟨Nat.zero_le _, rfl⟩
  | goto name =>
    obtain ⟨target, -, rfl⟩ := Option.map_eq_some_iff.1 h
    exact ⟨Nat.zero_le _, rfl⟩
  | ifGoto name =>
    cases stack with
    | nil => cases h
    | cons w stack =>
      refine ⟨Nat.le_add_left 1 _, ?_⟩
      simp only [Machine.step?] at h
      split at h
      · cases h
        rfl
      · obtain ⟨target, -, rfl⟩ := Option.map_eq_some_iff.1 h
        rfl
  | call name args =>
    simp only [Machine.step?] at h
    split at h
    · rename_i hle
      cases h
      refine ⟨hle, ?_⟩
      simp [Instruction.after, Instruction.takes, Instruction.puts]
    · cases h
  | function name locals => cases stack <;> cases h
  | return_ => cases stack <;> cases h

/-! ### Depths of a block -/

/-- A depth for each place of a block, the one at its end included. It is zero at the start, at
every label and at the end, and one at every return. No instruction takes more than there is, and
the depth after an instruction is the depth wherever it goes on. -/
structure StackDepths (block : List Instruction) (depth : Nat → Nat) : Prop where
  start : depth 0 = 0
  enough : ∀ n (i : Instruction), block[n]? = some i → i.takes ≤ depth n
  falls : ∀ n (i : Instruction), block[n]? = some i → i.fallsThrough = true →
    depth (n + 1) = i.after (depth n)
  jumps : ∀ n (i : Instruction) name, block[n]? = some i → i.target? = some name →
    ∀ m, block[m]? = some (.label name) → depth m = i.after (depth n)
  labels : ∀ n name, block[n]? = some (.label name) → depth n = 0
  returns : ∀ n, block[n]? = some .return_ → depth n = 1
  finish : depth block.length = 0

/-- An instruction may stand at this depth. -/
def Instruction.Fits (depth : Nat) : Instruction → Prop
  | .label _ | .goto _ => depth = 0
  | .ifGoto _ | .return_ => depth = 1
  | i => i.takes ≤ depth

/-- Code whose instructions fit, scanned from one depth to another. -/
inductive Balanced : Nat → List Instruction → Nat → Prop
  | nil (m : Nat) : Balanced m [] m
  | cons {m n : Nat} {i : Instruction} {is : List Instruction} (hi : i.Fits m)
      (h : Balanced (i.after m) is n) : Balanced m (i :: is) n

def depthAfter (depth : Nat) (is : List Instruction) : Nat :=
  is.foldl (fun d i => i.after d) depth

theorem Instruction.Fits.takes_le {i : Instruction} {depth : Nat} (h : i.Fits depth) :
    i.takes ≤ depth := by
  cases i with
  | label name => exact Nat.zero_le depth
  | goto name => exact Nat.zero_le depth
  | ifGoto name => exact Nat.le_of_eq h.symm
  | return_ => exact Nat.le_of_eq h.symm
  | _ => exact h

namespace Balanced

variable {m n o : Nat} {i : Instruction} {is js : List Instruction}

theorem append (h : Balanced m is n) (h' : Balanced n js o) : Balanced m (is ++ js) o := by
  induction h with
  | nil m => exact h'
  | cons hi h ih => exact .cons hi (ih h')

theorem single (hi : i.Fits m) : Balanced m [i] (i.after m) := .cons hi (.nil _)

theorem depthAfter_eq (h : Balanced m is n) : depthAfter m is = n := by
  induction h with
  | nil m => rfl
  | cons hi h ih => exact ih

theorem fits (h : Balanced m is n) {k : Nat} (hk : is[k]? = some i) :
    i.Fits (depthAfter m (is.take k)) := by
  induction h generalizing k with
  | nil m => cases hk
  | cons hi h ih =>
    cases k with
    | zero =>
      cases hk
      exact hi
    | succ k => exact ih hk

/-- The depths that the scan finds are depths of the block. -/
theorem stackDepths (h : Balanced 0 is 0) :
    StackDepths is fun k => depthAfter 0 (is.take k) := by
  have hlabels : ∀ k name, is[k]? = some (.label name) → depthAfter 0 (is.take k) = 0 := by
    intro k name hk
    exact h.fits hk
  refine ⟨rfl, ?_, ?_, ?_, hlabels, ?_, ?_⟩
  · intro k i hk
    exact (h.fits hk).takes_le
  · intro k i hk _
    rw [List.take_add_one, hk, depthAfter, List.foldl_append]
    rfl
  · intro k i name hk hi l hl
    have hfits := h.fits hk
    rw [hlabels l name hl]
    cases i with
    | goto target =>
      have hzero : depthAfter 0 (is.take k) = 0 := hfits
      rw [hzero]
      rfl
    | ifGoto target =>
      have hone : depthAfter 0 (is.take k) = 1 := hfits
      rw [hone]
      rfl
    | _ => cases hi
  · intro k hk
    exact h.fits hk
  · rw [List.take_length]
    exact h.depthAfter_eq

theorem push (m : Nat) (segment : Segment) (index : UInt16) :
    Balanced m [.push segment index] (m + 1) :=
  single (i := .push segment index) (Nat.zero_le m)

theorem pop (m : Nat) (segment : Segment) (index : UInt16) :
    Balanced (m + 1) [.pop segment index] m :=
  single (i := .pop segment index) (Nat.le_add_left 1 m)

theorem call (m : Nat) (name : String) (args : UInt16) {count : Nat} (h : args.toNat = count) :
    Balanced (m + count) [.call name args] (m + 1) := by
  have hfits : (Instruction.call name args).Fits (m + count) := by
    show args.toNat ≤ m + count
    omega
  have hafter : (Instruction.call name args).after (m + count) = m + 1 := by
    simp only [Instruction.after, Instruction.takes, Instruction.puts]
    omega
  rw [← hafter]
  exact single hfits

end Balanced

/-! ### Expressions -/

variable {k : Context}

theorem UnaryOp.balanced (op : UnaryOp) (m : Nat) : Balanced (m + 1) [op.code] (m + 1) := by
  cases op <;> exact .cons (Nat.le_add_left 1 m) (.nil _)

theorem BinaryOp.balanced (op : BinaryOp) (m : Nat) : Balanced (m + 2) [op.code] (m + 1) := by
  cases op with
  | multiply => exact .call m "Math.multiply" 2 rfl
  | divide => exact .call m "Math.divide" 2 rfl
  | _ => exact .cons (Nat.le_add_left 2 m) (.nil _)

theorem KeywordConstant.balanced (word : KeywordConstant) (m : Nat) :
    Balanced m word.value (m + 1) := by
  cases word with
  | true_ => exact (Balanced.push m .constant 0).append (UnaryOp.complement.balanced m)
  | false_ => exact .push m .constant 0
  | null => exact .push m .constant 0
  | this => exact .push m .pointer 0

theorem balanced_stringValue (text : String) (m : Nat) :
    Balanced m (stringValue text) (m + 1) := by
  have happend : ∀ cs : List Char, Balanced (m + 1) (cs.flatMap fun c =>
      [.push .constant (UInt16.ofNat c.toNat), .call "String.appendChar" 2]) (m + 1) := by
    intro cs
    induction cs with
    | nil => exact .nil _
    | cons c cs ih =>
      have hc := (Balanced.push (m + 1) .constant (UInt16.ofNat c.toNat)).append
        (Balanced.call m "String.appendChar" 2 rfl)
      exact hc.append ih
  have hnew := (Balanced.push m .constant (UInt16.ofNat text.length)).append
    (Balanced.call m "String.new" 1 rfl)
  exact hnew.append (happend text.toList)

theorem Context.balanced_read {name : String} (h : (k.lookup name).isSome) (m : Nat) :
    Balanced m (k.read name) (m + 1) := by
  obtain ⟨⟨_, _, kind, index⟩, hv⟩ := Option.isSome_iff_exists.1 h
  rw [Context.read, hv]
  cases kind <;> exact .push m _ index

theorem Context.balanced_write {name : String} (h : (k.lookup name).isSome) (m : Nat) :
    Balanced (m + 1) (k.write name) m := by
  obtain ⟨⟨_, _, kind, index⟩, hv⟩ := Option.isSome_iff_exists.1 h
  rw [Context.write, hv]
  cases kind <;> exact .pop m _ index

mutual

theorem Term.balanced (e : Term) (hp : k.Permits e.uses) (m : Nat) :
    Balanced m (e.code k) (m + 1) := by
  match e with
  | .integer value => exact .push m .constant value
  | .string text => exact balanced_stringValue text m
  | .constant word => exact word.balanced m
  | .variable name =>
    rw [Term.uses, Context.permits_variable] at hp
    exact Context.balanced_read hp.1 m
  | .element name index =>
    rw [Term.uses, Context.permits_variable] at hp
    have haddress := ((Context.balanced_read hp.1 m).append
      (index.balanced hp.2 (m + 1))).append (BinaryOp.add.balanced m)
    have hfetch := (Balanced.pop m .pointer 1).append (Balanced.push m .that 0)
    have h := haddress.append hfetch
    rw [List.append_assoc] at h
    exact h
  | .call call => exact call.balanced hp m
  | .group inner => exact inner.balanced hp m
  | .unary op operand => exact (operand.balanced hp m).append (op.balanced m)

theorem Expression.balanced (e : Expression) (hp : k.Permits e.uses) (m : Nat) :
    Balanced m (e.code k) (m + 1) := by
  match e with
  | .term operand => exact operand.balanced hp m
  | .binary left op right =>
    rw [Expression.uses, Context.permits_append] at hp
    exact ((left.balanced hp.1 m).append (right.balanced hp.2 (m + 1))).append (op.balanced m)

/-- A call takes its receiver and arguments, as many as it says. -/
theorem Call.balanced (c : Call) (hp : k.Permits c.uses) (m : Nat) :
    Balanced m (c.code k) (m + 1) := by
  rw [Call.code_eq]
  match c with
  | .own name args =>
    rw [Call.uses, Context.permits_append, Context.permits_call] at hp
    have hargs := (Balanced.push m .pointer 0).append (arguments_balanced args hp.1 (m + 1))
    rw [Nat.add_right_comm, Nat.add_assoc] at hargs
    exact hargs.append (.call m _ _ (toNat_ofNat hp.2))
  | .member owner name args =>
    rw [Call.uses, Context.permits_append, Context.permits_call] at hp
    have hreceiver : Balanced m (k.read owner) (m + k.hidden (.member owner name args)) := by
      rw [Context.hidden]
      split
      · rename_i hv
        exact Context.balanced_read hv m
      · rename_i hv
        rw [Option.not_isSome_iff_eq_none] at hv
        rw [Context.read, hv]
        exact .nil m
    have hargs := hreceiver.append (arguments_balanced args hp.1 _)
    rw [Nat.add_right_comm, Nat.add_assoc] at hargs
    exact hargs.append (.call m _ _ (toNat_ofNat hp.2))

theorem arguments_balanced (args : List Expression) (hp : k.Permits (usesOf args)) (m : Nat) :
    Balanced m (argumentCode k args) (m + args.length) := by
  match args with
  | [] => exact .nil m
  | e :: es =>
    rw [usesOf, Context.permits_append] at hp
    have h := (e.balanced hp.1 m).append (arguments_balanced es hp.2 (m + 1))
    rw [Nat.add_assoc, Nat.add_comm 1] at h
    exact h

end

/-! ### Statements -/

theorem balanced_test (name : String) : Balanced 1 [.arithmetic .not, .ifGoto name] 0 :=
  .cons (Nat.le_refl 1) (.cons rfl (.nil 0))

theorem balanced_turn (name name' : String) : Balanced 0 [.goto name, .label name'] 0 :=
  .cons rfl (.cons rfl (.nil 0))

mutual

theorem Statement.balanced (s : Statement) (hp : k.Permits s.uses) (n : Nat) :
    Balanced 0 (s.code k n) 0 := by
  match s with
  | .letVariable target value =>
    rw [Statement.uses, Context.permits_variable] at hp
    exact (value.balanced hp.2 0).append (Context.balanced_write hp.1 0)
  | .letElement target index value =>
    rw [Statement.uses, Context.permits_variable, Context.permits_append] at hp
    have hadd : Balanced 2 [.arithmetic .add] 1 := BinaryOp.add.balanced 0
    have haddress := ((Context.balanced_read hp.1 0).append (index.balanced hp.2.1 1)).append hadd
    have hassign := ((Balanced.pop 1 .temp 0).append (Balanced.pop 0 .pointer 1)).append
      ((Balanced.push 0 .temp 0).append (Balanced.pop 0 .that 0))
    have h := (haddress.append (value.balanced hp.2.2 1)).append hassign
    rw [Statement.code]
    simpa using h
  | .if_ condition body otherwise =>
    rw [Statement.uses, Context.permits_append, Context.permits_append] at hp
    have htest := (condition.balanced hp.1.1 0).append (balanced_test ("IF_FALSE" ++ toString n))
    have hbody := statements_balanced body hp.1.2 (n + 1)
    have hother := otherwise_balanced otherwise hp.2 (n + 1 + constructsOf body)
    have hend : Balanced 0 [.label ("IF_END" ++ toString n)] 0 := .cons rfl (.nil 0)
    exact (((htest.append hbody).append (balanced_turn _ _)).append hother).append hend
  | .while_ condition body =>
    rw [Statement.uses, Context.permits_append] at hp
    have htest := (condition.balanced hp.1 0).append (balanced_test ("WHILE_END" ++ toString n))
    have hbody := statements_balanced body hp.2 (n + 1)
    have hstart : (Instruction.label ("WHILE_EXP" ++ toString n)).Fits 0 := rfl
    exact .cons hstart ((htest.append hbody).append (balanced_turn _ _))
  | .do_ call => exact (call.balanced hp 0).append (.pop 0 .temp 0)
  | .return_ none =>
    exact (Balanced.push 0 .constant 0).append (.cons rfl (.nil 0))
  | .return_ (some value) => exact (value.balanced hp 0).append (.cons rfl (.nil 0))

theorem statements_balanced (ss : List Statement) (hp : k.Permits (statementUses ss)) (n : Nat) :
    Balanced 0 (statementCode k n ss) 0 := by
  match ss with
  | [] => exact .nil 0
  | s :: ss =>
    rw [statementUses, Context.permits_append] at hp
    exact (s.balanced hp.1 n).append (statements_balanced ss hp.2 (n + s.constructs))

theorem otherwise_balanced (o : Option (List Statement)) (hp : k.Permits (otherwiseUses o))
    (n : Nat) : Balanced 0 (otherwiseCode k n o) 0 := by
  match o with
  | none => exact .nil 0
  | some body => exact statements_balanced body hp n

end

/-! ### Subroutines -/

theorem Role.balanced_prologue (fields : Nat) (r : Role) : Balanced 0 (r.prologue fields) 0 := by
  cases r with
  | constructor =>
    have halloc := (Balanced.push 0 .constant (UInt16.ofNat fields)).append
      (Balanced.call 0 "Memory.alloc" 1 rfl)
    exact halloc.append (.pop 0 .pointer 0)
  | function => exact .nil 0
  | method => exact (Balanced.push 0 .argument 0).append (.pop 0 .pointer 0)

theorem ClassDec.balanced_bodyCode {c : ClassDec} {d : SubroutineDec}
    (hp : (c.context d).Permits (statementUses d.body)) (n : Nat) :
    Balanced 0 (c.bodyCode n d) 0 :=
  (d.role.balanced_prologue c.fieldCount).append (statements_balanced d.body hp n)

/-- Every block of a text that compiles has depths of the stack. -/
theorem blocks_have_stackDepths {source : String} {outlined : Bool} {result : CompiledClass}
    (h : compile source outlined = .ok result) :
    ∀ block ∈ blocks (result.instructions.map (·.instruction)),
      ∃ depth, StackDepths block depth := by
  intro block hblock
  obtain ⟨stream, -, ⟨c, hc⟩, hall⟩ := accepted_of_compile h
  obtain ⟨hacc, hcode⟩ := hall c hc
  rw [hcode, ClassDec.code, ← map_block_functions] at hblock
  obtain ⟨f, hf, rfl⟩ := List.mem_map.1 hblock
  obtain ⟨d, hd, n, rfl⟩ := ClassDec.exists_of_mem_functions hf
  exact ⟨_, (ClassDec.balanced_bodyCode (hacc.subroutines d hd).2 n).stackDepths⟩

/-- A loop around two branches, one of which returns out of it. -/
theorem loop_with_return_has_stackDepths :
    ∃ result,
      compile "class A{method int f(int n){while(n>0){if(g(n)){let n=0;}else{return n;}}return;}}" false
        = .ok result
      ∧ (blocks (result.instructions.map (·.instruction))).length = 1
      ∧ ∀ block ∈ blocks (result.instructions.map (·.instruction)),
        ∃ depth, StackDepths block depth := by
  obtain ⟨result, h, hlength⟩ : ∃ result,
      compile "class A{method int f(int n){while(n>0){if(g(n)){let n=0;}else{return n;}}return;}}" false
        = .ok result
      ∧ (blocks (result.instructions.map (·.instruction))).length = 1 := ⟨_, by rfl, by rfl⟩
  exact ⟨result, h, hlength, blocks_have_stackDepths h⟩

end Jack
