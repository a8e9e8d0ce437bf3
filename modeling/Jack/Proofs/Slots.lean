import Jack.Proofs.Correctness
import Jack.Proofs.Functions
import Jack.Proofs.Origins

/-! The words that a subroutine can address. An index counts the earlier declarations of its kind,
so it stays below the number of them, which is what the header reserves, the caller passes or the
constructor allocates. -/

namespace Jack

/-! ### Indices -/

theorem toNat_ofNat_le (n : Nat) : (UInt16.ofNat n).toNat ≤ n := Nat.mod_le _ _

/-- The index of every variable in force is below the count of its kind. -/
def Environment.Indexed (e : Environment) : Prop :=
  ∀ v ∈ e.ofClass ++ e.ofSubroutine, v.index.toNat < e.count v.kind

namespace Environment

variable {e : Environment}

theorem indexed_empty : empty.Indexed := by simp [Indexed, empty]

theorem Indexed.declare (h : e.Indexed) (d : Declared) : (e.declare d).Indexed := by
  intro v hv
  rw [count_declare]
  rcases mem_declare hv with rfl | hv
  · rw [if_pos rfl]
    exact Nat.lt_succ_of_le (toNat_ofNat_le _)
  · exact Nat.lt_add_right _ (h v hv)

theorem Indexed.declareAll (h : e.Indexed) (ds : List Declared) : (e.declareAll ds).Indexed := by
  induction ds generalizing e with
  | nil => exact h
  | cons d ds ih => exact ih (h.declare d)

end Environment

/-! ### The size of each segment -/

/-- The names that the class declares of a kind, repeated ones too. -/
def ClassDec.names (c : ClassDec) (kind : Kind) : List String :=
  (c.vars.filter (·.kind = kind)).flatMap ClassVarDec.names

/-- How many variables of each kind a subroutine has. A method has its object as an argument. -/
def ClassDec.size (c : ClassDec) (d : SubroutineDec) : Kind → Nat
  | .static => (c.names .static).length
  | .field => (c.names .field).length
  | .argument => d.parameters.length + if d.role = .method then 1 else 0
  | .var => (d.vars.flatMap VarDec.names).length

theorem countP_declared_eq_length (vs : List ClassVarDec) (kind : Kind) :
    (vs.flatMap ClassVarDec.declared).countP (·.kind = kind)
      = ((vs.filter (·.kind = kind)).flatMap ClassVarDec.names).length := by
  induction vs with
  | nil => rfl
  | cons v vs ih =>
    rw [List.flatMap_cons, List.countP_append, v.countP_declared, ih]
    by_cases hv : v.kind = kind
    · rw [if_pos hv, List.filter_cons_of_pos (by simpa using hv), List.flatMap_cons,
        List.length_append]
    · rw [if_neg hv, List.filter_cons_of_neg (by simpa using hv), Nat.zero_add]

theorem ClassDec.fieldCount_eq (c : ClassDec) : c.fieldCount = (c.names .field).length :=
  countP_declared_eq_length c.vars .field

theorem ClassDec.count_context (c : ClassDec) (d : SubroutineDec) (kind : Kind) :
    (c.environment.declareAll (d.declared c.name)).count kind = c.size d kind := by
  rw [Environment.count_declareAll, c.count_environment]
  have hclass : kind.ofClass = true → (d.declared c.name).countP (·.kind = kind) = 0 := by
    intro hk
    exact countP_kind_of_ofClass (d.ofClass_declared c.name) (by rw [hk]; simp)
  have hown : kind.ofClass = false → c.declared.countP (·.kind = kind) = 0 := by
    intro hk
    exact countP_kind_of_ofClass c.ofClass_declared (by rw [hk]; simp)
  cases kind with
  | static =>
    rw [hclass rfl]
    exact countP_declared_eq_length c.vars .static
  | field =>
    rw [hclass rfl]
    exact countP_declared_eq_length c.vars .field
  | argument =>
    rw [hown rfl, d.countP_argument]
    cases hr : d.role <;> simp [ClassDec.size, Role.hidden, hr, Nat.add_comm]
  | var =>
    rw [hown rfl, d.countP_var, Nat.zero_add]
    rfl

theorem ClassDec.index_lt (c : ClassDec) (d : SubroutineDec) {name : String} {v : Variable}
    (h : (c.context d).lookup name = some v) : v.index.toNat < c.size d v.kind := by
  rw [← c.count_context d]
  exact ((Environment.indexed_empty.declareAll c.declared).declareAll _) v
    (Environment.mem_of_lookup h)

/-! ### The words that are addressed -/

/-- The segment has a word at the index when there are so many variables of each kind. Of the
objects elsewhere, and of the scratch words, only the first is addressed. -/
def Segment.Has (size : Kind → Nat) : Segment → Nat → Prop
  | .local_, i => i < size .var
  | .argument, i => i < size .argument
  | .this, i => i < size .field
  | .static, i => i < size .static
  | .pointer, i => i = 0 ∨ i = 1
  | .temp, i | .that, i => i = 0
  | .constant, _ => False

/-- What the instruction pushes is a constant, or else it pushes or pops a word that exists. -/
def Instruction.Addresses (size : Kind → Nat) : Instruction → Prop
  | .push segment index => segment = .constant ∨ segment.Has size index.toNat
  | .pop segment index => segment.Has size index.toNat
  | _ => True

theorem Kind.has_segment {size : Kind → Nat} {kind : Kind} {i : Nat} :
    kind.segment.Has size i ↔ i < size kind := by
  cases kind <;> rfl

theorem Variable.addresses_read {size : Kind → Nat} {v : Variable}
    (h : v.index.toNat < size v.kind) : v.read.Addresses size := by
  rw [← v.pushCode_eq_read]
  exact Or.inr (Kind.has_segment.2 h)

theorem Variable.addresses_write {size : Kind → Nat} {v : Variable}
    (h : v.index.toNat < size v.kind) : v.write.Addresses size := by
  rw [← v.popCode_eq_write]
  exact Kind.has_segment.2 h

theorem addresses_of_mem_fixedAccesses {size : Kind → Nat} {i : Instruction}
    (h : i ∈ fixedAccesses) : i.Addresses size := by
  simp only [fixedAccesses, List.mem_cons, List.not_mem_nil, or_false] at h
  rcases h with rfl | rfl | rfl | rfl | rfl | rfl | rfl <;>
    simp [Instruction.Addresses, Segment.Has]

theorem Origin.addresses {k : Context} {ls : List Lexeme} {i : Instruction} {size : Kind → Nat}
    (hi : Origin k ls i)
    (hk : ∀ name v, k.lookup name = some v → v.index.toNat < size v.kind) :
    i.Addresses size := by
  cases hi with
  | read h => exact Variable.addresses_read (hk _ _ h)
  | write h => exact Variable.addresses_write (hk _ _ h)
  | integer _ => exact Or.inl rfl
  | length _ => exact Or.inl rfl
  | letter _ _ => exact Or.inl rfl
  | fixed h => exact addresses_of_mem_fixedAccesses h
  | other h =>
    cases i with
    | push | pop => cases h
    | _ => trivial

/-- A method finds its object in an argument that every method has. -/
theorem ClassDec.addresses_prologue (c : ClassDec) (d : SubroutineDec) {i : Instruction}
    (h : i ∈ d.role.prologue c.fieldCount) : i.Addresses (c.size d) := by
  cases hr : d.role <;>
    simp only [hr, Role.prologue, List.mem_cons, List.not_mem_nil, or_false] at h
  case constructor =>
    rcases h with rfl | rfl | rfl
    · exact Or.inl rfl
    · trivial
    · exact Or.inl rfl
  case method =>
    rcases h with rfl | rfl
    · exact Or.inr (by simp [Segment.Has, ClassDec.size, hr])
    · exact Or.inl rfl

/-- What the function of a subroutine reserves, allocates and addresses. -/
structure ClassDec.Frames (c : ClassDec) (d : SubroutineDec) (f : FunctionCode) : Prop where
  name : f.name = c.name ++ "." ++ d.name
  locals : f.locals.toNat = (d.vars.flatMap VarDec.names).length
  allocation : d.role = .constructor → ∃ n rest,
    f.block = .push .constant n :: .call "Memory.alloc" 1 :: .pop .pointer 0 :: rest
      ∧ n.toNat = (c.names .field).length
  slots : ∀ i ∈ f.block, i.Addresses (c.size d)

theorem ClassDec.Accepted.toNat_fieldCount {c : ClassDec} (h : c.Accepted) :
    (UInt16.ofNat c.fieldCount).toNat = (c.names .field).length := by
  have hfields : c.fieldCount ≤ 65535 := c.fits_iff.1 h.vars .field
  rw [← c.fieldCount_eq]
  exact UInt16.toNat_ofNat_of_lt (Nat.lt_succ_of_le hfields)

theorem ClassDec.Accepted.frames {c : ClassDec} (h : c.Accepted) {d : SubroutineDec}
    (hd : d ∈ c.subroutines) (n : Nat) : c.Frames d (c.functionCode n d) := by
  refine ⟨rfl, ?_, fun hr => ?_, fun i hi => ?_⟩
  · exact UInt16.toNat_ofNat_of_lt (Nat.lt_succ_of_le (h.countable.subroutines d hd).locals)
  · refine ⟨UInt16.ofNat c.fieldCount, statementCode (c.context d) n d.body, ?_,
      h.toNat_fieldCount⟩
    rw [ClassDec.functionCode, ClassDec.bodyCode, hr]
    rfl
  · rcases c.origin_of_mem_bodyCode hd hi with hi | hi
    · exact c.addresses_prologue d hi
    · exact hi.addresses fun _ _ => c.index_lt d

/-- In the output of a text that compiles, each subroutine has its function, which reserves what the
subroutine declares, allocates what the class declares, and addresses nothing beyond. -/
theorem functions_address_slots {source : String} {outlined : Bool} {result : CompiledClass}
    (h : compile source outlined = .ok result) :
    ∃ stream, tokenize source = .ok stream
      ∧ (∃ c : ClassDec, c.lexemes = stream.tokens.map Token.lexeme)
      ∧ ∀ c : ClassDec, c.lexemes = stream.tokens.map Token.lexeme →
        List.Forall₂ c.Frames c.subroutines
          (functions (result.instructions.map (·.instruction))) := by
  obtain ⟨stream, hs, hexists, hall⟩ := accepted_of_compile h
  refine ⟨stream, hs, hexists, ?_⟩
  intro c hc
  obtain ⟨hacc, hcode⟩ := hall c hc
  rw [hcode, ClassDec.code]
  have hmem : ∀ d ∈ c.subroutines, d ∈ c.subroutines := fun _ hd => hd
  apply ((List.forall₂_and_left _ _).2 ⟨hmem, c.functions_codeFrom 0 c.subroutines⟩).imp
  rintro d f ⟨hd, n, rfl⟩
  exact hacc.frames hd n

set_option maxRecDepth 1024 in
/-- A constructor, its class having a field declared twice. -/
theorem functions_of_pair :
    ∃ result,
      compile "class P{static int s;field int x,x;constructor P new(int a){var int v;let x=a;let v=s;}}" false
        = .ok result
      ∧ functions (result.instructions.map (·.instruction))
        = [⟨"P.new", 1, [.push .constant 2, .call "Memory.alloc" 1, .pop .pointer 0,
            .push .argument 0, .pop .this 1, .push .static 0, .pop .local_ 0]⟩]
      ∧ ∃ stream,
        tokenize "class P{static int s;field int x,x;constructor P new(int a){var int v;let x=a;let v=s;}}"
          = .ok stream
        ∧ (∃ c : ClassDec, c.lexemes = stream.tokens.map Token.lexeme)
        ∧ ∀ c : ClassDec, c.lexemes = stream.tokens.map Token.lexeme →
          List.Forall₂ c.Frames c.subroutines
            (functions (result.instructions.map (·.instruction))) := by
  obtain ⟨result, h, hfunctions⟩ : ∃ result,
      compile "class P{static int s;field int x,x;constructor P new(int a){var int v;let x=a;let v=s;}}" false
        = .ok result
      ∧ functions (result.instructions.map (·.instruction))
        = [⟨"P.new", 1, [.push .constant 2, .call "Memory.alloc" 1, .pop .pointer 0,
            .push .argument 0, .pop .this 1, .push .static 0, .pop .local_ 0]⟩] :=
    ⟨_, by rfl, by rfl⟩
  exact ⟨result, h, hfunctions, functions_address_slots h⟩

end Jack
