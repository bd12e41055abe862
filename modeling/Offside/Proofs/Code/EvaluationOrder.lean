/-
Lowered expressions against their meaning: the code carries out the same events and leaves the same
value as evaluation from left to right in which attributes are read on use.
-/
import Offside.Proofs.Code.Evaluation
import Offside.Proofs.Code.Machine
import Offside.Proofs.Code.Temporaries

namespace Offside

universe u

/-- What code works on: temporaries, variables, and the objects with the events so far. -/
structure Memory (V W : Type u) where
  temps : Temp → Option V
  vars : String → Option V
  history : History V W

namespace Memory

variable {V W : Type u}

def setTemp (m : Memory V W) (result : Temp) (v : V) : Memory V W :=
  { m with temps := fun temp => if temp = result then some v else m.temps temp }

def setVariable (m : Memory V W) (id : String) (v : V) : Memory V W :=
  { m with vars := fun other => if other = id then some v else m.vars other }

/-- The same variables, and the same temporaries below a number. -/
structure Agrees (next : Nat) (m m' : Memory V W) : Prop where
  vars : m'.vars = m.vars
  temps : ∀ temp : Temp, temp.number < next → m'.temps temp = m.temps temp

theorem Agrees.refl (next : Nat) (m : Memory V W) : Agrees next m m := ⟨rfl, fun _ _ => rfl⟩

theorem Agrees.trans {next : Nat} {m m' m'' : Memory V W} (h : Agrees next m m')
    (h' : Agrees next m' m'') : Agrees next m m'' :=
  ⟨h'.vars.trans h.vars, fun temp ht => (h'.temps temp ht).trans (h.temps temp ht)⟩

theorem Agrees.mono {first next : Nat} {m m' : Memory V W} (h : Agrees next m m')
    (hle : first ≤ next) : Agrees first m m' :=
  ⟨h.vars, fun temp ht => h.temps temp (Nat.lt_of_lt_of_le ht hle)⟩

end Memory

namespace Meaning

variable {V W : Type u} (sem : Meaning V W)

/-- The value of an operand at this moment. -/
def read (m : Memory V W) : Operand → Option V
  | .temp temp => m.temps temp
  | .var id => m.vars id
  | .const value => some (sem.literal value)
  | .attr base name => do sem.attrOf m.history.world (← read m base) name

/-- Carry out something on values, and put its result into a temporary. -/
def into (result : Temp) (evaluation : Evaluation V W V) (m : Memory V W) :
    Option (Memory V W) :=
  (evaluation m.history).map fun answer => { m with history := answer.2 }.setTemp result answer.1

/-- What an instruction does to the memory.  Every operand is read when the instruction runs. -/
def run (m : Memory V W) : Instruction → Option (Memory V W)
  | .assign result source => do return m.setTemp result (← sem.read m source)
  | .store source (.var id) => do return m.setVariable id (← sem.read m source)
  | .store source (.attr base name) => do
    let v ← sem.read m source
    let object ← sem.read m base
    let world ← sem.store m.history.world object name v
    return { m with history := { m.history with world := world } }
  | .call result callee args => do
    let f ← sem.read m callee
    let values ← args.mapM (sem.read m)
    into result (sem.perform (.call f values)) m
  | .methodCall result receiver method args => do
    let object ← sem.read m receiver
    let values ← args.mapM (sem.read m)
    into result (sem.perform (.methodCall object method values)) m
  | .construct result className args => do
    let values ← args.mapM (sem.read m)
    into result (sem.perform (.construct className values)) m
  | .binary result op left right => do
    let x ← sem.read m left
    let y ← sem.read m right
    into result (look fun world => sem.binary op world x y) m
  | .unary result op source => do
    let x ← sem.read m source
    into result (look fun world => sem.unary op world x) m
  | .leave _ | .label _ | .branch _ _ | .jump _ => some m

/-- A meaning of values interprets the code of the machine. -/
def interpretation : Interpretation (Memory V W) where
  effect i m := sem.run m i
  holds condition m := (sem.read m condition).any (sem.holds m.history.world)

/-- Run the code of an expression and read its operand as the next instruction does. -/
def answer (lowered : Lowered Operand) (m : Memory V W) : Option (V × History V W) := do
  let last ← sem.interpretation.run lowered.code m
  let v ← sem.read last lowered.value
  return (v, last.history)

/-! ### Operands and paths -/

/-- What an operand stands for while its attributes are not read yet. -/
def path? (m : Memory V W) : Operand → Option (Path V)
  | .temp temp => (m.temps temp).map .value
  | .var id => (m.vars id).map .value
  | .const value => some (.value (sem.literal value))
  | .attr base name => (path? m base).map (·.attr name)

theorem read_eq (m : Memory V W) (operand : Operand) :
    sem.read m operand = (sem.path? m operand).bind (sem.follow m.history.world) := by
  induction operand with
  | temp temp => cases h : m.temps temp <;> simp [read, path?, h, follow, Path.value]
  | var id => cases h : m.vars id <;> simp [read, path?, h, follow, Path.value]
  | const value => simp [read, path?, follow, Path.value]
  | attr base name ih =>
    rw [read, ih, path?]
    cases sem.path? m base with
    | none => rfl
    | some path => simp [follow, Path.attr, List.foldlM_append]

theorem mapM_read_eq (m : Memory V W) (operands : List Operand) :
    operands.mapM (sem.read m) =
      (operands.mapM (sem.path? m)).bind (·.mapM (sem.follow m.history.world)) := by
  induction operands with
  | nil => rfl
  | cons operand others ih =>
    rw [List.mapM_cons, List.mapM_cons, read_eq, ih]
    cases sem.path? m operand with
    | none => rfl
    | some path =>
      cases others.mapM (sem.path? m) with
      | none => simp
      | some paths => simp [List.mapM_cons]

/-- Operands stand for the same as long as their temporaries do. -/
theorem path?_of_agrees {next : Nat} {m m' : Memory V W} (h : m.Agrees next m')
    {operand : Operand} (hoperand : ∀ temp ∈ operand.temps, temp.number < next) :
    sem.path? m' operand = sem.path? m operand := by
  induction operand with
  | temp temp => simp [path?, h.temps temp (hoperand temp (by simp [Operand.temps]))]
  | var id => simp [path?, h.vars]
  | const value => rfl
  | attr base name ih => rw [path?, path?, ih hoperand]

/-! ### Instructions -/

theorem setTemp_agrees (m : Memory V W) (history : History V W) (result : Temp) (v : V) :
    m.Agrees result.number ({ m with history := history }.setTemp result v) := by
  refine ⟨rfl, fun temp htemp => if_neg ?_⟩
  rintro rfl
  exact Nat.lt_irrefl _ htemp

theorem into_agrees {result : Temp} {x : Evaluation V W V} {m m' : Memory V W}
    (h : into result x m = some m') : m.Agrees result.number m' := by
  obtain ⟨answer, -, rfl⟩ := Option.map_eq_some_iff.mp h
  exact setTemp_agrees m answer.2 result answer.1

/-- An instruction with a result changes no other temporary, and no variable. -/
theorem run_agrees {i : Instruction} {result : Temp} (hi : i.result? = some result)
    {m m' : Memory V W} (h : sem.run m i = some m') : m.Agrees result.number m' := by
  cases i with
  | store | leave | label | branch | jump => cases hi
  | assign temp source =>
    cases hi
    obtain ⟨v, -, h⟩ := Option.bind_eq_some_iff.mp h
    cases h
    exact setTemp_agrees m m.history _ v
  | call | methodCall | binary =>
    cases hi
    obtain ⟨_, -, h⟩ := Option.bind_eq_some_iff.mp h
    obtain ⟨_, -, h⟩ := Option.bind_eq_some_iff.mp h
    exact into_agrees h
  | construct | unary =>
    cases hi
    obtain ⟨_, -, h⟩ := Option.bind_eq_some_iff.mp h
    exact into_agrees h

theorem interpretation_run_agrees {start : Nat} {code : List Instruction}
    (hcode : ∀ i ∈ code, ∃ result, i.result? = some result ∧ start ≤ result.number)
    {m m' : Memory V W} (h : sem.interpretation.run code m = some m') : m.Agrees start m' := by
  induction code generalizing m with
  | nil =>
    cases h
    exact .refl start _
  | cons i rest ih =>
    rw [List.forall_mem_cons] at hcode
    obtain ⟨⟨result, hresult, hle⟩, hrest⟩ := hcode
    obtain ⟨mid, hmid, h⟩ := Option.bind_eq_some_iff.mp h
    exact ((sem.run_agrees hresult hmid).mono hle).trans (ih hrest h)

/-- An operation applies its meaning to the values of its operands. -/
theorem run_emits {expr : Expr} {operands : List Operand} {instruction : Temp → Instruction}
    (h : expr.Emits operands instruction) (result : Temp) (m : Memory V W) :
    sem.run m (instruction result) =
      (operands.mapM (sem.read m)).bind fun values => into result (sem.apply expr values) m := by
  cases h with
  | construct => rfl
  | binary op left right span x y =>
    rw [run]
    simp only [List.mapM_cons, List.mapM_nil]
    cases sem.read m x <;> cases sem.read m y <;> rfl
  | unary op operand span x =>
    rw [run]
    simp only [List.mapM_cons, List.mapM_nil]
    cases sem.read m x <;> rfl
  | call callee args span f xs =>
    rw [run, List.mapM_cons]
    cases sem.read m f <;> cases xs.mapM (sem.read m) <;> rfl
  | methodCall receiver method args span object xs =>
    rw [run, List.mapM_cons]
    cases sem.read m object <;> cases xs.mapM (sem.read m) <;> rfl

/-! ### Lowered code -/

variable {α : Type u}

/-- Running the code and then looking at something it leaves behind is this evaluation. -/
def Computes (code : List Instruction) (view : Memory V W → Option α) (x : Evaluation V W α)
    (m : Memory V W) : Prop :=
  ((sem.interpretation.run code m).bind fun last =>
    (view last).map fun value => (value, last.history)) = x m.history

/-- The instruction of an operation behind the code of its operands. -/
theorem computes_operation {expr : Expr} {code : List Instruction} {operands : List Operand}
    {instruction : Temp → Instruction} {x : Evaluation V W (List (Path V))} {m : Memory V W}
    (hemits : expr.Emits operands instruction)
    (h : sem.Computes code (fun last => operands.mapM (sem.path? last)) x m) (result : Temp) :
    sem.Computes (code ++ [instruction result]) (sem.path? · (.temp result))
      (x >>= sem.operate (sem.apply expr)) m := by
  rw [Computes, bind_apply, ← h, Interpretation.run_append]
  cases sem.interpretation.run code m with
  | none => rfl
  | some last =>
    have hrun : sem.interpretation.run [instruction result] last =
        sem.run last (instruction result) :=
      Interpretation.run_singleton _ _ _
    simp only [Option.bind_some]
    rw [hrun, sem.run_emits hemits, mapM_read_eq]
    cases operands.mapM (sem.path? last) with
    | none => rfl
    | some paths =>
      simp only [Option.bind_some, Option.map_some, operate_apply]
      cases paths.mapM (sem.follow last.history.world) with
      | none => rfl
      | some values =>
        simp only [Option.bind_some, into]
        cases sem.apply expr values last.history with
        | none => rfl
        | some result => simp [Memory.setTemp, path?]

theorem computes_cons {first rest : List Instruction} {operand : Operand}
    {operands : List Operand} {x : Evaluation V W (Path V)}
    {xs : Evaluation V W (List (Path V))} {m : Memory V W}
    (hfirst : sem.Computes first (sem.path? · operand) x m)
    (hrest : ∀ mid, sem.interpretation.run first m = some mid →
      sem.Computes rest (fun last => operands.mapM (sem.path? last)) xs mid)
    (hkept : ∀ mid last, sem.interpretation.run first m = some mid →
      sem.interpretation.run rest mid = some last →
      sem.path? last operand = sem.path? mid operand) :
    sem.Computes (first ++ rest) (fun last => (operand :: operands).mapM (sem.path? last))
      (do let path ← x; let paths ← xs; return path :: paths) m := by
  rw [Computes, bind_apply, ← hfirst, Interpretation.run_append]
  cases hmid : sem.interpretation.run first m with
  | none => rfl
  | some mid =>
    have hxs := hrest mid hmid
    rw [Computes] at hxs
    simp only [Option.bind_some]
    cases hpath : sem.path? mid operand with
    | none =>
      cases hlast : sem.interpretation.run rest mid with
      | none => rfl
      | some last => simp [List.mapM_cons, hkept mid last hmid hlast, hpath]
    | some path =>
      simp only [Option.map_some, Option.bind_some, bind_apply, ← hxs]
      cases hlast : sem.interpretation.run rest mid with
      | none => rfl
      | some last =>
        simp only [Option.bind_some, List.mapM_cons, hkept mid last hmid hlast, hpath]
        cases operands.mapM (sem.path? last) <;> rfl

theorem computes_lowerAll {exprs : List Expr}
    (h : ∀ expr ∈ exprs, ∀ (next : Nat) (m : Memory V W),
      sem.Computes (expr.lower next).code (sem.path? · (expr.lower next).value)
        (sem.evaluate .onUse m.vars expr) m)
    (next : Nat) (m : Memory V W) :
    sem.Computes (Expr.lowerAll exprs next).code
      (fun last => (Expr.lowerAll exprs next).value.mapM (sem.path? last))
      (sem.evaluateAll .onUse m.vars exprs) m := by
  induction exprs generalizing next m with
  | nil => rfl
  | cons expr others ih =>
    rw [List.forall_mem_cons] at h
    have hfirst := expr.fresh_lower next
    have hrest : (Expr.lowerAll others (expr.lower next).next).Fresh
        (·.flatMap Operand.temps) (expr.lower next).next :=
      Expr.fresh_lowerAll (fun other _ => other.fresh_lower) _
    rw [evaluateAll]
    apply sem.computes_cons (h.1 next m)
    · intro mid hmid
      have hvars := (sem.interpretation_run_agrees hfirst.results hmid).vars
      rw [← hvars]
      exact ih h.2 _ mid
    · -- the code behind the first operand writes to later temporaries only
      intro mid last _ hlast
      exact sem.path?_of_agrees (sem.interpretation_run_agrees hrest.results hlast) hfirst.reads

theorem computes_lower (expr : Expr) (next : Nat) (m : Memory V W) :
    sem.Computes (expr.lower next).code (sem.path? · (expr.lower next).value)
      (sem.evaluate .onUse m.vars expr) m := by
  induction expr using Expr.operation_induction generalizing next m with
  | constant value span => rfl
  | name id span =>
    rw [Computes, evaluate, bind_apply]
    cases hid : m.vars id with
    | none => simp [Expr.lower, path?, look, hid]
    | some v => simp [Expr.lower, path?, look, hid]; rfl
  | member receiver attr span ih =>
    have hreceiver := ih next m
    rw [Computes] at hreceiver
    rw [Computes, evaluate, bind_apply, ← hreceiver]
    change (sem.interpretation.run (receiver.lower next).code m).bind _ = _
    cases sem.interpretation.run (receiver.lower next).code m with
    | none => rfl
    | some last =>
      simp only [Expr.lower, Option.bind_some, path?]
      cases sem.path? last (receiver.lower next).value <;> rfl
  | operation expr hkind ih =>
    obtain ⟨instruction, hemits, hlower⟩ := Expr.lower_operation hkind next
    rw [hlower, sem.evaluate_operation _ _ hkind]
    exact sem.computes_operation hemits (sem.computes_lowerAll ih next m) _

/-- The code of an expression evaluates it from left to right with attributes read on use. -/
theorem answer_lower (expr : Expr) (next : Nat) (m : Memory V W) :
    sem.answer (expr.lower next) m = sem.valueOf .onUse m.vars expr m.history := by
  have hcode := sem.computes_lower expr next m
  rw [Computes] at hcode
  rw [answer, valueOf, bind_apply, ← hcode]
  simp only [Option.bind_eq_bind]
  cases sem.interpretation.run (expr.lower next).code m with
  | none => rfl
  | some last =>
    simp only [Option.bind_some, read_eq]
    cases sem.path? last (expr.lower next).value with
    | none => rfl
    | some path =>
      simp only [Option.bind_some, Option.map_some, resolve, look]
      cases sem.follow last.history.world path <;> rfl

end Meaning

/-- For every expression, running its code and reading its operand gives the value and the events
of evaluation from left to right in which operations and calls read the attributes among their
operands when they are carried out; where no call stands to the right of such an attribute, these
are also the value and the events of evaluation with every attribute read in its turn. -/
theorem Expr.answer_lower_eq_valueOf {V W : Type u} (sem : Meaning V W) (expr : Expr) (next : Nat)
    (m : Memory V W) :
    sem.answer (expr.lower next) m = sem.valueOf .onUse m.vars expr m.history ∧
    (expr.InOrder →
      sem.answer (expr.lower next) m = sem.valueOf .inTurn m.vars expr m.history) := by
  constructor
  · exact sem.answer_lower expr next m
  · intro h
    rw [sem.answer_lower, sem.valueOf_inTurn m.vars h]

namespace EvaluationOrderWitness

/-- One attribute that holds a number; every call adds one to it and answers zero. -/
def counter : Meaning Int Int where
  literal _ := 0
  attrOf world _ _ := some world
  unary _ _ x := some x
  binary _ _ x y := some (x + y)
  effect _ world := some (0, world + 1)
  store _ _ _ v := some v
  holds _ v := v != 0

def start : Memory Int Int := ⟨fun _ => none, fun _ => some 0, ⟨0, []⟩⟩

def field : Expr := .member (.name "a" Span.absent) "x" Span.absent

def call : Expr := .call (.name "f" Span.absent) [] Span.absent

/-- `a.x + f()` -/
def sum : Expr := .binary .add field call Span.absent

/-- The code of `a.x + f()` reads the attribute that the call has changed. -/
theorem not_answer_lower_eq_valueOf_inTurn :
    ¬ ∀ (V W : Type) (sem : Meaning V W) (expr : Expr) (next : Nat) (m : Memory V W),
      sem.answer (expr.lower next) m = sem.valueOf .inTurn m.vars expr m.history := by
  intro h
  have hsum := h Int Int counter sum 1 start
  have hcode : counter.answer (sum.lower 1) start = some (1, ⟨1, [.call 0 []]⟩) := by decide
  have hvalue : counter.valueOf .inTurn start.vars sum start.history =
      some (0, ⟨1, [.call 0 []]⟩) := by decide
  rw [hcode, hvalue] at hsum
  cases hsum

/-- `f() + a.x` -/
def swapped : Expr := .binary .add call field Span.absent

/-- With the call first the attribute is read in its turn. -/
theorem answer_lower_swapped :
    swapped.InOrder ∧ counter.answer (swapped.lower 1) start =
      counter.valueOf .inTurn start.vars swapped start.history := by
  have hcall : call.InOrder :=
    .operation rfl (by simpa [call, Expr.operands] using .name _ _) (by simp [call, Expr.operands])
  have hfield : field.InOrder := .member _ _ (.name _ _)
  have horder : swapped.InOrder := by
    apply Expr.InOrder.operation rfl
    · simp [swapped, Expr.operands, hcall, hfield]
    · simp [swapped, Expr.operands, call, Expr.isMember]
  exact ⟨horder, (swapped.answer_lower_eq_valueOf counter 1 start).2 horder⟩

end EvaluationOrderWitness

end Offside
