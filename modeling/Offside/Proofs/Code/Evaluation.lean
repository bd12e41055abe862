/-
The meaning of expressions over objects that calls may change.  Operands are evaluated from left to
right; an attribute is read either in its turn or only by the operation that uses it, when
everything to its right has been evaluated.
-/
import Offside.Proofs.Program.Induction

namespace Offside

universe u

/-- A call with the values that it is given. -/
inductive Event (V : Type u) where
  | call (callee : V) (args : List V)
  | methodCall (receiver : V) (method : String) (args : List V)
  | construct (className : String) (args : List V)
  deriving Repr, DecidableEq

/-- What values and operations mean in a world of objects.  Everything may fail; operators only
look at the world, events and stores change it. -/
structure Meaning (V : Type u) (W : Type u) where
  literal : Literal → V
  attrOf : W → V → String → Option V
  unary : UnaryOp → W → V → Option V
  binary : BinaryOp → W → V → V → Option V
  effect : Event V → W → Option (V × W)
  store : W → V → String → V → Option W
  holds : W → V → Bool

/-- The world of objects and the events so far. -/
structure History (V : Type u) (W : Type u) where
  world : W
  events : List (Event V)
  deriving Repr, DecidableEq

/-- A value with the attributes that are still to be read from it. -/
structure Path (V : Type u) where
  base : V
  attrs : List String
  deriving Repr, DecidableEq

namespace Path

variable {V : Type u}

def value (v : V) : Path V := ⟨v, []⟩

def attr (path : Path V) (name : String) : Path V := ⟨path.base, path.attrs ++ [name]⟩

end Path

/-- When the attribute of an operand is read: in its turn, before anything to its right is
evaluated, or on its use, by the operation that it is an operand of. -/
inductive Timing where
  | inTurn
  | onUse
  deriving Repr, DecidableEq

abbrev Evaluation (V : Type u) (W : Type u) := StateT (History V W) Option

namespace Meaning

variable {V : Type u} {W : Type u} {α : Type u} (sem : Meaning V W)

/-- The value at the end of a path in a world. -/
def follow (world : W) (path : Path V) : Option V :=
  path.attrs.foldlM (sem.attrOf world) path.base

/-- Look something up in the world as it is. -/
def look (f : W → Option α) : Evaluation V W α := fun h =>
  (f h.world).map fun value => (value, h)

def resolve (path : Path V) : Evaluation V W V := look fun world => sem.follow world path

/-- Carry out an event and record it. -/
def perform (event : Event V) : Evaluation V W V := fun h =>
  (sem.effect event h.world).map fun (value, world) => (value, ⟨world, h.events ++ [event]⟩)

/-- What becomes of an attribute path that has just been evaluated. -/
def settle (path : Path V) : Timing → Evaluation V W (Path V)
  | .inTurn => do return .value (← sem.resolve path)
  | .onUse => pure path

variable (timing : Timing) (vars : String → Option V)

mutual

/-- Evaluate an expression from left to right.  Calls, methods, constructions and operators read
the operands that are still paths before they are carried out. -/
def evaluate : Expr → Evaluation V W (Path V)
  | .constant value _ => pure (.value (sem.literal value))
  | .name id _ => do return .value (← look fun _ => vars id)
  | .member receiver attr _ => do
    let path ← evaluate receiver
    sem.settle (path.attr attr) timing
  | .binary op left right _ => do
    let left ← evaluate left
    let right ← evaluate right
    let x ← sem.resolve left
    let y ← sem.resolve right
    return .value (← look fun world => sem.binary op world x y)
  | .unary op operand _ => do
    let operand ← evaluate operand
    let x ← sem.resolve operand
    return .value (← look fun world => sem.unary op world x)
  | .call callee args _ => do
    let callee ← evaluate callee
    let args ← evaluateAll args
    let f ← sem.resolve callee
    let values ← args.mapM sem.resolve
    return .value (← sem.perform (.call f values))
  | .methodCall receiver method args _ => do
    let receiver ← evaluate receiver
    let args ← evaluateAll args
    let object ← sem.resolve receiver
    let values ← args.mapM sem.resolve
    return .value (← sem.perform (.methodCall object method values))
  | .construct className args _ => do
    let args ← evaluateAll args
    let values ← args.mapM sem.resolve
    return .value (← sem.perform (.construct className values))

/-- Evaluate several expressions from left to right. -/
def evaluateAll : List Expr → Evaluation V W (List (Path V))
  | [] => pure []
  | expr :: others => do
    let first ← evaluate expr
    let rest ← evaluateAll others
    return first :: rest

end

/-- The value of an expression. -/
def valueOf (expr : Expr) : Evaluation V W V := do
  let path ← sem.evaluate timing vars expr
  sem.resolve path

/-! ### Operations -/

/-- What an operation does with the values of its operands. -/
def apply : Expr → List V → Evaluation V W V
  | .binary op _ _ _, [x, y] => look fun world => sem.binary op world x y
  | .unary op _ _, [x] => look fun world => sem.unary op world x
  | .call _ _ _, callee :: args => sem.perform (.call callee args)
  | .methodCall _ method _ _, receiver :: args => sem.perform (.methodCall receiver method args)
  | .construct className _ _, args => sem.perform (.construct className args)
  | _, _ => failure

/-- Read the operands that are still paths and do something with their values. -/
def operate (use : List V → Evaluation V W V) (operands : List (Path V)) :
    Evaluation V W (Path V) := do
  let values ← operands.mapM sem.resolve
  return .value (← use values)

theorem evaluate_operation {expr : Expr} (h : expr.isOperation = true) :
    sem.evaluate timing vars expr =
      sem.evaluateAll timing vars expr.operands >>= sem.operate (sem.apply expr) := by
  cases expr with
  | constant | name | member => cases h
  | construct className args span => rw [evaluate]; rfl
  | _ => simp [evaluate, evaluateAll, Expr.operands, operate, apply]

/-! ### Paths -/

theorem bind_apply {β : Type u} (x : Evaluation V W α) (f : α → Evaluation V W β)
    (h : History V W) : (x >>= f) h = (x h).bind fun result => f result.1 result.2 :=
  rfl

@[simp] theorem resolve_value (v : V) : sem.resolve (.value v) = pure v := rfl

theorem settle_value (v : V) (timing : Timing) :
    sem.settle (.value v) timing = pure (.value v) := by
  cases timing <;> rfl

theorem resolve_attr (path : Path V) (name : String) :
    sem.resolve (path.attr name) = (do
      let object ← sem.resolve path
      look fun world => sem.attrOf world object name) := by
  funext h
  rw [bind_apply]
  simp only [resolve, look, follow, Path.attr, List.foldlM_append]
  cases List.foldlM (sem.attrOf h.world) path.base path.attrs with
  | none => rfl
  | some object => simp

theorem mapM_resolve_values (values : List V) :
    (values.map Path.value).mapM sem.resolve = pure values := by
  induction values with
  | nil => rfl
  | cons v others ih =>
    rw [List.map_cons, List.mapM_cons, ih, resolve_value]
    rfl

theorem mapM_resolve_apply (paths : List (Path V)) (h : History V W) :
    paths.mapM sem.resolve h = (paths.mapM (sem.follow h.world)).map fun values => (values, h) := by
  induction paths with
  | nil => rfl
  | cons path others ih =>
    rw [List.mapM_cons, List.mapM_cons, bind_apply, resolve, look]
    cases sem.follow h.world path with
    | none => rfl
    | some v =>
      simp only [Option.map_some, Option.bind_some, bind_apply, ih]
      cases others.mapM (sem.follow h.world) <;> rfl

theorem operate_apply (use : List V → Evaluation V W V) (paths : List (Path V))
    (h : History V W) :
    sem.operate use paths h = (paths.mapM (sem.follow h.world)).bind fun values =>
      (use values h).map fun result => (.value result.1, result.2) := by
  rw [operate, bind_apply, mapM_resolve_apply]
  cases paths.mapM (sem.follow h.world) with
  | none => rfl
  | some values =>
    rw [Option.bind_some, Option.map_some, Option.bind_some, bind_apply]
    cases use values h <;> rfl

theorem mapM_settle_inTurn (paths : List (Path V)) :
    paths.mapM (sem.settle · .inTurn) = (do return (← paths.mapM sem.resolve).map .value) := by
  induction paths with
  | nil => rfl
  | cons path others ih =>
    rw [List.mapM_cons, ih]
    simp [List.mapM_cons, settle]

/-- Settled operands mean what they meant. -/
theorem settle_operate (use : List V → Evaluation V W V) (paths : List (Path V)) :
    paths.mapM (sem.settle · .inTurn) >>= sem.operate use = sem.operate use paths := by
  unfold operate
  rw [mapM_settle_inTurn, bind_assoc]
  simp only [pure_bind, mapM_resolve_values]

/-! ### Evaluations that change nothing -/

/-- An evaluation that leaves the world and the events as they are. -/
def Keeps (evaluation : Evaluation V W α) : Prop :=
  ∀ ⦃h value h'⦄, evaluation h = some (value, h') → h' = h

theorem keeps_pure (a : α) : Keeps (pure a : Evaluation V W α) := by
  intro h value h' heq
  cases heq
  rfl

theorem keeps_look (f : W → Option α) : Keeps (look f : Evaluation V W α) := by
  intro h value h' heq
  obtain ⟨_, -, heq⟩ := Option.map_eq_some_iff.mp heq
  cases heq
  rfl

theorem Keeps.bind {β : Type u} {x : Evaluation V W α} {f : α → Evaluation V W β} (hx : Keeps x)
    (hf : ∀ a, Keeps (f a)) : Keeps (x >>= f) := by
  intro h value h' heq
  rw [bind_apply] at heq
  obtain ⟨⟨a, mid⟩, hmid, heq⟩ := Option.bind_eq_some_iff.mp heq
  rw [hf a heq, hx hmid]

/-- Evaluations that change nothing may trade places. -/
theorem Keeps.comm {β γ : Type u} {x : Evaluation V W α} {y : Evaluation V W β} (hx : Keeps x)
    (hy : Keeps y) (k : α → β → Evaluation V W γ) :
    (do let a ← x; let b ← y; k a b) = (do let b ← y; let a ← x; k a b) := by
  funext h
  simp only [bind_apply]
  cases hxh : x h with
  | none =>
    cases hyh : y h with
    | none => rfl
    | some second =>
      obtain ⟨b, h'⟩ := second
      obtain rfl := hy hyh
      simp [hxh]
  | some first =>
    obtain ⟨a, h'⟩ := first
    obtain rfl := hx hxh
    cases hyh : y h' with
    | none => simp [hyh]
    | some second =>
      obtain ⟨b, h''⟩ := second
      obtain rfl := hy hyh
      simp [hxh, hyh]

theorem keeps_settle (path : Path V) : Keeps (sem.settle path timing) := by
  cases timing with
  | inTurn => exact (keeps_look _).bind fun v => keeps_pure _
  | onUse => exact keeps_pure path

theorem keeps_evaluate {expr : Expr} (h : expr.isQuiet = true) :
    Keeps (sem.evaluate timing vars expr) := by
  induction expr using Expr.induction with
  | constant value span => exact keeps_pure _
  | name id span => exact (keeps_look _).bind fun v => keeps_pure _
  | member receiver attr span ih =>
    rw [evaluate]
    exact (ih h).bind fun path => sem.keeps_settle timing _
  | binary op left right span ihLeft ihRight =>
    rw [Expr.isQuiet, Bool.and_eq_true] at h
    rw [evaluate]
    refine (ihLeft h.1).bind fun _ => (ihRight h.2).bind fun _ => ?_
    exact (keeps_look _).bind fun _ => (keeps_look _).bind fun _ =>
      (keeps_look _).bind fun _ => keeps_pure _
  | unary op operand span ih =>
    rw [evaluate]
    refine (ih h).bind fun _ => ?_
    exact (keeps_look _).bind fun _ => (keeps_look _).bind fun _ => keeps_pure _
  | call | methodCall | construct => cases h

theorem keeps_evaluateAll {exprs : List Expr} (h : ∀ expr ∈ exprs, expr.isQuiet = true) :
    Keeps (sem.evaluateAll timing vars exprs) := by
  induction exprs with
  | nil => exact keeps_pure _
  | cons expr others ih =>
    rw [List.forall_mem_cons] at h
    rw [evaluateAll]
    exact (sem.keeps_evaluate timing vars h.1).bind fun _ =>
      (ih h.2).bind fun _ => keeps_pure _

end Meaning

/-! ### Attributes that are read in order -/

/-- No operation has an attribute as an operand with a call, method or construction to its
right. -/
inductive Expr.InOrder : Expr → Prop
  | constant (value : Literal) (span : Span) : InOrder (.constant value span)
  | name (id : String) (span : Span) : InOrder (.name id span)
  | member {receiver : Expr} (attr : String) (span : Span) (object : InOrder receiver) :
    InOrder (.member receiver attr span)
  | operation {expr : Expr} (kind : expr.isOperation = true)
    (operands : ∀ operand ∈ expr.operands, InOrder operand)
    (order : expr.operands.Pairwise fun first later =>
      first.isMember = false ∨ later.isQuiet = true) :
    InOrder expr

namespace Meaning

variable {V W : Type u} (sem : Meaning V W) (vars : String → Option V)

/-- Only attributes are left as paths with something to read. -/
theorem evaluate_of_not_member (timing : Timing) {expr : Expr} (h : expr.isMember = false) :
    ∃ x : Evaluation V W V,
      sem.evaluate timing vars expr = (do return Path.value (← x)) := by
  induction expr using Expr.operation_induction with
  | constant value span => exact ⟨pure (sem.literal value), rfl⟩
  | name id span => exact ⟨look fun _ => vars id, rfl⟩
  | member => cases h
  | operation expr hkind =>
    refine ⟨do
      let operands ← sem.evaluateAll timing vars expr.operands
      sem.apply expr (← operands.mapM sem.resolve), ?_⟩
    rw [sem.evaluate_operation timing vars hkind]
    unfold operate
    simp

theorem evaluateAll_inTurn {exprs : List Expr}
    (h : ∀ expr ∈ exprs, sem.evaluate .inTurn vars expr =
      sem.evaluate .onUse vars expr >>= (sem.settle · .inTurn))
    (horder : exprs.Pairwise fun first later =>
      first.isMember = false ∨ later.isQuiet = true) :
    sem.evaluateAll .inTurn vars exprs =
      sem.evaluateAll .onUse vars exprs >>= fun paths =>
        paths.mapM (sem.settle · .inTurn) := by
  induction exprs with
  | nil => rfl
  | cons expr others ih =>
    rw [List.forall_mem_cons] at h
    rw [List.pairwise_cons] at horder
    rw [evaluateAll, evaluateAll, h.1, ih h.2 horder.2]
    simp only [bind_assoc, pure_bind, List.mapM_cons]
    by_cases hmember : expr.isMember = true
    · -- nothing to the right changes what the first attribute reads
      have hquiet : ∀ later ∈ others, later.isQuiet = true := by
        intro later hlater
        rcases horder.1 later hlater with hfirst | hlater
        · rw [hmember] at hfirst
          cases hfirst
        · exact hlater
      apply bind_congr
      intro path
      exact (sem.keeps_settle .inTurn path).comm
        (sem.keeps_evaluateAll .onUse vars hquiet) _
    · obtain ⟨x, hx⟩ := sem.evaluate_of_not_member vars .onUse
        (Bool.eq_false_iff.mpr hmember)
      rw [hx]
      simp only [bind_assoc, pure_bind, settle_value]

theorem evaluate_inTurn {expr : Expr} (h : expr.InOrder) :
    sem.evaluate .inTurn vars expr =
      sem.evaluate .onUse vars expr >>= (sem.settle · .inTurn) := by
  induction h with
  | constant value span => rfl
  | name id span =>
    rw [evaluate, evaluate]
    simp only [bind_assoc, pure_bind, settle_value]
  | member attr span _ ih =>
    rw [evaluate, evaluate, ih]
    simp only [settle, bind_assoc, pure_bind, resolve_attr, resolve_value]
  | operation kind _ order ih =>
    rw [sem.evaluate_operation _ _ kind, sem.evaluate_operation _ _ kind,
      sem.evaluateAll_inTurn vars ih order, bind_assoc, bind_assoc]
    simp only [settle_operate]
    unfold operate
    simp only [bind_assoc, pure_bind, settle_value]

/-- Where no call stands to the right of an attribute, it makes no difference when attributes are
read. -/
theorem valueOf_inTurn {expr : Expr} (h : expr.InOrder) :
    sem.valueOf .inTurn vars expr = sem.valueOf .onUse vars expr := by
  rw [valueOf, valueOf, sem.evaluate_inTurn vars h]
  simp only [settle, bind_assoc, pure_bind, resolve_value]
  simp

end Meaning

end Offside
