/-
The numbers in an outline.  Every function that makes a part of an outline numbers the nodes of that
part without a gap, so the numbers of a whole outline count its nodes in the order of its lines, and
there is one node for each part of the program.
-/
import Mathlib.Algebra.BigOperators.Group.List.Basic
import Mathlib.Algebra.GroupWithZero.Nat
import Offside.Outline
import Offside.Proofs.Program.Induction
import Offside.Proofs.Program.Parts

namespace Offside

namespace Outline

/-- The number of the root. -/
def number : Outline → Nat
  | node id _ _ _ _ => id

/-- A node of an outline with its depth. -/
structure Placed where
  depth : Nat
  node : Outline

mutual

/-- The nodes of an outline at this depth, each one before its children. -/
def nodesAt (depth : Nat) : Outline → List Placed
  | node id form value role children =>
    ⟨depth, node id form value role children⟩ :: nodesOf (depth + 1) children

/-- The nodes of several outlines. -/
def nodesOf (depth : Nat) : List Outline → List Placed
  | [] => []
  | child :: others => nodesAt depth child ++ nodesOf depth others

end

/-- All nodes of an outline with their depths; the root has depth zero. -/
def nodes (outline : Outline) : List Placed := nodesAt 0 outline

/-- The numbers of all nodes, each one before those of its children. -/
def numbers (outline : Outline) : List Nat := outline.nodes.map (·.node.number)

theorem nodesOf_append (depth : Nat) (first second : List Outline) :
    nodesOf depth (first ++ second) = nodesOf depth first ++ nodesOf depth second := by
  induction first with
  | nil => rfl
  | cons child others ih => rw [List.cons_append, nodesOf, nodesOf, ih, List.append_assoc]

mutual

theorem length_nodesAt (depth : Nat) : ∀ outline : Outline,
    (nodesAt depth outline).length = size outline
  | node _ _ _ _ children => by
    rw [nodesAt, size, List.length_cons, length_nodesOf (depth + 1) children, Nat.add_comm]

theorem length_nodesOf (depth : Nat) : ∀ outlines : List Outline,
    (nodesOf depth outlines).length = sizes outlines
  | [] => rfl
  | child :: others => by
    rw [nodesOf, sizes, List.length_append, length_nodesAt depth child,
      length_nodesOf depth others]

end

/-- The line of a node: two blanks for every level between it and the root. -/
def Placed.line (placed : Placed) : String :=
  String.ofList (List.replicate (2 * (placed.depth - 1)) ' ') ++ placed.node.label

mutual

theorem linesAt_eq_map (depth : Nat) : ∀ outline : Outline,
    linesAt depth outline = (nodesAt (depth + 1) outline).map Placed.line
  | node id form value role children => by
    rw [linesAt, nodesAt, linesOf_eq_map (depth + 1) children, List.map_cons]
    rfl

theorem linesOf_eq_map (depth : Nat) : ∀ outlines : List Outline,
    linesOf depth outlines = (nodesOf (depth + 1) outlines).map Placed.line
  | [] => rfl
  | child :: others => by
    rw [linesOf, nodesOf, linesAt_eq_map depth child, linesOf_eq_map depth others, List.map_append]

end

/-! ### Numbers without gaps -/

/-- These outlines have so many nodes, which are numbered in their order from `first` on, and `next`
is the number behind them. -/
structure Numbered (outlines : List Outline) (first next count : Nat) : Prop where
  numbers : ∀ depth, (nodesOf depth outlines).map (·.node.number) = List.range' first count
  next_eq : next = first + count

namespace Numbered

variable {outlines others : List Outline} {first next last count count' : Nat}

theorem nil (first : Nat) : Numbered [] first first 0 := ⟨fun _ => rfl, rfl⟩

theorem append (h : Numbered outlines first next count)
    (hothers : Numbered others next last count') :
    Numbered (outlines ++ others) first last (count + count') where
  numbers depth := by
    rw [nodesOf_append, List.map_append, h.numbers, hothers.numbers, h.next_eq,
      List.range'_append_1]
  next_eq := by rw [hothers.next_eq, h.next_eq, Nat.add_assoc]

theorem cons {outline : Outline} (h : Numbered [outline] first next count)
    (hothers : Numbered others next last count') :
    Numbered (outline :: others) first last (count + count') :=
  h.append hothers

/-- A node is numbered before its children. -/
theorem node {form : String} {value : Option String} {role : Option Role}
    (h : Numbered outlines (first + 1) next count) :
    Numbered [.node first form value role outlines] first next (count + 1) where
  numbers depth := by
    rw [nodesOf, nodesOf, nodesAt, List.append_nil, List.map_cons, h.numbers, List.range'_succ]
    rfl
  next_eq := by rw [h.next_eq, Nat.add_assoc, Nat.add_comm 1]

theorem leaf {form : String} {value : Option String} {role : Option Role} (first : Nat) :
    Numbered [.node first form value role []] first (first + 1) 1 :=
  node (nil (first + 1))

theorem congr (h : Numbered outlines first next count) (heq : count = count') :
    Numbered outlines first next count' :=
  heq ▸ h

end Numbered

section

variable {role : Option Role} {id : Nat}

theorem numbered_ofArgs {args : List Expr}
    (h : ∀ arg ∈ args, ∀ role id,
      Numbered [(ofExpr arg role id).1] id (ofExpr arg role id).2 arg.parts.length) :
    Numbered (ofArgs args id).1 id (ofArgs args id).2 (Expr.partsAll args).length := by
  induction args generalizing id with
  | nil => exact .nil id
  | cons arg others ih =>
    rw [List.forall_mem_cons] at h
    refine ((h.1 _ _).cons (ih h.2)).congr ?_
    simp only [Expr.partsAll, Expr.parts, List.length_cons, List.length_append]
    omega

theorem numbered_ofExpr (e : Expr) (role : Option Role) (id : Nat) :
    Numbered [(ofExpr e role id).1] id (ofExpr e role id).2 e.parts.length := by
  induction e using Expr.induction generalizing role id with
  | constant | name => exact .leaf id
  | binary op left right span ihLeft ihRight =>
    refine (((ihLeft _ _).cons (ihRight _ _)).node).congr ?_
    simp only [Expr.parts, Expr.inside, List.length_cons, List.length_append]
    omega
  | unary op operand span ih => exact (ih _ _).node
  | call callee args span ihCallee ihArgs =>
    refine (((ihCallee _ _).cons (numbered_ofArgs ihArgs)).node).congr ?_
    simp only [Expr.parts, Expr.inside, List.length_cons, List.length_append]
    omega
  | methodCall receiver method args span ihReceiver ihArgs =>
    refine (((ihReceiver _ _).cons (numbered_ofArgs ihArgs)).node).congr ?_
    simp only [Expr.parts, Expr.inside, List.length_cons, List.length_append]
    omega
  | construct className args span ihArgs => exact (numbered_ofArgs ihArgs).node
  | member receiver attr span ih => exact (ih _ _).node

theorem numbered_ofParams (params : List Param) (id : Nat) :
    Numbered (ofParams params id).1 id (ofParams params id).2 params.length := by
  induction params generalizing id with
  | nil => exact .nil id
  | cons param others ih => exact ((Numbered.leaf id).cons (ih (id + 1))).congr (Nat.add_comm _ _)

end

end Outline

/-! ### One node for every part of a program -/

namespace Stmt

/-- The number of nodes that a statement has in an outline, without those of the statements inside
of it. -/
def ownNodes (stmt : Stmt) : Nat :=
  1 + (stmt.definitions.flatMap FunctionDef.params).length + stmt.methods.length +
    (stmt.ownExprs.flatMap Expr.parts).length

end Stmt

/-- The number of nodes of visited statements. -/
def Visit.nodes (visits : List Visit) : Nat := (visits.map fun visit => visit.stmt.ownNodes).sum

namespace Visit

@[simp] theorem nodes_nil : nodes [] = 0 := rfl

@[simp] theorem nodes_cons (visit : Visit) (visits : List Visit) :
    nodes (visit :: visits) = visit.stmt.ownNodes + nodes visits := by
  rw [nodes, nodes, List.map_cons, List.sum_cons]

@[simp] theorem nodes_append (first second : List Visit) :
    nodes (first ++ second) = nodes first + nodes second := by
  rw [nodes, nodes, nodes, List.map_append, List.sum_append]

end Visit

namespace Outline

section

variable {role : Option Role} {id : Nat}

/-- A statement with one node for each of its parts, whatever it stands in. -/
def NumbersParts (s : Stmt) : Prop :=
  ∀ (role : Option Role) (id : Nat) (standing : Standing),
    Numbered [(ofStmt s role id).1] id (ofStmt s role id).2 (Visit.nodes (s.visits standing))

theorem numbered_ofBody {body : List Stmt} (h : ∀ s ∈ body, NumbersParts s) (standing : Standing) :
    Numbered (ofBody body role id).1 id (ofBody body role id).2
      (Visit.nodes (Stmt.visitsOfBody standing body)) := by
  induction body generalizing id with
  | nil => exact .nil id
  | cons s others ih =>
    rw [List.forall_mem_cons] at h
    refine ((h.1 _ _ standing).cons (ih h.2)).congr ?_
    rw [Stmt.visitsOfBody, Stmt.visits, Visit.nodes_cons, Visit.nodes_cons, Visit.nodes_append,
      Nat.add_assoc]

theorem numbered_ofFunction {definition : FunctionDef Stmt}
    (h : ∀ s ∈ definition.body, NumbersParts s) :
    Numbered [(ofFunction definition role id).1] id (ofFunction definition role id).2
      (1 + definition.params.length + Visit.nodes (Stmt.visitsOfFunction definition)) := by
  obtain ⟨name, params, body, span⟩ := definition
  refine (((numbered_ofParams params _).append (numbered_ofBody h .ofFunction)).node).congr ?_
  dsimp only [Stmt.visitsOfFunction]
  omega

theorem numbered_ofMethods {methods : List (FunctionDef Stmt)}
    (h : ∀ method ∈ methods, ∀ s ∈ method.body, NumbersParts s) :
    Numbered (ofMethods methods id).1 id (ofMethods methods id).2
      (methods.length + (methods.flatMap FunctionDef.params).length +
        Visit.nodes (Stmt.visitsOfMethods methods)) := by
  induction methods generalizing id with
  | nil => exact .nil id
  | cons method others ih =>
    rw [List.forall_mem_cons] at h
    refine ((numbered_ofFunction h.1).cons (ih h.2)).congr ?_
    simp only [Stmt.visitsOfMethods, Visit.nodes_append, List.length_cons, List.flatMap_cons,
      List.length_append]
    omega

theorem numbersParts (s : Stmt) : NumbersParts s := by
  induction s using Stmt.induction with
  | function definition span ih =>
    intro role id standing
    refine (numbered_ofFunction ih).congr ?_
    simp [Stmt.visits, Stmt.visitsInside, Stmt.ownNodes, Stmt.definitions, Stmt.methods,
      Stmt.ownExprs]
  | classDef name methods span ih =>
    intro role id standing
    refine ((numbered_ofMethods ih).node).congr ?_
    simp only [Stmt.visits, Stmt.visitsInside, Stmt.ownNodes, Stmt.definitions, Stmt.methods,
      Stmt.ownExprs, Visit.nodes_cons, List.flatMap_nil, List.length_nil]
    omega
  | assign target value span =>
    intro role id standing
    refine (((numbered_ofExpr target _ _).cons (numbered_ofExpr value _ _)).node).congr ?_
    simp [Stmt.visits, Stmt.visitsInside, Stmt.ownNodes, Stmt.definitions, Stmt.methods,
      Stmt.ownExprs]
    omega
  | branch test thenBody elseBody span ihThen ihElse =>
    intro role id standing
    have helse (id : Nat) : Numbered (ofElse elseBody id).1 id (ofElse elseBody id).2
        (Visit.nodes (Stmt.visitsOfElse standing.inBranch elseBody)) := by
      cases elseBody with
      | none => exact .nil id
      | some body => exact numbered_ofBody (ihElse body rfl) _
    refine (((numbered_ofExpr test _ _).cons
      ((numbered_ofBody ihThen standing.inBranch).append (helse _))).node).congr ?_
    simp [Stmt.visits, Stmt.visitsInside, Stmt.ownNodes, Stmt.definitions, Stmt.methods,
      Stmt.ownExprs]
    omega
  | loop test body span ih =>
    intro role id standing
    refine (((numbered_ofExpr test _ _).cons (numbered_ofBody ih standing.inRound)).node).congr ?_
    simp [Stmt.visits, Stmt.visitsInside, Stmt.ownNodes, Stmt.definitions, Stmt.methods,
      Stmt.ownExprs]
    omega
  | leave value span =>
    intro role id standing
    cases value with
    | none => exact .leaf id
    | some value =>
      refine ((numbered_ofExpr value _ _).node).congr ?_
      simp [Stmt.visits, Stmt.visitsInside, Stmt.ownNodes, Stmt.definitions, Stmt.methods,
        Stmt.ownExprs]
      omega
  | pass | breakLoop | continueLoop => exact fun _ id _ => .leaf id
  | eval expr span =>
    intro role id standing
    refine ((numbered_ofExpr expr _ _).node).congr ?_
    simp [Stmt.visits, Stmt.visitsInside, Stmt.ownNodes, Stmt.definitions, Stmt.methods,
      Stmt.ownExprs]
    omega

end

end Outline

namespace Module

theorem nodes_visits (program : Module) : Visit.nodes program.visits =
    program.stmts.length + program.params.length + program.methods.length +
      program.exprs.length := by
  simp only [params, methods, exprs, stmts]
  induction program.visits with
  | nil => rfl
  | cons visit visits ih =>
    rw [Visit.nodes_cons, ih]
    simp only [List.map_cons, List.flatMap_cons, List.length_cons, List.length_append,
      Stmt.ownNodes]
    omega

theorem numbered_outline (program : Module) :
    Outline.Numbered [Outline.ofModule program] 0 (1 + Visit.nodes program.visits)
      (Visit.nodes program.visits + 1) := by
  have hbody : Outline.Numbered (Outline.ofBody program.body none 1).1 1
      (Outline.ofBody program.body none 1).2
      (Visit.nodes (Stmt.visitsOfBody .outside program.body)) :=
    Outline.numbered_ofBody (fun s _ => Outline.numbersParts s) .outside
  rw [Stmt.visitsOfBody_eq_flatMap] at hbody
  have hnext := hbody.next_eq
  exact (hnext ▸ hbody).node

/-- An outline numbers its nodes from zero in the order in which they are listed, each one before
its children, and has a node for the program and one for each of its parts.  Its lines are those of
the nodes behind the root, in the order of their numbers. -/
theorem outlineLines_numbered (program : Module) :
    (Outline.ofModule program).numbers = List.range (Outline.ofModule program).size ∧
      (Outline.ofModule program).size = 1 + (program.stmts.length + program.params.length +
        program.methods.length + program.exprs.length) ∧
      program.outlineLines.length = (Outline.ofModule program).size - 1 ∧
      ∀ placed ∈ (Outline.ofModule program).nodes, ∀ k, placed.node.number = k + 1 →
        program.outlineLines[k]? = some placed.line := by
  have hsize : (Outline.ofModule program).nodes.length = (Outline.ofModule program).size :=
    Outline.length_nodesAt 0 _
  have hnumbers : (Outline.ofModule program).numbers =
      List.range (Visit.nodes program.visits + 1) := by
    have hall := program.numbered_outline.numbers 0
    rwa [Outline.nodesOf, Outline.nodesOf, List.append_nil, ← List.range_eq_range'] at hall
  have hcount : (Outline.ofModule program).size = Visit.nodes program.visits + 1 := by
    rw [← hsize, ← List.length_range (n := Visit.nodes program.visits + 1), ← hnumbers,
      Outline.numbers, List.length_map]
  have hnodes : (Outline.ofModule program).nodes =
      ⟨0, Outline.ofModule program⟩ :: Outline.nodesOf 1 (Outline.ofModule program).children := rfl
  have hlines : program.outlineLines =
      (Outline.nodesOf 1 (Outline.ofModule program).children).map Outline.Placed.line :=
    Outline.linesOf_eq_map 0 _
  refine ⟨by rw [hnumbers, hcount], by rw [hcount, nodes_visits, Nat.add_comm], ?_, ?_⟩
  · rw [hlines, List.length_map, ← hsize, hnodes, List.length_cons, Nat.add_sub_cancel]
  · intro placed hplaced k hnumber
    obtain ⟨i, hi⟩ := List.mem_iff_getElem?.mp hplaced
    -- a node has the number of its place in the list
    have hplace : i = k + 1 := by
      have hget : (Outline.ofModule program).numbers[i]? = some placed.node.number := by
        rw [Outline.numbers, List.getElem?_map, hi, Option.map_some]
      rw [hnumbers] at hget
      obtain ⟨_, heq⟩ := List.getElem?_eq_some_iff.mp hget
      rw [List.getElem_range] at heq
      exact heq.trans hnumber
    rw [hplace, hnodes, List.getElem?_cons_succ] at hi
    rw [hlines, List.getElem?_map, hi, Option.map_some]

end Module

end Offside
