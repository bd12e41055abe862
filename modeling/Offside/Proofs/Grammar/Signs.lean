/-
Assignments and their signs.  The assignments of a program that is read from tokens correspond, in
order and one to one, to the signs of assignments among these tokens; what stands in front of a
sign spells the target, and what stands behind it the value.
-/
import Offside.Proofs.Grammar.Programs
import Offside.Proofs.Program.Assignments

namespace Offside

/-! ### Signs -/

/-- Whether a token is the sign of an assignment, augmented or not. -/
def TokenKind.isAssignment (kind : TokenKind) : Bool :=
  kind == .symbol .assign || kind.augmentation?.isSome

/-- The signs of assignments among these tokens. -/
def assignmentSigns (tokens : List Token) : List Token := tokens.filter (·.kind.isAssignment)

theorem assignmentSigns_append (first second : List Token) :
    assignmentSigns (first ++ second) = assignmentSigns first ++ assignmentSigns second :=
  List.filter_append _ _

theorem assignmentSigns_cons {token : Token} (h : token.kind.isAssignment = false)
    (tokens : List Token) : assignmentSigns (token :: tokens) = assignmentSigns tokens :=
  List.filter_cons_of_neg (by simp [h])

theorem assignmentSigns_sign {token : Token} (h : token.kind.isAssignment = true)
    (tokens : List Token) : assignmentSigns (token :: tokens) = token :: assignmentSigns tokens :=
  List.filter_cons_of_pos h

theorem assignmentSigns_eq_nil {tokens : List Token}
    (h : ∀ token ∈ tokens, token.kind.isAssignment = false) : assignmentSigns tokens = [] :=
  List.filter_eq_nil_iff.mpr fun token htoken => by simp [h token htoken]

theorem TokenKind.isAssignment_of_standsInExpr {kind : TokenKind}
    (h : kind.standsInExpr = true) : kind.isAssignment = false := by
  cases kind with
  | symbol sign => cases sign <;> first | rfl | cases h
  | _ => rfl

/-- No expression is spelled with the sign of an assignment. -/
theorem assignmentSigns_eq_nil_of_standsInExpr {tokens : List Token}
    (h : ∀ token ∈ tokens, token.kind.standsInExpr = true) : assignmentSigns tokens = [] :=
  assignmentSigns_eq_nil fun token htoken => TokenKind.isAssignment_of_standsInExpr (h token htoken)

theorem Derives.assignmentSigns_eq_nil {classes : List String} {phrase : Phrase}
    {tokens : List Token} (h : Derives classes phrase tokens) : assignmentSigns tokens = [] :=
  assignmentSigns_eq_nil_of_standsInExpr h.standsInExpr

theorem ParamForm.assignmentSigns_eq_nil {params : List Param} {tokens : List Token}
    (h : ParamForm params tokens) : assignmentSigns tokens = [] :=
  assignmentSigns_eq_nil_of_standsInExpr h.standsInExpr

/-! ### Pieces of tokens -/

section

variable {tokens front back : List Token} {token : Token}

theorem infix_left (h : front ++ back <:+: tokens) : front <:+: tokens :=
  (List.prefix_append front back).isInfix.trans h

theorem infix_right (h : front ++ back <:+: tokens) : back <:+: tokens :=
  (List.suffix_append front back).isInfix.trans h

theorem infix_tail (h : token :: back <:+: tokens) : back <:+: tokens :=
  (List.suffix_cons token back).isInfix.trans h

end

/-! ### Assignments along their signs -/

/-- How an assignment is spelled with a sign among these tokens: in front of the sign stands the
target, and behind it the value, or the right operand of the operation on the target. -/
inductive Assignment.SpelledIn (tokens : List Token) : Assignment → Token → Prop
  | plain {classes : List String} {sign : Token} {target value : Expr}
    {targetTokens valueTokens : List Token} (signKind : sign.kind = .symbol .assign)
    (place : Derives classes (.expr .or target) targetTokens)
    (source : Derives classes (.expr .or value) valueTokens)
    (piece : targetTokens ++ sign :: valueTokens <:+: tokens) :
    SpelledIn tokens ⟨target, value⟩ sign
  | augmented {classes : List String} {sign : Token} {op : BinaryOp} {target right : Expr}
    {targetTokens valueTokens : List Token} (signKind : sign.kind.augmentation? = some op)
    (place : Derives classes (.expr .or target) targetTokens)
    (source : Derives classes (.expr .or right) valueTokens)
    (piece : targetTokens ++ sign :: valueTokens <:+: tokens) :
    SpelledIn tokens ⟨target, .binary op target right (target.span.through right.span)⟩ sign

/-- The assignments of a part of a program. -/
def Clause.assignments : Clause → List Assignment
  | stmt value => value.assignments
  | branch _ value => value.assignments
  | otherwise elseBody => Stmt.elseAssignments elseBody
  | body stmts => Stmt.allAssignments stmts
  | block stmts => Stmt.allAssignments stmts
  | function definition => Stmt.functionAssignments definition
  | methods definitions => Stmt.methodAssignments definitions

/-- Assignments that are related, one by one, to the signs among these tokens. -/
def AlongSigns (related : Assignment → Token → Prop) (assignments : List Assignment)
    (tokens : List Token) : Prop :=
  List.Forall₂ related assignments (assignmentSigns tokens)

namespace AlongSigns

variable {related : Assignment → Token → Prop} {first second assignments : List Assignment}
  {front back tokens : List Token} {token : Token}

theorem nil (h : assignmentSigns tokens = []) : AlongSigns related [] tokens := by
  rw [AlongSigns, h]
  exact .nil

theorem append (hfirst : AlongSigns related first front)
    (hsecond : AlongSigns related second back) :
    AlongSigns related (first ++ second) (front ++ back) := by
  rw [AlongSigns, assignmentSigns_append]
  exact List.rel_append hfirst hsecond

theorem cons (htoken : token.kind.isAssignment = false)
    (h : AlongSigns related assignments tokens) :
    AlongSigns related assignments (token :: tokens) := by
  rwa [AlongSigns, assignmentSigns_cons htoken]

/-- Tokens without signs in front. -/
theorem behind (hfront : assignmentSigns front = []) (h : AlongSigns related assignments tokens) :
    AlongSigns related assignments (front ++ tokens) :=
  append (nil hfront) h

/-- A token that is no sign behind the others. -/
theorem concat (htoken : token.kind.isAssignment = false)
    (h : AlongSigns related assignments tokens) :
    AlongSigns related assignments (tokens ++ [token]) := by
  have hnone : AlongSigns related [] [] := nil rfl
  have hall := h.append (hnone.cons htoken)
  rwa [List.append_nil] at hall

end AlongSigns

variable {text : List Token}

theorem SimpleForm.alongSigns {classes : List String} {s : Stmt} {tokens : List Token}
    (h : SimpleForm classes s tokens) (hpiece : tokens <:+: text) :
    AlongSigns (Assignment.SpelledIn text) s.assignments tokens := by
  have hsign {sign : Token} {targetTokens valueTokens : List Token} {target value : Expr}
      {a : Assignment} (hkind : sign.kind.isAssignment = true)
      (htarget : Derives classes (.expr .or target) targetTokens)
      (hvalue : Derives classes (.expr .or value) valueTokens) (ha : a.SpelledIn text sign) :
      AlongSigns (Assignment.SpelledIn text) [a] (targetTokens ++ sign :: valueTokens) := by
    refine .behind htarget.assignmentSigns_eq_nil ?_
    rw [AlongSigns, assignmentSigns_sign hkind, hvalue.assignmentSigns_eq_nil]
    exact .cons ha .nil
  cases h with
  | assign signKind _ place source =>
    exact hsign (by rw [signKind]; rfl) place source (.plain signKind place source hpiece)
  | augmented signKind _ place source =>
    exact hsign (by simp [TokenKind.isAssignment, signKind]) place source
      (.augmented signKind place source hpiece)
  | eval value => exact .nil value.assignmentSigns_eq_nil
  | leaveWith wordKind value =>
    exact .cons (by rw [wordKind]; rfl) (.nil value.assignmentSigns_eq_nil)
  | leave wordKind | pass wordKind | breakLoop wordKind | continueLoop wordKind =>
    exact .cons (by rw [wordKind]; rfl) (.nil rfl)

theorem ClauseForm.alongSigns {classes : List String} {clause : Clause} {tokens : List Token}
    (h : ClauseForm classes clause tokens) (hpiece : tokens <:+: text) :
    AlongSigns (Assignment.SpelledIn text) clause.assignments tokens := by
  induction h with
  | simple newlineKind form =>
    exact (form.alongSigns (infix_left hpiece)).concat (by rw [newlineKind]; rfl)
  | conditional _ ih => exact ih hpiece
  | loop wordKind condition _ ih =>
    exact .cons (by rw [wordKind]; rfl)
      (.behind condition.assignmentSigns_eq_nil (ih (infix_right (infix_tail hpiece))))
  | branch wordKind condition _ _ ihFirst ihSecond =>
    have hbodies := infix_right (infix_tail hpiece)
    exact .cons (by rw [wordKind]; rfl) (.behind condition.assignmentSigns_eq_nil
      ((ihFirst (infix_left hbodies)).append (ihSecond (infix_right hbodies))))
  | noElse => exact .nil rfl
  | elseBlock wordKind _ ih => exact .cons (by rw [wordKind]; rfl) (ih (infix_tail hpiece))
  | elif _ ih =>
    have hbranch := ih hpiece
    rw [← List.append_nil (Clause.assignments _)] at hbranch
    exact hbranch
  | noStmts => exact .nil rfl
  | stmts _ _ ihFirst ihRest =>
    exact (ihFirst (infix_left hpiece)).append (ihRest (infix_right hpiece))
  | block colonKind newlineKind indentKind dedentKind _ _ ih =>
    exact .cons (by rw [colonKind]; rfl) (.cons (by rw [newlineKind]; rfl)
      (.cons (by rw [indentKind]; rfl)
        ((ih (infix_left (infix_tail (infix_tail (infix_tail hpiece))))).concat
          (by rw [dedentKind]; rfl))))
  | function wordKind idKind startKind stopKind _ formal _ ih =>
    have hbody := infix_tail (infix_right (infix_tail (infix_tail (infix_tail hpiece))))
    exact .cons (by rw [wordKind]; rfl) (.cons (by rw [idKind]; rfl) (.cons (by rw [startKind]; rfl)
      (.behind formal.assignmentSigns_eq_nil (.cons (by rw [stopKind]; rfl) (ih hbody)))))
  | noMethods => exact .nil rfl
  | methods _ _ ihFirst ihRest =>
    exact (ihFirst (infix_left hpiece)).append (ihRest (infix_right hpiece))

theorem TopForm.alongSigns {classes known : List String} {s : Stmt} {tokens : List Token}
    (h : TopForm classes s tokens known) (hpiece : tokens <:+: text) :
    AlongSigns (Assignment.SpelledIn text) s.assignments tokens := by
  cases h with
  | stmt form => exact form.alongSigns hpiece
  | function form => exact form.alongSigns hpiece
  | classDef wordKind idKind colonKind newlineKind indentKind dedentKind _ inside =>
    have hmethods := infix_left (infix_tail (infix_tail (infix_tail (infix_tail
      (infix_tail hpiece)))))
    exact .cons (by rw [wordKind]; rfl) (.cons (by rw [idKind]; rfl) (.cons (by rw [colonKind]; rfl)
      (.cons (by rw [newlineKind]; rfl) (.cons (by rw [indentKind]; rfl)
        ((inside.alongSigns hmethods).concat (by rw [dedentKind]; rfl))))))

theorem ProgramForm.alongSigns {classes : List String} {stmts : List Stmt} {tokens : List Token}
    (h : ProgramForm classes stmts tokens) (hpiece : tokens <:+: text) :
    AlongSigns (Assignment.SpelledIn text) (stmts.flatMap Stmt.assignments) tokens := by
  induction h with
  | nil => exact .nil rfl
  | cons first _ ih =>
    rw [List.flatMap_cons]
    exact (first.alongSigns (infix_left hpiece)).append (ih (infix_right hpiece))
  | unended form =>
    rw [List.flatMap_cons, List.flatMap_nil, List.append_nil]
    exact form.alongSigns hpiece

/-- The assignments of a program are spelled with the signs among the tokens that it is read from,
in the same order. -/
theorem Module.alongSigns_of_ofTokens {tokens : List Token} {predeclare : Bool} {program : Module}
    (h : ofTokens tokens predeclare = .ok program) :
    AlongSigns (Assignment.SpelledIn (textTokens tokens)) program.assignments
      (textTokens tokens) :=
  (programForm_of_ofTokens h).alongSigns List.infix_rfl

end Offside
