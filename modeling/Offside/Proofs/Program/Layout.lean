/-
The lines of a program and its tokens.  Every line can be written, and the tokens that stand for
the lines are those of the statements, each block between a token that opens it and one that closes
it.
-/
import Offside.Proofs.Program.Induction
import Offside.Proofs.Program.Text

namespace Offside

/-! ### First tokens -/

/-- Whether an expression can start with a token of this kind. -/
def TokenKind.startsExpr : TokenKind → Bool
  | literal _ | identifier _ | symbol .openParen | symbol .minus | keyword .not => true
  | _ => false

theorem Layer.exists_first_enclose {inner : Layer} {kinds : List TokenKind}
    (h : ∃ kind others, kinds = kind :: others ∧ kind.startsExpr = true) (outer : Layer) :
    ∃ kind others, outer.enclose inner kinds = kind :: others ∧ kind.startsExpr = true := by
  unfold enclose
  split
  · exact h
  · exact ⟨_, _, rfl, rfl⟩

theorem Expr.exists_first_kind (e : Expr) :
    ∃ kind others, e.kinds = kind :: others ∧ kind.startsExpr = true := by
  induction e using Expr.induction with
  | constant | name | construct => exact ⟨_, _, rfl, rfl⟩
  | unary op => cases op <;> exact ⟨_, _, rfl, rfl⟩
  | binary op left right span ih _ =>
    obtain ⟨kind, others, hcons, hkind⟩ := Layer.exists_first_enclose ih op.rule.left
    exact ⟨kind, _, by rw [kinds, hcons]; rfl, hkind⟩
  | call callee args span ih _ =>
    obtain ⟨kind, others, hcons, hkind⟩ := Layer.exists_first_enclose ih .callable
    exact ⟨kind, _, by rw [kinds, hcons]; rfl, hkind⟩
  | methodCall receiver method args span ih _ =>
    obtain ⟨kind, others, hcons, hkind⟩ := Layer.exists_first_enclose ih .trailed
    exact ⟨kind, _, by rw [kinds, hcons]; rfl, hkind⟩
  | member receiver attr span ih =>
    obtain ⟨kind, others, hcons, hkind⟩ := Layer.exists_first_enclose ih .trailed
    exact ⟨kind, _, by rw [kinds, hcons]; rfl, hkind⟩

theorem Expr.kinds_ne_nil (e : Expr) : e.kinds ≠ [] := by
  obtain ⟨kind, others, hcons, -⟩ := e.exists_first_kind
  rw [hcons]
  exact List.cons_ne_nil _ _

/-! ### Tokens that can be written on a line -/

/-- Tokens that can be written and that close every bracket they open. -/
structure Clean [IdentifierTables] (kinds : List TokenKind) : Prop where
  writable : ∀ kind ∈ kinds, kind.isWritable = true
  closed : ∀ count, Line.bracketsAfter count kinds = count

namespace Clean

variable [IdentifierTables] {kind : TokenKind} {kinds first second : List TokenKind}

theorem nil : Clean [] := ⟨List.forall_mem_nil _, fun _ => rfl⟩

theorem cons (hkind : kind.isWritable = true) (hbrackets : kind.brackets = id)
    (h : Clean kinds) : Clean (kind :: kinds) where
  writable := List.forall_mem_cons.mpr ⟨hkind, h.writable⟩
  closed count := by
    rw [Line.bracketsAfter, List.foldl_cons, hbrackets]
    exact h.closed count

theorem name {name : String} (hname : isName name = true) (h : Clean kinds) :
    Clean (.identifier name :: kinds) :=
  h.cons hname rfl

theorem append (hfirst : Clean first) (hsecond : Clean second) : Clean (first ++ second) where
  writable := List.forall_mem_append.mpr ⟨hfirst.writable, hsecond.writable⟩
  closed count := by
    rw [Line.bracketsAfter, List.foldl_append]
    exact (hsecond.closed _).trans (hfirst.closed count)

theorem grouped (h : Clean kinds) : Clean (grouped kinds) where
  writable := by
    refine List.forall_mem_cons.mpr ⟨rfl, List.forall_mem_append.mpr ⟨h.writable, ?_⟩⟩
    exact List.forall_mem_singleton.mpr rfl
  closed count := by
    have hinside := h.closed (count + 1)
    rw [Line.bracketsAfter] at hinside ⊢
    rw [Offside.grouped, List.foldl_cons, List.foldl_append]
    change ((kinds.foldl (fun count kind => kind.brackets count) (count + 1)) - 1) = count
    rw [hinside, Nat.add_sub_cancel]

theorem separated {lists : List (List TokenKind)} (h : ∀ kinds ∈ lists, Clean kinds) :
    Clean (separated lists) := by
  induction lists with
  | nil => exact nil
  | cons kinds others ih =>
    obtain ⟨hkinds, hothers⟩ := List.forall_mem_cons.mp h
    cases others with
    | nil => exact hkinds
    | cons next others => exact hkinds.append ((ih hothers).cons rfl rfl)

theorem enclose (h : Clean kinds) (outer inner : Layer) : Clean (outer.enclose inner kinds) := by
  unfold Layer.enclose
  split
  · exact h
  · exact h.grouped

theorem sound (h : Clean kinds) (hne : kinds ≠ []) (level : Nat) : Line.Sound ⟨level, kinds⟩ :=
  ⟨hne, h.writable, h.closed 0⟩

end Clean

theorem BinaryOp.isWritable_kind [IdentifierTables] (op : BinaryOp) :
    op.kind.isWritable = true ∧ op.kind.brackets = id := by
  cases op <;> exact ⟨rfl, rfl⟩

/-- What is written for an expression can be written. -/
theorem Expr.clean_kinds [IdentifierTables] {classes : List String} {e : Expr}
    (h : e.isWritable classes = true) :
    Clean e.kinds := by
  have hargs {args : List Expr} (hall : Expr.isWritableAll classes args = true)
      (ih : ∀ arg ∈ args, arg.isWritable classes = true → Clean arg.kinds) :
      Clean (grouped (separated (kindsAll args))) := by
    rw [Expr.isWritableAll_eq_all, List.all_eq_true] at hall
    rw [kindsAll_eq_map]
    refine .grouped (.separated fun kinds hkinds => ?_)
    obtain ⟨arg, harg, rfl⟩ := List.mem_map.mp hkinds
    exact ih arg harg (hall arg harg)
  induction e using Expr.induction with
  | constant value span => exact .cons h rfl .nil
  | name id span => exact .name h .nil
  | binary op left right span ihLeft ihRight =>
    obtain ⟨hleft, hright⟩ := Bool.and_eq_true_iff.mp h
    obtain ⟨hwritable, hbrackets⟩ := op.isWritable_kind
    exact ((ihLeft hleft).enclose _ _).append
      (((ihRight hright).enclose _ _).cons hwritable hbrackets)
  | unary op operand span ih => cases op <;> exact ((ih h).enclose _ _).cons rfl rfl
  | call callee args span ihCallee ihArgs =>
    simp only [isWritable, Bool.and_eq_true] at h
    exact ((ihCallee h.1.2).enclose _ _).append (hargs h.2 ihArgs)
  | methodCall receiver method args span ihReceiver ihArgs =>
    simp only [isWritable, Bool.and_eq_true] at h
    exact ((ihReceiver h.1.1).enclose _ _).append
      (((hargs h.2 ihArgs).name h.1.2).cons rfl rfl)
  | construct className args span ihArgs =>
    simp only [isWritable, Bool.and_eq_true] at h
    exact (hargs h.2 ihArgs).name h.1.1
  | member receiver attr span ih =>
    obtain ⟨hreceiver, hattr⟩ := Bool.and_eq_true_iff.mp h
    exact ((ih hreceiver).enclose _ _).append ((Clean.nil.name hattr).cons rfl rfl)

namespace Line

/-! ### Levels of lines -/

/-- Lines that go on at this level or further out. -/
def Under (level : Nat) : List Line → Prop
  | [] => True
  | line :: _ => line.level ≤ level

theorem Under.mono {level deeper : Nat} {rest : List Line} (h : Under level rest)
    (hle : level ≤ deeper) : Under deeper rest := by
  cases rest with
  | nil => trivial
  | cons line rest => exact Nat.le_trans h hle

theorem shift_self (level : Nat) : shift level level = [] := by
  simp [shift]

theorem shift_succ {level next : Nat} (h : next ≤ level) :
    shift (level + 1) next = .layout .dedent :: shift level next := by
  rw [shift, shift, if_neg (by omega), if_neg (by omega), Nat.succ_sub h, List.replicate_succ]

theorem tokenKinds_line (level : Nat) (kinds : List TokenKind) (rest : List Line) :
    tokenKinds level (⟨level, kinds⟩ :: rest) =
      kinds ++ .layout .newline :: tokenKinds level rest := by
  rw [tokenKinds, shift_self, List.nil_append]

theorem tokenKinds_deeper (level : Nat) (kinds : List TokenKind) (rest : List Line) :
    tokenKinds level (⟨level + 1, kinds⟩ :: rest) =
      .layout .indent :: tokenKinds (level + 1) (⟨level + 1, kinds⟩ :: rest) := by
  rw [tokenKinds, tokenKinds, shift_self, shift, if_pos (Nat.lt_succ_self _)]
  rfl

theorem tokenKinds_under {level : Nat} {rest : List Line} (h : Under level rest) :
    tokenKinds (level + 1) rest = .layout .dedent :: tokenKinds level rest := by
  cases rest with
  | nil =>
    rw [tokenKinds, tokenKinds, shift_succ (Nat.zero_le _)]
    rfl
  | cons line rest =>
    rw [tokenKinds, tokenKinds, shift_succ h]
    rfl

/-! ### Tokens of lines -/

/-- The tokens of a block behind its colon. -/
def block (inside : List TokenKind) : List TokenKind :=
  .layout .newline :: .layout .indent :: (inside ++ [.layout .dedent])

/-- Lines that may stand behind a line of this level, and behind the line that opens it. -/
def Follows (level : Nat) (lines : List Line) : Prop :=
  ∀ before, level ≤ before + 1 → Stepped before lines

variable [IdentifierTables]

/-- Lines from this level inwards that stand for these tokens, wherever lines of this level may
stand. -/
structure Spells (level : Nat) (lines : List Line) (kinds : List TokenKind) : Prop where
  sound : ∀ line ∈ lines, line.Sound
  first : ∀ line ∈ lines.head?, line.level = level
  follows : ∀ {rest}, Follows level rest → Follows level (lines ++ rest)
  tokens : ∀ {rest}, Under level rest →
    tokenKinds level (lines ++ rest) = kinds ++ tokenKinds level rest

namespace Spells

variable {level : Nat} {lines others : List Line} {head kinds otherKinds : List TokenKind}

theorem nil (level : Nat) : Spells level [] [] where
  sound := List.forall_mem_nil _
  first := by simp
  follows hrest := hrest
  tokens _ := rfl

theorem under (h : Spells level lines kinds) {rest : List Line} (hrest : Under level rest) :
    Under level (lines ++ rest) := by
  cases lines with
  | nil => exact hrest
  | cons line lines => exact Nat.le_of_eq (h.first line rfl)

theorem append (h : Spells level lines kinds) (hothers : Spells level others otherKinds) :
    Spells level (lines ++ others) (kinds ++ otherKinds) where
  sound := List.forall_mem_append.mpr ⟨h.sound, hothers.sound⟩
  first := by
    cases lines with
    | nil => exact hothers.first
    | cons line lines => exact h.first
  follows hrest := by
    rw [List.append_assoc]
    exact h.follows (hothers.follows hrest)
  tokens hrest := by
    rw [List.append_assoc, h.tokens (hothers.under hrest), hothers.tokens hrest, List.append_assoc]

theorem line (hclean : Clean head) (hne : head ≠ []) (level : Nat) :
    Spells level [⟨level, head⟩] (head ++ [.layout .newline]) where
  sound := List.forall_mem_singleton.mpr (hclean.sound hne level)
  first := by simp
  follows hrest before hstep := .cons hstep (hrest level (Nat.le_succ level))
  tokens _ := by
    rw [List.append_assoc]
    exact tokenKinds_line level head _

/-- A line with a block behind it. -/
theorem block (hclean : Clean head) (hne : head ≠ []) (hlines : lines ≠ [])
    (h : Spells (level + 1) lines kinds) :
    Spells level (⟨level, head⟩ :: lines) (head ++ Line.block kinds) where
  sound := List.forall_mem_cons.mpr ⟨hclean.sound hne level, h.sound⟩
  first := by simp
  follows hrest before hstep :=
    have hdeeper : Follows (level + 1) _ := fun deep hdeep => hrest deep (Nat.le_of_succ_le hdeep)
    .cons hstep (h.follows hdeeper level (Nat.le_refl _))
  tokens {rest} hrest := by
    have hinside := h.tokens (hrest.mono (Nat.le_succ level))
    obtain ⟨first, below, rfl⟩ := List.exists_cons_of_ne_nil hlines
    obtain ⟨deep, firstKinds⟩ := first
    obtain rfl : deep = level + 1 := h.first _ rfl
    simp only [List.cons_append] at hinside ⊢
    rw [tokenKinds_line, tokenKinds_deeper, hinside, tokenKinds_under hrest, Line.block]
    simp

end Spells

end Line

/-! ### Statements -/

namespace Stmt

section

variable (chosen : Stmt → Bool)

mutual

/-- The tokens of a statement, layout included. -/
def kinds (word : Keyword) : Stmt → List TokenKind
  | function definition _ => definition.head ++ kindsOfFunction definition
  | classDef name methods span =>
    (classDef name methods span).head word ++ Line.block (kindsOfFunctions methods)
  | branch test thenBody elseBody span =>
    ((branch test thenBody elseBody span).head word ++ Line.block (kindsOfBody .ifTest thenBody)) ++
      kindsOfElse elseBody
  | loop test body span =>
    (loop test body span).head word ++ Line.block (kindsOfBody .ifTest body)
  | stmt => stmt.head word ++ [.layout .newline]

def kindsOfFunction : FunctionDef Stmt → List TokenKind
  | ⟨_, _, body, _⟩ => Line.block (kindsOfBody .ifTest body)

def kindsOfFunctions : List (FunctionDef Stmt) → List TokenKind
  | [] => []
  | definition :: others =>
    (definition.head ++ kindsOfFunction definition) ++ kindsOfFunctions others

def kindsOfBody (word : Keyword) : List Stmt → List TokenKind
  | [] => []
  | stmt :: others => kinds word stmt ++ kindsOfBody word others

def kindsOfElse : Option (List Stmt) → List TokenKind
  | none => []
  | some body =>
    if isChained chosen body then kindsOfBody .elifTest body
    else [.keyword .elseBranch, .symbol .colon] ++ Line.block (kindsOfBody .ifTest body)

end

end

variable {chosen : Stmt → Bool} {classes : List String}

theorem lines_ne_nil (word : Keyword) (level : Nat) (stmt : Stmt) :
    lines chosen word level stmt ≠ [] := by
  cases stmt <;> simp [lines]

theorem linesOfBody_ne_nil {body : List Stmt} (h : (!body.isEmpty) = true) (word : Keyword)
    (level : Nat) : linesOfBody chosen word level body ≠ [] := by
  cases body with
  | nil => cases h
  | cons stmt others =>
    exact List.append_ne_nil_of_left_ne_nil (lines_ne_nil word level stmt) _

variable [IdentifierTables]

/-- The lines of a statement stand for its tokens. -/
def Unfolds (chosen : Stmt → Bool) (stmt : Stmt) : Prop :=
  ∀ word level, Line.Spells level (lines chosen word level stmt) (kinds chosen word stmt)

theorem spells_body {body : List Stmt} (h : ∀ stmt ∈ body, Unfolds chosen stmt) (word : Keyword)
    (level : Nat) :
    Line.Spells level (linesOfBody chosen word level body) (kindsOfBody chosen word body) := by
  induction body with
  | nil => exact .nil level
  | cons stmt others ih =>
    obtain ⟨hstmt, hothers⟩ := List.forall_mem_cons.mp h
    exact (hstmt word level).append (ih hothers)

theorem spells_else {elseBody : Option (List Stmt)}
    (h : ∀ body ∈ elseBody, (!body.isEmpty) = true ∧ ∀ stmt ∈ body, Unfolds chosen stmt)
    (level : Nat) :
    Line.Spells level (linesOfElse chosen level elseBody) (kindsOfElse chosen elseBody) := by
  cases elseBody with
  | none => exact .nil level
  | some body =>
    obtain ⟨hne, hbody⟩ := h body rfl
    rw [linesOfElse, kindsOfElse]
    split
    · exact spells_body hbody .elifTest level
    · have hclean : Clean [.keyword .elseBranch, .symbol .colon] :=
        .cons rfl rfl (.cons rfl rfl .nil)
      exact .block hclean (by simp) (linesOfBody_ne_nil hne _ _)
        (spells_body hbody .ifTest (level + 1))

theorem clean_test {word : Keyword} {test : Expr} (h : test.isWritable classes = true) :
    Clean (.keyword word :: (test.kinds ++ [.symbol .colon])) :=
  ((Expr.clean_kinds h).append (.cons rfl rfl .nil)).cons rfl rfl

theorem unfolds_of_isWritable {stmt : Stmt} (h : stmt.isWritable classes = true) :
    Unfolds chosen stmt := by
  have hbody {body : List Stmt} (hall : isWritableBody classes body = true)
      (ih : ∀ stmt ∈ body, stmt.isWritable classes = true → Unfolds chosen stmt) :
      ∀ stmt ∈ body, Unfolds chosen stmt := by
    rw [isWritableBody_eq_all, List.all_eq_true] at hall
    exact fun stmt hstmt => ih stmt hstmt (hall stmt hstmt)
  induction stmt using Stmt.induction with
  | function | classDef => cases h
  | branch test thenBody elseBody span ihThen ihElse =>
    simp only [isWritable, Bool.and_eq_true] at h
    obtain ⟨⟨⟨htest, hne⟩, hthen⟩, helse⟩ := h
    have hsecond : ∀ body ∈ elseBody,
        (!body.isEmpty) = true ∧ ∀ stmt ∈ body, Unfolds chosen stmt := by
      rintro body rfl
      obtain ⟨hne, hall⟩ := Bool.and_eq_true_iff.mp helse
      exact ⟨hne, hbody hall (ihElse body rfl)⟩
    intro word level
    have hhead : Clean ((branch test thenBody elseBody span).head word) := clean_test htest
    have hfirst := Line.Spells.block hhead (List.cons_ne_nil _ _)
      (linesOfBody_ne_nil hne .ifTest (level + 1)) (spells_body (hbody hthen ihThen) .ifTest _)
    exact hfirst.append (spells_else hsecond level)
  | loop test body span ih =>
    simp only [isWritable, Bool.and_eq_true] at h
    obtain ⟨⟨htest, hne⟩, hall⟩ := h
    intro word level
    exact .block (clean_test htest) (List.cons_ne_nil _ _) (linesOfBody_ne_nil hne _ _)
      (spells_body (hbody hall ih) .ifTest (level + 1))
  | assign target value span =>
    simp only [isWritable, Bool.and_eq_true] at h
    intro word level
    have hvalue : Clean (.symbol .assign :: value.kinds) := (Expr.clean_kinds h.2).cons rfl rfl
    exact .line ((Expr.clean_kinds h.1.2).append hvalue) (by simp) level
  | leave value span =>
    intro word level
    cases value with
    | none => exact .line (.cons rfl rfl .nil) (by simp) level
    | some value => exact .line ((Expr.clean_kinds h).cons rfl rfl) (by simp) level
  | pass | breakLoop | continueLoop =>
    exact fun word level => .line (.cons rfl rfl .nil) (by simp) level
  | eval expr span =>
    exact fun word level => .line (Expr.clean_kinds h) (Expr.kinds_ne_nil expr) level

/-! ### Definitions -/

theorem clean_head {definition : FunctionDef Stmt} (h : definition.isWritable classes = true) :
    Clean definition.head := by
  simp only [FunctionDef.isWritable, Bool.and_eq_true, List.all_eq_true] at h
  obtain ⟨⟨⟨⟨hname, hparams⟩, -⟩, -⟩, -⟩ := h
  have hclean : Clean (separated (definition.params.map fun param => [.identifier param.name])) := by
    refine .separated fun kinds hkinds => ?_
    obtain ⟨param, hparam, rfl⟩ := List.mem_map.mp hkinds
    exact .name (hparams param hparam) .nil
  exact .cons rfl rfl (.name hname (hclean.grouped.append (.cons rfl rfl .nil)))

theorem spells_function {definition : FunctionDef Stmt} (h : definition.isWritable classes = true)
    (level : Nat) :
    Line.Spells level (⟨level, definition.head⟩ :: linesOfFunction chosen (level + 1) definition)
      (definition.head ++ kindsOfFunction chosen definition) := by
  have hclean := clean_head h
  simp only [FunctionDef.isWritable, Bool.and_eq_true, List.all_eq_true] at h
  obtain ⟨⟨-, hne⟩, hbody⟩ := h
  cases definition
  exact .block hclean (List.cons_ne_nil _ _) (linesOfBody_ne_nil hne _ _)
    (spells_body (fun stmt hstmt => unfolds_of_isWritable (hbody stmt hstmt)) .ifTest (level + 1))

theorem spells_functions {definitions : List (FunctionDef Stmt)}
    (h : ∀ definition ∈ definitions, definition.isWritable classes = true) (level : Nat) :
    Line.Spells level (linesOfFunctions chosen level definitions)
      (kindsOfFunctions chosen definitions) := by
  induction definitions with
  | nil => exact .nil level
  | cons definition others ih =>
    obtain ⟨hdefinition, hothers⟩ := List.forall_mem_cons.mp h
    exact (spells_function hdefinition level).append (ih hothers)

theorem unfolds_of_isWritableOutside {stmt : Stmt} (h : stmt.isWritableOutside classes = true) :
    Unfolds chosen stmt := by
  cases stmt with
  | function definition span => exact fun _ level => spells_function h level
  | classDef name methods span =>
    simp only [isWritableOutside, Bool.and_eq_true, List.all_eq_true] at h
    obtain ⟨⟨hname, hne⟩, hmethods⟩ := h
    intro word level
    have hclean : Clean ((classDef name methods span).head word) :=
      .cons rfl rfl (.name hname (.cons rfl rfl .nil))
    have hlines : linesOfFunctions chosen (level + 1) methods ≠ [] := by
      cases methods with
      | nil => cases hne
      | cons => exact List.cons_ne_nil _ _
    exact .block hclean (List.cons_ne_nil _ _) hlines (spells_functions hmethods (level + 1))
  | _ => exact @unfolds_of_isWritable chosen classes _ _ h

end Stmt

/-! ### Programs -/

namespace Module

theorem unfolds_of_isWritableFrom [IdentifierTables] {chosen : Stmt → Bool} {classes : List String}
    {body : List Stmt} (h : isWritableFrom classes body = true) :
    ∀ stmt ∈ body, Stmt.Unfolds chosen stmt := by
  induction body generalizing classes with
  | nil => exact List.forall_mem_nil _
  | cons stmt others ih =>
    obtain ⟨hstmt, hothers⟩ := Bool.and_eq_true_iff.mp h
    exact List.forall_mem_cons.mpr ⟨Stmt.unfolds_of_isWritableOutside hstmt, ih hothers⟩

/-- The text of a program is cut into the tokens of its statements. -/
theorem exists_tokens_of_text [IdentifierTables] {program : Module} (h : program.isWritable = true)
    (chosen : Stmt → Bool) (hlength : (program.text chosen).length < Lexer.widthBound)
    (tabWidth : Nat) :
    ∃ tokens, tokens.map Token.kind =
        Stmt.kindsOfBody chosen .ifTest program.body ++ [.layout .endOfInput] ∧
      tokenize (program.text chosen) tabWidth = .ok tokens := by
  have hbody : ∀ stmt ∈ program.body, Stmt.Unfolds chosen stmt := unfolds_of_isWritableFrom h
  have hspells := Stmt.spells_body hbody .ifTest 0
  have hend : Line.Follows 0 [] := fun before _ => .nil before
  have hstepped := hspells.follows hend 0 (Nat.zero_le _)
  have hkinds := hspells.tokens (show Line.Under 0 [] from trivial)
  rw [List.append_nil] at hstepped hkinds
  obtain ⟨tokens, htokens, hok⟩ := Line.tokenize_textAll hspells.sound hstepped hlength tabWidth
  exact ⟨tokens, htokens.trans hkinds, hok⟩

end Module

end Offside
