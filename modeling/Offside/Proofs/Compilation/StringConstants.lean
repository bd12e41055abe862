/-
String constants in quotes.  What is written for a text is read back as a literal with this text and
nothing else, and what is read as a literal is written again as it was, but for tabs and carriage
returns.  Outlines and listings show every string constant in this form, on one line.
-/
import Offside.Proofs.Compilation.ListingText
import Offside.Proofs.Program.Numbering
import Offside.Proofs.Token.Rows
import Offside.Proofs.Token.StringItems
import Offside.Text.IdentifierRanges

namespace Offside

/-! ### Writing a literal again -/

namespace Quoted

/-- A character of a literal, with a tab or a carriage return written as its escape. -/
def visible : Char → List Char
  | '\t' => ['\\', 't']
  | '\r' => ['\\', 'r']
  | c => [c]

theorem encodeChar_of_plain {c : Char} (hquote : c ≠ '"') (hescape : c ≠ '\\') (hline : c ≠ '\n') :
    encodeChar c = visible c := by
  unfold visible
  split
  · rfl
  · rfl
  · next htab hreturn =>
    have hnone : escape? c = none := by
      unfold escape?
      split <;> first | rfl | contradiction
    rw [encodeChar, hnone]

theorem encodeChar_of_mem_escapes {c meant : Char} (h : (c, meant) ∈ escapes) :
    encodeChar meant = '\\' :: visible c := by
  have hentries : ∀ entry ∈ escapes, encodeChar entry.2 = '\\' :: visible entry.1 := by decide
  exact hentries (c, meant) h

/-- The items of a literal are what is written for their value, up to tabs and carriage returns. -/
theorem encode_of_items {items value : List Char} (h : StringItems items value) :
    encode value = items.flatMap visible := by
  induction h with
  | nil => rfl
  | plain hquote hescape hline _ ih =>
    rw [encode_cons, encodeChar_of_plain hquote hescape hline, ih, List.flatMap_cons]
  | escaped hmem _ ih =>
    rw [encode_cons, encodeChar_of_mem_escapes hmem, ih, List.flatMap_cons, List.flatMap_cons]
    rfl

theorem ne_of_mem_encodeChar {c d : Char} (h : d ∈ encodeChar c) : d ≠ '\n' ∧ d ≠ '\r' := by
  unfold encodeChar at h
  split at h
  · next letter hescape =>
    have hletter : letter ≠ '\n' ∧ letter ≠ '\r' := by
      unfold escape? at hescape
      split at hescape <;> cases hescape <;> decide
    rcases List.mem_pair.mp h with rfl | rfl
    · decide
    · exact hletter
  · next hnone =>
    rw [List.mem_singleton] at h
    subst h
    constructor <;> (rintro rfl; cases hnone)

/-- What is written for a text is one line. -/
theorem ne_of_mem_literal {text : String} {c : Char} (h : c ∈ (literal text).toList) :
    c ≠ '\n' ∧ c ≠ '\r' := by
  rw [toList_literal, List.mem_cons, List.mem_append, List.mem_singleton] at h
  rcases h with rfl | h | rfl
  · decide
  · obtain ⟨d, -, hc⟩ := List.mem_flatMap.mp h
    exact ne_of_mem_encodeChar hc
  · decide

/-- What is written for a text is all that is read of it. -/
theorem tokenize_literal [IdentifierTables] (text : String) (tabWidth : Nat) :
    tokenize (literal text) tabWidth =
    .ok [⟨.literal (.str text), literal text,
        ⟨Position.first, Position.first.after (literal text).toList⟩⟩,
      Token.mark .newline (Position.first.after (literal text).toList),
      Token.mark .endOfInput (Position.first.after (literal text).toList)] := by
  have hreads : Lexer.ReadsAs _ [] _ := .string (Lexer.stringBody_encode text.toList)
  rw [← toList_literal, String.ofList_toList] at hreads
  have htokens := tokenize_lexeme hreads tabWidth
  rwa [String.ofList_toList] at htokens

end Quoted

namespace Lexer

variable {lexer after : Lexer} {token : Token}

/-- A literal that is read is written again with its tabs and carriage returns escaped. -/
theorem exists_value_of_scanString (htaken : lexer.taken = ['"'])
    (h : lexer.scanString = (.ok token, after)) :
    ∃ value, token.kind = .literal (.str value) ∧
      (Quoted.literal value).toList = token.lexeme.toList.flatMap Quoted.visible := by
  obtain ⟨run, tail, value, -, hbody, rfl, rfl⟩ := scanString_ok h
  obtain ⟨items, rfl, hitems⟩ := hbody.exists_items
  have hlexeme : ((lexer.past (items ++ ['"']) tail).token
      (.literal (.str (String.ofList value)))).lexeme.toList = '"' :: (items ++ ['"']) := by
    simp [Lexer.token, lexeme, past, htaken]
  refine ⟨String.ofList value, rfl, ?_⟩
  rw [hlexeme, Quoted.toList_literal, String.toList_ofList, Quoted.encode_of_items hitems,
    List.flatMap_cons, List.flatMap_append]
  rfl

end Lexer

/-! ### Constants in outlines -/

/-- The expressions of a visited statement, and those inside of them. -/
def Visit.exprs (visit : Visit) : List Expr := visit.stmt.ownExprs.flatMap Expr.parts

namespace Outline

/-- Whether the lines of an outline show a constant with this value. -/
def ShowsConstant (outline : Outline) (value : Literal) : Prop :=
  ∀ depth, ∃ entry ∈ entriesAt depth outline,
    entry.form = "Constant" ∧ entry.value = some value.text

section

variable {value : Literal} {span : Span} {id : Nat} {role : Option Role}

theorem showsConstant_of_child {child : Outline} {children : List Outline} {form : String}
    {label : Option String} (h : child.ShowsConstant value) (hmem : child ∈ children) :
    (node id form label role children).ShowsConstant value := by
  intro depth
  obtain ⟨entry, hentry, hconstant⟩ := h (depth + 1)
  refine ⟨entry, ?_, hconstant⟩
  rw [entriesAt, entriesOf_eq_flatMap]
  exact List.mem_cons_of_mem _ (List.mem_flatMap.mpr ⟨child, hmem, hentry⟩)

theorem exists_mem_ofArgs {arg : Expr} {args : List Expr} (h : arg ∈ args) (id : Nat) :
    ∃ next, (ofExpr arg (some .arg) next).1 ∈ (ofArgs args id).1 := by
  induction args generalizing id with
  | nil => cases h
  | cons first others ih =>
    rcases List.mem_cons.mp h with rfl | h
    · exact ⟨id, List.mem_cons_self⟩
    · obtain ⟨next, hnext⟩ := ih h _
      exact ⟨next, List.mem_cons_of_mem _ hnext⟩

theorem exists_mem_ofBody {s : Stmt} {body : List Stmt} (h : s ∈ body) (role : Option Role)
    (id : Nat) : ∃ next, (ofStmt s role next).1 ∈ (ofBody body role id).1 := by
  induction body generalizing id with
  | nil => cases h
  | cons first others ih =>
    rcases List.mem_cons.mp h with rfl | h
    · exact ⟨id, List.mem_cons_self⟩
    · obtain ⟨next, hnext⟩ := ih h _
      exact ⟨next, List.mem_cons_of_mem _ hnext⟩

theorem exists_mem_ofMethods {method : FunctionDef Stmt} {methods : List (FunctionDef Stmt)}
    (h : method ∈ methods) (id : Nat) :
    ∃ next, (ofFunction method (some .method) next).1 ∈ (ofMethods methods id).1 := by
  induction methods generalizing id with
  | nil => cases h
  | cons first others ih =>
    rcases List.mem_cons.mp h with rfl | h
    · exact ⟨id, List.mem_cons_self⟩
    · obtain ⟨next, hnext⟩ := ih h _
      exact ⟨next, List.mem_cons_of_mem _ hnext⟩

/-- Expressions that are arguments show their constants one by one. -/
theorem exists_shows_ofArgs {args : List Expr}
    (ih : ∀ arg ∈ args, Expr.constant value span ∈ arg.parts →
      ∀ role id, (ofExpr arg role id).1.ShowsConstant value)
    (h : Expr.constant value span ∈ Expr.partsAll args) (id : Nat) :
    ∃ child ∈ (ofArgs args id).1, child.ShowsConstant value := by
  rw [Expr.partsAll_eq_flatMap] at h
  obtain ⟨arg, harg, hconstant⟩ := List.mem_flatMap.mp h
  obtain ⟨next, hnext⟩ := exists_mem_ofArgs harg id
  exact ⟨_, hnext, ih arg harg hconstant _ _⟩

/-- The outline of an expression shows every constant in it. -/
theorem showsConstant_ofExpr (e : Expr) (h : Expr.constant value span ∈ e.parts)
    (role : Option Role) (id : Nat) : (ofExpr e role id).1.ShowsConstant value := by
  induction e using Expr.induction generalizing role id with
  | constant other span' =>
    obtain ⟨rfl, rfl⟩ := Expr.constant.inj (List.mem_singleton.mp h)
    exact fun depth => ⟨_, List.mem_cons_self, rfl, rfl⟩
  | name => cases List.mem_singleton.mp h
  | binary op left right _ ihLeft ihRight =>
    have hinside : Expr.constant value span ∈ left.parts ++ right.parts :=
      (List.mem_cons.mp h).resolve_left nofun
    rcases List.mem_append.mp hinside with h | h
    · exact showsConstant_of_child (ihLeft h _ _) List.mem_cons_self
    · exact showsConstant_of_child (ihRight h _ _) (List.mem_cons_of_mem _ List.mem_cons_self)
  | unary op operand _ ih =>
    exact showsConstant_of_child (ih ((List.mem_cons.mp h).resolve_left nofun) _ _)
      List.mem_cons_self
  | call callee args _ ihCallee ihArgs =>
    have hinside : Expr.constant value span ∈ callee.parts ++ Expr.partsAll args :=
      (List.mem_cons.mp h).resolve_left nofun
    rcases List.mem_append.mp hinside with h | h
    · exact showsConstant_of_child (ihCallee h _ _) List.mem_cons_self
    · obtain ⟨child, hmem, hchild⟩ := exists_shows_ofArgs ihArgs h _
      exact showsConstant_of_child hchild (List.mem_cons_of_mem _ hmem)
  | methodCall receiver method args _ ihReceiver ihArgs =>
    have hinside : Expr.constant value span ∈ receiver.parts ++ Expr.partsAll args :=
      (List.mem_cons.mp h).resolve_left nofun
    rcases List.mem_append.mp hinside with h | h
    · exact showsConstant_of_child (ihReceiver h _ _) List.mem_cons_self
    · obtain ⟨child, hmem, hchild⟩ := exists_shows_ofArgs ihArgs h _
      exact showsConstant_of_child hchild (List.mem_cons_of_mem _ hmem)
  | construct className args _ ihArgs =>
    obtain ⟨child, hmem, hchild⟩ :=
      exists_shows_ofArgs ihArgs ((List.mem_cons.mp h).resolve_left nofun) _
    exact showsConstant_of_child hchild hmem
  | member receiver attr _ ih =>
    exact showsConstant_of_child (ih ((List.mem_cons.mp h).resolve_left nofun) _ _)
      List.mem_cons_self

/-- The outline of a statement shows the constants in its own expressions. -/
theorem showsConstant_of_ownExprs {s : Stmt}
    (h : Expr.constant value span ∈ s.ownExprs.flatMap Expr.parts) (role : Option Role) (id : Nat) :
    (ofStmt s role id).1.ShowsConstant value := by
  obtain ⟨e, he, hconstant⟩ := List.mem_flatMap.mp h
  have hshows := showsConstant_ofExpr e hconstant
  cases s with
  | function | classDef | pass | breakLoop | continueLoop => cases he
  | assign target value' _ =>
    rcases List.mem_pair.mp he with rfl | rfl
    · exact showsConstant_of_child (hshows _ _) List.mem_cons_self
    · exact showsConstant_of_child (hshows _ _) (List.mem_cons_of_mem _ List.mem_cons_self)
  | branch | loop | eval =>
    cases List.mem_singleton.mp he
    exact showsConstant_of_child (hshows _ _) List.mem_cons_self
  | leave value' _ =>
    cases value' with
    | none => cases he
    | some value' =>
      cases List.mem_singleton.mp he
      exact showsConstant_of_child (hshows _ _) List.mem_cons_self

/-- A statement whose outline shows the constant `expr`, if it stands anywhere in the statement. -/
def ShowsInside (expr : Expr) (value : Literal) (s : Stmt) : Prop :=
  ∀ standing, expr ∈ (s.visits standing).flatMap Visit.exprs →
    ∀ role id, (ofStmt s role id).1.ShowsConstant value

theorem exists_shows_ofBody {expr : Expr} {body : List Stmt} {standing : Standing}
    (ih : ∀ s ∈ body, ShowsInside expr value s)
    (h : expr ∈ (Stmt.visitsOfBody standing body).flatMap Visit.exprs) (role : Option Role)
    (id : Nat) : ∃ child ∈ (ofBody body role id).1, child.ShowsConstant value := by
  rw [Stmt.visitsOfBody_eq_flatMap, List.flatMap_assoc] at h
  obtain ⟨s, hs, hexpr⟩ := List.mem_flatMap.mp h
  obtain ⟨next, hnext⟩ := exists_mem_ofBody hs role id
  exact ⟨_, hnext, ih s hs standing hexpr _ _⟩

theorem showsConstant_ofFunction {expr : Expr} {definition : FunctionDef Stmt}
    (ih : ∀ s ∈ definition.body, ShowsInside expr value s)
    (h : expr ∈ (Stmt.visitsOfFunction definition).flatMap Visit.exprs) (role : Option Role)
    (id : Nat) : (ofFunction definition role id).1.ShowsConstant value := by
  obtain ⟨name, params, body, span'⟩ := definition
  obtain ⟨child, hmem, hchild⟩ := exists_shows_ofBody ih h _ _
  exact showsConstant_of_child hchild (List.mem_append_right _ hmem)

/-- The outline of a statement shows every constant that stands anywhere in it. -/
theorem showsInside (value : Literal) (span : Span) (s : Stmt) :
    ShowsInside (.constant value span) value s := by
  -- a constant stands in an expression of the statement, or else in a statement inside of it
  have hown {s : Stmt} {standing : Standing} {inside : List Visit}
      (hvisits : s.visits standing = ⟨s, standing⟩ :: inside)
      (h : Expr.constant value span ∈ (s.visits standing).flatMap Visit.exprs) :
      (∀ role id, (ofStmt s role id).1.ShowsConstant value) ∨
        Expr.constant value span ∈ inside.flatMap Visit.exprs := by
    rw [hvisits, List.flatMap_cons] at h
    exact (List.mem_append.mp h).imp_left showsConstant_of_ownExprs
  induction s using Stmt.induction with
  | function definition span ih =>
    intro standing h role id
    rcases hown rfl h with hshows | hinside
    · exact hshows role id
    · exact showsConstant_ofFunction ih hinside role id
  | classDef name methods _ ih =>
    intro standing h role id
    rcases hown rfl h with hshows | hinside
    · exact hshows role id
    · change _ ∈ (Stmt.visitsOfMethods methods).flatMap Visit.exprs at hinside
      rw [Stmt.visitsOfMethods_eq_flatMap, List.flatMap_assoc] at hinside
      obtain ⟨method, hmethod, hexpr⟩ := List.mem_flatMap.mp hinside
      obtain ⟨next, hnext⟩ := exists_mem_ofMethods hmethod (id + 1)
      exact showsConstant_of_child (showsConstant_ofFunction (ih method hmethod) hexpr _ _) hnext
  | branch test thenBody elseBody _ ihThen ihElse =>
    intro standing h role id
    rcases hown rfl h with hshows | hinside
    · exact hshows role id
    · change _ ∈ (Stmt.visitsOfBody standing.inBranch thenBody ++
        Stmt.visitsOfElse standing.inBranch elseBody).flatMap Visit.exprs at hinside
      rw [List.flatMap_append] at hinside
      rcases List.mem_append.mp hinside with hthen | helse
      · obtain ⟨child, hmem, hchild⟩ := exists_shows_ofBody ihThen hthen _ _
        exact showsConstant_of_child hchild
          (List.mem_cons_of_mem _ (List.mem_append_left _ hmem))
      · cases elseBody with
        | none => cases helse
        | some body =>
          obtain ⟨child, hmem, hchild⟩ := exists_shows_ofBody (ihElse body rfl) helse _ _
          exact showsConstant_of_child hchild
            (List.mem_cons_of_mem _ (List.mem_append_right _ hmem))
  | loop test body _ ih =>
    intro standing h role id
    rcases hown rfl h with hshows | hinside
    · exact hshows role id
    · obtain ⟨child, hmem, hchild⟩ := exists_shows_ofBody ih hinside _ _
      exact showsConstant_of_child hchild (List.mem_cons_of_mem _ hmem)
  | assign | leave | pass | breakLoop | continueLoop | eval =>
    intro standing h role id
    rcases hown rfl h with hshows | hinside
    · exact hshows role id
    · cases hinside

end

end Outline

namespace Module

/-- Every constant of a program has a line in the outline that ends with it. -/
theorem exists_line_of_constant {program : Module} {value : Literal} {span : Span}
    (h : Expr.constant value span ∈ program.exprs) :
    ∃ line ∈ program.outlineLines,
      ("Constant(" ++ value.text ++ ")").toList <:+ line.toList := by
  have hvisits : Expr.constant value span ∈
      (Stmt.visitsOfBody .outside program.body).flatMap Visit.exprs := by
    rw [Stmt.visitsOfBody_eq_flatMap]
    rwa [exprs, stmts, List.flatMap_map] at h
  obtain ⟨child, hmem, hchild⟩ := Outline.exists_shows_ofBody
    (fun s _ => Outline.showsInside value span s) hvisits none 1
  obtain ⟨entry, hentry, hform, hvalue⟩ := hchild 0
  refine ⟨entry.text, ?_, ?_⟩
  · rw [outlineLines, Outline.linesOf_eq, Outline.entriesOf_eq_flatMap]
    exact List.mem_map.mpr ⟨entry, List.mem_flatMap.mpr ⟨child, hmem, hentry⟩, rfl⟩
  · obtain ⟨depth, form, label, role⟩ := entry
    obtain rfl : form = "Constant" := hform
    obtain rfl : label = some value.text := hvalue
    cases role with
    | none => exact ⟨List.replicate (2 * depth) ' ', by simp [Outline.Entry.text, Outline.label]⟩
    | some role =>
      exact ⟨List.replicate (2 * depth) ' ' ++ (role.text.toList ++ [':', ' ']),
        by simp [Outline.Entry.text, Outline.label]⟩

end Module

/-! ### Constants in listings -/

namespace Operand

/-- The value of a constant, or of the constant whose attribute is read. -/
def constant? : Operand → Option Literal
  | const value => some value
  | attr base _ => base.constant?
  | _ => none

theorem text_infix_of_constant? {operand : Operand} {value : Literal}
    (h : operand.constant? = some value) : value.text.toList <:+: operand.text.toList := by
  induction operand with
  | temp | var => cases h
  | const other =>
    cases h
    exact List.infix_rfl
  | attr base name ih =>
    rw [text, String.append_assoc, String.toList_append]
    exact (ih h).trans (List.prefix_append _ _).isInfix

end Operand

namespace Instruction

theorem exists_mem_listPieces {word : String} {words : List String} (h : word ∈ words)
    (back : String) : ∃ mark, (mark, word) ∈ listPieces back words := by
  cases words with
  | nil => cases h
  | cons first others =>
    rcases List.mem_cons.mp h with rfl | h
    · exact ⟨'(', List.mem_cons_self⟩
    · refine ⟨' ', List.mem_cons_of_mem _ (List.mem_append_left _ ?_)⟩
      exact List.mem_flatMap.mpr ⟨word, h, List.mem_cons_of_mem _ List.mem_cons_self⟩

/-- Every operand has its text in a piece of the text of an instruction. -/
theorem exists_piece_of_mem_operands {i : Instruction} {operand : Operand}
    (h : operand ∈ i.operands) :
    ∃ part ∈ i.pieces.2, operand.text.toList <:+: part.2.toList := by
  have hwhole {parts : List (Char × String)} (mark : Char)
      (hpart : (mark, operand.text) ∈ parts) :
      ∃ part ∈ parts, operand.text.toList <:+: part.2.toList :=
    ⟨_, hpart, List.infix_rfl⟩
  have hargs {args : List Operand} (harg : operand ∈ args) (front : List (Char × String)) :
      ∃ part ∈ front ++ listPieces "" (args.map Operand.text),
        operand.text.toList <:+: part.2.toList := by
    obtain ⟨mark, hmark⟩ := exists_mem_listPieces (List.mem_map_of_mem harg) ""
    exact hwhole mark (List.mem_append_right front hmark)
  cases i with
  | assign result source =>
    cases List.mem_singleton.mp h
    exact hwhole ' ' (by simp [pieces])
  | store source target =>
    rcases List.mem_pair.mp h with rfl | rfl
    · exact hwhole ' ' (by simp [pieces])
    · exact hwhole ' ' (by simp [pieces, Place.text])
  | call result callee args =>
    rcases List.mem_cons.mp h with rfl | h
    · exact hwhole ' ' (by simp [pieces])
    · exact hargs h _
  | methodCall result receiver method args =>
    rcases List.mem_cons.mp h with rfl | h
    · refine ⟨(' ', (Operand.attr operand method).text), by simp [pieces], ?_⟩
      rw [Operand.text, String.append_assoc, String.toList_append]
      exact (List.prefix_append _ _).isInfix
    · exact hargs h _
  | construct result className args => exact hargs h _
  | binary result op left right =>
    rcases List.mem_pair.mp h with rfl | rfl
    · exact hwhole ' ' (by simp [pieces])
    · exact hwhole ' ' (by simp [pieces])
  | unary result op source =>
    cases List.mem_singleton.mp h
    cases op with
    | neg =>
      refine ⟨(' ', "-" ++ operand.text), by simp [pieces], ?_⟩
      rw [String.toList_append]
      exact (List.suffix_append _ _).isInfix
    | not => exact hwhole ' ' (by simp [pieces])
  | leave value =>
    cases value with
    | none => cases h
    | some value =>
      cases List.mem_singleton.mp h
      exact hwhole ' ' (by simp [pieces])
  | label | jump => cases h
  | branch condition target =>
    cases List.mem_singleton.mp h
    exact hwhole ' ' (by simp [pieces])

/-- The line of an instruction shows the text of each operand. -/
theorem text_infix_line {i : Instruction} {operand : Operand} (h : operand ∈ i.operands) :
    operand.text.toList <:+: i.line.toList := by
  obtain ⟨part, hpart, hinfix⟩ := exists_piece_of_mem_operands h
  obtain ⟨front, back, hparts⟩ := List.append_of_mem hpart
  have hpiece : part.2.toList <:+: i.line.toList := by
    rw [line, String.toList_append, toList_text, hparts, joined, List.flatMap_append,
      List.flatMap_cons]
    refine ⟨"    ".toList ++ (i.pieces.1.toList ++
      front.flatMap (fun part => part.1 :: part.2.toList) ++ [part.1]),
      back.flatMap (fun part => part.1 :: part.2.toList), ?_⟩
    simp
  exact hinfix.trans hpiece

end Instruction

namespace Listing

theorem line_mem_lines {listing : Listing} {code : List Instruction} {i : Instruction}
    (hcode : code ∈ listing.scopes) (hi : i ∈ code) : i.line ∈ listing.lines := by
  rcases List.mem_cons.mp hcode with rfl | hcode
  · exact List.mem_append_right _ (List.mem_cons_of_mem _ (List.mem_map_of_mem hi))
  · obtain ⟨procedure, hprocedure, rfl⟩ := List.mem_map.mp hcode
    refine List.mem_append_left _ (List.mem_flatMap.mpr ⟨procedure, hprocedure, ?_⟩)
    exact List.mem_cons_of_mem _ (List.mem_append_left _ (List.mem_map_of_mem hi))

end Listing

/-- What is written for a text in quotes is read as a literal with this text and with everything
that was written as its lexeme, and then the line and the input end.  Whatever is read as a literal
is written again as it was, but with an escape for every tab and every carriage return.  So
different texts are written differently, each on one line, and every string constant of a program
stands in this form in a line of its outline, and every one of a listing in the line of its
instruction. -/
theorem Quoted.literal_readsBack [IdentifierTables] :
    (∀ text tabWidth, tokenize (literal text) tabWidth =
      .ok [⟨.literal (.str text), literal text,
          ⟨Position.first, Position.first.after (literal text).toList⟩⟩,
        Token.mark .newline (Position.first.after (literal text).toList),
        Token.mark .endOfInput (Position.first.after (literal text).toList)]) ∧
    (∀ (lexer after : Lexer) token, lexer.taken = ['"'] →
      lexer.scanString = (.ok token, after) →
      ∃ value, token.kind = .literal (.str value) ∧
        (literal value).toList = token.lexeme.toList.flatMap visible) ∧
    (∀ first second, literal first = literal second → first = second) ∧
    (∀ text, ∀ c ∈ (literal text).toList, c ≠ '\n' ∧ c ≠ '\r') ∧
    (∀ (program : Module) text span, Expr.constant (.str text) span ∈ program.exprs →
      ∃ line ∈ program.outlineLines, ("Constant(" ++ literal text ++ ")").toList <:+ line.toList) ∧
    ∀ listing : Listing, listing.text = String.join (listing.lines.map (· ++ "\n")) ∧
      ∀ code ∈ listing.scopes, ∀ i ∈ code, i.line ∈ listing.lines ∧
        ∀ operand ∈ i.operands, ∀ text, operand.constant? = some (.str text) →
          (literal text).toList <:+: i.line.toList := by
  refine ⟨tokenize_literal, fun _ _ _ => Lexer.exists_value_of_scanString,
    fun _ _ => literal_inj, fun _ _ => ne_of_mem_literal, fun program text span hconstant => ?_,
    fun listing => ⟨listing.text_eq_join, ?_⟩⟩
  · have hline := Module.exists_line_of_constant hconstant
    rwa [Literal.text] at hline
  · intro code hcode i hi
    refine ⟨Listing.line_mem_lines hcode hi, fun operand hoperand text hconstant => ?_⟩
    have htext := Operand.text_infix_of_constant? hconstant
    rw [Literal.text] at htext
    exact htext.trans (Instruction.text_infix_line hoperand)

namespace StringConstantsWitness

/-- A text that ends in a backslash behind a line feed. -/
def text : String := "a\n\\"

/-- A lexer behind the quote of a literal with a raw tab. -/
def opened : Lexer := (Lexer.ofString "\"a\tb\"" 4).advance

def tabbed : Token := ⟨.literal (.str "a\tb"), "\"a\tb\"", ⟨⟨1, 1, 0⟩, ⟨1, 6, 5⟩⟩⟩

def span : Span := ⟨Position.first, Position.first⟩

def program : Module := ⟨[.eval (.constant (.str text) span) span], span⟩

def listing : Listing := ⟨[], [.assign ⟨1⟩ (.const (.str text))]⟩

theorem readsBack_of_text :
    (∃ mark last, tokenize "\"a\\n\\\\\"" 4 = .ok
      [⟨.literal (.str text), "\"a\\n\\\\\"", ⟨⟨1, 1, 0⟩, ⟨1, 8, 7⟩⟩⟩, mark, last]) ∧
    opened.taken = ['"'] ∧ opened.scanString.1 = .ok tabbed ∧
    (∃ value, tabbed.kind = .literal (.str value) ∧
      (Quoted.literal value).toList = "\"a\\tb\"".toList) ∧
    (∃ line ∈ program.outlineLines, "Constant(\"a\\n\\\\\")".toList <:+ line.toList) ∧
    ∃ line ∈ listing.lines, "\"a\\n\\\\\"".toList <:+: line.toList := by
  obtain ⟨htokens, hscan, -, -, houtline, hlisting⟩ := Quoted.literal_readsBack
  have hliteral : Quoted.literal text = "\"a\\n\\\\\"" := by decide +kernel
  have hread : opened.scanString = (.ok tabbed, opened.scanString.2) := by decide +kernel
  refine ⟨?_, by decide +kernel, congrArg Prod.fst hread, ?_, ?_, ?_⟩
  · have hall := htokens text 4
    rw [hliteral] at hall
    exact ⟨_, _, hall⟩
  · exact hscan opened _ tabbed (by decide +kernel) hread
  · have hline := houtline program text span List.mem_cons_self
    rwa [hliteral] at hline
  · obtain ⟨hmem, hshows⟩ :=
      (hlisting listing).2 listing.toplevel List.mem_cons_self _ List.mem_cons_self
    have hinfix := hshows _ List.mem_cons_self text rfl
    rw [hliteral] at hinfix
    exact ⟨_, hmem, hinfix⟩

end StringConstantsWitness

end Offside
