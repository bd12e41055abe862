/-
The spans of a program as a tree.  Every node of a program that is read from a text lies inside of
the one around it, and nodes that stand side by side do so in the order of the text.
-/
import Offside.Proofs.Grammar.Programs
import Offside.Proofs.Grammar.Spans
import Offside.Proofs.Program.Nodes
import Offside.Proofs.Token.Rows
import Offside.Text.IdentifierRanges

namespace Offside

/-! ### Well placed nodes -/

/-- A span inside of another one. -/
structure Span.Within (inner outer : Span) : Prop where
  start : outer.start.offset ≤ inner.start.offset
  stop : inner.stop.offset ≤ outer.stop.offset

/-- A span that ends before another one starts, or where it starts. -/
def Span.EndsBefore (first second : Span) : Prop := first.stop.offset ≤ second.start.offset

/-- A span that delimits just these characters of a text. -/
def Span.Quotes (span : Span) (text : String) (quoted : String) : Prop :=
  SourceText.between? span.start.offset span.stop.offset text.toList = some quoted.toList

/-- A text that is one literal and nothing else. -/
def IsLiteralText [IdentifierTables] (tabWidth : Nat) (text : String) (value : Literal) : Prop :=
  ∃ stop, tokenize text tabWidth = .ok [⟨.literal value, text, ⟨Position.first, stop⟩⟩,
    Token.mark .newline stop, Token.mark .endOfInput stop]

namespace Node

/-- The spans of names, of parameters and of constants are those of their texts. -/
def Quotes [IdentifierTables] (text : String) (tabWidth : Nat) : Node → Prop
  | expr (.name id span) => span.Quotes text id
  | expr (.constant value span) =>
    ∃ quoted, span.Quotes text quoted ∧ IsLiteralText tabWidth quoted value
  | param value => value.span.Quotes text value.name
  | _ => True

/-- An augmented assignment.  The target, which its value starts with, ends before the operand. -/
def Augments (node : Node) : Prop :=
  ∃ op target value span, node =
    .stmt (.assign target (.binary op target value (target.span.through value.span)) span) ∧
      target.span.EndsBefore value.span

/-- Where a node stands in a text. -/
structure WellPlaced [IdentifierTables] (node : Node) (text : String) (tabWidth : Nat) : Prop where
  forward : node.span.start.offset ≤ node.span.stop.offset
  stop_le : node.span.stop.offset ≤ text.utf8ByteSize
  within : ∀ child ∈ node.children, child.span.Within node.span
  inOrder : (node.children.map span).Pairwise Span.EndsBefore ∨ node.Augments
  quotes : node.Quotes text tabWidth

end Node

/-! ### Spans along tokens -/

/-- Spans over these tokens, one behind the other. -/
structure SpansAlong (spans : List Span) (tokens : List Token) : Prop where
  areOver : ∀ span ∈ spans, span.Over tokens
  forward : ∀ span ∈ spans, span.start.offset ≤ span.stop.offset
  inOrder : spans.Pairwise Span.EndsBefore

namespace SpansAlong

variable {spans others : List Span} {first last : Span} {tokens front back : List Token}
  {token : Token}

theorem nil : SpansAlong [] tokens := ⟨List.forall_mem_nil _, List.forall_mem_nil _, .nil⟩

theorem single (hover : first.Over tokens) (hforward : first.start.offset ≤ first.stop.offset) :
    SpansAlong [first] tokens :=
  ⟨List.forall_mem_singleton.mpr hover, List.forall_mem_singleton.mpr hforward,
    List.pairwise_singleton _ _⟩

theorem mono (h : SpansAlong spans front) (hsub : front ⊆ tokens) : SpansAlong spans tokens :=
  ⟨fun span hspan => (h.areOver span hspan).mono hsub, h.forward, h.inOrder⟩

theorem append (htokens : Ascending (front ++ back)) (hspans : SpansAlong spans front)
    (hothers : SpansAlong others back) : SpansAlong (spans ++ others) (front ++ back) where
  areOver := List.forall_mem_append.mpr
    ⟨fun span hspan => (hspans.areOver span hspan).mono (List.subset_append_left _ _),
      fun span hspan => (hothers.areOver span hspan).mono (List.subset_append_right _ _)⟩
  forward := List.forall_mem_append.mpr ⟨hspans.forward, hothers.forward⟩
  inOrder := by
    refine List.pairwise_append.mpr ⟨hspans.inOrder, hothers.inOrder, fun a ha b hb => ?_⟩
    obtain ⟨last, hlast, hstop⟩ := (hspans.areOver a ha).stop
    obtain ⟨first, hfirst, hstart⟩ := (hothers.areOver b hb).start
    rw [Span.EndsBefore, hstop, hstart]
    exact htokens.le_of_append hlast hfirst

/-- From the first of some spans to the last one all of them lie. -/
theorem within (h : SpansAlong spans tokens) (hfirst : spans.head? = some first)
    (hlast : spans.getLast? = some last) : ∀ span ∈ spans, span.Within (first.through last) := by
  intro span hspan
  constructor
  · obtain ⟨others, rfl⟩ := List.head?_eq_some_iff.mp hfirst
    rcases List.mem_cons.mp hspan with rfl | hother
    · exact Nat.le_refl _
    · exact Nat.le_trans (h.forward first List.mem_cons_self)
        ((List.pairwise_cons.mp h.inOrder).1 span hother)
  · obtain ⟨others, rfl⟩ := List.getLast?_eq_some_iff.mp hlast
    rcases List.mem_append.mp hspan with hother | hspan
    · have hbefore : span.EndsBefore last :=
        (List.pairwise_append.mp h.inOrder).2.2 span hother last (List.mem_singleton.mpr rfl)
      exact Nat.le_trans hbefore (h.forward last (by simp))
    · rw [List.mem_singleton.mp hspan]
      exact Nat.le_refl _

end SpansAlong

/-! ### Tokens of a text -/

/-- The span of a row is that of its text. -/
theorem Row.span_eq [IdentifierTables] {before run tail : List Char} {tokens : List Token}
    (h : Row before run tokens tail) :
    spanOf tokens = ⟨Position.first.after before, Position.first.after (before ++ run)⟩ := by
  induction h with
  | last hscan => rw [hscan.token_eq.2]; rfl
  | @more before run joint rest tail token tokens hscan _ hrow ih =>
    have hne : tokens ≠ [] := by cases hrow <;> exact List.cons_ne_nil _ _
    have hspan := spanOf_append (List.cons_ne_nil token []) hne []
    rw [ih] at hspan
    rw [show token :: tokens = [token] ++ [] ++ tokens from rfl, hspan, hscan.token_eq.2]
    simp [spanOf, Span.through, List.append_assoc]

/-- Tokens in the order of a text, each of which is read from it. -/
structure InText [IdentifierTables] (text : String) (tokens : List Token) : Prop where
  ascending : Ascending tokens
  quotes : ∀ token ∈ tokens, token.Quotes text
  reads : ∀ token ∈ tokens, token.kind.isLayout = false →
    Lexer.ReadsAs token.lexeme.toList [] token.kind

theorem inText_of_tokenize [IdentifierTables] {text : String} {tabWidth : Nat} {tokens : List Token}
    (h : tokenize text tabWidth = .ok tokens) : InText text tokens where
  ascending := ascending_of_tokenize h
  quotes token htoken := by
    obtain ⟨front, run, tail, hsplit, -, hlexeme, hspan⟩ :=
      (tiles_of_tokenize h).exists_of_mem htoken
    exact Token.quotes_of_split hsplit hlexeme hspan
  reads token htoken hkind := by
    obtain ⟨front, back, rfl⟩ := List.append_of_mem htoken
    have hsplit : front ++ token :: back = front ++ ([token] ++ back) := rfl
    obtain ⟨passed, found, tail, -, hrow, -⟩ := (cut_of_tokenize h).exists_row rfl hsplit
      (List.cons_ne_nil _ _) (List.forall_mem_singleton.mpr hkind)
    cases hrow with
    | last hscan =>
      rw [hscan.lexeme, String.toList_ofList]
      exact hscan.readsAs.1.shorten
    | more _ _ next => cases next

namespace InText

variable [IdentifierTables]
  {text : String} {tokens other front back : List Token} {token : Token} {span : Span}

theorem sublist (h : InText text tokens) (hsub : other.Sublist tokens) : InText text other where
  ascending := h.ascending.sublist hsub
  quotes token htoken := h.quotes token (hsub.subset htoken)
  reads token htoken := h.reads token (hsub.subset htoken)

theorem left (h : InText text (front ++ back)) : InText text front :=
  h.sublist (List.sublist_append_left _ _)

theorem right (h : InText text (front ++ back)) : InText text back :=
  h.sublist (List.sublist_append_right _ _)

theorem tail (h : InText text (token :: tokens)) : InText text tokens :=
  h.sublist (List.sublist_cons_self _ _)

/-- The spans of some of these tokens. -/
theorem spansAlong (h : InText text tokens) : SpansAlong (tokens.map Token.span) tokens where
  areOver := List.forall_mem_map.mpr fun _ htoken => .single htoken
  forward := List.forall_mem_map.mpr fun token htoken => (h.quotes token htoken).start_le
  inOrder := List.pairwise_map.mpr h.ascending.ordered

theorem single (h : InText text tokens) (htoken : token ∈ tokens) :
    SpansAlong [token.span] tokens :=
  .single (.single htoken) (h.quotes token htoken).start_le

theorem stop_le (h : InText text tokens) (hspan : span.Over tokens) :
    span.stop.offset ≤ text.utf8ByteSize := by
  obtain ⟨last, hlast, hstop⟩ := hspan.stop
  rw [hstop]
  exact (h.quotes last hlast).stop_le

/-- What lies over tokens lies between the first and the last of them. -/
theorem within (h : InText text tokens) (hspan : span.Over tokens) :
    span.Within (spanOf tokens) := by
  obtain ⟨⟨first, hfirst, hstart⟩, last, hlast, hstop⟩ := hspan
  obtain ⟨head, others, rfl⟩ := List.exists_cons_of_ne_nil (List.ne_nil_of_mem hfirst)
  obtain ⟨final, hfinal⟩ := Option.ne_none_iff_exists'.mp
    (mt List.getLast?_eq_none_iff.mp (List.cons_ne_nil head others))
  have hall := h.spansAlong.within (List.head?_map.trans rfl)
    (List.getLast?_map.trans (by rw [hfinal]; rfl))
  rw [spanOf, hfinal]
  constructor
  · rw [hstart]
    exact (hall _ (List.mem_map_of_mem hfirst)).start
  · rw [hstop]
    exact (hall _ (List.mem_map_of_mem hlast)).stop

end InText

/-! ### What words and literals quote -/

namespace TokenKind

/-- A word that is kept for nothing is the name that it spells. -/
theorem eq_of_ofWord {word name : String} (h : ofWord word = identifier name) : name = word := by
  rw [ofWord] at h
  cases hword : ofReservedWord? word with
  | none =>
    rw [hword] at h
    exact (TokenKind.identifier.inj h).symm
  | some kind =>
    rw [hword] at h
    rw [ofReservedWord?] at hword
    cases h
    split at hword
    · cases hword
    · split at hword
      · cases hword
      · split at hword <;> cases hword

end TokenKind

theorem IsLexeme.eq_of_identifier [IdentifierTables] {run : List Char} {kind : TokenKind}
    {name : String} (h : IsLexeme run kind) (hkind : kind = .identifier name) :
    name = String.ofList run := by
  cases h with
  | word => exact TokenKind.eq_of_ofWord hkind
  | number | string | symbol => cases hkind

namespace InText

variable [IdentifierTables] {text : String} {tokens : List Token} {token : Token}

theorem quotes_identifier (h : InText text tokens) (htoken : token ∈ tokens) {name : String}
    (hkind : token.kind = .identifier name) : token.span.Quotes text name := by
  have hlexeme := (h.reads token htoken (by rw [hkind]; rfl)).isLexeme.eq_of_identifier hkind
  rw [String.ofList_toList] at hlexeme
  rw [hlexeme]
  exact (h.quotes token htoken).lexeme

theorem quotes_literal (h : InText text tokens) (htoken : token ∈ tokens) {value : Literal}
    (hkind : token.kind = .literal value) (tabWidth : Nat) :
    token.span.Quotes text token.lexeme ∧ IsLiteralText tabWidth token.lexeme value := by
  refine ⟨(h.quotes token htoken).lexeme, Position.first.after token.lexeme.toList, ?_⟩
  have hall := tokenize_lexeme (h.reads token htoken (by rw [hkind]; rfl)) tabWidth
  rwa [String.ofList_toList, hkind] at hall

end InText

/-! ### Nodes along tokens -/

/-- Nodes over these tokens, one behind the other, with all their parts in place. -/
structure NodesAlong [IdentifierTables] (text : String) (tabWidth : Nat) (nodes : List Node)
    (tokens : List Token) :
    Prop where
  spans : SpansAlong (nodes.map Node.span) tokens
  inside : ∀ node ∈ nodes, ∀ part : Node, part.Inside node → part.WellPlaced text tabWidth

namespace NodesAlong

variable [IdentifierTables]
  {text : String} {tabWidth : Nat} {nodes others : List Node} {node : Node}
  {tokens front back : List Token} {spans : List Span} {first last : Span}

theorem nil : NodesAlong text tabWidth [] tokens := ⟨.nil, List.forall_mem_nil _⟩

theorem mono (h : NodesAlong text tabWidth nodes front) (hsub : front ⊆ tokens) :
    NodesAlong text tabWidth nodes tokens :=
  ⟨h.spans.mono hsub, h.inside⟩

theorem append (htext : InText text (front ++ back)) (hnodes : NodesAlong text tabWidth nodes front)
    (hothers : NodesAlong text tabWidth others back) :
    NodesAlong text tabWidth (nodes ++ others) (front ++ back) where
  spans := by
    rw [List.map_append]
    exact hnodes.spans.append htext.ascending hothers.spans
  inside := List.forall_mem_append.mpr ⟨hnodes.inside, hothers.inside⟩

/-- A node that is in its place, around nodes that are. -/
theorem single (hover : node.span.Over tokens) (hnode : node.WellPlaced text tabWidth)
    (hinside : ∀ child ∈ node.children, ∀ part : Node, part.Inside child →
      part.WellPlaced text tabWidth) : NodesAlong text tabWidth [node] tokens :=
  ⟨.single hover hnode.forward, List.forall_mem_singleton.mpr (Node.forall_inside hnode hinside)⟩

/-- A node from the first of some spans to the last one, around nodes that are among these. -/
theorem between (htext : InText text tokens) (hspans : SpansAlong spans tokens)
    (hfirst : spans.head? = some first) (hlast : spans.getLast? = some last)
    (hspan : node.span = first.through last)
    (hchildren : (node.children.map Node.span).Sublist spans)
    (hinside : ∀ child ∈ node.children, ∀ part : Node, part.Inside child →
      part.WellPlaced text tabWidth)
    (hquotes : node.Quotes text tabWidth) : NodesAlong text tabWidth [node] tokens := by
  have hover : node.span.Over tokens := by
    rw [hspan]
    exact .through (hspans.areOver first (List.mem_of_mem_head? hfirst))
      (hspans.areOver last (List.mem_of_getLast? hlast))
  have hwithin := hspans.within hfirst hlast
  refine single hover ⟨?_, htext.stop_le hover, fun child hchild => ?_,
    .inl (hspans.inOrder.sublist hchildren), hquotes⟩ hinside
  · rw [hspan]
    exact Nat.le_trans (hspans.forward first (List.mem_of_mem_head? hfirst))
      (hwithin first (List.mem_of_mem_head? hfirst)).stop
  · rw [hspan]
    exact hwithin _ (hchildren.subset (List.mem_map_of_mem hchild))

/-- A node of all tokens, around nodes over some of them. -/
theorem whole (htext : InText text tokens) (hne : tokens ≠ []) (hspan : node.span = spanOf tokens)
    (hover : ∀ child ∈ node.children, child.span.Over tokens)
    (hinside : ∀ child ∈ node.children, ∀ part : Node, part.Inside child →
      part.WellPlaced text tabWidth)
    (hinOrder : (node.children.map Node.span).Pairwise Span.EndsBefore ∨ node.Augments)
    (hquotes : node.Quotes text tabWidth) : NodesAlong text tabWidth [node] tokens := by
  have hnode : node.span.Over tokens := by
    rw [hspan]
    exact Span.OfPiece.toOver ⟨tokens, hne, List.infix_rfl, rfl⟩
  refine single hnode ⟨?_, htext.stop_le hnode, fun child hchild => ?_, hinOrder, hquotes⟩ hinside
  · obtain ⟨token, htoken⟩ := List.exists_mem_of_ne_nil tokens hne
    have hwithin := htext.within (.single htoken)
    rw [hspan]
    exact Nat.le_trans hwithin.start
      (Nat.le_trans (htext.quotes token htoken).start_le hwithin.stop)
  · rw [hspan]
    exact htext.within (hover child hchild)

/-- A node of all tokens, around nodes one behind the other. -/
theorem around (htext : InText text tokens) (hne : tokens ≠ []) (hspan : node.span = spanOf tokens)
    (hchildren : NodesAlong text tabWidth node.children tokens)
    (hquotes : node.Quotes text tabWidth) : NodesAlong text tabWidth [node] tokens :=
  whole htext hne hspan
    (fun _ hchild => hchildren.spans.areOver _ (List.mem_map_of_mem hchild)) hchildren.inside
    (.inl hchildren.spans.inOrder) hquotes

end NodesAlong

/-! ### Expressions -/

theorem Expr.children_called_sublist (classes : List String) (callee : Expr) (args : List Expr)
    (place : Span) : (callee.called classes args place).children.Sublist (callee :: args) := by
  rcases called_cases classes callee args place with h | ⟨className, span, -, -, h⟩ <;> rw [h]
  · exact List.Sublist.refl _
  · exact List.sublist_cons_self _ _

namespace NodesAlong

variable [IdentifierTables]
  {text : String} {tabWidth : Nat} {node object operand right : Node} {args : List Node}
  {tokens : List Token} {sign stop : Token}

/-- An operation on one operand, behind its sign. -/
theorem signed (htext : InText text (sign :: tokens))
    (hoperand : NodesAlong text tabWidth [operand] tokens)
    (hspan : node.span = sign.span.through operand.span) (hchildren : node.children = [operand])
    (hquotes : node.Quotes text tabWidth) : NodesAlong text tabWidth [node] (sign :: tokens) := by
  have hsign : SpansAlong [sign.span] [sign] :=
    .single (.single (List.mem_singleton.mpr rfl)) (htext.quotes sign List.mem_cons_self).start_le
  have hspans := SpansAlong.append htext.ascending hsign hoperand.spans
  refine .between htext hspans rfl rfl hspan ?_ (by rw [hchildren]; exact hoperand.inside) hquotes
  rw [hchildren]
  exact List.sublist_append_right _ _

/-- A call, up to its closing parenthesis. -/
theorem called (middle argTokens : List Token)
    (htext : InText text (tokens ++ (middle ++ (argTokens ++ [stop]))))
    (hobject : NodesAlong text tabWidth [object] tokens)
    (hargs : NodesAlong text tabWidth args argTokens)
    (hspan : node.span = object.span.through stop.span)
    (hchildren : node.children.Sublist (object :: args))
    (hquotes : node.Quotes text tabWidth) :
    NodesAlong text tabWidth [node] (tokens ++ (middle ++ (argTokens ++ [stop]))) := by
  have hstop : SpansAlong [stop.span] [stop] :=
    .single (.single (List.mem_singleton.mpr rfl)) (htext.quotes stop (by simp)).start_le
  have hbehind := SpansAlong.append htext.right.right.ascending hargs.spans hstop
  have hspans := SpansAlong.append htext.ascending hobject.spans
    (hbehind.mono (List.subset_append_right middle _))
  refine .between htext hspans rfl ?_ hspan ?_ (fun child hchild => ?_) hquotes
  · rw [List.map_singleton, List.singleton_append, ← List.cons_append, List.getLast?_concat]
  · rw [← List.append_assoc]
    exact (hchildren.map _).trans (List.sublist_append_left _ _)
  · rcases List.mem_cons.mp (hchildren.subset hchild) with rfl | harg
    · exact hobject.inside _ (List.mem_singleton.mpr rfl)
    · exact hargs.inside child harg

end NodesAlong

theorem Derives.nodesAlong [IdentifierTables] {classes : List String} {phrase : Phrase}
    {tokens : List Token} {text : String} {tabWidth : Nat} (h : Derives classes phrase tokens)
    (htext : InText text tokens) :
    NodesAlong text tabWidth (phrase.exprs.map .expr) tokens := by
  induction h with
  | @literal token value kind =>
    exact .between htext (htext.single (List.mem_singleton.mpr rfl)) rfl rfl rfl
      (List.nil_sublist _) (List.forall_mem_nil _)
      ⟨_, htext.quotes_literal (List.mem_singleton.mpr rfl) kind tabWidth⟩
  | @name token id kind =>
    exact .between htext (htext.single (List.mem_singleton.mpr rfl)) rfl rfl rfl
      (List.nil_sublist _) (List.forall_mem_nil _)
      (htext.quotes_identifier (List.mem_singleton.mpr rfl) kind)
  | group _ _ _ ih =>
    exact (ih htext.tail.left).mono (List.subset_cons_of_subset _ (List.subset_append_left _ _))
  | @call start stop callee args tokens argTokens _ _ _ _ ihCallee ihArgs =>
    refine .called [start] argTokens htext (ihCallee htext.left) (ihArgs htext.right.tail.left)
      (Expr.span_called _ _ _ _) ((Expr.children_called_sublist _ _ _ _).map _) ?_
    rcases Expr.called_cases classes callee args (callee.span.through stop.span) with
      h | ⟨className, span, -, -, h⟩ <;>
    · rw [h]
      trivial
  | @methodCall dot word start stop method receiver args tokens argTokens _ _ _ _ _ _ ihReceiver
      ihArgs =>
    exact .called [dot, word, start] argTokens htext (ihReceiver htext.left)
      (ihArgs htext.right.tail.tail.tail.left) rfl (List.Sublist.refl _) trivial
  | @member dot word attr receiver tokens _ _ _ ih =>
    exact .called [dot] [] htext (ih htext.left) .nil rfl
      (List.Sublist.refl _) trivial
  | neg _ _ ih | not _ _ ih => exact .signed htext (ih htext.tail) rfl rfl trivial
  | plus _ _ ih => exact (ih htext.tail).mono (List.subset_cons_self _ _)
  | @join sign rule left right leftTokens rightTokens _ _ _ ihLeft ihRight =>
    have hboth := NodesAlong.append htext (ihLeft htext.left)
      ((ihRight htext.right.tail).mono (List.subset_cons_self sign _))
    exact .between htext hboth.spans rfl rfl rfl (List.Sublist.refl _) hboth.inside trivial
  | widen _ _ ih => exact ih htext
  | noArgs => exact .nil
  | lastArg _ ih => exact ih htext
  | @moreArgs comma e others tokens otherTokens _ _ _ ihArg ihRest =>
    exact .append htext (ihArg htext.left)
      ((ihRest htext.right.tail).mono (List.subset_cons_self _ _))

/-! ### Statements -/

section

variable [IdentifierTables]
  {classes known : List String} {text : String} {tabWidth : Nat} {tokens : List Token}

theorem SimpleForm.nodesAlong {s : Stmt} (h : SimpleForm classes s tokens)
    (htext : InText text tokens) : NodesAlong text tabWidth [.stmt s] tokens := by
  have hne := h.ne_nil
  cases h with
  | assign _ _ place source =>
    exact .around htext hne rfl (.append htext (place.nodesAlong htext.left)
      ((source.nodesAlong htext.right.tail).mono (List.subset_cons_self _ _))) trivial
  | @augmented sign op target value targetTokens valueTokens _ _ place source =>
    -- the target stands in front of the operand, and both make the value that stands over them
    have hboth : NodesAlong text tabWidth [.expr target, .expr value]
        (targetTokens ++ sign :: valueTokens) := .append htext (place.nodesAlong htext.left)
      ((source.nodesAlong htext.right.tail).mono (List.subset_cons_self sign _))
    have hvalue : NodesAlong text tabWidth
        [.expr (.binary op target value (target.span.through value.span))]
        (targetTokens ++ sign :: valueTokens) :=
      .between htext hboth.spans rfl rfl rfl (List.Sublist.refl _) hboth.inside trivial
    refine .whole htext hne rfl ?_ ?_ (.inr ⟨op, target, value, _, rfl, ?_⟩) trivial
    · exact List.forall_mem_cons.mpr
        ⟨hboth.spans.areOver _ List.mem_cons_self, List.forall_mem_singleton.mpr
          (hvalue.spans.areOver _ (List.mem_singleton.mpr rfl))⟩
    · exact List.forall_mem_cons.mpr ⟨hboth.inside _ List.mem_cons_self, hvalue.inside⟩
    · exact (List.pairwise_cons.mp hboth.spans.inOrder).1 _ (List.mem_singleton.mpr rfl)
  | eval value => exact .around htext hne rfl (value.nodesAlong htext) trivial
  | leaveWith _ value =>
    exact .around htext hne rfl ((value.nodesAlong htext.tail).mono (List.subset_cons_self _ _))
      trivial
  | leave | pass | breakLoop | continueLoop => exact .around htext hne rfl .nil trivial

theorem ParamForm.nodesAlong {params : List Param} (h : ParamForm params tokens)
    (htext : InText text tokens) : NodesAlong text tabWidth (params.map .param) tokens := by
  have hparam {word : Token} {name : String} {tokens : List Token} (htext : InText text tokens)
      (hword : word ∈ tokens) (wordKind : word.kind = .identifier name) :
      NodesAlong text tabWidth [.param ⟨name, word.span⟩] tokens :=
    .between htext (htext.single hword) rfl rfl rfl (List.nil_sublist _) (List.forall_mem_nil _)
      (htext.quotes_identifier hword wordKind)
  induction h with
  | none => exact .nil
  | last wordKind => exact hparam htext (List.mem_singleton.mpr rfl) wordKind
  | @more word comma name others tokens wordKind _ _ ih =>
    have hfirst : InText text ([word, comma] ++ tokens) := htext
    exact .append hfirst (hparam hfirst.left List.mem_cons_self wordKind) (ih hfirst.right)

/-- The nodes of a part of a program. -/
def Clause.nodes : Clause → List Node
  | stmt value => [.stmt value]
  | branch _ value => [.stmt value]
  | otherwise elseBody => (elseBody.getD []).map .stmt
  | body stmts => stmts.map .stmt
  | block stmts => stmts.map .stmt
  | function definition => [.function definition]
  | methods definitions => definitions.map .function

theorem ClauseForm.nodesAlong {clause : Clause} (h : ClauseForm classes clause tokens)
    (htext : InText text tokens) : NodesAlong text tabWidth clause.nodes tokens := by
  induction h with
  | simple _ form => exact (form.nodesAlong htext.left).mono (List.subset_append_left _ _)
  | conditional _ ih => exact ih htext
  | loop _ condition _ ih =>
    exact .around htext (List.cons_ne_nil _ _) rfl
      ((NodesAlong.append htext.tail (condition.nodesAlong htext.tail.left)
        (ih htext.tail.right)).mono (List.subset_cons_self _ _)) trivial
  | branch _ condition _ _ ihFirst ihSecond =>
    have hbodies := NodesAlong.append htext.tail.right (ihFirst htext.tail.right.left)
      (ihSecond htext.tail.right.right)
    exact .around htext (List.cons_ne_nil _ _) rfl
      ((NodesAlong.append htext.tail (condition.nodesAlong htext.tail.left) hbodies).mono
        (List.subset_cons_self _ _)) trivial
  | noElse => exact .nil
  | elseBlock _ _ ih => exact (ih htext.tail).mono (List.subset_cons_self _ _)
  | elif _ ih => exact ih htext
  | noStmts => exact .nil
  | stmts _ _ ihFirst ihRest => exact .append htext (ihFirst htext.left) (ihRest htext.right)
  | @block colon newline indent dedent body tokens _ _ _ _ _ _ ih =>
    exact (ih htext.tail.tail.tail.left).mono fun token htoken => by simp [htoken]
  | @function word id start stop name params body paramTokens bodyTokens _ _ _ _ _ formal _ ih =>
    have hinner := htext.tail.tail.tail
    have hboth := NodesAlong.append hinner (formal.nodesAlong hinner.left)
      ((ih hinner.right.tail).mono (List.subset_cons_self stop _))
    exact .around htext (List.cons_ne_nil _ _) rfl
      (hboth.mono (List.subset_append_right [word, id, start] _)) trivial
  | noMethods => exact .nil
  | methods _ _ ihFirst ihRest => exact .append htext (ihFirst htext.left) (ihRest htext.right)

theorem TopForm.nodesAlong {s : Stmt} (h : TopForm classes s tokens known)
    (htext : InText text tokens) : NodesAlong text tabWidth [.stmt s] tokens := by
  cases h with
  | stmt form => exact form.nodesAlong htext
  | function form =>
    have hfunction : NodesAlong text tabWidth (Clause.function _).nodes _ := form.nodesAlong htext
    exact .between htext hfunction.spans rfl rfl rfl (List.Sublist.refl _) hfunction.inside trivial
  | @classDef word id colon newline indent dedent _ name methods tokens _ _ _ _ _ _ _ inside =>
    have hmethods : NodesAlong text tabWidth (Clause.methods methods).nodes tokens :=
      inside.nodesAlong htext.tail.tail.tail.tail.tail.left
    exact .around htext (List.cons_ne_nil _ _) rfl
      (hmethods.mono fun token htoken => by simp [htoken]) trivial

theorem ProgramForm.nodesAlong {stmts : List Stmt} (h : ProgramForm classes stmts tokens)
    (htext : InText text tokens) : NodesAlong text tabWidth (stmts.map .stmt) tokens := by
  induction h with
  | nil => exact .nil
  | cons first _ ih => exact .append htext (first.nodesAlong htext.left) (ih htext.right)
  | unended form => exact form.nodesAlong htext

end

namespace Module

variable [IdentifierTables]
  {text : String} {tabWidth : Nat} {tokens : List Token} {predeclare : Bool}
  {program : Module}

theorem nodesAlong_of_ofTokens (htokens : tokenize text tabWidth = .ok tokens)
    (h : ofTokens tokens predeclare = .ok program) :
    NodesAlong text tabWidth (program.body.map .stmt) (textTokens tokens) :=
  (programForm_of_ofTokens h).nodesAlong
    ((inText_of_tokenize htokens).sublist (List.takeWhile_sublist _))

/-- The spans of a program that is read from a text are nested and in order: every node lies in the
text and inside of the node around it, nodes side by side do not overlap except for the target of an
augmented assignment, and names and constants have the spans of their own texts. -/
theorem wellPlaced_of_ofTokens (htokens : tokenize text tabWidth = .ok tokens)
    (h : ofTokens tokens predeclare = .ok program) (node : Node)
    (hnode : node.Inside (.program program)) : node.WellPlaced text tabWidth := by
  have hbody := nodesAlong_of_ofTokens htokens h
  have htext := (inText_of_tokenize htokens).sublist
    (List.takeWhile_sublist (·.kind ≠ .layout .endOfInput))
  rcases span_of_ofTokens h with ⟨first, last, hfirst, hlast, hspan⟩ | ⟨hempty, hspan⟩
  · have hprogram : NodesAlong text tabWidth [.program program] (textTokens tokens) := by
      refine .between htext hbody.spans ?_ ?_ hspan (List.Sublist.refl _) hbody.inside trivial
      · simp [hfirst, Node.span]
      · simp [hlast, Node.span]
    exact hprogram.inside _ (List.mem_singleton.mpr rfl) node hnode
  · have hchildren : (Node.program program).children = [] := by rw [Node.children, hempty]; rfl
    have hprogram : (Node.program program).WellPlaced text tabWidth := by
      refine ⟨?_, ?_, by rw [hchildren]; exact List.forall_mem_nil _, .inl ?_, trivial⟩
      · rw [Node.span, hspan]
        exact Nat.le_refl _
      · rw [Node.span, hspan]
        exact Nat.zero_le _
      · rw [hchildren]
        exact .nil
    exact Node.forall_inside (p := fun part => part.WellPlaced text tabWidth) hprogram
      (by rw [hchildren]; exact List.forall_mem_nil _) node hnode

end Module

namespace SpanTreeWitness

/-- A block ends where the next statement starts, behind an empty line. -/
def source : String := "if a:\n  a.b += f(x, 1)\n\nc"

/-- The statements outside of all blocks, with the offsets where they start and end. -/
def reading : Option (List (String × Nat × Nat)) :=
  (tokenize source 4).toOption.bind fun tokens =>
    (Module.ofTokens tokens false).toOption.map fun program =>
      program.body.map fun s => (s.form, s.span.start.offset, s.span.stop.offset)

theorem wellPlaced_source :
    ∃ tokens program, tokenize source 4 = .ok tokens ∧ Module.ofTokens tokens false = .ok program ∧
      program.body.map (fun s => (s.form, s.span.start.offset, s.span.stop.offset)) =
        [("If", 0, 24), ("ExprStmt", 24, 25)] ∧
      ∀ node : Node, node.Inside (.program program) → node.WellPlaced source 4 := by
  have hreading : reading = some [("If", 0, 24), ("ExprStmt", 24, 25)] := by decide +kernel
  cases hlex : tokenize source 4 with
  | error error => rw [reading, hlex] at hreading; cases hreading
  | ok tokens =>
    rw [reading, hlex, Except.toOption, Option.bind_some] at hreading
    cases hread : Module.ofTokens tokens false with
    | error error => rw [hread] at hreading; cases hreading
    | ok program =>
      rw [hread] at hreading
      exact ⟨tokens, program, rfl, hread, Option.some.inj hreading,
        Module.wellPlaced_of_ofTokens hlex hread⟩

end SpanTreeWitness

end Offside
