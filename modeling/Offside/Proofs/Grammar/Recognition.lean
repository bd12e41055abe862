/-
The expression parser recognizes the grammar of expressions, and the grammar is unambiguous.
-/
import Offside.Proofs.Grammar.Completeness
import Offside.Proofs.Grammar.Soundness

namespace Offside

namespace Parser

theorem expr_derives {c c' : Cursor} {e : Expr} (h : expr Binding.lowest c = .ok e c') :
    ∃ tokens, c.Reads tokens c' ∧ c'.depth = c.depth ∧ Derives c.classes (.expr .or e) tokens ∧
      c'.kind.continuesExpr = false := by
  obtain ⟨tokens, hreads, hdepth, hderives, hstop⟩ :=
    exprAt_reads c.budget .or (by decide) h
  exact ⟨tokens, hreads, hdepth, hderives, extension?_lowest_eq_none_iff.mp hstop⟩

theorem expr_of_derives {c c' : Cursor} {e : Expr} {tokens : List Token}
    (hreads : c.Reads tokens c') (hdepth : c'.depth = c.depth)
    (h : Derives c.classes (.expr .or e) tokens) (hends : c'.kind.continuesExpr = false) :
    expr Binding.lowest c = .ok e c' ∨
      Refused c.maxDepth (expr Binding.lowest c) ∧ c.budget < tokens.length := by
  obtain ⟨levels, spine, hlt, hback⟩ := h.readsBack
  rcases expr_of_readsBack hback rfl hreads hdepth hends with ⟨-, hok⟩ | ⟨hdeep, hrefused⟩
  · exact .inl hok
  · exact .inr ⟨hrefused, by omega⟩

/-- The parser answers with an expression exactly where the grammar derives it from the tokens it
has gone over and no token goes on with it; it refuses such tokens only for nesting too deep, and
only when there are more of them than levels left. -/
theorem expr_recognizes_grammar (c : Cursor) :
    (∀ e c', expr Binding.lowest c = .ok e c' →
      ∃ tokens, c.Reads tokens c' ∧ c'.depth = c.depth ∧
        Derives c.classes (.expr .or e) tokens ∧ c'.kind.continuesExpr = false) ∧
    ∀ e tokens c', c.Reads tokens c' → c'.depth = c.depth →
      Derives c.classes (.expr .or e) tokens → c'.kind.continuesExpr = false →
      expr Binding.lowest c = .ok e c' ∨
        (∃ span last, expr Binding.lowest c = .error (.nestingTooDeep c.maxDepth span) last) ∧
          c.budget < tokens.length := by
  constructor
  · intro e c' h
    exact expr_derives h
  · intro e tokens c' hreads hdepth h hends
    exact expr_of_derives hreads hdepth h hends

end Parser

namespace RecognitionWitness

def token (kind : TokenKind) : Token := ⟨kind, "", Span.absent⟩

/-- `a ** -b` -/
def tokens : List Token :=
  [token (.identifier "a"), token (.symbol .starStar), token (.symbol .minus),
   token (.identifier "b")]

def start : Cursor := Cursor.ofTokens tokens 4

def stop : Cursor := { start with past := tokens.reverse, rest := [] }

def power : Expr :=
  .binary .pow (.name "a" Span.absent)
    (.unary .neg (.name "b" Span.absent) (Span.absent.through Span.absent))
    (Span.absent.through (Span.absent.through Span.absent))

/-- The exponent may carry a sign. -/
theorem derives_power : Derives [] (.expr .or power) tokens := by
  have hname (id : String) :
      Derives [] (.expr .callable (.name id Span.absent)) [token (.identifier id)] :=
    @Derives.name _ (token (.identifier id)) id rfl
  have hsigned := @Derives.neg _ (token (.symbol .minus)) _ _ rfl
    ((hname "b").widen_of_le (by decide))
  have hpower := @Derives.join _ (token (.symbol .starStar)) ⟨.power, .trailed, .unary, .pow⟩
    _ _ _ _ rfl ((hname "a").widen_of_le (by decide)) hsigned
  exact hpower.widen_of_le (by decide)

theorem expr_power : Parser.expr Binding.lowest start = .ok power stop := by
  rcases (Parser.expr_recognizes_grammar start).2 power tokens stop ⟨rfl, rfl, rfl, rfl, rfl⟩ rfl
    derives_power rfl with hok | ⟨-, hlt⟩
  · exact hok
  · exact absurd hlt (by decide)

end RecognitionWitness

/-- Tokens spell at most one expression. -/
theorem Derives.unique {classes : List String} {e e' : Expr} {tokens : List Token}
    (h : Derives classes (.expr .or e) tokens) (h' : Derives classes (.expr .or e') tokens) :
    e = e' := by
  -- with a level of nesting for every token the parser answers with both
  let start : Cursor := ⟨[], tokens, classes, 0, tokens.length, 0⟩
  let last : Cursor := ⟨tokens.reverse, [], classes, 0, tokens.length, 0⟩
  have hreads : start.Reads tokens last :=
    ⟨by simp [start, last], by simp [start, last], rfl, rfl, rfl⟩
  have hanswer {value : Expr} (hvalue : Derives classes (.expr .or value) tokens) :
      Parser.expr Binding.lowest start = .ok value last := by
    rcases Parser.expr_of_derives hreads rfl hvalue rfl with hok | ⟨-, hlt⟩
    · exact hok
    · exact absurd hlt (Nat.lt_irrefl _)
  have hsame := (hanswer h).symm.trans (hanswer h')
  cases hsame
  rfl

end Offside
