/-
What the text of an outline says.  Every node has a line, and the blanks in front of the line say how
deep the node lies, so the lines of an outline say all about it but the numbers of its nodes.
-/
import Offside.Proofs.Code.Assignments
import Offside.Proofs.Compilation.Formatting
import Offside.Proofs.Program.Outlines
import Offside.Proofs.Text.Pieces
import Offside.Text.IdentifierRanges

namespace Offside

namespace Outline

/-! ### Lines -/

/-- What the line of a node shows. -/
structure Entry where
  depth : Nat
  form : String
  value : Option String
  role : Option Role

/-- The line of a node. -/
def Entry.text (entry : Entry) : String :=
  String.ofList (List.replicate (2 * entry.depth) ' ') ++
    (node 0 entry.form entry.value entry.role []).label

mutual

/-- What the lines of an outline show. -/
def entriesAt (depth : Nat) : Outline → List Entry
  | node _ form value role children =>
    ⟨depth, form, value, role⟩ :: entriesOf (depth + 1) children

def entriesOf (depth : Nat) : List Outline → List Entry
  | [] => []
  | child :: others => entriesAt depth child ++ entriesOf depth others

end

mutual

theorem linesAt_eq (depth : Nat) : ∀ outline : Outline,
    linesAt depth outline = (entriesAt depth outline).map Entry.text
  | node _ form value role children => by
    rw [linesAt, entriesAt, linesOf_eq (depth + 1) children, List.map_cons]
    rfl

theorem linesOf_eq (depth : Nat) : ∀ outlines : List Outline,
    linesOf depth outlines = (entriesOf depth outlines).map Entry.text
  | [] => rfl
  | child :: others => by
    rw [linesOf, entriesOf, linesAt_eq depth child, linesOf_eq depth others, List.map_append]

end

/-- Whether what comes first, if there is anything, lies less deep. -/
def Above (depth : Nat) (entries : List Entry) : Prop :=
  ∀ first rest, entries = first :: rest → first.depth < depth

theorem entriesOf_append_above {depth : Nat} {outlines : List Outline} {rest : List Entry}
    (hrest : Above depth rest) : Above (depth + 1) (entriesOf depth outlines ++ rest) := by
  cases outlines with
  | nil => exact fun first others h => Nat.lt_succ_of_lt (hrest first others h)
  | cons child others =>
    obtain ⟨id, form, value, role, children⟩ := child
    rintro first others ⟨⟩
    exact Nat.lt_succ_self depth

/-- The depths of nodes say where outlines end, so nodes are listed for one forest only. -/
theorem entriesOf_append_inj (depth : Nat) (outlines others : List Outline)
    (rest otherRest : List Entry) (hrest : Above depth rest) (hother : Above depth otherRest)
    (h : entriesOf depth outlines ++ rest = entriesOf depth others ++ otherRest) :
    outlines.map unnumbered = others.map unnumbered ∧ rest = otherRest := by
  match outlines, others with
  | [], [] => exact ⟨rfl, h⟩
  | [], node id form value role children :: others =>
    exact absurd (hrest _ _ h) (Nat.lt_irrefl depth)
  | node id form value role children :: outlines, [] =>
    exact absurd (hother _ _ h.symm) (Nat.lt_irrefl depth)
  | node id form value role children :: outlines,
      node id' form' value' role' children' :: others =>
    simp only [entriesOf, entriesAt, List.cons_append, List.append_assoc, List.cons.injEq,
      Entry.mk.injEq, true_and] at h
    obtain ⟨⟨rfl, rfl, rfl⟩, h⟩ := h
    obtain ⟨hchildren, h⟩ := entriesOf_append_inj (depth + 1) children children' _ _
      (entriesOf_append_above hrest) (entriesOf_append_above hother) h
    obtain ⟨hothers, hrests⟩ := entriesOf_append_inj depth outlines others rest otherRest hrest
      hother h
    simp only [List.map_cons, unnumbered, unnumberedAll_eq_map, hchildren, hothers]
    exact ⟨trivial, hrests⟩
termination_by sizes outlines
decreasing_by all_goals simp only [sizes, size]; omega

/-! ### Labels -/

/-- Whether a text is made of letters, and of at least one. -/
def isLettered (text : String) : Bool := !text.toList.isEmpty && text.toList.all Char.isAlpha

theorem isLettered_iff {text : String} :
    isLettered text = true ↔ text.toList ≠ [] ∧ ∀ c ∈ text.toList, c.isAlpha = true := by
  simp [isLettered]

theorem lineFeed_not_mem_of_isLettered {text : String} (h : isLettered text = true) :
    '\n' ∉ text.toList :=
  fun hmem => absurd ((isLettered_iff.mp h).2 '\n' hmem) (by decide)

theorem Role.isLettered_text (role : Role) : isLettered role.text = true := by
  cases role <;> rfl

theorem Role.text_injective {role other : Role} (h : role.text = other.text) : role = other := by
  cases role <;> cases other <;> first | rfl | exact absurd h (by decide)

/-- Whether the line of an entry is a single one that starts with its form or its role. -/
structure Entry.IsClear (entry : Entry) : Prop where
  form : isLettered entry.form = true
  value : ∀ value ∈ entry.value, '\n' ∉ value.toList

/-- What stands behind the form of a node. -/
def valueText (value : Option String) : List Char :=
  match value with
  | some value => '(' :: (value.toList ++ [')'])
  | none => []

theorem valueText_inj {value other : Option String} (h : valueText value = valueText other) :
    value = other := by
  cases value with
  | none =>
    cases other with
    | none => rfl
    | some other => cases h
  | some value =>
    cases other with
    | none => cases h
    | some other =>
      rw [String.toList_inj.mp (List.append_cancel_right (List.cons.inj h).2)]

theorem endsRun_valueText (value : Option String) : EndsRun Char.isAlpha (valueText value) := by
  cases value with
  | none => rintro c cs ⟨⟩
  | some value =>
    rintro c cs ⟨⟩
    rfl

/-- The letters in front of a line. -/
def Entry.front (entry : Entry) : String :=
  match entry.role with
  | some role => role.text
  | none => entry.form

/-- What stands behind the letters in front. -/
def Entry.back (entry : Entry) : List Char :=
  match entry.role with
  | some _ => ':' :: ' ' :: (entry.form.toList ++ valueText entry.value)
  | none => valueText entry.value

namespace Entry

variable {entry other : Entry}

theorem toList_text (entry : Entry) : entry.text.toList =
    List.replicate (2 * entry.depth) ' ' ++ (entry.front.toList ++ entry.back) := by
  obtain ⟨depth, form, value, role⟩ := entry
  cases role <;> cases value <;> simp [text, label, front, back, valueText]

theorem IsClear.front (h : entry.IsClear) : isLettered entry.front = true := by
  rw [Entry.front]
  split
  · exact Role.isLettered_text _
  · exact h.form

theorem endsRun_back (entry : Entry) : EndsRun Char.isAlpha entry.back := by
  rw [back]
  split
  · rintro c cs ⟨⟩
    rfl
  · exact endsRun_valueText _

/-- The line of a node says how deep it lies and what it is. -/
theorem text_inj (h : entry.IsClear) (hother : other.IsClear) (heq : entry.text = other.text) :
    entry = other := by
  have hlists := congrArg String.toList heq
  rw [toList_text, toList_text] at hlists
  have hblanks (n : Nat) : ∀ c ∈ List.replicate n ' ', (c == ' ') = true :=
    fun c hc => beq_iff_eq.mpr (List.eq_of_mem_replicate hc)
  have hends {entry : Entry} (h : entry.IsClear) :
      EndsRun (· == ' ') (entry.front.toList ++ entry.back) := by
    obtain ⟨hne, hletters⟩ := isLettered_iff.mp h.front
    obtain ⟨d, ds, hcons⟩ := List.exists_cons_of_ne_nil hne
    rw [hcons] at hletters ⊢
    rintro c cs ⟨⟩
    rw [beq_eq_false_iff_ne]
    rintro rfl
    exact absurd (hletters ' ' List.mem_cons_self) (by decide)
  obtain ⟨hdepth, hlabel⟩ :=
    (hends h).append_inj (hends hother) (hblanks _) (hblanks _) hlists
  obtain ⟨hfront, hback⟩ := (endsRun_back entry).append_inj (endsRun_back other)
    (isLettered_iff.mp h.front).2 (isLettered_iff.mp hother.front).2 hlabel
  have hdepth := congrArg List.length hdepth
  rw [List.length_replicate, List.length_replicate] at hdepth
  obtain ⟨depth, form, value, role⟩ := entry
  obtain ⟨depth', form', value', role'⟩ := other
  obtain rfl : depth = depth' := by
    dsimp only at hdepth
    omega
  have hfront := String.toList_inj.mp hfront
  cases role with
  | none =>
    cases role' with
    | none =>
      obtain rfl : form = form' := hfront
      obtain rfl : value = value' := valueText_inj hback
      rfl
    | some role' => cases value <;> cases hback
  | some role =>
    cases role' with
    | none => cases value' <;> cases hback
    | some role' =>
      obtain rfl := Role.text_injective hfront
      obtain ⟨-, hback⟩ := List.cons.inj hback
      obtain ⟨hform, hvalue⟩ := (endsRun_valueText value).append_inj (endsRun_valueText value')
        (isLettered_iff.mp h.form).2 (isLettered_iff.mp hother.form).2 (List.cons.inj hback).2
      obtain rfl : form = form' := String.toList_inj.mp hform
      obtain rfl : value = value' := valueText_inj hvalue
      rfl

theorem IsClear.lineFeed_not_mem (h : entry.IsClear) : '\n' ∉ entry.text.toList := by
  have hvalue : '\n' ∉ valueText entry.value := by
    cases hentry : entry.value with
    | none => exact List.not_mem_nil
    | some value => simpa [valueText] using h.value value hentry
  have hback : '\n' ∉ entry.back := by
    rw [back]
    split
    · simpa using ⟨lineFeed_not_mem_of_isLettered h.form, hvalue⟩
    · exact hvalue
  rw [toList_text]
  refine List.not_mem_append (fun hmem => ?_)
    (List.not_mem_append (lineFeed_not_mem_of_isLettered h.front) hback)
  exact absurd (List.eq_of_mem_replicate hmem) (by decide)

end Entry

/-! ### Lines of programs -/

theorem entriesOf_eq_flatMap (depth : Nat) (outlines : List Outline) :
    entriesOf depth outlines = outlines.flatMap (entriesAt depth) := by
  induction outlines with
  | nil => rfl
  | cons child others ih => rw [entriesOf, ih, List.flatMap_cons]

/-- Whether every node of an outline has a clear line. -/
def IsClear (outline : Outline) : Prop :=
  ∀ depth, ∀ entry ∈ entriesAt depth outline, entry.IsClear

theorem isClear_entriesOf {outlines : List Outline} (h : ∀ outline ∈ outlines, outline.IsClear)
    (depth : Nat) : ∀ entry ∈ entriesOf depth outlines, entry.IsClear := by
  rw [entriesOf_eq_flatMap]
  intro entry hentry
  obtain ⟨outline, hmem, hentry⟩ := List.mem_flatMap.mp hentry
  exact h outline hmem depth entry hentry

section

variable {id : Nat} {role : Option Role}

theorem isClear_node {form : String} {value : Option String} {children : List Outline}
    (hform : isLettered form = true) (hvalue : ∀ text ∈ value, '\n' ∉ text.toList)
    (hchildren : ∀ child ∈ children, child.IsClear) :
    (node id form value role children).IsClear :=
  fun depth => List.forall_mem_cons.mpr ⟨⟨hform, hvalue⟩, isClear_entriesOf hchildren (depth + 1)⟩

/-- A node with the name of something is clear. -/
theorem isClear_named [IdentifierTables] {form name : String} {children : List Outline}
    (hform : isLettered form = true) (hname : isName name = true)
    (hchildren : ∀ child ∈ children, child.IsClear) :
    (node id form (some name) role children).IsClear :=
  isClear_node hform (by rintro _ ⟨⟩; exact not_mem_of_isName hname (by simp)) hchildren

/-- A node without a value is clear. -/
theorem isClear_plain {form : String} {children : List Outline} (hform : isLettered form = true)
    (hchildren : ∀ child ∈ children, child.IsClear) :
    (node id form none role children).IsClear :=
  isClear_node hform (by rintro _ ⟨⟩) hchildren

theorem isClear_ofArgs {args : List Expr}
    (h : ∀ arg ∈ args, ∀ role id, (ofExpr arg role id).1.IsClear) :
    ∀ child ∈ (ofArgs args id).1, child.IsClear := by
  induction args generalizing id with
  | nil => exact List.forall_mem_nil _
  | cons arg others ih =>
    rw [List.forall_mem_cons] at h
    exact List.forall_mem_cons.mpr ⟨h.1 _ _, ih h.2⟩

theorem isClear_ofExpr [IdentifierTables] (e : Expr) (h : e.IsSpellable) (role : Option Role)
    (id : Nat) :
    (ofExpr e role id).1.IsClear := by
  have hnil : ∀ child ∈ ([] : List Outline), child.IsClear := List.forall_mem_nil _
  induction e using Expr.induction generalizing role id with
  | constant value span =>
    refine isClear_node rfl ?_ hnil
    rintro _ ⟨⟩
    exact (Literal.piece_text h).lineFeed_not_mem
  | name name span => exact isClear_named rfl h hnil
  | binary op left right span ihLeft ihRight =>
    refine isClear_node rfl ?_ (List.forall_mem_cons.mpr
      ⟨ihLeft h.1 _ _, List.forall_mem_singleton.mpr (ihRight h.2 _ _)⟩)
    rintro _ ⟨⟩
    cases op <;> decide
  | unary op operand span ih =>
    refine isClear_node rfl ?_ (List.forall_mem_singleton.mpr (ih h _ _))
    rintro _ ⟨⟩
    cases op <;> decide
  | call callee args span ihCallee ihArgs =>
    simp only [Expr.IsSpellable, Expr.isSpellableAll_iff] at h
    exact isClear_plain rfl (List.forall_mem_cons.mpr ⟨ihCallee h.1 _ _,
      isClear_ofArgs fun arg harg => ihArgs arg harg (h.2 arg harg)⟩)
  | methodCall receiver method args span ihReceiver ihArgs =>
    simp only [Expr.IsSpellable, Expr.isSpellableAll_iff] at h
    exact isClear_named rfl h.2.1 (List.forall_mem_cons.mpr
      ⟨ihReceiver h.1 _ _, isClear_ofArgs fun arg harg => ihArgs arg harg (h.2.2 arg harg)⟩)
  | construct className args span ihArgs =>
    simp only [Expr.IsSpellable, Expr.isSpellableAll_iff] at h
    exact isClear_named rfl h.1
      (isClear_ofArgs fun arg harg => ihArgs arg harg (h.2 arg harg))
  | member receiver attr span ih =>
    exact isClear_named rfl h.2 (List.forall_mem_singleton.mpr (ih h.1 _ _))

theorem isClear_ofParams [IdentifierTables] {params : List Param}
    (h : ∀ param ∈ params, isName param.name = true) :
    ∀ child ∈ (ofParams params id).1, child.IsClear := by
  induction params generalizing id with
  | nil => exact List.forall_mem_nil _
  | cons param others ih =>
    rw [List.forall_mem_cons] at h
    exact List.forall_mem_cons.mpr
      ⟨isClear_named rfl h.1 (List.forall_mem_nil _), ih h.2⟩

theorem isClear_ofBody {body : List Stmt}
    (h : ∀ s ∈ body, ∀ role id, (ofStmt s role id).1.IsClear) :
    ∀ child ∈ (ofBody body role id).1, child.IsClear := by
  induction body generalizing id with
  | nil => exact List.forall_mem_nil _
  | cons s others ih =>
    rw [List.forall_mem_cons] at h
    exact List.forall_mem_cons.mpr ⟨h.1 _ _, ih h.2⟩

theorem isClear_ofFunction [IdentifierTables] {definition : FunctionDef Stmt}
    (h : ∀ s ∈ definition.body, ∀ role id, (ofStmt s role id).1.IsClear)
    (hspellable : Stmt.IsSpellableFunction definition) :
    (ofFunction definition role id).1.IsClear := by
  obtain ⟨name, params, body, span⟩ := definition
  exact isClear_named rfl hspellable.1 (List.forall_mem_append.mpr
    ⟨isClear_ofParams hspellable.2.1, isClear_ofBody h⟩)

theorem isClear_ofMethods [IdentifierTables] {methods : List (FunctionDef Stmt)}
    (h : ∀ method ∈ methods, ∀ s ∈ method.body, ∀ role id, (ofStmt s role id).1.IsClear)
    (hspellable : ∀ method ∈ methods, Stmt.IsSpellableFunction method) :
    ∀ child ∈ (ofMethods methods id).1, child.IsClear := by
  induction methods generalizing id with
  | nil => exact List.forall_mem_nil _
  | cons method others ih =>
    rw [List.forall_mem_cons] at h hspellable
    exact List.forall_mem_cons.mpr ⟨isClear_ofFunction h.1 hspellable.1, ih h.2 hspellable.2⟩

theorem isClear_ofStmt [IdentifierTables] (s : Stmt) (h : s.IsSpellable) (role : Option Role)
    (id : Nat) :
    (ofStmt s role id).1.IsClear := by
  have hnil : ∀ child ∈ ([] : List Outline), child.IsClear := List.forall_mem_nil _
  have hbody {body : List Stmt}
      (ih : ∀ s ∈ body, s.IsSpellable → ∀ role id, (ofStmt s role id).1.IsClear)
      (h : ∀ s ∈ body, s.IsSpellable) : ∀ s ∈ body, ∀ role id, (ofStmt s role id).1.IsClear :=
    fun s hs => ih s hs (h s hs)
  induction s using Stmt.induction generalizing role id with
  | function definition span ih =>
    exact isClear_ofFunction (hbody ih (Stmt.isSpellableFunction_iff.mp h).2.2) h
  | classDef name methods span ih =>
    simp only [Stmt.IsSpellable, Stmt.isSpellableFunctions_iff] at h
    exact isClear_named rfl h.1 (isClear_ofMethods
      (fun method hmethod => hbody (ih method hmethod)
        (Stmt.isSpellableFunction_iff.mp (h.2 method hmethod)).2.2) h.2)
  | assign target value span =>
    exact isClear_plain rfl (List.forall_mem_cons.mpr
      ⟨isClear_ofExpr target h.1 _ _, List.forall_mem_singleton.mpr (isClear_ofExpr value h.2 _ _)⟩)
  | branch test thenBody elseBody span ihThen ihElse =>
    refine isClear_plain rfl (List.forall_mem_cons.mpr
      ⟨isClear_ofExpr test h.1 _ _, List.forall_mem_append.mpr
        ⟨isClear_ofBody (hbody ihThen (Stmt.isSpellableBody_iff.mp h.2.1)), ?_⟩⟩)
    cases elseBody with
    | none => exact hnil
    | some body =>
      exact isClear_ofBody (hbody (ihElse body rfl) (Stmt.isSpellableBody_iff.mp h.2.2.2))
  | loop test body span ih =>
    exact isClear_plain rfl (List.forall_mem_cons.mpr
      ⟨isClear_ofExpr test h.1 _ _,
        isClear_ofBody (hbody ih (Stmt.isSpellableBody_iff.mp h.2))⟩)
  | leave value span =>
    cases value with
    | none => exact isClear_plain rfl hnil
    | some value =>
      exact isClear_plain rfl
        (List.forall_mem_singleton.mpr (isClear_ofExpr value h _ _))
  | pass | breakLoop | continueLoop => exact isClear_plain rfl hnil
  | eval expr span =>
    exact isClear_plain rfl
      (List.forall_mem_singleton.mpr (isClear_ofExpr expr h _ _))

end

end Outline

namespace Module

variable [IdentifierTables] {program other : Module}

/-- The text of an outline says all about it but the numbers of its nodes. -/
theorem unnumbered_eq_of_outlineText (h : program.IsSpellable) (hother : other.IsSpellable)
    (heq : program.outlineText = other.outlineText) :
    (Outline.ofModule program).unnumbered = (Outline.ofModule other).unnumbered := by
  have hclear {program : Module} (h : program.IsSpellable) :
      ∀ entry ∈ Outline.entriesOf 0 (Outline.ofModule program).children, entry.IsClear :=
    Outline.isClear_entriesOf
      (Outline.isClear_ofBody fun s hs => Outline.isClear_ofStmt s (h s hs)) 0
  have hlines {program : Module} (h : program.IsSpellable) :
      ∀ line ∈ program.outlineLines, '\n' ∉ line.toList := by
    rw [outlineLines, Outline.linesOf_eq]
    intro line hline
    obtain ⟨entry, hentry, rfl⟩ := List.mem_map.mp hline
    exact (hclear h entry hentry).lineFeed_not_mem
  have heq := lines_inj (hlines h) (hlines hother) heq
  rw [outlineLines, outlineLines, Outline.linesOf_eq, Outline.linesOf_eq] at heq
  have hentries := map_eq_of_mem (g := id) (fun entry hentry other' hother' =>
    Outline.Entry.text_inj (hclear h entry hentry) (hclear hother other' hother')) heq
  rw [List.map_id, List.map_id] at hentries
  have hnone : Outline.Above 0 [] := by rintro _ _ ⟨⟩
  have hends : Outline.entriesOf 0 (Outline.ofModule program).children ++ [] =
      Outline.entriesOf 0 (Outline.ofModule other).children ++ [] := by
    rw [hentries]
  have hchildren := (Outline.entriesOf_append_inj 0 _ _ [] [] hnone hnone hends).1
  rw [Outline.ofModule, Outline.ofModule, Outline.unnumbered, Outline.unnumbered,
    Outline.unnumberedAll_eq_map, Outline.unnumberedAll_eq_map]
  exact congrArg (Outline.node 0 "Module" none none) hchildren

end Module

namespace CompileOptions

variable [IdentifierTables]
  {options : CompileOptions} {source : String} {tokens : List Token} {program : Module}

theorem isSpellable_of_parse (hlex : options.lex source = .ok tokens)
    (hparse : options.parse tokens = .ok program) : program.IsSpellable :=
  Module.isSpellable_of_ofTokens (ok_of_mapError hlex) (ok_of_mapError hparse)

/-- Two programs that are read, each from its source and with its options, have the same text of
their outlines, or the same outline, exactly where they say the same up to their spans. -/
theorem outline_identifies (hlex : options.lex source = .ok tokens)
    (hparse : options.parse tokens = .ok program) {otherOptions : CompileOptions}
    {otherSource : String} {otherTokens : List Token} {other : Module}
    (hlex' : otherOptions.lex otherSource = .ok otherTokens)
    (hparse' : otherOptions.parse otherTokens = .ok other) :
    (program.outlineText = other.outlineText ↔ program.bare = other.bare) ∧
      (Outline.ofModule program = Outline.ofModule other ↔ program.bare = other.bare) := by
  have h := isSpellable_of_parse hlex hparse
  have hother := isSpellable_of_parse hlex' hparse'
  have houtline (hbare : program.bare = other.bare) :
      Outline.ofModule program = Outline.ofModule other := by
    rw [← Outline.ofModule_bare program, hbare, Outline.ofModule_bare]
  refine ⟨⟨fun heq => ?_, fun hbare => ?_⟩, fun heq => ?_, houtline⟩
  · exact Outline.bare_eq_of_unnumbered h hother (Module.unnumbered_eq_of_outlineText h hother heq)
  · rw [Module.outlineText, Module.outlineLines, houtline hbare]
    rfl
  · exact Outline.bare_eq_of_unnumbered h hother (congrArg Outline.unnumbered heq)

end CompileOptions

namespace OutlineWitness

/-- A call, written with and without blanks. -/
def source : String := "x = f(1)"

def spaced : String := "x  =  f( 1 )"

def text : String :=
  "Assign\n  target: Name(x)\n  value: Call\n    callee: Name(f)\n    arg: Constant(1)\n"

/-- The text of the outline of a source, and where its program ends. -/
def view (source : String) : Option (String × Nat) :=
  (CompileOptions.default.lex source).toOption.bind fun tokens =>
    (CompileOptions.default.parse tokens).toOption.map fun program =>
      (program.outlineText, program.span.stop.offset)

theorem exists_read {source text : String} {length : Nat} (h : view source = some (text, length)) :
    ∃ tokens program, CompileOptions.default.lex source = .ok tokens ∧
      CompileOptions.default.parse tokens = .ok program ∧ program.outlineText = text ∧
      program.span.stop.offset = length := by
  rw [view] at h
  cases hlex : CompileOptions.default.lex source with
  | error error => rw [hlex] at h; cases h
  | ok tokens =>
    rw [hlex] at h
    change (CompileOptions.default.parse tokens).toOption.map _ = _ at h
    cases hparse : CompileOptions.default.parse tokens with
    | error error => rw [hparse] at h; cases h
    | ok program =>
      rw [hparse] at h
      obtain ⟨htext, hlength⟩ := Prod.mk.inj (Option.some.inj h)
      exact ⟨tokens, program, rfl, hparse, htext, hlength⟩

theorem outline_of_spaced : ∃ first second tokens others,
    CompileOptions.default.lex source = .ok tokens ∧
      CompileOptions.default.parse tokens = .ok first ∧
      CompileOptions.default.lex spaced = .ok others ∧
      CompileOptions.default.parse others = .ok second ∧
      first.outlineText = second.outlineText ∧ first.bare = second.bare ∧
      first.span ≠ second.span := by
  obtain ⟨tokens, first, hlex, hparse, htext, hspan⟩ :=
    exists_read (show view source = some (text, 8) by decide +kernel)
  obtain ⟨others, second, hlex', hparse', htext', hspan'⟩ :=
    exists_read (show view spaced = some (text, 12) by decide +kernel)
  have heq : first.outlineText = second.outlineText := htext.trans htext'.symm
  refine ⟨first, second, tokens, others, hlex, hparse, hlex', hparse', heq,
    (CompileOptions.outline_identifies hlex hparse hlex' hparse').1.mp heq, fun hspans => ?_⟩
  rw [hspans, hspan'] at hspan
  cases hspan

end OutlineWitness

end Offside
