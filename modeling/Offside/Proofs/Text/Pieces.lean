/-
Lists and texts that are cut into their pieces in one way only: by what the members are like, member
by member, at the ends of lines, or at blanks, commas and parentheses outside of string literals.
-/
import Offside.Proofs.Token.LiteralText

namespace Offside

section

variable {α β γ : Type}

/-- Lists in which members with a property stand in front of those without it are joined in one way
only. -/
theorem append_inj_of_forall {p : α → Bool} {xs ys xs' ys' : List α} (hxs : ∀ x ∈ xs, p x = true)
    (hxs' : ∀ x ∈ xs', p x = true) (hys : ∀ y ∈ ys, p y = false) (hys' : ∀ y ∈ ys', p y = false)
    (h : xs ++ ys = xs' ++ ys') : xs = xs' ∧ ys = ys' := by
  have hfilter {xs ys : List α} (hxs : ∀ x ∈ xs, p x = true) (hys : ∀ y ∈ ys, p y = false) :
      (xs ++ ys).filter p = xs := by
    rw [List.filter_append, List.filter_eq_self.mpr hxs,
      List.filter_eq_nil_iff.mpr fun y hy => by simp [hys y hy], List.append_nil]
  have hfirst := congrArg (List.filter p) h
  rw [hfilter hxs hys, hfilter hxs' hys'] at hfirst
  subst hfirst
  exact ⟨rfl, List.append_cancel_left h⟩

/-- Lists are cut in one way only at the first place of a member. -/
theorem append_cons_inj {a : α} {xs ys xs' ys' : List α} (hxs : a ∉ xs) (hxs' : a ∉ xs')
    (h : xs ++ a :: ys = xs' ++ a :: ys') : xs = xs' ∧ ys = ys' := by
  induction xs generalizing xs' with
  | nil =>
    cases xs' with
    | nil => exact ⟨rfl, (List.cons.inj h).2⟩
    | cons x' xs' => exact absurd (List.cons.inj h).1 (List.ne_of_not_mem_cons hxs')
  | cons x xs ih =>
    cases xs' with
    | nil => exact absurd (List.cons.inj h).1.symm (List.ne_of_not_mem_cons hxs)
    | cons x' xs' =>
      obtain ⟨rfl, hrest⟩ := List.cons.inj h
      obtain ⟨rfl, hys⟩ := ih (List.not_mem_of_not_mem_cons hxs)
        (List.not_mem_of_not_mem_cons hxs') hrest
      exact ⟨rfl, hys⟩

/-- What one image of the members of a list says about them, the image of the list says. -/
theorem map_eq_of_mem {f : α → β} {g : α → γ} {xs ys : List α}
    (h : ∀ x ∈ xs, ∀ y ∈ ys, f x = f y → g x = g y) (heq : xs.map f = ys.map f) :
    xs.map g = ys.map g := by
  induction xs generalizing ys with
  | nil =>
    cases ys with
    | nil => rfl
    | cons y ys => cases heq
  | cons x xs ih =>
    cases ys with
    | nil => cases heq
    | cons y ys =>
      obtain ⟨hfirst, hrest⟩ := List.cons.inj heq
      rw [List.map_cons, List.map_cons,
        h x List.mem_cons_self y List.mem_cons_self hfirst,
        ih (fun x hx y hy => h x (List.mem_cons_of_mem _ hx) y (List.mem_cons_of_mem _ hy)) hrest]

end

/-- A text in which line feeds end the lines says which lines it has. -/
theorem lines_inj {lines others : List String} (h : ∀ line ∈ lines, '\n' ∉ line.toList)
    (hothers : ∀ line ∈ others, '\n' ∉ line.toList)
    (heq : String.join (lines.map (· ++ "\n")) = String.join (others.map (· ++ "\n"))) :
    lines = others := by
  have hlists := congrArg String.toList heq
  rw [String.toList_join, String.toList_join] at hlists
  clear heq
  induction lines generalizing others with
  | nil =>
    cases others with
    | nil => rfl
    | cons other others => simp at hlists
  | cons line lines ih =>
    cases others with
    | nil => simp at hlists
    | cons other others =>
      rw [List.forall_mem_cons] at h hothers
      simp only [List.map_cons, List.flatMap_cons, String.toList_append, List.append_assoc] at hlists
      obtain ⟨hline, hrest⟩ := append_cons_inj h.1 hothers.1 hlists
      rw [String.toList_inj.mp hline, ih h.2 hothers.2 hrest]

/-! ### Pieces between marks -/

/-- Blanks, commas and parentheses stand between the pieces of a text. -/
def isMark (c : Char) : Bool := c == ' ' || c == ',' || c == '(' || c == ')'

/-- The characters of a piece outside of a string literal. -/
def isPlain (c : Char) : Bool := !isMark c && c != '"' && c != '\n'

/-- A piece of a text, in which marks stand only inside of a string literal. -/
inductive Piece : List Char → Prop
  | plain {cs : List Char} (h : ∀ c ∈ cs, isPlain c = true) : Piece cs
  | quoted {front back : List Char} (value : List Char) (hfront : ∀ c ∈ front, isPlain c = true)
    (hback : ∀ c ∈ back, isPlain c = true) :
    Piece (front ++ '"' :: (Quoted.encode value ++ '"' :: back))

theorem piece_of_all {text : String} (h : text.toList.all isPlain = true) : Piece text.toList :=
  .plain (List.all_eq_true.mp h)

theorem isPlain_of_isIdentifierChar [IdentifierTables] {c : Char} (h : isIdentifierChar c = true) :
    isPlain c = true := by
  have hmarks : [' ', ',', '(', ')', '"', '\n'].all (!isIdentifierChar ·) = true := by simp
  have hne : ∀ d ∈ [' ', ',', '(', ')', '"', '\n'], c ≠ d := by
    rintro d hd rfl
    have hmark := List.all_eq_true.mp hmarks c hd
    simp [h] at hmark
  simp only [List.forall_mem_cons] at hne
  simp [isPlain, isMark, hne]

theorem isPlain_of_isName [IdentifierTables] {name : String} (h : isName name = true) :
    ∀ c ∈ name.toList, isPlain c = true :=
  fun c hc => isPlain_of_isIdentifierChar (isIdentifierChar_of_isName h c hc)

theorem isPlain_of_isNumeric [IdentifierTables] {c : Char} (h : FloatFormat.isNumeric c = true) :
    isPlain c = true := by
  simp only [FloatFormat.isNumeric, Bool.or_eq_true, beq_iff_eq] at h
  rcases h with ((hdigit | rfl) | rfl) | rfl
  · exact isPlain_of_isIdentifierChar (isIdentifierChar_of_isDigit hdigit)
  · rfl
  · rfl
  · rfl

/-- The text of a literal is one piece. -/
theorem Literal.piece_text [IdentifierTables] {value : Literal} (h : value.IsSpellable) :
    Piece value.text.toList := by
  cases value with
  | int value =>
    exact .plain fun c hc => isPlain_of_isNumeric (FloatFormat.isNumeric_toString value c hc).1
  | float x =>
    cases hfinite : x.isInfinite with
    | true =>
      rw [text, Binary64.text_infinity h.2 hfinite]
      exact piece_of_all rfl
    | false =>
      exact .plain fun c hc =>
        isPlain_of_isNumeric ((Binary64.shape_text h.1 h.2 hfinite).isNumeric c hc)
  | bool value => cases value <;> exact piece_of_all rfl
  | str value =>
    rw [text, Quoted.toList_literal]
    exact .quoted value.toList (List.forall_mem_nil _) (List.forall_mem_nil _)
  | none => exact piece_of_all rfl

/-- A text in front of which a piece ends. -/
def EndsPiece (tail : List Char) : Prop := EndsRun (fun c => !isMark c) tail

theorem EndsPiece.endsRun {tail : List Char} (h : EndsPiece tail) : EndsRun isPlain tail := by
  rintro c cs rfl
  have hmark : (!isMark c) = false := h c cs rfl
  simp [isPlain, hmark]

theorem EndsPiece.ne_quote {tail rest : List Char} (h : EndsPiece tail) : tail ≠ '"' :: rest := by
  rintro rfl
  exact absurd (h '"' rest rfl) (by decide)

theorem endsRun_quote (rest : List Char) : EndsRun isPlain ('"' :: rest) := by
  rintro c cs ⟨⟩
  rfl

namespace Piece

variable {cs ds tail tail' : List Char}

theorem append (h : Piece cs) (hds : ∀ d ∈ ds, isPlain d = true) : Piece (cs ++ ds) := by
  cases h with
  | plain h => exact .plain (List.forall_mem_append.mpr ⟨h, hds⟩)
  | quoted value hfront hback =>
    have hpiece := Piece.quoted value hfront (List.forall_mem_append.mpr ⟨hback, hds⟩)
    simpa using hpiece

theorem prepend (h : Piece cs) (hds : ∀ d ∈ ds, isPlain d = true) : Piece (ds ++ cs) := by
  cases h with
  | plain h => exact .plain (List.forall_mem_append.mpr ⟨hds, h⟩)
  | quoted value hfront hback =>
    have hpiece := Piece.quoted value (List.forall_mem_append.mpr ⟨hds, hfront⟩) hback
    simpa using hpiece

/-- Where a piece ends does not depend on what stands behind it. -/
theorem append_inj (hcs : Piece cs) (hds : Piece ds) (htail : EndsPiece tail)
    (htail' : EndsPiece tail') (h : cs ++ tail = ds ++ tail') : cs = ds ∧ tail = tail' := by
  cases hcs with
  | plain hcs =>
    cases hds with
    | plain hds => exact htail.endsRun.append_inj htail'.endsRun hcs hds h
    | quoted value hfront hback =>
      rw [List.append_assoc] at h
      exact absurd (htail.endsRun.append_inj (endsRun_quote _) hcs hfront h).2 htail.ne_quote
  | quoted value hfront hback =>
    rw [List.append_assoc] at h
    cases hds with
    | plain hds =>
      exact absurd ((endsRun_quote _).append_inj htail'.endsRun hfront hds h).2.symm
        htail'.ne_quote
    | quoted value' hfront' hback' =>
      simp only [List.cons_append, List.append_assoc] at h
      obtain ⟨rfl, hquoted⟩ :=
        (endsRun_quote _).append_inj (endsRun_quote _) hfront hfront' h
      obtain ⟨rfl, hbehind⟩ := Quoted.encode_append_inj (List.cons.inj hquoted).2
      obtain ⟨rfl, htails⟩ := htail.endsRun.append_inj htail'.endsRun hback hback' hbehind
      exact ⟨rfl, htails⟩

end Piece

theorem Piece.lineFeed_not_mem {cs : List Char} (h : Piece cs) : '\n' ∉ cs := by
  have hplain {cs : List Char} (h : ∀ c ∈ cs, isPlain c = true) : '\n' ∉ cs :=
    fun hmem => absurd (h '\n' hmem) (by decide)
  cases h with
  | plain h => exact hplain h
  | quoted value hfront hback =>
    refine List.not_mem_append (hplain hfront) (List.not_mem_cons_of_ne_of_not_mem (by decide) ?_)
    have hbody := (Lexer.stringBody_encode value).lineFeed_not_mem
    rw [List.append_cons]
    exact fun hmem => (List.mem_append.mp hmem).elim hbody (hplain hback)

/-- A text in pieces, with a mark in front of each but the first. -/
def joined (first : String) (others : List (Char × String)) : List Char :=
  first.toList ++ others.flatMap fun part => part.1 :: part.2.toList

/-- Whether the parts of a text are pieces behind marks. -/
def ArePieces (parts : List (Char × String)) : Prop :=
  ∀ part ∈ parts, isMark part.1 = true ∧ Piece part.2.toList

theorem ArePieces.nil : ArePieces [] := List.forall_mem_nil _

/-- A piece behind a blank. -/
theorem ArePieces.blank {text : String} {others : List (Char × String)} (h : Piece text.toList)
    (hothers : ArePieces others) : ArePieces ((' ', text) :: others) :=
  List.forall_mem_cons.mpr ⟨⟨rfl, h⟩, hothers⟩

theorem ArePieces.endsPiece {parts : List (Char × String)} (h : ArePieces parts) :
    EndsPiece (parts.flatMap fun part => part.1 :: part.2.toList) := by
  cases parts with
  | nil => rintro c cs ⟨⟩
  | cons part others =>
    rintro c cs ⟨⟩
    exact congrArg (!·) (h part List.mem_cons_self).1

theorem lineFeed_not_mem_joined {first : String} {others : List (Char × String)}
    (hfirst : Piece first.toList) (h : ArePieces others) : '\n' ∉ joined first others := by
  refine List.not_mem_append hfirst.lineFeed_not_mem fun hmem => ?_
  obtain ⟨part, hpart, hmem⟩ := List.mem_flatMap.mp hmem
  obtain ⟨hmark, hpiece⟩ := h part hpart
  rcases List.mem_cons.mp hmem with heq | hmem
  · rw [← heq] at hmark
    exact absurd hmark (by decide)
  · exact hpiece.lineFeed_not_mem hmem

/-- A text is put together from one list of pieces only. -/
theorem joined_inj {first first' : String} {others others' : List (Char × String)}
    (hfirst : Piece first.toList) (hfirst' : Piece first'.toList) (h : ArePieces others)
    (h' : ArePieces others') (heq : joined first others = joined first' others') :
    first = first' ∧ others = others' := by
  obtain ⟨hpiece, hrest⟩ := hfirst.append_inj hfirst' h.endsPiece h'.endsPiece heq
  refine ⟨String.toList_inj.mp hpiece, ?_⟩
  clear hpiece heq
  induction others generalizing first first' others' with
  | nil =>
    cases others' with
    | nil => rfl
    | cons part' others' => cases hrest
  | cons part others ih =>
    cases others' with
    | nil => cases hrest
    | cons part' others' =>
      obtain ⟨mark, piece⟩ := part
      obtain ⟨mark', piece'⟩ := part'
      rw [ArePieces, List.forall_mem_cons] at h h'
      simp only [List.flatMap_cons, List.cons_append, List.cons.injEq] at hrest
      obtain ⟨rfl, hrest⟩ := hrest
      obtain ⟨hpiece, hothers⟩ := h.1.2.append_inj h'.1.2 (ArePieces.endsPiece h.2)
        (ArePieces.endsPiece h'.2) hrest
      obtain rfl := String.toList_inj.mp hpiece
      rw [ih h.1.2 h'.1.2 h.2 h'.2 hothers]

end Offside
