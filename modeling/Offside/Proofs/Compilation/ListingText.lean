/-
What the text of lowered code says.  Its lines say which procedures there are and which instructions
stand in each scope, so it shows the code up to what the texts of instructions leave open: whether an
operand is a temporary or a variable that is called like it, an infinity or the variable `inf`, and
whether a call is that of a method or of an attribute.
-/
import Offside.Proofs.Code.Ambiguity
import Offside.Proofs.Code.Separation
import Offside.Proofs.Code.Spellable
import Offside.Proofs.Compilation.OutlineText
import Offside.Text.IdentifierRanges

namespace Offside

/-! ### Procedures -/

namespace Instruction

/-- An instruction on a line of its own. -/
def line (i : Instruction) : String := "    " ++ i.text

theorem line_not_empty (code : List Instruction) : "" ∉ code.map line := by
  intro hmem
  obtain ⟨i, -, hline⟩ := List.mem_map.mp hmem
  have hlists := congrArg String.toList hline
  rw [line, String.toList_append] at hlists
  cases hlists

theorem map_blurred_of_lines [IdentifierTables] {code other : List Instruction}
    (h : IsSpellableCode code) (hother : IsSpellableCode other)
    (heq : code.map line = other.map line) :
    code.map blurred = other.map blurred :=
  map_eq_of_mem (fun i hi j hj hline =>
    (text_eq_iff (h i hi) (hother j hj)).mp ((String.append_right_inj _).mp hline)) heq

theorem lineFeed_not_mem_line [IdentifierTables] {i : Instruction} (h : i.IsSpellable) :
    '\n' ∉ i.line.toList := by
  rw [line, String.toList_append]
  exact List.not_mem_append (by decide) (lineFeed_not_mem_text h)

end Instruction

namespace Procedure

variable {procedure other : Procedure}

/-- The procedure as its text shows it. -/
def blurred (procedure : Procedure) : Procedure :=
  { procedure with body := procedure.body.map Instruction.blurred }

/-- The first line of a procedure. -/
def header (procedure : Procedure) : String :=
  "function " ++ procedure.name ++ ("(" ++ ", ".intercalate procedure.params ++ ")" ++ ":")

/-- The lines of a procedure, of which only the last one is empty. -/
def listed (procedure : Procedure) : List String :=
  procedure.header :: (procedure.body.map Instruction.line ++ [""])

theorem toList_header (procedure : Procedure) : procedure.header.toList =
    joined "function" ((' ', procedure.name) :: listPieces ":" procedure.params) := by
  rw [header, String.toList_append, toList_list]
  simp [joined]

theorem pieces_header [IdentifierTables] (h : procedure.IsSpellable) :
    ArePieces ((' ', procedure.name) :: listPieces ":" procedure.params) :=
  .blank (.plain h.name) (arePieces_listPieces (piece_of_all rfl)
    fun param hparam => .plain (isPlain_of_isName (h.params param hparam)))

theorem header_inj [IdentifierTables] (h : procedure.IsSpellable) (hother : other.IsSpellable)
    (heq : procedure.header = other.header) :
    procedure.name = other.name ∧ procedure.params = other.params := by
  have hne {procedure : Procedure} (h : procedure.IsSpellable) :
      ∀ param ∈ procedure.params, param ≠ "" := by
    rintro param hparam rfl
    simpa [isName] using h.params "" hparam
  have hlists := congrArg String.toList heq
  rw [toList_header, toList_header] at hlists
  have hword : Piece "function".toList := piece_of_all rfl
  have hparts := (joined_inj hword hword (pieces_header h) (pieces_header hother) hlists).2
  simp only [List.cons.injEq, Prod.mk.injEq, true_and] at hparts
  exact ⟨hparts.1, listPieces_inj (hne h) (hne hother) hparts.2⟩

theorem blurred_eq [IdentifierTables] (h : procedure.IsSpellable) (hother : other.IsSpellable)
    (hheader : procedure.header = other.header)
    (hbody : procedure.body.map Instruction.line = other.body.map Instruction.line) :
    procedure.blurred = other.blurred := by
  obtain ⟨hname, hparams⟩ := header_inj h hother hheader
  rw [blurred, blurred, hname, hparams, Instruction.map_blurred_of_lines h.body hother.body hbody]

/-- Procedures are told apart by their lines, as an empty line ends each of them. -/
theorem map_blurred_of_listed [IdentifierTables] {procedures others : List Procedure}
    {rest rest' : List String} (h : ∀ procedure ∈ procedures, procedure.IsSpellable)
    (hothers : ∀ other ∈ others, other.IsSpellable)
    (heq : procedures.flatMap listed ++ "toplevel:" :: rest =
      others.flatMap listed ++ "toplevel:" :: rest') :
    procedures.map blurred = others.map blurred ∧ rest = rest' := by
  have hheader (procedure : Procedure) : procedure.header ≠ "toplevel:" := by
    intro heq
    have hlists := congrArg String.toList heq
    rw [header, String.toList_append, String.toList_append] at hlists
    cases hlists
  induction procedures generalizing others with
  | nil =>
    cases others with
    | nil => exact ⟨rfl, (List.cons.inj heq).2⟩
    | cons other others => exact absurd (List.cons.inj heq).1.symm (hheader other)
  | cons procedure procedures ih =>
    cases others with
    | nil => exact absurd (List.cons.inj heq).1 (hheader procedure)
    | cons other others =>
      rw [List.forall_mem_cons] at h hothers
      simp only [List.flatMap_cons, listed, List.cons_append, List.append_assoc, List.nil_append,
        List.cons.injEq] at heq
      obtain ⟨hfirst, hbehind⟩ := heq
      obtain ⟨hbody, hlater⟩ :=
        append_cons_inj (Instruction.line_not_empty procedure.body)
          (Instruction.line_not_empty other.body) hbehind
      obtain ⟨hblurred, hrest⟩ := ih h.2 hothers.2 hlater
      rw [List.map_cons, List.map_cons, blurred_eq h.1 hothers.1 hfirst hbody, hblurred]
      exact ⟨rfl, hrest⟩

theorem procedureText_eq (procedure : Procedure) : Listing.procedureText procedure =
    String.join (procedure.listed.map (· ++ "\n")) := by
  rw [← String.toList_inj]
  simp [Listing.procedureText, Listing.lineText, listed, header, Instruction.line,
    String.toList_join, List.flatMap_map]

theorem eq_of_blurred (h : IsClearCode procedure.body) (hother : IsClearCode other.body)
    (hkeep : procedure.KeepsTemps) (hkeep' : other.KeepsTemps)
    (heq : procedure.blurred = other.blurred) : procedure = other := by
  obtain ⟨last, hkeep⟩ := hkeep
  obtain ⟨last', hkeep'⟩ := hkeep'
  obtain ⟨name, params, body⟩ := procedure
  obtain ⟨name', params', body'⟩ := other
  simp only [blurred, mk.injEq] at heq ⊢
  exact ⟨heq.1, heq.2.1, h.eq_of_blurred hother hkeep hkeep' heq.2.2⟩

end Procedure

/-! ### Listings -/

namespace Listing

variable {listing other : Listing}

/-- The listing as its text shows it. -/
def blurred (listing : Listing) : Listing where
  entries := listing.entries.map fun entry => (entry.1, entry.2.blurred)
  toplevel := listing.toplevel.map Instruction.blurred

theorem procedures_blurred (listing : Listing) :
    listing.blurred.procedures = listing.procedures.map Procedure.blurred := by
  simp [procedures, blurred]

theorem IsKeyed.blurred (h : listing.IsKeyed) : listing.blurred.IsKeyed :=
  List.forall_mem_map.mpr h

/-- The lines of the text of a listing. -/
def lines (listing : Listing) : List String :=
  listing.procedures.flatMap Procedure.listed ++
    "toplevel:" :: listing.toplevel.map Instruction.line

theorem text_eq_join (listing : Listing) :
    listing.text = String.join (listing.lines.map (· ++ "\n")) := by
  rw [← String.toList_inj]
  simp [text, lines, lineText, Instruction.line, Procedure.procedureText_eq, String.toList_join,
    List.flatMap_map, List.flatMap_assoc]

theorem IsSpellable.lineFeed_not_mem [IdentifierTables] (h : listing.IsSpellable) :
    ∀ line ∈ listing.lines, '\n' ∉ line.toList := by
  have hcode {code : List Instruction} (h : IsSpellableCode code) :
      ∀ line ∈ code.map Instruction.line, '\n' ∉ line.toList :=
    List.forall_mem_map.mpr fun i hi => Instruction.lineFeed_not_mem_line (h i hi)
  refine List.forall_mem_append.mpr
    ⟨fun line hline => ?_, List.forall_mem_cons.mpr ⟨by decide, hcode h.toplevel⟩⟩
  obtain ⟨procedure, hmem, hline⟩ := List.mem_flatMap.mp hline
  have hprocedure := h.procedures procedure hmem
  rcases List.mem_cons.mp hline with rfl | hline
  · rw [Procedure.toList_header]
    exact lineFeed_not_mem_joined (piece_of_all rfl) (Procedure.pieces_header hprocedure)
  · rcases List.mem_append.mp hline with hline | hline
    · exact hcode hprocedure.body line hline
    · rw [List.mem_singleton.mp hline]
      decide

theorem text_blurred (listing : Listing) : listing.blurred.text = listing.text := by
  have hcode (code : List Instruction) :
      (code.map Instruction.blurred).map lineText = code.map lineText := by
    rw [List.map_map]
    exact List.map_congr_left fun i _ => congrArg ("    " ++ · ++ "\n") i.text_blurred
  have hprocedure (procedure : Procedure) :
      procedureText procedure.blurred = procedureText procedure := by
    rw [procedureText, Procedure.blurred, hcode, procedureText]
  rw [text, procedures_blurred, blurred, hcode, List.map_map, text]
  exact congrArg (fun texts => String.join texts ++ "toplevel:\n" ++ _)
    (List.map_congr_left fun procedure _ => hprocedure procedure)

/-- Two listings have the same text exactly where they are the same up to what texts do not
show. -/
theorem text_eq_iff [IdentifierTables] (h : listing.IsSpellable) (hother : other.IsSpellable)
    (hkeys : listing.IsKeyed) (hkeys' : other.IsKeyed) :
    listing.text = other.text ↔ listing.blurred = other.blurred := by
  refine ⟨fun heq => ?_, fun heq => by rw [← text_blurred listing, heq, text_blurred]⟩
  rw [text_eq_join, text_eq_join] at heq
  have hlines := lines_inj h.lineFeed_not_mem hother.lineFeed_not_mem heq
  obtain ⟨hprocedures, htoplevel⟩ :=
    Procedure.map_blurred_of_listed h.procedures hother.procedures hlines
  have hentries : listing.blurred.entries = other.blurred.entries := by
    rw [hkeys.blurred.entries_eq, hkeys'.blurred.entries_eq, procedures_blurred,
      procedures_blurred, hprocedures]
  exact congrArg₂ mk hentries
    (Instruction.map_blurred_of_lines h.toplevel hother.toplevel htoplevel)

/-- Whether the text of every scope leaves nothing open. -/
def IsClear (listing : Listing) : Prop := ∀ scope ∈ listing.scopes, IsClearCode scope

/-- Lowered programs that are clear and that show the same are the same. -/
theorem IsClear.eq_of_blurred {program program' : Module} (h : listing.IsClear)
    (hother : other.IsClear) (hlower : program.lower = .ok listing)
    (hlower' : program'.lower = .ok other) (heq : listing.blurred = other.blurred) :
    listing = other := by
  obtain ⟨hprocedures, last, htoplevel⟩ := keepsTemps_ofStmts hlower (List.forall_mem_nil _)
  obtain ⟨hprocedures', last', htoplevel'⟩ := keepsTemps_ofStmts hlower' (List.forall_mem_nil _)
  rw [IsClear, scopes, List.forall_mem_cons, List.forall_mem_map] at h hother
  have heach : ∀ entry ∈ listing.entries, ∀ entry' ∈ other.entries,
      (entry.1, entry.2.blurred) = (entry'.1, entry'.2.blurred) → id entry = id entry' := by
    intro entry hmem entry' hmem' hsame
    obtain ⟨hkey, hprocedure⟩ := Prod.mk.inj hsame
    have hmem : entry.2 ∈ listing.procedures := List.mem_map_of_mem hmem
    have hmem' : entry'.2 ∈ other.procedures := List.mem_map_of_mem hmem'
    exact Prod.ext hkey (Procedure.eq_of_blurred (h.2 _ hmem) (hother.2 _ hmem')
      (hprocedures _ hmem) (hprocedures' _ hmem') hprocedure)
  obtain ⟨entries, toplevel⟩ := listing
  obtain ⟨entries', toplevel'⟩ := other
  simp only [blurred, mk.injEq] at heq ⊢
  refine ⟨?_, h.1.eq_of_blurred hother.1 htoplevel htoplevel' heq.2⟩
  have hsame := map_eq_of_mem heach heq.1
  rwa [List.map_id, List.map_id] at hsame

end Listing

namespace CompileOptions

variable [IdentifierTables] {options otherOptions : CompileOptions} {source otherSource : String}
  {first second : Analysis}

theorem isSpellable_of_compile (h : options.compile source = .ok first) :
    first.code.IsSpellable ∧ ∃ program : Module, program.lower = .ok first.code := by
  obtain ⟨tokens, hlex, h⟩ := exists_of_bind_eq_ok h
  obtain ⟨program, hparse, h⟩ := exists_of_bind_eq_ok h
  obtain ⟨listing, hlower, h⟩ := exists_of_bind_eq_ok h
  cases h
  have hspellable := isSpellable_of_parse hlex (ok_of_mapError hparse)
  have hlower := ok_of_mapError (ok_of_mapError hlower)
  exact ⟨Module.isSpellable_lower hspellable hlower, program, hlower⟩

/-- Two sources that compile, each with its options, have the same text of their code exactly where
their codes are the same up to what texts do not show; and where the texts leave nothing open, the
codes are the same. -/
theorem listing_identifies (h : options.compile source = .ok first)
    (hother : otherOptions.compile otherSource = .ok second) :
    (first.code.text = second.code.text ↔ first.code.blurred = second.code.blurred) ∧
      (first.code.IsClear → second.code.IsClear → first.code.text = second.code.text →
        first.code = second.code) := by
  obtain ⟨hspellable, program, hlower⟩ := isSpellable_of_compile h
  obtain ⟨hspellable', program', hlower'⟩ := isSpellable_of_compile hother
  have hiff := Listing.text_eq_iff hspellable hspellable' (Module.isKeyed_of_lower hlower)
    (Module.isKeyed_of_lower hlower')
  exact ⟨hiff, fun hclear hclear' heq =>
    hclear.eq_of_blurred hclear' hlower hlower' (hiff.mp heq)⟩

end CompileOptions

namespace ListingWitness

/-- The temporary of a sum, and a variable that is called like it. -/
def sum : String := "x = a + b"

def parted : String := "a + b\nx = t1"

def spaced : String := "x  =  (a+b)"

/-- A method call, and the call of an attribute. -/
def method : String := "a.b(c)"

def called : String := "(a.b)(c)"

/-- A number that is too large, and a variable that is called like an infinity. -/
def large : String := "x = " ++ String.ofList (List.replicate 309 '9') ++ "."

def named : String := "x = inf"

/-- The code of a source, if it has any. -/
def codeOf (source : String) : Option Listing :=
  (CompileOptions.default.compile source).toOption.map Analysis.code

theorem exists_compiled {source : String} {code : Listing} (h : codeOf source = some code) :
    ∃ analysis, CompileOptions.default.compile source = .ok analysis ∧ analysis.code = code := by
  rw [codeOf] at h
  cases hcompile : CompileOptions.default.compile source with
  | error error => rw [hcompile] at h; cases h
  | ok analysis =>
    rw [hcompile] at h
    exact ⟨analysis, rfl, Option.some.inj h⟩

def sumCode (source : Operand) : Listing :=
  ⟨[], [.binary ⟨1⟩ .add (.var "a") (.var "b"), .store source (.var "x")]⟩

theorem codeOf_sum : codeOf sum = some (sumCode (.temp ⟨1⟩)) := by decide +kernel

theorem codeOf_spaced : codeOf spaced = some (sumCode (.temp ⟨1⟩)) := by decide +kernel

theorem codeOf_parted : codeOf parted = some (sumCode (.var "t1")) := by decide +kernel

theorem isClear_sumCode : (sumCode (.temp ⟨1⟩)).IsClear := by
  have hname : ∀ name ∈ ["a", "b"], name ≠ "inf" ∧
      ∀ temp ∈ results (sumCode (.temp ⟨1⟩)).toplevel, name ≠ temp.text := by decide
  refine List.forall_mem_singleton.mpr (List.forall_mem_cons.mpr
    ⟨⟨rfl, List.forall_mem_cons.mpr ⟨?_, List.forall_mem_singleton.mpr ?_⟩⟩,
      List.forall_mem_singleton.mpr ⟨rfl, List.forall_mem_singleton.mpr ?_⟩⟩)
  · rintro _ ⟨⟩
    exact hname "a" (by decide)
  · rintro _ ⟨⟩
    exact hname "b" (by decide)
  · rintro _ ⟨⟩

theorem listing_of_spaced : ∃ first second third,
    CompileOptions.default.compile sum = .ok first ∧
      CompileOptions.default.compile parted = .ok second ∧
      CompileOptions.default.compile spaced = .ok third ∧
      first.code.blurred = second.code.blurred ∧ first.code.IsClear ∧ third.code.IsClear ∧
      first.code.text = third.code.text ∧ first.code = third.code := by
  obtain ⟨first, hfirst, hcode⟩ := exists_compiled codeOf_sum
  obtain ⟨second, hsecond, hcode'⟩ := exists_compiled codeOf_parted
  obtain ⟨third, hthird, hcode''⟩ := exists_compiled codeOf_spaced
  have hclear : first.code.IsClear := by rw [hcode]; exact isClear_sumCode
  have hclear' : third.code.IsClear := by rw [hcode'']; exact isClear_sumCode
  have htext : first.code.text = second.code.text := by rw [hcode, hcode']; decide
  have htext' : first.code.text = third.code.text := by rw [hcode, hcode'']
  exact ⟨first, second, third, hfirst, hsecond, hthird,
    (CompileOptions.listing_identifies hfirst hsecond).1.mp htext, hclear, hclear', htext',
    (CompileOptions.listing_identifies hfirst hthird).2 hclear hclear' htext'⟩

/-- Whether two sources compile to different codes with the same text. -/
def Collide (source other : String) : Prop :=
  ∃ first second, CompileOptions.default.compile source = .ok first ∧
    CompileOptions.default.compile other = .ok second ∧ first.code.text = second.code.text ∧
    first.code ≠ second.code

theorem Collide.of_codeOf {source other : String} {code code' : Listing}
    (h : codeOf source = some code) (hother : codeOf other = some code')
    (htext : code.text = code'.text) (hne : code ≠ code') : Collide source other := by
  obtain ⟨first, hfirst, rfl⟩ := exists_compiled h
  obtain ⟨second, hsecond, rfl⟩ := exists_compiled hother
  exact ⟨first, second, hfirst, hsecond, htext, hne⟩

theorem collide_open : Collide sum parted ∧ Collide method called ∧ Collide large named := by
  have hmethod : codeOf method =
      some ⟨[], [.methodCall ⟨1⟩ (.var "a") "b" [.var "c"]]⟩ := by decide +kernel
  have hcalled : codeOf called =
      some ⟨[], [.call ⟨1⟩ (.attr (.var "a") "b") [.var "c"]]⟩ := by decide +kernel
  have hlarge : codeOf large = some ⟨[], [.store (.const .infinity) (.var "x")]⟩ := by
    decide +kernel
  have hnamed : codeOf named = some ⟨[], [.store (.var "inf") (.var "x")]⟩ := by decide +kernel
  exact ⟨.of_codeOf codeOf_sum codeOf_parted (by decide) (by decide),
    .of_codeOf hmethod hcalled (by decide) (by decide),
    .of_codeOf hlarge hnamed (by decide) (by decide)⟩

end ListingWitness

end Offside
