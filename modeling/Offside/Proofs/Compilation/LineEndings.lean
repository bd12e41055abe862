/-
Compiling texts with other line ends.  A source without carriage returns and the same source with
one in front of every line feed have tokens of the same kinds, and so they are answered in the same
way.
-/
import Offside.Proofs.Compilation.Formatting
import Offside.Proofs.Token.LineEndings
import Offside.Text.IdentifierRanges

namespace Offside

/-- A source with a carriage return in front of every line feed. -/
def returned (source : String) : String := String.ofList (withReturns source.toList)

theorem toList_returned (source : String) :
    (returned source).toList = withReturns source.toList := String.toList_ofList

section

variable {source : String} {tabWidth : Nat} {tokens others : List Token}

theorem exists_tokenize_returned [IdentifierTables] (hsource : '\r' ∉ source.toList)
    (h : tokenize source tabWidth = .ok tokens) :
    ∃ others, tokenize (returned source) tabWidth = .ok others ∧
      List.Forall₂ Token.StandsAs tokens others := by
  obtain ⟨others, found, hcut, hothers, hfound⟩ :=
    (cut_of_tokenize h).returned hsource .nil
  obtain rfl : found = none := by simpa using hfound
  rw [← toList_returned] at hcut
  exact ⟨others, tokenize_eq_of_cut hcut, hothers⟩

theorem exists_tokenize_returned_error [IdentifierTables] (hsource : '\r' ∉ source.toList)
    {error : Failure LexicalError} (h : tokenize source tabWidth = .error error) :
    ∃ other, tokenize (returned source) tabWidth = .error other := by
  obtain ⟨tokens, hcut⟩ := cut_of_tokenize_error h
  obtain ⟨others, found, hcut', -, hfound⟩ := hcut.returned hsource .nil
  obtain ⟨other, rfl⟩ := Option.isSome_iff_exists.mp (hfound.trans rfl)
  rw [← toList_returned] at hcut'
  exact ⟨other, tokenize_eq_of_cut_error hcut'⟩

theorem map_kind_of_standsAs (h : List.Forall₂ Token.StandsAs tokens others) :
    others.map Token.kind = tokens.map Token.kind :=
  map_kind_of_spelledAs (h.imp fun _ _ => Token.StandsAs.toSpelledAs)

end

namespace CompileOptions

variable [IdentifierTables] (options : CompileOptions) {source : String}

theorem map_json_returned (hsource : '\r' ∉ source.toList) :
    (options.compile (returned source)).toOption.map Analysis.json =
      (options.compile source).toOption.map Analysis.json := by
  cases hlex : tokenize source options.tabWidth with
  | ok tokens =>
    obtain ⟨others, hother, hstands⟩ := exists_tokenize_returned hsource hlex
    exact map_json_of_kinds hlex hother (map_kind_of_standsAs hstands)
  | error error =>
    obtain ⟨other, hother⟩ := exists_tokenize_returned_error hsource hlex
    have hfails {text : String} {error : Failure LexicalError}
        (h : tokenize text options.tabWidth = .error error) :
        (options.compile text).toOption = none := by
      rw [compile, lex, h]
      rfl
    rw [hfails hlex, hfails hother]

/-- Carriage returns in front of the line feeds of a source change neither its tokens, but for their
offsets and the layout between them, nor what it compiles to, nor whether it does. -/
theorem compile_returned (hsource : '\r' ∉ source.toList) :
    (((∃ tokens, tokenize (returned source) options.tabWidth = .ok tokens) ↔
        ∃ tokens, tokenize source options.tabWidth = .ok tokens) ∧
      ∀ tokens others, tokenize source options.tabWidth = .ok tokens →
        tokenize (returned source) options.tabWidth = .ok others →
        List.Forall₂ Token.StandsAs tokens others) ∧
    ((∃ analysis, options.compile (returned source) = .ok analysis) ↔
        ∃ analysis, options.compile source = .ok analysis) ∧
      ∀ analysis other, options.compile source = .ok analysis →
        options.compile (returned source) = .ok other →
        payload (.ok other) = payload (.ok analysis) := by
  have hjson := map_json_returned options hsource
  refine ⟨⟨⟨?_, ?_⟩, ?_⟩, ?_, ?_⟩
  · rintro ⟨tokens, hother⟩
    cases hlex : tokenize source options.tabWidth with
    | ok tokens => exact ⟨tokens, rfl⟩
    | error error =>
      obtain ⟨other, hfails⟩ := exists_tokenize_returned_error hsource hlex
      rw [hfails] at hother
      cases hother
  · rintro ⟨tokens, hlex⟩
    obtain ⟨others, hother, -⟩ := exists_tokenize_returned hsource hlex
    exact ⟨others, hother⟩
  · intro tokens others hlex hother
    obtain ⟨found, hfound, hstands⟩ := exists_tokenize_returned hsource hlex
    obtain rfl := Except.ok.inj (hfound.symm.trans hother)
    exact hstands
  · have hsome := congrArg Option.isSome hjson
    rw [Option.isSome_map, Option.isSome_map] at hsome
    have hiff {text : String} : (∃ analysis, options.compile text = .ok analysis) ↔
        (options.compile text).toOption.isSome = true := by
      cases options.compile text <;> simp [Except.toOption]
    rw [hiff, hiff, hsome]
  · intro analysis other hcompile hother
    rw [hcompile, hother] at hjson
    exact Option.some.inj hjson

end CompileOptions

namespace LineEndingsWitness

/-- A loop with a comment, an empty line and a call over two lines. -/
def source : String := "while a<1: # é\n\n\ta+=f(\"x\",\n  3)\n"

def text : String := "while a<1: # é\r\n\r\n\ta+=f(\"x\",\r\n  3)\r\n"

theorem compile_returned_loop :
    returned source = text ∧
      (∃ tokens others, tokenize source 4 = .ok tokens ∧ tokenize text 4 = .ok others ∧
        List.Forall₂ Token.StandsAs tokens others) ∧
      ∃ analysis other, CompileOptions.default.compile source = .ok analysis ∧
        CompileOptions.default.compile text = .ok other ∧
        payload (.ok other) = payload (.ok analysis) := by
  have htext : returned source = text := by decide +kernel
  have hlexes : (tokenize source CompileOptions.default.tabWidth).toOption.isSome = true := by
    decide +kernel
  have hcompiles : (CompileOptions.default.compile source).toOption.isSome = true := by
    decide +kernel
  have hsource : '\r' ∉ source.toList := by decide +kernel
  obtain ⟨⟨hlexIff, htokens⟩, hcompileIff, hpayload⟩ :=
    CompileOptions.compile_returned .default hsource
  rw [htext] at hlexIff htokens hcompileIff hpayload
  cases hlex : tokenize source CompileOptions.default.tabWidth with
  | error error => rw [hlex] at hlexes; cases hlexes
  | ok tokens =>
    cases hcompile : CompileOptions.default.compile source with
    | error error => rw [hcompile] at hcompiles; cases hcompiles
    | ok analysis =>
      obtain ⟨others, hother⟩ := hlexIff.mpr ⟨tokens, hlex⟩
      obtain ⟨other, hanswer⟩ := hcompileIff.mpr ⟨analysis, hcompile⟩
      exact ⟨htext, ⟨tokens, others, hlex, hother, htokens tokens others hlex hother⟩,
        analysis, other, rfl, hanswer, hpayload analysis other hcompile hanswer⟩

end LineEndingsWitness

end Offside
