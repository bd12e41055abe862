/-
Compiling a source text in three phases, each of which may be the last: cutting it into tokens,
reading the program, and lowering it.
-/
import Offside.Compilation.Error
import Offside.Grammar.Statement
import Offside.Token.Stream

namespace Offside

/-- Settings of a compilation. -/
structure CompileOptions where
  tabWidth : Nat
  /-- Whether classes count as declared in the whole text. -/
  predeclare : Bool
  /-- Whether the code is shown with the outline. -/
  showCode : Bool
  deriving Repr, DecidableEq

def CompileOptions.default : CompileOptions where
  tabWidth := 4
  predeclare := false
  showCode := false

/-- What a source compiles to. -/
structure Analysis where
  program : Module
  code : Listing
  deriving Repr

namespace CompileOptions

/-- The tokens of a source. -/
def lex [IdentifierTables] (options : CompileOptions) (source : String) :
    Except (Failure CompileError) (List Token) :=
  (tokenize source options.tabWidth).mapError (Failure.map .lexical)

/-- The program of a token stream. -/
def parse (options : CompileOptions) (tokens : List Token) : Except CompileError Module :=
  (Module.ofTokens tokens options.predeclare).mapError .grammar

/-- The code of a program. -/
def lower (_options : CompileOptions) (program : Module) : Except CompileError Listing :=
  program.lower.mapError .lowering

/-- All three phases, up to the first failure. -/
def compile [IdentifierTables] (options : CompileOptions) (source : String) :
    Except (Failure CompileError) Analysis := do
  let tokens ← options.lex source
  let program ← (options.parse tokens).mapError .reported
  let code ← (options.lower program).mapError .reported
  pure ⟨program, code⟩

end CompileOptions

end Offside
