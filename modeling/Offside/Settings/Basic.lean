/-
Settings that a user keeps in a file, read from a TOML document.  Whatever the document does not
say keeps its default, and keys without a meaning here are passed over.
-/
import Offside.Compilation.Basic
import Offside.Settings.LogLevel
import Offside.Toml.Document

namespace Offside

structure Settings where
  compile : CompileOptions
  logLevel : LogLevel
  /-- Whether diagnostics are colored. -/
  colors : Bool
  deriving Repr, DecidableEq

namespace Settings

open Toml (Value)

def default : Settings where
  compile := .default
  logLevel := .warn
  colors := true

/-! ### Values of single settings -/

/-- A number of columns. -/
def width? : Value → Option Nat
  | .integer value => if 0 ≤ value then some value.toNat else none
  | _ => none

def flag? : Value → Option Bool
  | .boolean value => some value
  | _ => none

/-- A table or an array with nothing in it. -/
def isHollow : Value → Bool
  | .table _ [] => true
  | .array [] => true
  | _ => false

/-- A level by its name, or as the only key of a table with nothing under it. -/
def level? : Value → Option LogLevel
  | .string name => LogLevel.ofName? name
  | .table _ [(name, value)] => if isHollow value then LogLevel.ofName? name else none
  | _ => none

/-! ### Sections -/

/-- What a section says about each of its settings: a table by their keys, an array by their
places.  A date or time is a section that says nothing. -/
def Section := Nat → String → Option Value

def section? : Value → Option Section
  | .table _ entries => some fun _ key => Toml.Entries.find? entries key
  | .array items => some fun place _ => items[place]?
  | .tables items => some fun place _ => items[place]?.map (Value.table .header)
  | .moment => some fun _ _ => none
  | _ => none

/-- The section of a document under a key, which says nothing if it is not there. -/
def sectionOf? (entries : Toml.Entries) (key : String) : Option Section :=
  match Toml.Entries.find? entries key with
  | some value => section? value
  | none => some fun _ _ => none

/-- A setting of a section, or its default. -/
def Section.read? {α : Type} (said : Section) (place : Nat) (key : String)
    (convert? : Value → Option α) (default : α) : Option α :=
  match said place key with
  | some value => convert? value
  | none => some default

/-- The settings in a document. -/
def ofEntries? (entries : Toml.Entries) : Option Settings := do
  let compile ← sectionOf? entries "compile"
  let tabWidth ← compile.read? 0 "tab_width" width? default.compile.tabWidth
  let predeclare ← compile.read? 1 "predeclare_classes" flag? default.compile.predeclare
  let showCode ← compile.read? 2 "show_ir" flag? default.compile.showCode
  let log ← sectionOf? entries "log"
  let logLevel ← log.read? 0 "level" level? default.logLevel
  let diagnostics ← sectionOf? entries "diagnostics"
  let colors ← diagnostics.read? 0 "colors" flag? default.colors
  some
    { compile := { tabWidth := tabWidth, predeclare := predeclare, showCode := showCode }
      logLevel := logLevel
      colors := colors }

/-- The settings in the text of a file, if it is well formed and its values fit. -/
def ofText? (text : String) : Option Settings :=
  match Toml.Document.ofText? text with
  | some document => ofEntries? document.entries
  | none => none

end Settings

end Offside
