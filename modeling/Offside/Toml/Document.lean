/-
TOML documents: keys, values with parts, and lines, read into one table.
-/
import Offside.Toml.Scalar

namespace Offside.Toml

namespace Reader

/-! ### Keys -/

def isBare (c : Char) : Bool := c.isAlphanum || c == '-' || c == '_'

/-- A part of a key. -/
def simpleKey : Reader String := quoted <|> (do pure (String.ofList (← someRun isBare)))

/-- The number of levels that a document may not reach. -/
def levelLimit : Nat := 80

/-- A key: parts with points between them. -/
def key : Reader (List String) := do
  let parts ← separated (do
    blanks
    let part ← simpleKey
    blanks
    pure part) '.'
  if parts.length < levelLimit then pure parts else failure

/-! ### Values -/

/-- Items between square brackets on any number of lines; a comma may follow the last one. -/
def array (item : Reader Value) : Reader Value := do
  mark '['
  let items ← separated (do
    gap
    let found ← item
    gap
    pure found) ',' <|> pure []
  if !items.isEmpty then
    let _ ← optionally (mark ',')
  gap
  mark ']'
  pure (.array items)

/-- A key and its value. -/
def entry (item : Reader Value) : Reader (List String × Value) := do
  let path ← key
  mark '='
  blanks
  let value ← item
  blanks
  pure (path, value)

/-- Entries between braces on one line. -/
def inlineTable (item : Reader Value) : Reader Value := do
  mark '\x7b'
  let found ← separated (entry item) ',' <|> pure []
  blanks
  mark '\x7d'
  match found.foldlM (fun entries (path, value) => Entries.define? value path entries) [] with
  | some entries => pure (.table .inline entries)
  | none => failure

/-- A value with so many levels of arrays and tables left. -/
def valueAt : Nat → Reader Value
  | 0 => scalar
  | levels + 1 => array (valueAt levels) <|> inlineTable (valueAt levels) <|> scalar

def value : Reader Value := valueAt (levelLimit - 1)

end Reader

/-! ### Lines -/

/-- What a line says; the value of an entry may go on over more lines. -/
inductive Line where
  | nothing
  | table (path : List String)
  | nextTable (path : List String)
  | entry (path : List String) (value : Value)
  deriving Repr

namespace Reader

def header : Reader Line := do
  mark '['
  let line ← (do
    mark '['
    let path ← key
    word "]]"
    pure (Line.nextTable path)) <|> (do
    let path ← key
    mark ']'
    pure (Line.table path))
  lineEnd
  pure line

def line : Reader Line := do
  blanks
  (do
    newline
    pure .nothing) <|> (do
    comment
    newline <|> atEnd
    pure .nothing) <|> header <|> (do
    let (path, found) ← entry value
    lineEnd
    pure (.entry path found))

/-- The lines of a document, which may start with a byte order mark. -/
def lines : Reader (List Line) := do
  let _ ← optionally (mark '\uFEFF')
  let found ← many line
  blanks
  atEnd
  pure found

end Reader

/-- A document up to some line: all that it has defined, and the table in which entries go. -/
structure Document where
  entries : Entries
  path : List String
  deriving Repr

namespace Document

def empty : Document := ⟨[], []⟩

/-- Read one more line. -/
def extend? (document : Document) : Line → Option Document
  | .nothing => some document
  | .table path => do
    let entries ← document.entries.underLast? Entries.openTable? path
    some ⟨entries, path⟩
  | .nextTable path => do
    let entries ← document.entries.underLast? Entries.openNext? path
    some ⟨entries, path⟩
  | .entry path value => do
    let entries ← document.entries.within? (Entries.define? value path) document.path
    some { document with entries := entries }

/-- Read a whole text. -/
def ofText? (text : String) : Option Document :=
  match Reader.lines text.toList with
  | some (lines, _) => lines.foldlM extend? empty
  | none => none

end Document

end Offside.Toml
