/-
Lowered programs: named functions in the order of their first definition, and the instructions
outside of every function.
-/
import Offside.Code.Instruction

namespace Offside

/-- A lowered function or method. -/
structure Procedure where
  /-- The name of a function, or class and method with a point between them. -/
  name : String
  params : List String
  body : List Instruction
  deriving Repr, DecidableEq

namespace Procedure

def lines (procedure : Procedure) : List String := procedure.body.map Instruction.text

end Procedure

/-- A lowered program. -/
structure Listing where
  /-- Procedures with their keys, in the order in which the keys came first. -/
  entries : List (String × Procedure)
  toplevel : List Instruction
  deriving Repr, DecidableEq

namespace Listing

def procedures (listing : Listing) : List Procedure := listing.entries.map Prod.snd

/-- Keep a procedure under a key, in place of the one that is kept there, or else at the end. -/
def put : List (String × Procedure) → String → Procedure → List (String × Procedure)
  | [], key, new => [(key, new)]
  | (found, old) :: others, key, new =>
    if found = key then (key, new) :: others else (found, old) :: put others key new

/-- Define a procedure; a later definition of a name replaces the earlier one in its place. -/
def define (listing : Listing) (procedure : Procedure) : Listing :=
  { listing with entries := put listing.entries procedure.name procedure }

/-- The procedure that is kept under a key. -/
def find? (listing : Listing) (key : String) : Option Procedure :=
  (listing.entries.find? (·.1 == key)).map Prod.snd

/-- An instruction on a line of its own. -/
def lineText (instruction : Instruction) : String := "    " ++ instruction.text ++ "\n"

def procedureText (procedure : Procedure) : String :=
  "function " ++ procedure.name ++ "(" ++ ", ".intercalate procedure.params ++ "):\n" ++
    String.join (procedure.body.map lineText) ++ "\n"

/-- The text of a lowered program: its procedures, each with an empty line after it, and then the
instructions outside of them. -/
def text (listing : Listing) : String :=
  String.join (listing.procedures.map procedureText) ++ "toplevel:\n" ++
    String.join (listing.toplevel.map lineText)

end Listing

end Offside
