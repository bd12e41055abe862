/-
Values of a TOML document, and the rules by which keys and headers build its tables: nothing is
defined twice, and a table that is complete stays as it is.
-/
import Offside.Decimal.Binary64

namespace Offside.Toml

/-- What brought a table into being. -/
inductive Origin where
  /-- Written between braces, and complete with them. -/
  | inline
  /-- Named in front of a point in the key of an entry. -/
  | dotted
  /-- Named in front of a point in a header only. -/
  | passing
  /-- Opened by a header of its own. -/
  | header
  deriving Repr, DecidableEq

inductive Value where
  | string (text : String)
  | integer (value : Int)
  | float (value : Binary64)
  | boolean (value : Bool)
  /-- A date, a time, or both. -/
  | moment
  | array (items : List Value)
  | table (origin : Origin) (entries : List (String × Value))
  /-- Tables that were opened one after another by headers in double brackets. -/
  | tables (items : List (List (String × Value)))
  deriving Repr

/-- The entries of a table, each key once. -/
abbrev Entries := List (String × Value)

namespace Entries

def find? (entries : Entries) (key : String) : Option Value := entries.lookup key

/-- Put a value in place of the one under its key, or else at the end. -/
def put : Entries → String → Value → Entries
  | [], key, value => [(key, value)]
  | (other, old) :: rest, key, value =>
    if other = key then (key, value) :: rest else (other, old) :: put rest key value

/-- Putting a value changes what is found under its key, and nothing else. -/
theorem find?_put (entries : Entries) (key other : String) (value : Value) :
    (entries.put key value).find? other =
      if other = key then some value else entries.find? other := by
  induction entries with
  | nil =>
    simp only [put, find?, List.lookup_cons, List.lookup_nil]
    by_cases h : other = key
    · simp [h]
    · simp [h, beq_false_of_ne h]
  | cons entry rest ih =>
    obtain ⟨found, old⟩ := entry
    simp only [find?] at ih
    by_cases hfound : found = key
    · subst hfound
      simp only [put, find?, List.lookup_cons, if_true]
      by_cases h : other = found
      · simp [h]
      · simp [h, beq_false_of_ne h]
    · simp only [put, find?, List.lookup_cons, hfound, if_false, ih]
      by_cases h : other = found
      · subst h
        simp [hfound]
      · simp [beq_false_of_ne h]

/-- Put an entry under a key that is still free. -/
def add? (entries : Entries) (key : String) (value : Value) : Option Entries :=
  match entries.find? key with
  | some _ => none
  | none => some (entries.put key value)

/-- Change the last of several tables. -/
def changeLast? (change : Entries → Option Entries) (tables : List Entries) :
    Option (List Entries) := do
  let changed ← change (tables.getLast?.getD [])
  some (tables.dropLast ++ [changed])

/-- Enter a value under a dotted key.  The key may lead through tables that headers have named,
but the table that takes the value has to be made of dotted keys alone. -/
def define? (value : Value) : List String → Entries → Option Entries
  | [], _ => none
  | [key], entries => entries.add? key value
  | key :: rest, entries =>
    match entries.find? key with
    | none => do
      let inner ← define? value rest []
      some (entries.put key (.table .dotted inner))
    | some (.table .dotted inner) => do
      let inner ← define? value rest inner
      some (entries.put key (.table .dotted inner))
    | some (.table .passing inner) =>
      if rest.length ≤ 1 then none
      else do
        let inner ← define? value rest inner
        some (entries.put key (.table .passing inner))
    | some (.tables items) =>
      if rest.length ≤ 1 then none
      else do
        let items ← changeLast? (define? value rest) items
        some (entries.put key (.tables items))
    | some _ => none

/-- Change the table to which the path of a header leads: the last one where there are several,
and a new one where there is none. -/
def within? (change : Entries → Option Entries) : List String → Entries → Option Entries
  | [], entries => change entries
  | key :: rest, entries =>
    match entries.find? key with
    | none => do
      let inner ← within? change rest []
      some (entries.put key (.table .passing inner))
    | some (.table origin inner) =>
      if origin = .inline then none
      else do
        let inner ← within? change rest inner
        some (entries.put key (.table origin inner))
    | some (.tables items) => do
      let items ← changeLast? (within? change rest) items
      some (entries.put key (.tables items))
    | some _ => none

/-- Change what the last part of a path names, in the table to which the parts before it lead. -/
def underLast? (change : String → Entries → Option Entries) (path : List String)
    (entries : Entries) : Option Entries :=
  match path.getLast? with
  | some key => within? (change key) path.dropLast entries
  | none => none

/-- Open a table by a header; before, it may only have been passed. -/
def openTable? (key : String) (entries : Entries) : Option Entries :=
  match entries.find? key with
  | none => some (entries.put key (.table .header []))
  | some (.table .passing inner) => some (entries.put key (.table .header inner))
  | some _ => none

/-- Open one more of several tables. -/
def openNext? (key : String) (entries : Entries) : Option Entries :=
  match entries.find? key with
  | none => some (entries.put key (.tables [[]]))
  | some (.tables items) => some (entries.put key (.tables (items ++ [[]])))
  | some _ => none

end Entries

end Offside.Toml
