/-
Levels of log messages, from the most talkative one to the quietest.
-/
namespace Offside

/-- How much is logged: messages of the level itself and of all quieter ones. -/
inductive LogLevel where
  | trace
  | debug
  | info
  | warn
  | error
  deriving Repr, DecidableEq

namespace LogLevel

def all : List LogLevel := [trace, debug, info, warn, error]

/-- The name of a level in settings. -/
def name : LogLevel → String
  | trace => "trace"
  | debug => "debug"
  | info => "info"
  | warn => "warn"
  | error => "error"

def ofName? (name : String) : Option LogLevel := all.find? (·.name == name)

/-- Place in the order of levels; quieter levels come later. -/
def quietness : LogLevel → Nat
  | trace => 0
  | debug => 1
  | info => 2
  | warn => 3
  | error => 4

/-- Whether messages of the other level are shown at this one. -/
def shows (level message : LogLevel) : Bool := level.quietness ≤ message.quietness

/-- The level that a number of requests for more messages asks for, if there is one. -/
def ofVerbosity? : Nat → Option LogLevel
  | 0 => none
  | 1 => some debug
  | _ => some trace

/-- The level after requests for more messages, never quieter than before. -/
def raisedBy (level : LogLevel) (verbosity : Nat) : LogLevel :=
  match ofVerbosity? verbosity with
  | some requested => if level.shows requested then level else requested
  | none => level

theorem ofName?_name (level : LogLevel) : ofName? level.name = some level := by
  cases level <;> decide

/-- Whatever was shown before is still shown. -/
theorem shows_raisedBy (level message : LogLevel) (verbosity : Nat)
    (h : level.shows message = true) : (level.raisedBy verbosity).shows message = true := by
  unfold raisedBy
  split
  · rename_i requested _
    split
    · exact h
    · rename_i hquiet
      simp only [shows, decide_eq_true_eq] at h hquiet ⊢
      omega
  · exact h

end LogLevel

end Offside
