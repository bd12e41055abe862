/-
The open indentation levels.  A deeper line opens one level; a shallower line closes every level
deeper than itself and must then stand exactly on an open one.
-/
import Offside.Token.Basic

namespace Offside

/-- Widths of the open levels, innermost first; the base level of width zero is not listed. -/
structure Indentation where
  levels : List Nat
  deriving Repr, DecidableEq

namespace Indentation

def base : Indentation := ⟨[]⟩

/-- The width of the innermost open level. -/
def top (blocks : Indentation) : Nat := blocks.levels.headD 0

/-- Number of open levels above the base. -/
def depth (blocks : Indentation) : Nat := blocks.levels.length

/-- All widths from the base level inwards. -/
def stack (blocks : Indentation) : List Nat := 0 :: blocks.levels.reverse

/-- The levels that a line of this width leaves open. -/
def keep (blocks : Indentation) (width : Nat) : List Nat :=
  blocks.levels.dropWhile (width < ·)

/-- Meet a line of the given width.  The levels deeper than the line are closed even when the
line then stands on no open level. -/
def meet (blocks : Indentation) (width : Nat) (place : Position) :
    Except LexicalError (List Token) × Indentation :=
  if blocks.top < width then
    (.ok [Token.mark .indent place], ⟨width :: blocks.levels⟩)
  else
    let kept : Indentation := ⟨blocks.keep width⟩
    if kept.top = width then
      (.ok (List.replicate (blocks.depth - kept.depth) (Token.mark .dedent place)), kept)
    else (.error (.inconsistentDedent width place), kept)

/-- Close every level at the end of the input. -/
def close (blocks : Indentation) (place : Position) : List Token × Indentation :=
  (List.replicate blocks.depth (Token.mark .dedent place), base)

theorem depth_keep_le (blocks : Indentation) (width : Nat) :
    (blocks.keep width).length ≤ blocks.depth := by
  simp only [keep, depth]
  exact (List.dropWhile_sublist _).length_le

end Indentation

end Offside
