/-
Bodies with a gap: one statement is missing, in the body itself or inside of its conditionals and
loops.  Filling the gap tells one occurrence of a statement from every other.
-/
import Offside.Program.Basic

namespace Offside

/-- A statement with a body of it missing. -/
inductive Frame where
  | thenBody (test : Expr) (elseBody : Option (List Stmt)) (span : Span)
  | elseBody (test : Expr) (thenBody : List Stmt) (span : Span)
  | loopBody (test : Expr) (span : Span)

namespace Frame

def fill : Frame → List Stmt → Stmt
  | thenBody test second span, body => .branch test body second span
  | elseBody test first span, body => .branch test first (some body) span
  | loopBody test span, body => .loop test body span

def isLoop : Frame → Bool
  | loopBody _ _ => true
  | _ => false

end Frame

/-- A body with one statement missing. -/
inductive Gap where
  | here (before after : List Stmt)
  | inside (before : List Stmt) (frame : Frame) (inner : Gap) (after : List Stmt)

namespace Gap

def fill : Gap → Stmt → List Stmt
  | here before after, s => before ++ s :: after
  | inside before frame inner after, s => before ++ frame.fill (inner.fill s) :: after

/-- Whether no loop of the body lies around the gap. -/
def isLoopFree : Gap → Bool
  | here _ _ => true
  | inside _ frame inner _ => !frame.isLoop && inner.isLoopFree

end Gap

/-- A gap in the body of a loop, with the loop around it that is the innermost one. -/
structure LoopGap where
  outer : Gap
  test : Expr
  inner : Gap
  span : Span
  innermost : inner.isLoopFree = true

namespace LoopGap

/-- The loop with the gap filled. -/
def loop (gap : LoopGap) (s : Stmt) : Stmt := .loop gap.test (gap.inner.fill s) gap.span

def fill (gap : LoopGap) (s : Stmt) : List Stmt := gap.outer.fill (gap.loop s)

/-- The same gap in a body of a statement of a larger body. -/
def within (gap : LoopGap) (before : List Stmt) (frame : Frame) (after : List Stmt) : LoopGap :=
  { gap with outer := .inside before frame gap.outer after }

end LoopGap

/-- A gap with a loop around it has an innermost one. -/
theorem Gap.exists_loopGap (gap : Gap) (h : gap.isLoopFree = false) :
    ∃ found : LoopGap, found.fill = gap.fill := by
  induction gap with
  | here before after => cases h
  | inside before frame inner after ih =>
    by_cases hinner : inner.isLoopFree = false
    · obtain ⟨found, hfound⟩ := ih hinner
      refine ⟨found.within before frame after, funext fun s => ?_⟩
      change before ++ frame.fill (found.fill s) :: after = _
      rw [hfound]
      rfl
    · rw [Bool.not_eq_false] at hinner
      rw [isLoopFree, hinner, Bool.and_true, Bool.not_eq_false'] at h
      cases frame with
      | loopBody test span => exact ⟨⟨.here before after, test, inner, span, hinner⟩, rfl⟩
      | thenBody | elseBody => cases h

end Offside
