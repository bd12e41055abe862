/-
The order of tokens.  In a text every token ends before the next one starts, and a token that is
not layout covers at least one character, so tokens that spell different parts of a program have
different spans.
-/
import Offside.Proofs.Token.Coverage

open String (utf8Len)

namespace Offside

/-- Tokens that stand one behind the other, of which those that were read cover something. -/
structure Ascending (tokens : List Token) : Prop where
  ordered : tokens.Pairwise fun first second => first.span.stop.offset ≤ second.span.start.offset
  wide : ∀ token ∈ tokens, token.kind.isLayout = false →
    token.span.start.offset < token.span.stop.offset

namespace Ascending

variable {tokens other first second : List Token} {token : Token}

theorem sublist (h : Ascending tokens) (hsub : other.Sublist tokens) : Ascending other where
  ordered := h.ordered.sublist hsub
  wide token htoken := h.wide token (hsub.subset htoken)

theorem left (h : Ascending (first ++ second)) : Ascending first :=
  h.sublist (List.sublist_append_left _ _)

theorem right (h : Ascending (first ++ second)) : Ascending second :=
  h.sublist (List.sublist_append_right _ _)

theorem head_le (h : Ascending (token :: tokens)) :
    ∀ other ∈ tokens, token.span.stop.offset ≤ other.span.start.offset :=
  (List.pairwise_cons.mp h.ordered).1

theorem le_of_append (h : Ascending (first ++ second)) {a b : Token} (ha : a ∈ first)
    (hb : b ∈ second) : a.span.stop.offset ≤ b.span.start.offset :=
  (List.pairwise_append.mp h.ordered).2.2 a ha b hb

end Ascending

theorem Tiles.ascending {before rest : List Char} {tokens : List Token}
    (h : Tiles before tokens rest) : Ascending tokens := by
  induction h with
  | done => exact ⟨.nil, List.forall_mem_nil _⟩
  | skip _ _ ih => exact ih
  | @token before run rest token tokens hspells _ hspan hnext ih =>
    have hstop : token.span.stop.offset = utf8Len (before ++ run) := by
      rw [hspan, Position.offset_after_first]
    have hstart : token.span.start.offset = utf8Len before := by
      rw [hspan, Position.offset_after_first]
    constructor
    · refine List.pairwise_cons.mpr ⟨fun other hother => ?_, ih.ordered⟩
      rw [hstop]
      exact hnext.le_start hother
    · refine List.forall_mem_cons.mpr ⟨fun hkind => ?_, ih.wide⟩
      rw [hstart, hstop, String.utf8Len_append]
      cases hspells with
      | plain _ hrun =>
        obtain ⟨c, cs, rfl⟩ := List.exists_cons_of_ne_nil hrun
        have hpos := c.utf8Size_pos
        rw [String.utf8Len_cons]
        omega
      | lineEnd hlayout | textEnd hlayout | mark hlayout =>
        rw [hlayout] at hkind
        cases hkind

theorem ascending_of_tokenize [IdentifierTables] {text : String} {tabWidth : Nat}
    {tokens : List Token} (h : tokenize text tabWidth = .ok tokens) : Ascending tokens :=
  (tiles_of_tokenize h).ascending

end Offside
