/-
Parting a text where a line starts.  No token lies across the start of a line, so what the front
part is cut into does not depend on what stands behind it; at the seam only the stage and the open
levels are handed on.
-/
import Offside.Proofs.Token.Shifting
import Offside.Proofs.Token.Stages

open String (utf8Len)

namespace Offside

/-! ### Lines in front of a seam -/

section

variable {before line mid back rest run : List Char}

/-- A text that reaches from somewhere to the start of a line has a line feed. -/
theorem lineFeed_mem_of_lastLine (hseam : lastLine (before ++ mid) = []) (hmid : mid ≠ []) :
    '\n' ∈ mid := by
  by_contra hno
  rw [lastLine_append hno] at hseam
  exact hmid (List.append_eq_nil_iff.mp hseam).2

/-- A run of a line lies in front of the seam as a whole. -/
theorem exists_of_append_eq (hrun : '\n' ∉ run) (hmid : '\n' ∈ mid)
    (h : run ++ rest = mid ++ back) :
    ∃ mid', mid = run ++ mid' ∧ rest = mid' ++ back ∧ '\n' ∈ mid' := by
  rcases List.append_eq_append_iff.mp h with ⟨mid', rfl, hrest⟩ | ⟨others, rfl, -⟩
  · exact ⟨mid', rfl, hrest, (List.mem_append.mp hmid).resolve_left hrun⟩
  · exact absurd (List.mem_append_left others hmid) hrun

theorem exists_of_line_eq (hline : '\n' ∉ line) (hmid : '\n' ∈ mid)
    (h : line ++ '\n' :: rest = mid ++ back) :
    ∃ mid', mid = line ++ '\n' :: mid' ∧ rest = mid' ++ back := by
  obtain ⟨mid', rfl, hrest, hmem⟩ := exists_of_append_eq hline hmid h
  cases mid' with
  | nil => cases hmem
  | cons c mid' =>
    obtain ⟨rfl, htail⟩ := List.cons.inj hrest
    exact ⟨mid', rfl, htail⟩

/-- Behind a line feed nothing of a line is left. -/
theorem firstLine_append_of_mem (hmid : '\n' ∈ mid) (back : List Char) :
    firstLine (mid ++ back) = firstLine mid := by
  induction mid with
  | nil => cases hmid
  | cons c mid ih =>
    by_cases hc : c = '\n'
    · rw [hc]
      rfl
    · have hmem : '\n' ∈ mid := (List.mem_cons.mp hmid).resolve_left (Ne.symm hc)
      rw [List.cons_append, firstLine_cons hc, firstLine_cons hc, ih hmem]

/-- A run of the line in front of a seam ends in front of the seam. -/
theorem offset_lt_of_lineFeed (hrun : '\n' ∉ run) (hmid : '\n' ∈ mid) (h : run <+: mid ++ back) :
    (Position.first.after (before ++ run)).offset < utf8Len (before ++ mid) := by
  obtain ⟨rest, hrest⟩ := h
  obtain ⟨mid', rfl, -, hmem⟩ := exists_of_append_eq hrun hmid hrest
  have hpos : utf8Len mid' ≠ 0 := by
    rw [Ne, String.utf8Len_eq_zero]
    exact List.ne_nil_of_mem hmem
  rw [Position.offset_after_first, ← List.append_assoc, String.utf8Len_append _ mid']
  omega

/-- What a line is indented by does not depend on the lines behind it. -/
theorem fits_append_iff (hmid : '\n' ∈ mid) (tabWidth : Nat) (back other : List Char) :
    Fits tabWidth (mid ++ back) ↔ Fits tabWidth (mid ++ other) := by
  have hstop : (mid.takeWhile Lexer.isBlank).length ≠ mid.length := by
    intro hall
    rw [← List.IsPrefix.eq_of_length (List.takeWhile_prefix _) hall] at hmid
    exact absurd (List.mem_takeWhile_imp hmid) (by decide)
  rw [Fits, Fits, List.takeWhile_append, List.takeWhile_append, if_neg hstop, if_neg hstop]

/-- Tokens that start behind a run of the line in front of a seam start in front of the seam. -/
theorem starts_before {tokens : List Token} (hrun : '\n' ∉ run) (hmid : '\n' ∈ mid)
    (h : mid ++ back = run ++ rest)
    (hstart : ∀ token ∈ tokens, token.span.start = Position.first.after (before ++ run)) :
    ∀ token ∈ tokens, token.span.start.offset < utf8Len (before ++ mid) := by
  intro token htoken
  rw [hstart token htoken]
  exact offset_lt_of_lineFeed hrun hmid ⟨rest, h.symm⟩

end

/-! ### Reading in front of a seam -/

section

variable {before run rest other : List Char} {token : Token} {error : LexicalError}

theorem EndsBelow.refl (before : List Char) : EndsBelow 0 0 before before := rfl

/-- A token does not depend on the lines behind its own. -/
theorem Scans.congr [IdentifierTables] (h : Scans before run rest token)
    (hother : firstLine other = firstLine rest) :
    Scans before run other token :=
  h.shift (.refl before) hother

theorem LexicalError.shift_zero (error : LexicalError) : error.shift 0 0 = error := by
  cases error <;> rfl

theorem Faults.congr [IdentifierTables] (h : Faults before rest error)
    (hother : firstLine other = firstLine rest) :
    Faults before other error := by
  have hfault := h.shift (.refl before) hother
  rwa [LexicalError.shift_zero] at hfault

end

section

variable {before front : List Char} {blocks : Indentation}

theorem start_eq_of_meet {width : Nat} {place : Position} {inner : Indentation}
    {marks : List Token} (hmeet : blocks.meet width place = (.ok marks, inner)) :
    ∀ token ∈ marks, token.span.start = place := by
  intro token htoken
  obtain ⟨layout, rfl⟩ := Indentation.eq_mark_of_meet hmeet token htoken
  rfl

/-- A place behind a text is no nearer to its start. -/
theorem utf8Len_le_offset (h : front <+: before) (run : List Char) :
    utf8Len front ≤ (Position.first.after (before ++ run)).offset := by
  obtain ⟨more, rfl⟩ := h
  rw [Position.offset_after_first, List.append_assoc, String.utf8Len_append]
  exact Nat.le_add_right _ _

theorem le_offset_of_closing (hfront : front <+: before) (run : List Char) :
    ∀ token ∈ closing blocks (before ++ run), utf8Len front ≤ token.span.start.offset := by
  intro token htoken
  rcases List.mem_append.mp htoken with htoken | htoken
  · rw [List.eq_of_mem_replicate htoken]
    exact utf8Len_le_offset hfront run
  · rw [List.mem_singleton.mp htoken]
    exact utf8Len_le_offset hfront run

end

/-! ### Parting a text -/

/-- How a text is cut that is parted behind `mid`: up to a failure in front of the seam, or up to
the seam, with a stage and levels from which the rest is cut.  Either way another text may stand
behind the seam. -/
inductive Parted [IdentifierTables] (tabWidth : Nat) (stage : Stage) (before : List Char)
    (blocks : Indentation) (mid back : List Char) (tokens : List Token)
    (error : Option (Failure LexicalError)) : Prop
  | stopped {found : Failure LexicalError} (herror : error = some found)
    (hbefore : ∀ token ∈ tokens, token.span.start.offset < utf8Len (before ++ mid))
    (hplace : ∀ fault, found = .reported fault → fault.place.offset < utf8Len (before ++ mid))
    (hother : ∀ other, Cut tabWidth stage before blocks (mid ++ other) tokens error)
  | passed {init tail : List Token} {reached : Stage} {inner : Indentation}
    (htokens : tokens = init ++ tail)
    (hbefore : ∀ token ∈ init, token.span.start.offset < utf8Len (before ++ mid))
    (hreached : reached.Reached (before ++ mid)) (hraised : inner.Raised)
    (hnext : Cut tabWidth reached (before ++ mid) inner back tail error)
    (hother : ∀ other others found, Cut tabWidth reached (before ++ mid) inner other others found →
      Cut tabWidth stage before blocks (mid ++ other) (init ++ others) found)

section

variable [IdentifierTables] {tabWidth : Nat} {stage next : Stage}
  {before before' mid mid' back : List Char} {blocks blocks' : Indentation}
  {front tokens : List Token} {error : Option (Failure LexicalError)}

/-- The text may be parted where it stands. -/
theorem Cut.parted_here (h : Cut tabWidth stage before blocks back tokens error)
    (hstage : stage.Reached before) (hblocks : blocks.Raised) :
    Parted tabWidth stage before blocks [] back tokens error := by
  rw [← List.append_nil before] at h hstage
  refine .passed (List.nil_append _).symm (List.forall_mem_nil _) hstage hblocks h ?_
  intro other others found hcut
  rwa [List.append_nil] at hcut

/-- What is read in front of a text that is parted belongs to the front part. -/
theorem Parted.behind (h : Parted tabWidth next before' blocks' mid' back tokens error)
    (hseam : before' ++ mid' = before ++ mid)
    (hfront : ∀ token ∈ front, token.span.start.offset < utf8Len (before ++ mid))
    (hcut : ∀ other others found, Cut tabWidth next before' blocks' (mid' ++ other) others found →
      Cut tabWidth stage before blocks (mid ++ other) (front ++ others) found) :
    Parted tabWidth stage before blocks mid back (front ++ tokens) error := by
  cases h with
  | stopped herror hbefore hplace hother =>
    rw [hseam] at hbefore hplace
    exact .stopped herror (List.forall_mem_append.mpr ⟨hfront, hbefore⟩) hplace
      fun other => hcut _ _ _ (hother other)
  | @passed init tail reached inner htokens hbefore hreached hraised hnext hother =>
    rw [hseam] at hbefore hreached hnext hother
    have htokens' : front ++ tokens = front ++ init ++ tail := by
      rw [htokens, List.append_assoc]
    refine .passed htokens' (List.forall_mem_append.mpr ⟨hfront, hbefore⟩) hreached hraised
      hnext ?_
    intro other others found hfound
    rw [List.append_assoc]
    exact hcut _ _ _ (hother _ _ _ hfound)

/-- In front of a line the text may be parted, or it goes on with the whole line. -/
theorem Cut.parted_of_line (h : Cut tabWidth stage before blocks (mid ++ back) tokens error)
    (hstage : stage.Reached before) (hblocks : blocks.Raised)
    (hseam : Offside.lastLine (before ++ mid) = [])
    (hline : '\n' ∈ mid → Parted tabWidth stage before blocks mid back tokens error) :
    Parted tabWidth stage before blocks mid back tokens error := by
  by_cases hmid : mid = []
  · subst hmid
    exact Cut.parted_here h hstage hblocks
  · exact hline (lineFeed_mem_of_lastLine hseam hmid)

variable {blanks run rest : List Char} {token : Token} {fault : LexicalError}

/-- A line that ends in front of the seam belongs to the front part. -/
theorem Parted.behind_line (front : List Token) {filler : List Char}
    (hfiller : Filler filler) (hmid : '\n' ∈ mid) (hrest : mid ++ back = filler ++ '\n' :: rest)
    (hseam : lastLine (before ++ mid) = [])
    (hfront : ∀ token ∈ front, token.span.start = Position.first.after (before ++ filler))
    (hnext : Cut tabWidth next (before ++ filler ++ ['\n']) blocks' rest tokens error)
    (hreached : next.Reached (before ++ filler ++ ['\n'])) (hblocks : blocks'.Raised)
    (ih : ∀ {mid'}, next.Reached (before ++ filler ++ ['\n']) → blocks'.Raised →
      lastLine (before ++ filler ++ ['\n'] ++ mid') = [] → '\n' ∈ mid' → mid' ++ back = rest →
      Parted tabWidth next (before ++ filler ++ ['\n']) blocks' mid' back tokens error)
    (hcut : ∀ other others found,
      Cut tabWidth next (before ++ filler ++ ['\n']) blocks' other others found →
      Cut tabWidth stage before blocks (filler ++ '\n' :: other) (front ++ others) found) :
    Parted tabWidth stage before blocks mid back (front ++ tokens) error := by
  have hplain := hfiller.lineFeed_not_mem
  have hfront' := starts_before hplain hmid hrest hfront
  obtain ⟨mid', rfl, rfl⟩ := exists_of_line_eq hplain hmid hrest.symm
  have hend : before ++ filler ++ ['\n'] ++ mid' = before ++ (filler ++ '\n' :: mid') := by simp
  rw [← hend] at hseam
  have hparted := hnext.parted_of_line hreached hblocks hseam fun hmem =>
    ih hreached hblocks hseam hmem rfl
  refine hparted.behind hend hfront' fun other others found hother => ?_
  rw [List.append_assoc, List.cons_append]
  exact hcut _ _ _ hother

/-- A token in front of the seam does not depend on what stands behind it. -/
theorem Parted.behind_token (front : List Token) (hblanks : ∀ c ∈ blanks, Lexer.isBlank c = true)
    (hscan : Scans (before ++ blanks) run rest token) (hmid : '\n' ∈ mid)
    (hrest : mid ++ back = blanks ++ (run ++ rest)) (hseam : lastLine (before ++ mid) = [])
    (hfront : ∀ token ∈ front, token.span.start = Position.first.after (before ++ blanks))
    (hreached : next.Reached (before ++ blanks ++ run)) (hblocks : blocks'.Raised)
    (ih : ∀ {mid'}, next.Reached (before ++ blanks ++ run) → blocks'.Raised →
      lastLine (before ++ blanks ++ run ++ mid') = [] → '\n' ∈ mid' → mid' ++ back = rest →
      Parted tabWidth next (before ++ blanks ++ run) blocks' mid' back tokens error)
    (hcut : ∀ other others found, Scans (before ++ blanks) run other token →
      Cut tabWidth next (before ++ blanks ++ run) blocks' other others found →
      Cut tabWidth stage before blocks (blanks ++ (run ++ other)) (front ++ others) found) :
    Parted tabWidth stage before blocks mid back (front ++ tokens) error := by
  have hplain := lineFeed_not_mem_of_isBlank hblanks
  have hfront' := starts_before hplain hmid hrest hfront
  obtain ⟨mid₁, rfl, hmid₁, hmem₁⟩ := exists_of_append_eq hplain hmid hrest.symm
  obtain ⟨mid', rfl, rfl, hmem⟩ := exists_of_append_eq hscan.lineFeed_not_mem hmem₁ hmid₁
  have hend : before ++ blanks ++ run ++ mid' = before ++ (blanks ++ (run ++ mid')) := by simp
  rw [← hend] at hseam
  have hparted := ih hreached hblocks hseam hmem rfl
  refine hparted.behind hend hfront' fun other others found hother => ?_
  have hline : firstLine (mid' ++ other) = firstLine (mid' ++ back) := by
    rw [firstLine_append_of_mem hmem, firstLine_append_of_mem hmem]
  rw [List.append_assoc, List.append_assoc]
  exact hcut _ _ _ (hscan.congr hline) hother

/-- A line that is not read to its end stops the front part. -/
theorem Parted.of_fault (hblanks : ∀ c ∈ blanks, Lexer.isBlank c = true)
    (hmid : '\n' ∈ mid) (hrest : mid ++ back = blanks ++ rest)
    (hfront : ∀ token ∈ front, token.span.start = Position.first.after (before ++ blanks))
    (hplace : ∃ passed, passed <+: rest ∧ '\n' ∉ passed ∧
      fault.place = Position.first.after (before ++ blanks ++ passed))
    (hcut : ∀ other, firstLine other = firstLine rest →
      Cut tabWidth stage before blocks (blanks ++ other) front (some (.reported fault))) :
    Parted tabWidth stage before blocks mid back front (some (.reported fault)) := by
  have hplain := lineFeed_not_mem_of_isBlank hblanks
  have hfront' := starts_before hplain hmid hrest hfront
  obtain ⟨mid', rfl, rfl, hmem⟩ := exists_of_append_eq hplain hmid hrest.symm
  refine .stopped rfl hfront' ?_ fun other => ?_
  · rintro _ ⟨rfl⟩
    obtain ⟨passed, hpassed, hline, hplace⟩ := hplace
    rw [hplace, ← List.append_assoc]
    exact offset_lt_of_lineFeed hline hmem hpassed
  · rw [List.append_assoc]
    refine hcut _ ?_
    rw [firstLine_append_of_mem hmem, firstLine_append_of_mem hmem]

/-- A text may be parted wherever a line starts. -/
theorem Cut.parted (h : Cut tabWidth stage before blocks (mid ++ back) tokens error)
    (hstage : stage.Reached before) (hblocks : blocks.Raised)
    (hseam : Offside.lastLine (before ++ mid) = []) :
    Parted tabWidth stage before blocks mid back tokens error := by
  refine h.parted_of_line hstage hblocks hseam fun hmid => ?_
  generalize hrest : mid ++ back = rest at h
  induction h generalizing mid with
  | tooWide hwide =>
    subst hrest
    exact .stopped rfl (List.forall_mem_nil _) nofun fun other =>
      .tooWide fun hfits => hwide ((fits_append_iff hmid tabWidth back other).mpr hfits)
  | emptyLine hfiller hfits hnext ih =>
    exact .behind_line [] hfiller hmid hrest hseam (List.forall_mem_nil _) hnext
      (hstage.emptyLine hfiller) hblocks ih fun _ _ _ hcut => .emptyLine hfiller hfits hcut
  | joinedLine hfiller hopen hnext ih =>
    exact .behind_line [] hfiller hmid hrest hseam (List.forall_mem_nil _) hnext
      (hstage.joinedLine hfiller hopen) hblocks ih fun _ _ _ hcut =>
        .joinedLine hfiller hopen hcut
  | lineEnd hfiller hnext ih =>
    exact .behind_line [_] hfiller hmid hrest hseam (List.forall_mem_singleton.mpr rfl) hnext
      (hstage.lineEnd hfiller) hblocks ih fun _ _ _ hcut => .lineEnd hfiller hcut
  | textEnd hfiller | lastLine hfiller =>
    exact absurd (hrest ▸ List.mem_append_left back hmid) hfiller.lineFeed_not_mem
  | line hblanks hfits hmeet hscan _ ih =>
    rw [List.append_cons]
    refine .behind_token _ hblanks hscan hmid hrest hseam (List.forall_mem_append.mpr
      ⟨start_eq_of_meet hmeet, List.forall_mem_singleton.mpr hscan.span_start⟩)
      (hstage.scanned hblanks hscan) (hblocks.meet hmeet) ih fun _ _ _ hscan' hcut => ?_
    rw [← List.append_cons]
    exact .line hblanks hfits hmeet hscan' hcut
  | token hblanks hscan _ ih =>
    exact .behind_token [_] hblanks hscan hmid hrest hseam
      (List.forall_mem_singleton.mpr hscan.span_start) (hstage.scanned hblanks hscan) hblocks ih
      fun _ _ _ hscan' hcut => .token hblanks hscan' hcut
  | faultyLine hblanks hfits hmeet hfault =>
    exact .of_fault hblanks hmid hrest (start_eq_of_meet hmeet) hfault.exists_passed.2
      fun _ hother => .faultyLine hblanks hfits hmeet (hfault.congr hother)
  | unmetLine hblanks hcode hfits hmeet =>
    obtain ⟨rfl, -⟩ := Indentation.meet_error hmeet
    refine .of_fault hblanks hmid hrest (List.forall_mem_nil _) ?_
      fun _ hother => .unmetLine hblanks (startsCode_of_firstLine hcode hother).2 hfits hmeet
    exact ⟨[], List.nil_prefix, List.not_mem_nil, by rw [List.append_nil]; rfl⟩
  | fault hblanks hfault =>
    exact .of_fault hblanks hmid hrest (List.forall_mem_nil _) hfault.exists_passed.2
      fun _ hother => .fault hblanks (hfault.congr hother)

/-- At the end of a text, outside of a line, only levels are left to close. -/
theorem Cut.eq_closing (h : Cut tabWidth .fresh before blocks [] tokens error) :
    tokens = closing blocks before ∧ error = none := by
  have hnone {run rest : List Char} (hrest : [] = run ++ rest) (hcode : startsCode rest = true) :
      False := by
    obtain ⟨-, rfl⟩ := List.append_eq_nil_iff.mp hrest.symm
    cases hcode
  generalize hrest : [] = rest at h
  cases h with
  | tooWide hwide => exact absurd (hrest ▸ fits_nil tabWidth) hwide
  | textEnd =>
    rw [← hrest, List.append_nil]
    exact ⟨rfl, rfl⟩
  | emptyLine => exact absurd hrest.symm (by simp)
  | line _ _ _ hscan _ => exact (hnone hrest hscan.startsCode).elim
  | faultyLine _ _ _ hfault => exact (hnone hrest hfault.code).elim
  | unmetLine _ hcode => exact (hnone hrest hcode).elim

variable {front : List Char}

theorem Faults.le_offset (h : Faults (before ++ blanks) rest fault) (hfront : front <+: before) :
    utf8Len front ≤ fault.place.offset := by
  obtain ⟨-, passed, -, -, hplace⟩ := h.exists_passed
  rw [hplace, List.append_assoc]
  exact utf8Len_le_offset hfront _

/-- Whatever is found behind a stage starts behind it. -/
theorem Cut.le_offset (h : Cut tabWidth stage before blocks rest tokens error)
    (hfront : front <+: before) :
    (∀ token ∈ tokens, utf8Len front ≤ token.span.start.offset) ∧
      ∀ fault, error = some (.reported fault) → utf8Len front ≤ fault.place.offset := by
  induction h with
  | tooWide => exact ⟨List.forall_mem_nil _, nofun⟩
  | emptyLine _ _ _ ih | joinedLine _ _ _ ih =>
    exact ih (List.prefix_append_of_prefix (List.prefix_append_of_prefix hfront))
  | lineEnd _ _ ih =>
    obtain ⟨htokens, hfault⟩ :=
      ih (List.prefix_append_of_prefix (List.prefix_append_of_prefix hfront))
    exact ⟨List.forall_mem_cons.mpr ⟨utf8Len_le_offset hfront _, htokens⟩, hfault⟩
  | textEnd => exact ⟨le_offset_of_closing hfront _, nofun⟩
  | lastLine =>
    exact ⟨List.forall_mem_cons.mpr
      ⟨utf8Len_le_offset hfront _, le_offset_of_closing hfront _⟩, nofun⟩
  | line _ _ hmeet hscan _ ih =>
    have hbegin := utf8Len_le_offset hfront
    obtain ⟨htokens, hfault⟩ :=
      ih (List.prefix_append_of_prefix (List.prefix_append_of_prefix hfront))
    refine ⟨List.forall_mem_append.mpr ⟨fun mark hmark => ?_,
      List.forall_mem_cons.mpr ⟨?_, htokens⟩⟩, hfault⟩
    · rw [start_eq_of_meet hmeet mark hmark]
      exact hbegin _
    · rw [hscan.span_start]
      exact hbegin _
  | token _ hscan _ ih =>
    obtain ⟨htokens, hfault⟩ :=
      ih (List.prefix_append_of_prefix (List.prefix_append_of_prefix hfront))
    refine ⟨List.forall_mem_cons.mpr ⟨?_, htokens⟩, hfault⟩
    rw [hscan.span_start]
    exact utf8Len_le_offset hfront _
  | faultyLine _ _ hmeet hfault =>
    refine ⟨fun mark hmark => ?_, fun found hfound => ?_⟩
    · rw [start_eq_of_meet hmeet mark hmark]
      exact utf8Len_le_offset hfront _
    · cases hfound
      exact hfault.le_offset hfront
  | unmetLine _ _ _ hmeet =>
    obtain ⟨rfl, -⟩ := Indentation.meet_error hmeet
    refine ⟨List.forall_mem_nil _, fun found hfound => ?_⟩
    cases hfound
    exact utf8Len_le_offset hfront _
  | fault _ hfault =>
    refine ⟨List.forall_mem_nil _, fun found hfound => ?_⟩
    cases hfound
    exact hfault.le_offset hfront

end

end Offside
