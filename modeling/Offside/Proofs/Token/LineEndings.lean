/-
The ends of lines.  A text without carriage returns is cut into the same tokens when each of its
line feeds gets a carriage return in front, and where it cannot be cut any further, the other text
cannot either.  The lexer reads both texts side by side; it passes a carriage return over as a
blank, as the last character of a comment, or not at all.
-/
import Offside.Proofs.Token.CutUnique
import Offside.Proofs.Token.Formatted

namespace Offside

/-! ### Texts with carriage returns -/

/-- Characters with a carriage return in front of every line feed. -/
def withReturns (cs : List Char) : List Char :=
  cs.flatMap fun c => if c = '\n' then ['\r', '\n'] else [c]

section

variable {cs run tail : List Char} {c : Char}

theorem withReturns_cons (hc : c ≠ '\n') (cs : List Char) :
    withReturns (c :: cs) = c :: withReturns cs := by
  rw [withReturns, List.flatMap_cons, if_neg hc]
  rfl

theorem withReturns_lineFeed (cs : List Char) :
    withReturns ('\n' :: cs) = '\r' :: '\n' :: withReturns cs := rfl

theorem withReturns_append (hrun : '\n' ∉ run) (cs : List Char) :
    withReturns (run ++ cs) = run ++ withReturns cs := by
  induction run with
  | nil => rfl
  | cons c run ih =>
    rw [List.mem_cons, not_or] at hrun
    rw [List.cons_append, withReturns_cons (Ne.symm hrun.1), ih hrun.2, List.cons_append]

theorem withReturns_of_lineFeed_not_mem (hrun : '\n' ∉ run) : withReturns run = run := by
  have h := withReturns_append hrun []
  rwa [List.append_nil, show withReturns [] = [] from rfl, List.append_nil] at h

theorem withReturns_line (hrun : '\n' ∉ run) (cs : List Char) :
    withReturns (run ++ '\n' :: cs) = run ++ ['\r'] ++ '\n' :: withReturns cs := by
  rw [withReturns_append hrun, withReturns_lineFeed, List.append_assoc]
  rfl

/-- What stands in front of a line feed in the new text, but does not end between the two
characters, is there in the old text as well. -/
theorem exists_of_withReturns_eq (hcs : '\r' ∉ cs) (hrun : '\n' ∉ run)
    (hlast : run.getLast? ≠ some '\r') (h : withReturns cs = run ++ tail) :
    ∃ rest, cs = run ++ rest ∧ tail = withReturns rest := by
  induction run generalizing cs with
  | nil => exact ⟨cs, rfl, h.symm⟩
  | cons c run ih =>
    rw [List.mem_cons, not_or] at hrun
    cases cs with
    | nil => cases h
    | cons d cs =>
      rw [List.mem_cons, not_or] at hcs
      by_cases hd : d = '\n'
      · rw [hd, withReturns_lineFeed, List.cons_append, List.cons.injEq] at h
        obtain ⟨rfl, hnext⟩ := h
        cases run with
        | nil => exact absurd rfl hlast
        | cons e run =>
          rw [List.cons_append, List.cons.injEq] at hnext
          exact absurd (hnext.1 ▸ List.mem_cons_self) hrun.2
      · rw [withReturns_cons hd, List.cons_append, List.cons.injEq] at h
        obtain ⟨rfl, hnext⟩ := h
        have hlast' : run.getLast? ≠ some '\r' := by
          intro hrunLast
          rw [List.getLast?_cons, hrunLast] at hlast
          exact hlast rfl
        obtain ⟨rest, rfl, htail⟩ := ih hcs.2 hrun.2 hlast' hnext
        exact ⟨rest, rfl, htail⟩

theorem endsRun_withReturns {p : Char → Bool} (hline : p '\n' = false) (hreturn : p '\r' = false) :
    EndsRun p (withReturns tail) ↔ EndsRun p tail := by
  have hhead (c : Char) (cs : List Char) : EndsRun p (c :: cs) ↔ p c = false :=
    ⟨fun h => h c cs rfl, by rintro h _ _ ⟨⟩; exact h⟩
  cases tail with
  | nil => rfl
  | cons c cs =>
    by_cases hc : c = '\n'
    · rw [hc, withReturns_lineFeed, hhead, hhead, hline, hreturn]
    · rw [withReturns_cons hc, hhead, hhead]

/-- A carriage return takes no room. -/
theorem lineWidth_takeWhile_withReturns (tabWidth : Nat) (cs : List Char) :
    lineWidth tabWidth ((withReturns cs).takeWhile Lexer.isBlank) =
      lineWidth tabWidth (cs.takeWhile Lexer.isBlank) := by
  induction cs with
  | nil => rfl
  | cons c cs ih =>
    by_cases hc : c = '\n'
    · rw [hc, withReturns_lineFeed]
      rfl
    · rw [withReturns_cons hc]
      cases hblank : Lexer.isBlank c with
      | true =>
        rw [List.takeWhile_cons_of_pos hblank, List.takeWhile_cons_of_pos hblank, lineWidth_cons,
          lineWidth_cons, ih]
      | false =>
        rw [List.takeWhile_cons_of_neg (by simp [hblank]),
          List.takeWhile_cons_of_neg (by simp [hblank])]

theorem fits_withReturns {tabWidth : Nat} : Fits tabWidth (withReturns cs) ↔ Fits tabWidth cs := by
  rw [Fits, Fits, lineWidth_takeWhile_withReturns]

/-- At the end of a line a carriage return does not make it wider. -/
theorem Fits.returned {tabWidth : Nat} (h : Fits tabWidth run) (hrun : '\n' ∉ run) :
    Fits tabWidth (run ++ ['\r']) := by
  have hline : Fits tabWidth (run ++ ['\n']) := h.append (by rintro _ _ ⟨⟩; rfl)
  have hreturned := fits_withReturns.mpr hline
  rw [withReturns_line hrun] at hreturned
  exact hreturned.of_append

theorem longest?_withReturns (sign : Symbol) (tail : List Char) :
    Symbol.longest? (sign.text.toList ++ withReturns tail) =
      Symbol.longest? (sign.text.toList ++ tail) := by
  cases tail with
  | nil => rfl
  | cons c cs =>
    by_cases hc : c = '\n'
    · rw [hc, withReturns_lineFeed]
      cases sign <;> rfl
    · rw [withReturns_cons hc]
      cases sign <;> rfl

end

/-! ### Tokens and faults -/

theorem StringBody.getLast?_eq {body value : List Char} (h : StringBody body value) :
    body.getLast? = some '"' := by
  induction h with
  | close => rfl
  | plain _ _ _ _ ih => rw [List.getLast?_cons, ih]; rfl
  | escaped _ _ ih => rw [List.getLast?_cons, List.getLast?_cons, ih]; rfl

theorem IsLexeme.getLast?_ne_return [IdentifierTables] {run : List Char} {kind : TokenKind}
    (h : IsLexeme run kind) :
    run.getLast? ≠ some '\r' := by
  cases h with
  | word hstart hrest =>
    exact fun hlast => ne_of_isNumberChar
      (isNumberChar_of_word hstart hrest _ (List.mem_of_getLast? hlast)) (by simp) rfl
  | number value hstart hrest =>
    exact fun hlast => ne_of_isNumberChar
      (isNumberChar_of_number hstart hrest _ (List.mem_of_getLast? hlast)) (by simp) rfl
  | string h =>
    rw [List.getLast?_cons, h.getLast?_eq]
    decide
  | symbol sign => cases sign <;> decide

theorem Lexer.readsAs_withReturns [IdentifierTables] {run tail : List Char} {kind : TokenKind} :
    ReadsAs run (withReturns tail) kind ↔ ReadsAs run tail kind := by
  have hword : EndsRun isIdentifierChar (withReturns tail) ↔ EndsRun isIdentifierChar tail :=
    endsRun_withReturns (by simp) (by simp)
  have hnumber : EndsRun isNumberChar (withReturns tail) ↔ EndsRun isNumberChar tail :=
    endsRun_withReturns (by simp) (by simp)
  constructor
  · exact fun h => h.inFrontOf hword.mp hnumber.mp fun sign hlongest => by
      rwa [longest?_withReturns] at hlongest
  · exact fun h => h.inFrontOf hword.mpr hnumber.mpr fun sign hlongest => by
      rwa [longest?_withReturns]

theorem Scans.returned [IdentifierTables] {before run tail : List Char} {token : Token}
    (h : Scans before run tail token) (front : List Char) :
    ∃ other, other.kind = token.kind ∧ Scans front run (withReturns tail) other :=
  TokenKind.exists_scans_of_readsAs (Lexer.readsAs_withReturns.mpr h.readsAs.1) front

theorem startsCode_withReturns {rest : List Char} (h : startsCode rest = true) :
    startsCode (withReturns rest) = true := by
  cases rest with
  | nil => cases h
  | cons c cs =>
    have hc : c ≠ '\n' := by
      rintro rfl
      cases h
    rw [withReturns_cons hc]
    exact h

/-- A token of the new text would be a token of the old one. -/
theorem Faults.returned [IdentifierTables] {before rest : List Char} {error : LexicalError}
    (h : Faults before rest error) (hrest : '\r' ∉ rest) (front : List Char) :
    ∃ other, Faults front (withReturns rest) other := by
  have hcode := startsCode_withReturns h.code
  have hne : (Lexer.reading front (withReturns rest)).rest ≠ [] := by
    intro hnil
    rw [show withReturns rest = [] from hnil] at hcode
    cases hcode
  cases hscan : (Lexer.reading front (withReturns rest)).scanToken with
  | mk result after =>
    cases result with
    | error other => exact ⟨other, by rw [hscan], hcode⟩
    | ok token =>
      obtain ⟨run, tail, hsplit, hreads, -, -⟩ := Lexer.scanToken_readsAs hne hscan
      obtain ⟨more, rfl, rfl⟩ := exists_of_withReturns_eq hrest hreads.isLexeme.lineFeed_not_mem
        hreads.isLexeme.getLast?_ne_return hsplit
      obtain ⟨found, -, hfound⟩ :=
        TokenKind.exists_scans_of_readsAs (Lexer.readsAs_withReturns.mp hreads) before
      have hscans := hfound.scan
      rw [h.scan] at hscans
      cases hscans

theorem Filler.returned {filler : List Char} (h : Filler filler) : Filler (filler ++ ['\r']) := by
  rcases h.cases with hblanks | ⟨blanks, text, rfl, hblanks, htext⟩
  · exact .of_blanks (List.forall_mem_append.mpr ⟨hblanks, List.forall_mem_singleton.mpr rfl⟩)
  · rw [List.append_assoc, List.cons_append]
    exact .of_comment hblanks (by simp [htext])

/-! ### Places -/

/-- The same line and the same column, at whatever offset. -/
structure Position.SameSpot (place other : Position) : Prop where
  line : other.line = place.line
  column : other.column = place.column

namespace Position.SameSpot

variable {place other : Position}

theorem after (h : place.SameSpot other) (run : List Char) :
    (place.after run).SameSpot (other.after run) := by
  induction run generalizing place other with
  | nil => exact h
  | cons c run ih =>
    refine ih ?_
    rw [next, next]
    split
    · exact ⟨congrArg (· + 1) h.line, rfl⟩
    · exact ⟨h.line, congrArg (· + 1) h.column⟩

/-- A carriage return at the end of a line moves nothing behind it. -/
theorem lineFeed (h : place.SameSpot other) :
    (place.next '\n').SameSpot ((other.next '\r').next '\n') :=
  ⟨congrArg (· + 1) h.line, rfl⟩

end Position.SameSpot

/-- Two texts that end in the same line and the same column. -/
def Abreast (before front : List Char) : Prop :=
  (Position.first.after before).SameSpot (Position.first.after front)

namespace Abreast

variable {before front : List Char}

theorem nil : Abreast [] [] := ⟨rfl, rfl⟩

theorem append (h : Abreast before front) (run : List Char) :
    Abreast (before ++ run) (front ++ run) := by
  rw [Abreast, Position.after_append, Position.after_append]
  exact h.after run

theorem lineFeed (h : Abreast before front) (filler : List Char) :
    Abreast (before ++ filler ++ ['\n']) (front ++ (filler ++ ['\r']) ++ ['\n']) := by
  rw [Abreast, ← List.append_assoc, Position.after_concat, Position.after_concat,
    Position.after_concat]
  exact Position.SameSpot.lineFeed (h.append filler)

end Abreast

/-- A token of the same kind; if it is one of the text, it has the same lexeme, and starts and ends
in the same lines and columns. -/
structure Token.StandsAs (token other : Token) : Prop extends Token.SpelledAs token other where
  start : token.kind.isLayout = false → token.span.start.SameSpot other.span.start
  stop : token.kind.isLayout = false → token.span.stop.SameSpot other.span.stop

theorem Token.StandsAs.of_layout {token other : Token} {layout : Layout}
    (htoken : token.kind = .layout layout) (hother : other.kind = .layout layout) :
    token.StandsAs other := by
  refine ⟨.of_layout htoken hother, fun h => ?_, fun h => ?_⟩ <;>
  · rw [htoken] at h
    cases h

theorem Scans.standsAs [IdentifierTables] {before front run tail back : List Char}
    {token other : Token} (h : Scans before run tail token) (hother : Scans front run back other)
    (hkind : other.kind = token.kind) (hfront : Abreast before front) : token.StandsAs other := by
  refine ⟨h.spelledAs hother hkind, fun _ => ?_, fun _ => ?_⟩
  · rw [h.readsAs.2, hother.readsAs.2]
    exact hfront
  · rw [h.readsAs.2, hother.readsAs.2]
    exact hfront.append run

theorem standsAs_marks (layouts : List Layout) (place other : Position) :
    List.Forall₂ Token.StandsAs (layouts.map (Token.mark · place))
      (layouts.map (Token.mark · other)) := by
  rw [List.forall₂_map_left_iff, List.forall₂_map_right_iff]
  exact List.forall₂_same.mpr fun layout _ => .of_layout rfl rfl

theorem standsAs_closing (blocks : Indentation) (before front : List Char) :
    List.Forall₂ Token.StandsAs (closing blocks before) (closing blocks front) := by
  have hmarks := standsAs_marks (List.replicate blocks.depth .dedent ++ [.endOfInput])
    (Position.first.after before) (Position.first.after front)
  simpa [closing, Indentation.close] using hmarks

namespace Indentation

variable {blocks inner : Indentation} {width : Nat} {place : Position}

/-- Where a line stands does not matter to its levels. -/
theorem exists_meet {marks : List Token} (h : blocks.meet width place = (.ok marks, inner))
    (other : Position) :
    ∃ others, blocks.meet width other = (.ok others, inner) ∧
      List.Forall₂ Token.StandsAs marks others := by
  rcases meet_ok h with ⟨hdeeper, rfl, rfl⟩ | ⟨hle, hinner, htop, rfl⟩
  · exact ⟨_, if_pos hdeeper, standsAs_marks [.indent] place other⟩
  · have hmarks :=
      standsAs_marks (List.replicate (blocks.depth - inner.depth) .dedent) place other
    rw [List.map_replicate, List.map_replicate] at hmarks
    refine ⟨_, ?_, hmarks⟩
    rw [meet, if_neg (Nat.not_lt.mpr hle), ← hinner]
    exact if_pos htop

theorem exists_meet_error {error : LexicalError}
    (h : blocks.meet width place = (.error error, inner)) (other : Position) :
    ∃ found, blocks.meet width other = (.error found, inner) := by
  obtain ⟨-, hle, hinner, htop⟩ := meet_error h
  refine ⟨.inconsistentDedent width other, ?_⟩
  rw [meet, if_neg (Nat.not_lt.mpr hle), ← hinner]
  exact if_neg htop

end Indentation

/-! ### Cutting both texts -/

/-- The new text is cut like the old one, and both come to their ends or neither does. -/
theorem Cut.returned [IdentifierTables] {tabWidth : Nat} {stage : Stage}
    {before rest front : List Char} {blocks : Indentation} {tokens : List Token}
    {error : Option (Failure LexicalError)} (h : Cut tabWidth stage before blocks rest tokens error)
    (hrest : '\r' ∉ rest) (hfront : Abreast before front) :
    ∃ others found, Cut tabWidth stage front blocks (withReturns rest) others found ∧
      List.Forall₂ Token.StandsAs tokens others ∧ found.isSome = error.isSome := by
  induction h generalizing front with
  | tooWide hwide => exact ⟨[], _, .tooWide (mt fits_withReturns.mp hwide), .nil, rfl⟩
  | @emptyLine before filler rest blocks tokens error hfiller hfits _ ih =>
    simp only [List.mem_append, List.mem_cons, not_or] at hrest
    obtain ⟨others, found, hcut, hothers, hfound⟩ := ih hrest.2.2 (hfront.lineFeed filler)
    rw [withReturns_line hfiller.lineFeed_not_mem]
    exact ⟨others, found,
      .emptyLine hfiller.returned (hfits.returned hfiller.lineFeed_not_mem) hcut, hothers, hfound⟩
  | @textEnd before filler blocks hfiller hfits =>
    rw [withReturns_of_lineFeed_not_mem hfiller.lineFeed_not_mem]
    exact ⟨_, none, .textEnd hfiller hfits, standsAs_closing _ _ _, rfl⟩
  | @line before blanks run rest blocks inner marks token tokens error hblanks hfits hmeet hscan _
      ih =>
    simp only [List.mem_append, not_or] at hrest
    have hbegin := hfront.append blanks
    obtain ⟨othermarks, hmeet', hmarks⟩ :=
      Indentation.exists_meet hmeet (Position.first.after (front ++ blanks))
    obtain ⟨other, hkind, hscan'⟩ := hscan.returned (front ++ blanks)
    obtain ⟨others, found, hcut, hothers, hfound⟩ := ih hrest.2.2 (hbegin.append run)
    rw [← hkind] at hcut
    rw [withReturns_append (lineFeed_not_mem_of_isBlank hblanks),
      withReturns_append hscan.lineFeed_not_mem]
    exact ⟨_, found, .line hblanks hfits hmeet' hscan' hcut,
      List.rel_append hmarks (.cons (hscan.standsAs hscan' hkind hbegin) hothers), hfound⟩
  | @faultyLine before blanks rest blocks inner marks error hblanks hfits hmeet hfault =>
    simp only [List.mem_append, not_or] at hrest
    obtain ⟨others, hmeet', hmarks⟩ :=
      Indentation.exists_meet hmeet (Position.first.after (front ++ blanks))
    obtain ⟨other, hfault'⟩ := hfault.returned hrest.2 (front ++ blanks)
    rw [withReturns_append (lineFeed_not_mem_of_isBlank hblanks)]
    exact ⟨others, some (.reported other), .faultyLine hblanks hfits hmeet' hfault', hmarks, rfl⟩
  | @unmetLine before blanks rest blocks inner error hblanks hcode hfits hmeet =>
    obtain ⟨other, hmeet'⟩ :=
      Indentation.exists_meet_error hmeet (Position.first.after (front ++ blanks))
    rw [withReturns_append (lineFeed_not_mem_of_isBlank hblanks)]
    exact ⟨[], some (.reported other),
      .unmetLine hblanks (startsCode_withReturns hcode) hfits hmeet', .nil, rfl⟩
  | @token brackets before blanks run rest blocks token tokens error hblanks hscan _ ih =>
    simp only [List.mem_append, not_or] at hrest
    have hbegin := hfront.append blanks
    obtain ⟨other, hkind, hscan'⟩ := hscan.returned (front ++ blanks)
    obtain ⟨others, found, hcut, hothers, hfound⟩ := ih hrest.2.2 (hbegin.append run)
    rw [← hkind] at hcut
    rw [withReturns_append (lineFeed_not_mem_of_isBlank hblanks),
      withReturns_append hscan.lineFeed_not_mem]
    exact ⟨_, found, .token hblanks hscan' hcut,
      .cons (hscan.standsAs hscan' hkind hbegin) hothers, hfound⟩
  | @fault brackets before blanks rest blocks error hblanks hfault =>
    simp only [List.mem_append, not_or] at hrest
    obtain ⟨other, hfault'⟩ := hfault.returned hrest.2 (front ++ blanks)
    rw [withReturns_append (lineFeed_not_mem_of_isBlank hblanks)]
    exact ⟨[], some (.reported other), .fault hblanks hfault', .nil, rfl⟩
  | @joinedLine brackets before filler rest blocks tokens error hfiller hopen _ ih =>
    simp only [List.mem_append, List.mem_cons, not_or] at hrest
    obtain ⟨others, found, hcut, hothers, hfound⟩ := ih hrest.2.2 (hfront.lineFeed filler)
    rw [withReturns_line hfiller.lineFeed_not_mem]
    exact ⟨others, found, .joinedLine hfiller.returned hopen hcut, hothers, hfound⟩
  | @lineEnd before filler rest blocks tokens error hfiller _ ih =>
    simp only [List.mem_append, List.mem_cons, not_or] at hrest
    obtain ⟨others, found, hcut, hothers, hfound⟩ := ih hrest.2.2 (hfront.lineFeed filler)
    rw [withReturns_line hfiller.lineFeed_not_mem]
    exact ⟨_, found, .lineEnd hfiller.returned hcut, .cons (.of_layout rfl rfl) hothers, hfound⟩
  | @lastLine brackets before filler blocks hfiller =>
    rw [withReturns_of_lineFeed_not_mem hfiller.lineFeed_not_mem]
    exact ⟨_, none, .lastLine hfiller,
      .cons (.of_layout rfl rfl) (standsAs_closing _ _ _), rfl⟩

end Offside
