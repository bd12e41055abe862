/-
The scopes of a program do not influence each other.  A procedure is what its last declaration
lowers to on its own, procedures stand where their names are first declared, and the code outside of
them is that of the program without its definitions.
-/
import Offside.Proofs.Code.JumpTargets
import Mathlib.Data.List.Forall2

namespace Offside

/-! ### Declarations -/

/-- A function, or a method of a class, as a program declares it. -/
inductive Declaration where
  | function (definition : FunctionDef Stmt)
  | method (className : String) (definition : FunctionDef Stmt)

namespace Declaration

def definition : Declaration → FunctionDef Stmt
  | function definition => definition
  | method _ definition => definition

/-- The name of the procedure that is declared. -/
def name : Declaration → String
  | function definition => definition.name
  | method className definition => definition.qualifiedName className

/-- Whether this is the method that prepares a new object. -/
def isInit : Declaration → Bool
  | function _ => false
  | method _ definition => definition.name == FunctionDef.initName

def lower (declaration : Declaration) : Except LoweringError Procedure :=
  declaration.definition.lower declaration.name declaration.isInit

/-- The program that declares nothing else. -/
def alone : Declaration → Module
  | function definition => ⟨[.function definition definition.span], definition.span⟩
  | method className definition =>
    ⟨[.classDef className [definition] definition.span], definition.span⟩

/-- Declarations with the same parameters and the same body. -/
structure Alike (first second : Declaration) : Prop where
  isInit : second.isInit = first.isInit
  params : second.definition.params.map Param.name = first.definition.params.map Param.name
  body : second.definition.body = first.definition.body

end Declaration

/-- What a statement declares. -/
def Stmt.declarations : Stmt → List Declaration
  | function definition _ => [.function definition]
  | classDef name methods _ => methods.map (.method name)
  | _ => []

namespace Module

/-- What a program declares, in the order of its text. -/
def declarations (program : Module) : List Declaration := program.body.flatMap Stmt.declarations

/-- The last declaration of a name. -/
def declared? (program : Module) (name : String) : Option Declaration :=
  program.declarations.reverse.find? (·.name == name)

/-- The program without its functions and classes. -/
def undeclared (program : Module) : Module :=
  { program with body := program.body.filter (!·.isDefinition) }

end Module

/-! ### Keeping procedures in a listing -/

namespace Listing

/-- Every procedure has its own name for its key. -/
def IsKeyed (listing : Listing) : Prop := ∀ entry ∈ listing.entries, entry.2.name = entry.1

theorem IsKeyed.entries_eq {listing : Listing} (h : listing.IsKeyed) :
    listing.entries = listing.procedures.map fun procedure => (procedure.name, procedure) := by
  rw [procedures, List.map_map]
  refine ((List.map_id _).symm.trans (List.map_congr_left fun entry hmem => ?_))
  exact Prod.ext (h entry hmem).symm rfl

/-- Keep procedures under their keys, one after the other. -/
def putAll (entries added : List (String × Procedure)) : List (String × Procedure) :=
  added.foldl (fun entries new => put entries new.1 new.2) entries

variable {entries : List (String × Procedure)}

theorem find?_put (entries : List (String × Procedure)) (new : String × Procedure) (key : String) :
    (put entries new.1 new.2).find? (·.1 == key) =
      if new.1 = key then some new else entries.find? (·.1 == key) := by
  obtain ⟨name, procedure⟩ := new
  induction entries with
  | nil => by_cases h : name = key <;> simp [put, h]
  | cons old others ih =>
    obtain ⟨found, kept⟩ := old
    dsimp only at ih
    by_cases hold : found = name
    · by_cases h : name = key <;> simp [put, hold, h]
    · by_cases h : found = key
      · have hne : name ≠ key := fun hname => hold (h.trans hname.symm)
        simp [put, h, hne, hne.symm]
      · simp [put, hold, h, ih]

/-- Of several procedures with one key the last is found. -/
theorem find?_putAll (added entries : List (String × Procedure)) (key : String) :
    (putAll entries added).find? (·.1 == key) =
      (added.reverse.find? (·.1 == key)).or (entries.find? (·.1 == key)) := by
  induction added generalizing entries with
  | nil => rfl
  | cons new others ih =>
    rw [putAll, List.foldl_cons, ← putAll, ih, find?_put, List.reverse_cons, List.find?_append,
      Option.or_assoc]
    by_cases h : new.1 = key <;> simp [h]

theorem map_fst_put (entries : List (String × Procedure)) (new : String × Procedure) :
    (put entries new.1 new.2).map Prod.fst =
      if new.1 ∈ entries.map Prod.fst then entries.map Prod.fst
      else entries.map Prod.fst ++ [new.1] := by
  induction entries with
  | nil => simp [put]
  | cons old others ih =>
    by_cases h : old.1 = new.1
    · simp [put, h]
    · have hne : new.1 ≠ old.1 := Ne.symm h
      simp only [put, h, if_false, List.map_cons, ih, List.mem_cons, hne, false_or]
      split <;> rfl

/-- Each key stands where it comes first. -/
theorem map_fst_putAll (added : List (String × Procedure))
    (h : (entries.map Prod.fst).eraseDups = entries.map Prod.fst) :
    (putAll entries added).map Prod.fst =
      (entries.map Prod.fst ++ added.map Prod.fst).eraseDups := by
  induction added generalizing entries with
  | nil => simp [putAll, h]
  | cons new others ih =>
    have hput := map_fst_put entries new
    rw [putAll, List.foldl_cons, ← putAll]
    by_cases hmem : new.1 ∈ entries.map Prod.fst
    · rw [if_pos hmem] at hput
      rw [ih (by rw [hput, h]), hput, List.map_cons, List.eraseDups_append,
        List.eraseDups_append, List.cons_removeAll, List.contains_iff_mem.mpr hmem]
      rfl
    · rw [if_neg hmem] at hput
      have hfresh : (entries.map Prod.fst ++ [new.1]).eraseDups =
          entries.map Prod.fst ++ [new.1] := by
        have hnot : (entries.map Prod.fst).contains new.1 = false :=
          Bool.eq_false_iff.mpr (mt List.contains_iff_mem.mp hmem)
        rw [List.eraseDups_append, h, List.cons_removeAll, hnot]
        rfl
      rw [ih (by rw [hput, hfresh]), hput, List.append_assoc]
      rfl

theorem nodup_putAll (added : List (String × Procedure)) (h : (entries.map Prod.fst).Nodup) :
    ((putAll entries added).map Prod.fst).Nodup := by
  induction added generalizing entries with
  | nil => exact h
  | cons new others ih =>
    refine ih ?_
    rw [map_fst_put]
    split
    · exact h
    · next hfresh => simpa using h.concat hfresh

theorem forall_mem_putAll {P : String × Procedure → Prop} {added : List (String × Procedure)}
    (hadded : ∀ new ∈ added, P new) (h : ∀ entry ∈ entries, P entry) :
    ∀ entry ∈ putAll entries added, P entry := by
  induction added generalizing entries with
  | nil => exact h
  | cons new others ih =>
    obtain ⟨hnew, hothers⟩ := List.forall_mem_cons.mp hadded
    exact ih hothers (forall_mem_put hnew h)

end Listing

/-! ### Procedures on their own -/

namespace Stmt

theorem getLast?_lower_leave {around : Surroundings} {value : Option Expr} {span : Span}
    {start last : Counters} {code : List Instruction}
    (h : (leave value span).lower around start = .ok (code, last)) :
    ∃ operand, code.getLast? = some (.leave operand) := by
  rw [lower.eq_def] at h
  dsimp only at h
  split at h
  · cases value with
    | none =>
      cases h
      exact ⟨none, rfl⟩
    | some value =>
      cases h
      exact ⟨_, List.getLast?_concat⟩
  · cases h

/-- The code of a body that ends with a return ends with one. -/
theorem getLast?_lowerAll {around : Surroundings} {body : List Stmt} {start last : Counters}
    {code : List Instruction} (h : lowerAll around body start = .ok (code, last))
    (hleave : (body.getLast?.map isLeave).getD false = true) :
    ∃ operand, code.getLast? = some (.leave operand) := by
  induction body generalizing start code with
  | nil => cases hleave
  | cons s others ih =>
    rw [lowerAll] at h
    obtain ⟨⟨first, mid⟩, hfirst, h⟩ := exists_of_bind_eq_ok h
    obtain ⟨⟨rest, last⟩, hrest, h⟩ := exists_of_bind_eq_ok h
    cases h
    cases others with
    | nil =>
      cases hrest
      rw [List.append_nil]
      cases s with
      | leave value span => exact getLast?_lower_leave hfirst
      | _ => cases hleave
    | cons next others =>
      obtain ⟨operand, hoperand⟩ := ih hrest (by simpa using hleave)
      exact ⟨operand, by rw [List.getLast?_append, hoperand]; rfl⟩

/-- Statements without definitions leave the procedures of a listing as they are. -/
theorem ofStmts_of_plain {stmts : List Stmt} (h : ∀ s ∈ stmts, s.isDefinition = false)
    (entries : List (String × Procedure)) (start : Counters) :
    Listing.ofStmts stmts entries start =
      (lowerAll .toplevel stmts start).map fun result => ⟨entries, result.1⟩ := by
  induction stmts generalizing start with
  | nil => rfl
  | cons s others ih =>
    obtain ⟨hs, hothers⟩ := List.forall_mem_cons.mp h
    rw [Listing.ofStmts.eq_4 entries start s others
      (fun _ _ heq => by rw [heq] at hs; cases hs) (fun _ _ _ heq => by rw [heq] at hs; cases hs),
      lowerAll]
    cases s.lower .toplevel start with
    | error error => rfl
    | ok first =>
      simp only [bind, Except.bind, ih hothers]
      cases lowerAll .toplevel others first.2 <;> rfl

end Stmt

namespace Declaration

variable {declaration : Declaration} {procedure : Procedure}

theorem name_of_lower (h : declaration.lower = .ok procedure) :
    procedure.name = declaration.name := by
  obtain ⟨_, -, h⟩ := exists_of_bind_eq_ok h
  cases h
  rfl

/-- The method that prepares a new object ends with a return. -/
theorem getLast?_of_lower (h : declaration.lower = .ok procedure)
    (hinit : declaration.isInit = true) :
    ∃ operand, procedure.body.getLast? = some (.leave operand) := by
  obtain ⟨⟨code, last⟩, hcode, h⟩ := exists_of_bind_eq_ok h
  cases h
  dsimp only
  rw [hinit]
  by_cases hleave : (declaration.definition.body.getLast?.map Stmt.isLeave).getD false = true
  · rw [hleave]
    obtain ⟨operand, hoperand⟩ := Stmt.getLast?_lowerAll hcode hleave
    exact ⟨operand, by rw [← hoperand]; exact congrArg List.getLast? (List.append_nil code)⟩
  · rw [Bool.eq_false_iff.mpr hleave]
    exact ⟨none, List.getLast?_concat⟩

theorem lower_alone (h : declaration.lower = .ok procedure) :
    declaration.alone.lower = .ok ⟨[(procedure.name, procedure)], []⟩ := by
  cases declaration with
  | function definition =>
    have hlower : definition.lower definition.name false = .ok procedure := h
    rw [alone, Module.lower, Listing.ofStmts, hlower]
    rfl
  | method className definition =>
    have hlower : definition.lowerMethod className = .ok procedure := h
    rw [alone, Module.lower, Listing.ofStmts, Listing.putMethods, hlower, name_of_lower h]
    rfl

theorem Alike.lower_eq {first second : Declaration} (h : first.Alike second)
    (hname : second.name = first.name) : second.lower = first.lower := by
  rw [lower, lower, FunctionDef.lower, FunctionDef.lower, hname, h.isInit, h.params, h.body]

end Declaration

/-! ### Programs -/

/-- Procedures to which these declarations lower one by one, each under the name that is
declared. -/
def LowerTo (declarations : List Declaration) (lowered : List (String × Procedure)) : Prop :=
  List.Forall₂ (fun declaration entry => entry.1 = declaration.name ∧
    declaration.lower = .ok entry.2) declarations lowered

section

variable {declarations : List Declaration} {lowered : List (String × Procedure)}

theorem LowerTo.map_fst (h : LowerTo declarations lowered) :
    lowered.map Prod.fst = declarations.map Declaration.name := by
  induction h with
  | nil => rfl
  | cons hfirst _ ih => rw [List.map_cons, List.map_cons, ih, hfirst.1]

/-- What is lowered is called like its key. -/
theorem LowerTo.name_eq (h : LowerTo declarations lowered) :
    ∀ entry ∈ lowered, entry.2.name = entry.1 := by
  induction h with
  | nil => exact List.forall_mem_nil _
  | cons hfirst _ ih =>
    exact List.forall_mem_cons.mpr
      ⟨(Declaration.name_of_lower hfirst.2).trans hfirst.1.symm, ih⟩

theorem LowerTo.find? {name : String} {declaration : Declaration}
    (h : LowerTo declarations lowered)
    (hfind : declarations.find? (·.name == name) = some declaration) :
    ∃ procedure, lowered.find? (·.1 == name) = some (name, procedure) ∧
      declaration.lower = .ok procedure := by
  induction h with
  | nil => cases hfind
  | @cons first entry _ _ hfirst _ ih =>
    obtain ⟨hkey, hlower⟩ := hfirst
    rw [List.find?_cons] at hfind ⊢
    rw [hkey]
    split at hfind
    · next hname =>
      cases hfind
      exact ⟨entry.2, congrArg some (Prod.ext (hkey.trans (eq_of_beq hname)) rfl), hlower⟩
    · exact ih hfind

end

namespace Listing

variable {entries last : List (String × Procedure)}

theorem lowerTo_of_putMethods {className : String} {methods : List (FunctionDef Stmt)}
    (h : putMethods className methods entries = .ok last) :
    ∃ lowered, LowerTo (methods.map (.method className)) lowered ∧
      last = putAll entries lowered := by
  induction methods generalizing entries with
  | nil =>
    cases h
    exact ⟨[], .nil, rfl⟩
  | cons method others ih =>
    obtain ⟨procedure, hmethod, h⟩ := exists_of_bind_eq_ok h
    obtain ⟨lowered, hlowered, rfl⟩ := ih h
    exact ⟨(_, procedure) :: lowered, .cons ⟨rfl, hmethod⟩ hlowered, rfl⟩

theorem lowerTo_of_ofStmts {stmts : List Stmt} {start : Counters} {listing : Listing}
    (h : ofStmts stmts entries start = .ok listing) :
    ∃ lowered, LowerTo (stmts.flatMap Stmt.declarations) lowered ∧
      listing.entries = putAll entries lowered := by
  induction stmts, entries, start using ofStmts.induct generalizing listing with
  | case1 entries start =>
    cases h
    exact ⟨[], .nil, rfl⟩
  | case2 definition span others entries start ih =>
    obtain ⟨procedure, hprocedure, h⟩ := exists_of_bind_eq_ok h
    obtain ⟨lowered, hlowered, hlisting⟩ := ih procedure h
    have hlower : (Declaration.function definition).lower = .ok procedure := hprocedure
    exact ⟨(_, procedure) :: lowered,
      .cons ⟨Declaration.name_of_lower hlower, hlower⟩ hlowered, hlisting⟩
  | case3 name methods span others entries start ih =>
    obtain ⟨last, hlast, h⟩ := exists_of_bind_eq_ok h
    obtain ⟨first, hfirst, rfl⟩ := lowerTo_of_putMethods hlast
    obtain ⟨lowered, hlowered, hlisting⟩ := ih _ h
    refine ⟨first ++ lowered, List.rel_append hfirst hlowered, ?_⟩
    rw [hlisting, putAll, putAll, putAll, List.foldl_append]
  | case4 stmt others entries start hfunction hclass ih =>
    rw [ofStmts.eq_4 entries start stmt others hfunction hclass] at h
    obtain ⟨⟨code, mid⟩, -, h⟩ := exists_of_bind_eq_ok h
    obtain ⟨rest, hrest, h⟩ := exists_of_bind_eq_ok h
    obtain rfl := Except.ok.inj h
    have hplain : stmt.declarations = [] := by
      cases stmt with
      | function definition span => exact absurd rfl (hfunction definition span)
      | classDef name methods span => exact absurd rfl (hclass name methods span)
      | _ => rfl
    rw [List.flatMap_cons, hplain]
    obtain ⟨lowered, hlowered, hlisting⟩ := ih mid hrest
    exact ⟨lowered, hlowered, hlisting⟩

end Listing

namespace Module

variable {program : Module} {listing : Listing}

theorem lower_undeclared (h : program.lower = .ok listing) :
    program.undeclared.lower = .ok ⟨[], listing.toplevel⟩ := by
  have hscopes : ∀ s ∈ program.body, ∀ scope ∈ s.scopes,
      scope ∈ program.body.flatMap Stmt.scopes :=
    fun s hs scope hscope => List.mem_flatMap.mpr ⟨s, hs, hscope⟩
  obtain ⟨-, -, last, hlast⟩ := Listing.from_ofStmts h hscopes (List.forall_mem_nil _)
  have hplain : ∀ s ∈ program.undeclared.body, s.isDefinition = false :=
    fun s hs => by simpa using (List.mem_filter.mp hs).2
  rw [lower, Stmt.ofStmts_of_plain hplain, undeclared, hlast]
  rfl

theorem name_of_declared? {name : String} {declaration : Declaration}
    (h : program.declared? name = some declaration) : declaration.name = name := by
  have hname := List.find?_some h
  exact eq_of_beq hname

theorem exists_of_declared? (h : program.lower = .ok listing) {name : String}
    {declaration : Declaration} (hdeclared : program.declared? name = some declaration) :
    ∃ procedure, listing.entries.find? (·.1 == name) = some (name, procedure) ∧
      declaration.lower = .ok procedure := by
  obtain ⟨lowered, hlowered, hentries⟩ := Listing.lowerTo_of_ofStmts h
  have hreverse : LowerTo program.declarations.reverse lowered.reverse :=
    List.rel_reverse hlowered
  obtain ⟨procedure, hprocedure, hlower⟩ := hreverse.find? hdeclared
  refine ⟨procedure, ?_, hlower⟩
  rw [hentries, Listing.find?_putAll, hprocedure]
  rfl

theorem map_fst_entries (h : program.lower = .ok listing) :
    listing.entries.map Prod.fst = (program.declarations.map Declaration.name).eraseDups := by
  obtain ⟨lowered, hlowered, hentries⟩ := Listing.lowerTo_of_ofStmts h
  rw [hentries, Listing.map_fst_putAll lowered rfl, hlowered.map_fst]
  rfl

theorem isKeyed_of_lower (h : program.lower = .ok listing) : listing.IsKeyed := by
  obtain ⟨lowered, hlowered, hentries⟩ := Listing.lowerTo_of_ofStmts h
  rw [Listing.IsKeyed, hentries]
  exact Listing.forall_mem_putAll hlowered.name_eq (List.forall_mem_nil _)

/-- Every procedure is found under its key, and some declaration of that name is the last one. -/
theorem exists_of_mem_entries (h : program.lower = .ok listing) {entry : String × Procedure}
    (hmem : entry ∈ listing.entries) :
    listing.find? entry.1 = some entry.2 ∧
      ∃ declaration, program.declared? entry.1 = some declaration ∧
        declaration.lower = .ok entry.2 := by
  obtain ⟨key, kept⟩ := entry
  have hname : key ∈ program.declarations.map Declaration.name := by
    rw [← List.mem_eraseDups, ← map_fst_entries h]
    exact List.mem_map_of_mem hmem
  obtain ⟨declaration, hdeclaration, hsame⟩ := List.mem_map.mp hname
  have hsome : (program.declared? key).isSome = true :=
    List.find?_isSome.mpr ⟨declaration, List.mem_reverse.mpr hdeclaration, beq_iff_eq.mpr hsame⟩
  obtain ⟨last, hlast⟩ := Option.isSome_iff_exists.mp hsome
  obtain ⟨procedure, hfound, hlower⟩ := exists_of_declared? h hlast
  have hnodup : (listing.entries.map Prod.fst).Nodup := by
    obtain ⟨lowered, -, hentries⟩ := Listing.lowerTo_of_ofStmts h
    rw [hentries]
    exact Listing.nodup_putAll lowered List.nodup_nil
  obtain rfl : procedure = kept := congrArg Prod.snd
    (List.inj_on_of_nodup_map hnodup (List.mem_of_find?_eq_some hfound) hmem rfl)
  exact ⟨by rw [Listing.find?, hfound]; rfl, last, hlast, hlower⟩

/-- The keys of a program are the declared names in the order in which they come first.  Under each
stands the procedure of that name, which is what its last declaration lowers to in a program of its
own; the code outside of procedures is that of the program without its definitions.  So no change to
other definitions, or to the statements around them, changes a procedure. -/
theorem lower_separates (h : program.lower = .ok listing) :
    listing.entries.map Prod.fst = (program.declarations.map Declaration.name).eraseDups ∧
    (∀ entry ∈ listing.entries, entry.2.name = entry.1 ∧ listing.find? entry.1 = some entry.2 ∧
      ∃ declaration, program.declared? entry.1 = some declaration ∧
        declaration.alone.lower = .ok ⟨[entry], []⟩ ∧
        (declaration.isInit = true →
          ∃ operand, entry.2.body.getLast? = some (.leave operand))) ∧
    program.undeclared.lower = .ok ⟨[], listing.toplevel⟩ ∧
    ∀ (other : Module) code, other.lower = .ok code →
      (∀ name first second, program.declared? name = some first →
        other.declared? name = some second → first.Alike second →
          code.find? name = listing.find? name) ∧
      (other.undeclared.body = program.undeclared.body → code.toplevel = listing.toplevel) := by
  refine ⟨map_fst_entries h, fun entry hmem => ?_, lower_undeclared h,
    fun other code hother => ⟨fun name first second hfirst hsecond halike => ?_, fun hbody => ?_⟩⟩
  · obtain ⟨hfind, declaration, hdeclared, hlower⟩ := exists_of_mem_entries h hmem
    have hkey := isKeyed_of_lower h entry hmem
    have halone := Declaration.lower_alone hlower
    rw [hkey] at halone
    exact ⟨hkey, hfind, declaration, hdeclared, halone, Declaration.getLast?_of_lower hlower⟩
  · obtain ⟨procedure, hprocedure, hlower⟩ := exists_of_declared? h hfirst
    obtain ⟨found, hfound, hagain⟩ := exists_of_declared? hother hsecond
    rw [halike.lower_eq ((name_of_declared? hsecond).trans (name_of_declared? hfirst).symm),
      hlower] at hagain
    cases hagain
    rw [Listing.find?, Listing.find?, hprocedure, hfound]
  · have htoplevel := lower_undeclared hother
    rw [lower, hbody] at htoplevel
    have hlisting := htoplevel.symm.trans (lower_undeclared h)
    exact (Listing.mk.inj (Except.ok.inj hlisting)).2

end Module

namespace SeparationWitness

def name (id : String) : Expr := .name id .absent

def call (id : String) : Stmt := .eval (.call (name id) [] .absent) .absent

def init : FunctionDef Stmt := ⟨"__init__", [⟨"self", .absent⟩], [call "g"], .absent⟩

/-- The first of two functions of one name. -/
def first : FunctionDef Stmt := ⟨"f", [], [call "g", call "h"], .absent⟩

def second : FunctionDef Stmt :=
  ⟨"f", [⟨"a", .absent⟩], [.leave (some (name "a")) .absent], .absent⟩

/-- A call, a function, another call, a class, and the function once more. -/
def program : Module :=
  ⟨[call "x", .function first .absent, call "y", .classDef "C" [init] .absent,
    .function second .absent], .absent⟩

/-- The same without the first function and with the others in another order. -/
def other : Module := ⟨[.function second .absent, .classDef "C" [init] .absent], .absent⟩

def toplevel : List Instruction :=
  [.call ⟨1⟩ (.var "x") [], .call ⟨2⟩ (.var "y") []]

def listing : Listing :=
  ⟨[("f", ⟨"f", ["a"], [.leave (some (.var "a"))]⟩),
    ("C.__init__", ⟨"C.__init__", ["self"], [.call ⟨1⟩ (.var "g") [], .leave none]⟩)], toplevel⟩

theorem separates_redefinition :
    program.lower = .ok listing ∧ listing.entries.map Prod.fst = ["f", "C.__init__"] ∧
      (∃ declaration, program.declared? "C.__init__" = some declaration ∧
        declaration.alone.lower =
          .ok ⟨[("C.__init__",
            ⟨"C.__init__", ["self"], [.call ⟨1⟩ (.var "g") [], .leave none]⟩)], []⟩) ∧
      program.undeclared.lower = .ok ⟨[], toplevel⟩ ∧
      ∃ code, other.lower = .ok code ∧ code.find? "f" = listing.find? "f" := by
  have hlower : program.lower = .ok listing := by rfl
  obtain ⟨-, hentries, htoplevel, hother⟩ := Module.lower_separates hlower
  obtain ⟨-, -, declaration, hdeclared, halone, -⟩ :=
    hentries _ (List.mem_cons_of_mem _ List.mem_cons_self)
  exact ⟨hlower, rfl, ⟨declaration, hdeclared, halone⟩, htoplevel, _, rfl,
    (hother other _ rfl).1 "f" (.function second) (.function second) rfl rfl ⟨rfl, rfl, rfl⟩⟩

end SeparationWitness

end Offside
