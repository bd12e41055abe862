/-
What the texts of instructions say.  Blanks, commas and parentheses cut a text into pieces, which are
the result, the operands and the words between them.  A method call is written like a call of an
attribute; apart from this and from what the texts of operands leave open, an instruction is known
from its text.
-/
import Offside.Proofs.Code.OperandText

namespace Offside

/-! ### Pieces between parentheses -/

/-- The pieces of a list between parentheses, with something behind it. -/
def listPieces (back : String) : List String → List (Char × String)
  | [] => [('(', ""), (')', back)]
  | word :: words =>
    ('(', word) :: words.flatMap (fun word => [(',', ""), (' ', word)]) ++ [(')', back)]

@[simp] theorem listPieces_ne_blank {back word : String} {words : List String}
    {others : List (Char × String)} : listPieces back words ≠ (' ', word) :: others := by
  cases words <;> simp [listPieces]

@[simp] theorem blank_ne_listPieces {back word : String} {words : List String}
    {others : List (Char × String)} : (' ', word) :: others ≠ listPieces back words :=
  listPieces_ne_blank.symm

theorem toList_list (back : String) (words : List String) :
    ("(" ++ ", ".intercalate words ++ ")" ++ back).toList =
      (listPieces back words).flatMap fun part => part.1 :: part.2.toList := by
  cases words with
  | nil => simp [listPieces]
  | cons word words =>
    simp only [String.toList_append, toList_intercalate_cons]
    simp [listPieces, List.flatMap_assoc]

theorem arePieces_listPieces {back : String} {words : List String} (hback : Piece back.toList)
    (h : ∀ word ∈ words, Piece word.toList) : ArePieces (listPieces back words) := by
  have hempty : Piece "".toList := .plain (List.forall_mem_nil _)
  cases words with
  | nil =>
    exact List.forall_mem_cons.mpr ⟨⟨rfl, hempty⟩, List.forall_mem_singleton.mpr ⟨rfl, hback⟩⟩
  | cons word words =>
    rw [List.forall_mem_cons] at h
    refine List.forall_mem_cons.mpr ⟨⟨rfl, h.1⟩, List.forall_mem_append.mpr
      ⟨fun part hpart => ?_, List.forall_mem_singleton.mpr ⟨rfl, hback⟩⟩⟩
    obtain ⟨word, hword, hpart⟩ := List.mem_flatMap.mp hpart
    rcases List.mem_pair.mp hpart with rfl | rfl
    · exact ⟨rfl, hempty⟩
    · exact ⟨rfl, h.2 word hword⟩

/-- Lists of texts that are not empty have different pieces. -/
theorem listPieces_inj {back : String} {words others : List String} (h : ∀ word ∈ words, word ≠ "")
    (hothers : ∀ other ∈ others, other ≠ "") (heq : listPieces back words = listPieces back others) :
    words = others := by
  have hwords : ∀ {words others : List String},
      (words.flatMap fun word => [(',', ""), (' ', word)]) =
        (others.flatMap fun word => [(',', ""), (' ', word)]) → words = others := by
    intro words
    induction words with
    | nil =>
      intro others heq
      cases others with
      | nil => rfl
      | cons => cases heq
    | cons word words ih =>
      intro others heq
      cases others with
      | nil => cases heq
      | cons other others =>
        simp only [List.flatMap_cons, List.cons_append, List.nil_append, List.cons.injEq,
          Prod.mk.injEq, true_and] at heq
        rw [heq.1, ih heq.2]
  cases words with
  | nil =>
    cases others with
    | nil => rfl
    | cons other others =>
      simp only [listPieces, List.cons_append, List.cons.injEq, Prod.mk.injEq, true_and] at heq
      exact absurd heq.1.symm (hothers other List.mem_cons_self)
  | cons word words =>
    cases others with
    | nil =>
      simp only [listPieces, List.cons_append, List.cons.injEq, Prod.mk.injEq, true_and] at heq
      exact absurd heq.1 (h word List.mem_cons_self)
    | cons other others =>
      simp only [listPieces, List.cons_append, List.cons.injEq, Prod.mk.injEq, true_and] at heq
      rw [heq.1, hwords (List.append_cancel_right heq.2)]

/-! ### Instructions -/

/-- The place with its operand put in. -/
def Place.map (f : Operand → Operand) : Place → Place
  | var name => .var name
  | attr base name => .attr (f base) name

theorem Place.map_blurred_of_operand {place other : Place}
    (h : place.operand.blurred = other.operand.blurred) :
    place.map Operand.blurred = other.map Operand.blurred := by
  cases place <;> cases other <;> simp_all [operand, map, Operand.blurred]

namespace Instruction

/-- The instruction with other operands. -/
def map (f : Operand → Operand) : Instruction → Instruction
  | assign result source => .assign result (f source)
  | store source target => .store (f source) (target.map f)
  | call result callee args => .call result (f callee) (args.map f)
  | methodCall result receiver method args => .methodCall result (f receiver) method (args.map f)
  | construct result className args => .construct result className (args.map f)
  | binary result op left right => .binary result op (f left) (f right)
  | unary result op source => .unary result op (f source)
  | leave value => .leave (value.map f)
  | label l => .label l
  | branch condition target => .branch (f condition) target
  | jump target => .jump target

/-- The operands of an instruction; a place is the operand that reads it. -/
def operands : Instruction → List Operand
  | assign _ source => [source]
  | store source target => [source, target.operand]
  | call _ callee args => callee :: args
  | methodCall _ receiver _ args => receiver :: args
  | construct _ _ args => args
  | binary _ _ left right => [left, right]
  | unary _ _ source => [source]
  | leave value => value.toList
  | label _ => []
  | branch condition _ => [condition]
  | jump _ => []

/-- The name of a method or of a class in an instruction. -/
def name? : Instruction → Option String
  | methodCall _ _ method _ => some method
  | construct _ className _ => some className
  | _ => none

/-- Whether a text can spell the names and the values in an instruction. -/
structure IsSpellable [IdentifierTables] (i : Instruction) : Prop where
  operands : ∀ operand ∈ i.operands, operand.IsSpellable
  name : ∀ name ∈ i.name?, isName name = true

/-- The instruction, a method call as the call of an attribute. -/
def unbound : Instruction → Instruction
  | methodCall result receiver method args => .call result (.attr receiver method) args
  | other => other

/-- The instruction as its text shows it. -/
def blurred (i : Instruction) : Instruction := i.unbound.map Operand.blurred

/-- The pieces of the text of an instruction. -/
def pieces : Instruction → String × List (Char × String)
  | assign result source => (result.text, [(' ', "="), (' ', source.text)])
  | store source target => ("store", [(' ', source.text), (' ', "->"), (' ', target.text)])
  | call result callee args =>
    (result.text, [(' ', "="), (' ', "call"), (' ', callee.text)] ++
      listPieces "" (args.map Operand.text))
  | methodCall result receiver method args =>
    (result.text, [(' ', "="), (' ', "call"), (' ', (Operand.attr receiver method).text)] ++
      listPieces "" (args.map Operand.text))
  | construct result className args =>
    (result.text, [(' ', "="), (' ', "new"), (' ', className)] ++
      listPieces "" (args.map Operand.text))
  | binary result op left right =>
    (result.text, [(' ', "="), (' ', left.text), (' ', op.text), (' ', right.text)])
  | unary result .neg source => (result.text, [(' ', "="), (' ', "-" ++ source.text)])
  | unary result .not source => (result.text, [(' ', "="), (' ', "not"), (' ', source.text)])
  | leave none => ("return", [])
  | leave (some value) => ("return", [(' ', value.text)])
  | label l => (l.text ++ ":", [])
  | branch condition target => ("if", [(' ', condition.text), (' ', "jump"), (' ', target.text)])
  | jump target => ("jump", [(' ', target.text)])

theorem toList_argsText (args : List Operand) : (argsText args).toList =
    (listPieces "" (args.map Operand.text)).flatMap fun part => part.1 :: part.2.toList := by
  rw [← toList_list, argsText, String.append_empty]

theorem toList_text (i : Instruction) : i.text.toList = joined i.pieces.1 i.pieces.2 := by
  cases i with
  | call | construct => simp [text, pieces, joined, toList_argsText]
  | methodCall => simp [text, pieces, joined, toList_argsText, Operand.text]
  | unary result op source => cases op <;> simp [text, pieces, joined, UnaryOp.text]
  | leave value => cases value <;> simp [text, pieces, joined]
  | _ => simp [text, pieces, joined]

theorem unbound_unbound (i : Instruction) : i.unbound.unbound = i.unbound := by
  cases i <;> rfl

theorem pieces_unbound (i : Instruction) : i.unbound.pieces = i.pieces := by
  cases i <;> rfl

variable {i j : Instruction}

theorem IsSpellable.unbound [IdentifierTables] (h : i.IsSpellable) : i.unbound.IsSpellable := by
  cases i with
  | methodCall result receiver method args =>
    obtain ⟨hreceiver, hargs⟩ := List.forall_mem_cons.mp h.operands
    refine ⟨List.forall_mem_cons.mpr ⟨⟨hreceiver, h.name method rfl⟩, hargs⟩, ?_⟩
    rintro _ ⟨⟩
  | _ => exact h

theorem arePieces_argsText [IdentifierTables] {args : List Operand}
    (h : ∀ arg ∈ args, arg.IsSpellable) :
    ArePieces (listPieces "" (args.map Operand.text)) :=
  arePieces_listPieces (.plain (List.forall_mem_nil _))
    (List.forall_mem_map.mpr fun arg harg => Operand.piece_text (h arg harg))

/-- The text of an instruction is made of pieces. -/
theorem pieces_of_isSpellable [IdentifierTables] (h : i.IsSpellable) :
    Piece i.pieces.1.toList ∧ ArePieces i.pieces.2 := by
  have hresult (result : Temp) : Piece result.text.toList :=
    .plain (isPlain_of_isName result.isName_text)
  have htarget (target : Label) : ArePieces [(' ', target.text)] :=
    .blank (.plain target.isPlain_text) .nil
  have hoperand {operand : Operand} (hmem : operand ∈ i.operands) {others : List (Char × String)}
      (hothers : ArePieces others) : ArePieces ((' ', operand.text) :: others) :=
    .blank (Operand.piece_text (h.operands operand hmem)) hothers
  have hword {word : String} (hplain : word.toList.all isPlain = true)
      {others : List (Char × String)} (hothers : ArePieces others) :
      ArePieces ((' ', word) :: others) :=
    .blank (piece_of_all hplain) hothers
  cases i with
  | assign result source =>
    exact ⟨hresult result, hword rfl (hoperand List.mem_cons_self .nil)⟩
  | store source target =>
    have hstart : Piece "store".toList := piece_of_all rfl
    refine ⟨hstart, hoperand List.mem_cons_self (hword rfl (hoperand ?_ .nil))⟩
    exact List.mem_cons_of_mem _ List.mem_cons_self
  | call result callee args =>
    obtain ⟨hcallee, hargs⟩ := List.forall_mem_cons.mp h.operands
    exact ⟨hresult result, hword rfl (hword rfl (.blank (Operand.piece_text hcallee)
      (arePieces_argsText hargs)))⟩
  | methodCall result receiver method args =>
    obtain ⟨hcallee, hargs⟩ := List.forall_mem_cons.mp h.unbound.operands
    exact ⟨hresult result, hword rfl (hword rfl (.blank (Operand.piece_text hcallee)
      (arePieces_argsText hargs)))⟩
  | construct result className args =>
    exact ⟨hresult result, hword rfl (hword rfl (.blank
      (.plain (isPlain_of_isName (h.name className rfl))) (arePieces_argsText h.operands)))⟩
  | binary result op left right =>
    have hop : op.text.toList.all isPlain = true := by cases op <;> decide
    refine ⟨hresult result, hword rfl (hoperand List.mem_cons_self (hword hop (hoperand ?_ .nil)))⟩
    exact List.mem_cons_of_mem _ List.mem_cons_self
  | unary result op source =>
    have hsource := h.operands source List.mem_cons_self
    cases op with
    | neg =>
      refine ⟨hresult result, hword rfl (.blank ?_ .nil)⟩
      rw [String.toList_append]
      exact (Operand.piece_text hsource).prepend (List.all_eq_true.mp rfl)
    | not => exact ⟨hresult result, hword rfl (hword rfl (hoperand List.mem_cons_self .nil))⟩
  | leave value =>
    have hstart : Piece "return".toList := piece_of_all rfl
    cases value with
    | none => exact ⟨hstart, .nil⟩
    | some value => exact ⟨hstart, hoperand List.mem_cons_self .nil⟩
  | label l =>
    refine ⟨?_, .nil⟩
    rw [pieces, String.toList_append]
    exact Piece.append (.plain l.isPlain_text) (List.all_eq_true.mp rfl)
  | branch condition target =>
    have hstart : Piece "if".toList := piece_of_all rfl
    exact ⟨hstart, hoperand List.mem_cons_self (hword rfl (htarget target))⟩
  | jump target =>
    have hstart : Piece "jump".toList := piece_of_all rfl
    exact ⟨hstart, htarget target⟩

/-! ### Instructions from their texts -/

/-- The first letter of the text of an instruction. -/
def opening : Instruction → Char
  | assign _ _ | call _ _ _ | methodCall _ _ _ _ | construct _ _ _ | binary _ _ _ _ | unary _ _ _ =>
    't'
  | store _ _ => 's'
  | leave _ => 'r'
  | label _ => 'L'
  | branch _ _ => 'i'
  | jump _ => 'j'

theorem head?_pieces (i : Instruction) : i.pieces.1.toList.head? = some i.opening := by
  cases i with
  | unary result op source => cases op <;> simp [pieces, opening, Temp.toList_text]
  | leave value => cases value <;> simp [pieces, opening]
  | label l => simp [pieces, opening, Label.toList_text]
  | _ => simp [pieces, opening, Temp.toList_text]

theorem map_blurred_args [IdentifierTables] {args others : List Operand}
    (h : ∀ arg ∈ args, arg.IsSpellable) (hothers : ∀ other ∈ others, other.IsSpellable)
    (heq : listPieces "" (args.map Operand.text) = listPieces "" (others.map Operand.text)) :
    args.map Operand.blurred = others.map Operand.blurred := by
  have hne {args : List Operand} (h : ∀ arg ∈ args, arg.IsSpellable) :
      ∀ text ∈ args.map Operand.text, text ≠ "" :=
    List.forall_mem_map.mpr fun arg harg => Operand.text_ne_empty (h arg harg)
  exact Operand.map_blurred h hothers (listPieces_inj (hne h) (hne hothers) heq)

theorem opening_eq_of_pieces (heq : i.pieces = j.pieces) : i.opening = j.opening := by
  have hheads := head?_pieces i
  rw [heq, head?_pieces j] at hheads
  exact (Option.some.inj hheads).symm

section

variable [IdentifierTables] (h : i.IsSpellable) (hother : j.IsSpellable)

include h hother

theorem blurred_operand
    (k : Nat) {operand other : Operand} (hk : i.operands[k]? = some operand)
    (hk' : j.operands[k]? = some other) (htext : operand.text = other.text) :
    operand.blurred = other.blurred :=
  (Operand.text_eq_iff (h.operands operand (List.mem_of_getElem? hk))
    (hother.operands other (List.mem_of_getElem? hk'))).mp htext

variable (hi : i.unbound = i) (hj : j.unbound = j) (heq : i.pieces = j.pieces)

include hi hj heq

/-- Instructions that write a temporary are told apart by the pieces behind it, of which one or
their number differs. -/
theorem map_blurred_of_pieces_of_result (hresult : i.opening = 't') :
    i.map Operand.blurred = j.map Operand.blurred := by
  have hopening := opening_eq_of_pieces heq
  cases i with
  | assign result source =>
    cases j with
    | methodCall => cases hj
    | assign result' source' =>
      simp only [pieces, Prod.mk.injEq, List.cons.injEq, true_and, and_true] at heq
      rw [map, map, Temp.text_injective heq.1, blurred_operand h hother 0 rfl rfl heq.2]
    | unary result' op source' =>
      cases op with
      | neg =>
        simp only [pieces, Prod.mk.injEq, List.cons.injEq, true_and, and_true] at heq
        exact absurd heq.2 (Operand.text_ne_neg (h.operands source List.mem_cons_self) _)
      | not => simp [pieces] at heq
    | _ => simp [pieces, opening] at heq hopening
  | call result callee args =>
    cases j with
    | methodCall => cases hj
    | call result' callee' args' =>
      simp only [pieces, Prod.mk.injEq, List.cons.injEq, List.cons_append, List.nil_append,
        true_and] at heq
      obtain ⟨hresult, hcallee, hargs⟩ := heq
      have hargs := map_blurred_args (List.forall_mem_cons.mp h.operands).2
        (List.forall_mem_cons.mp hother.operands).2 hargs
      rw [map, map, Temp.text_injective hresult, blurred_operand h hother 0 rfl rfl hcallee, hargs]
    | unary result' op source' => cases op <;> simp [pieces] at heq
    | _ => simp [pieces, opening] at heq hopening
  | construct result className args =>
    cases j with
    | methodCall => cases hj
    | construct result' className' args' =>
      simp only [pieces, Prod.mk.injEq, List.cons.injEq, List.cons_append, List.nil_append,
        true_and] at heq
      obtain ⟨hresult, hclass, hargs⟩ := heq
      have hargs : args.map Operand.blurred = args'.map Operand.blurred :=
        map_blurred_args h.operands hother.operands hargs
      rw [map, map, Temp.text_injective hresult, hclass, hargs]
    | unary result' op source' => cases op <;> simp [pieces] at heq
    | _ => simp [pieces, opening] at heq hopening
  | binary result op left right =>
    cases j with
    | methodCall => cases hj
    | binary result' op' left' right' =>
      simp only [pieces, Prod.mk.injEq, List.cons.injEq, true_and, and_true] at heq
      obtain ⟨hresult, hleft, hop, hright⟩ := heq
      rw [map, map, Temp.text_injective hresult, blurred_operand h hother 0 rfl rfl hleft,
        BinaryOp.text_injective hop, blurred_operand h hother 1 rfl rfl hright]
    | unary result' op' source' => cases op' <;> simp [pieces] at heq
    | _ => simp [pieces, opening] at heq hopening
  | unary result op source =>
    cases j with
    | methodCall => cases hj
    | assign result' source' =>
      cases op with
      | neg =>
        simp only [pieces, Prod.mk.injEq, List.cons.injEq, true_and, and_true] at heq
        exact absurd heq.2.symm (Operand.text_ne_neg (hother.operands source' List.mem_cons_self) _)
      | not => simp [pieces] at heq
    | unary result' op' source' =>
      have hsame (htexts : result.text = result'.text ∧ source.text = source'.text) :
          Instruction.unary result op source.blurred = .unary result' op source'.blurred := by
        rw [Temp.text_injective htexts.1, blurred_operand h hother 0 rfl rfl htexts.2]
      cases op <;> cases op' <;> simp [pieces] at heq
      · exact hsame heq
      · exact hsame heq
    | _ => cases op <;> simp [pieces, opening] at heq hopening
  | methodCall => cases hi
  | _ => simp [opening] at hresult

/-- Instructions that are not method calls are known from their pieces, up to what the texts of
their operands do not show. -/
theorem map_blurred_of_pieces : i.map Operand.blurred = j.map Operand.blurred := by
  have hopening := opening_eq_of_pieces heq
  cases i with
  | store source target =>
    cases j with
    | store source' target' =>
      simp only [pieces, Prod.mk.injEq, List.cons.injEq, true_and, and_true] at heq
      rw [map, map, blurred_operand h hother 0 rfl rfl heq.1,
        Place.map_blurred_of_operand (blurred_operand h hother 1 rfl rfl heq.2)]
    | _ => simp [opening] at hopening
  | leave value =>
    cases j with
    | leave value' =>
      cases value with
      | none =>
        cases value' with
        | none => rfl
        | some value' => simp [pieces] at heq
      | some value =>
        cases value' with
        | none => simp [pieces] at heq
        | some value' =>
          simp only [pieces, Prod.mk.injEq, List.cons.injEq, true_and, and_true] at heq
          rw [map, map, Option.map_some, Option.map_some, blurred_operand h hother 0 rfl rfl heq]
    | _ => simp [opening] at hopening
  | label l =>
    cases j with
    | label l' =>
      simp only [pieces, Prod.mk.injEq, and_true] at heq
      rw [Label.text_injective ((String.append_left_inj ":").mp heq)]
    | _ => simp [opening] at hopening
  | branch condition target =>
    cases j with
    | branch condition' target' =>
      simp only [pieces, Prod.mk.injEq, List.cons.injEq, true_and, and_true] at heq
      rw [map, map, blurred_operand h hother 0 rfl rfl heq.1, Label.text_injective heq.2]
    | _ => simp [opening] at hopening
  | jump target =>
    cases j with
    | jump target' =>
      simp only [pieces, Prod.mk.injEq, List.cons.injEq, true_and, and_true] at heq
      rw [map, map, Label.text_injective heq]
    | _ => simp [opening] at hopening
  | methodCall => cases hi
  | _ => exact map_blurred_of_pieces_of_result h hother hi hj heq rfl

end

theorem argsText_map_blurred (args : List Operand) :
    argsText (args.map Operand.blurred) = argsText args := by
  rw [argsText, argsText, List.map_map]
  exact congrArg (fun texts => "(" ++ ", ".intercalate texts ++ ")")
    (List.map_congr_left fun arg _ => arg.text_blurred)

theorem text_blurred (i : Instruction) : i.blurred.text = i.text := by
  cases i with
  | store source target =>
    have htarget : (target.map Operand.blurred).text = target.text := by
      cases target with
      | var => rfl
      | attr base name => exact (Operand.attr base name).text_blurred
    simp only [blurred, unbound, map, text, Operand.text_blurred, htarget]
  | methodCall result receiver method args =>
    have hmethod (callee : Operand) (name : String) :
        (Operand.attr callee name).text = callee.text ++ "." ++ name := rfl
    simp only [blurred, unbound, map, text, Operand.text_blurred, argsText_map_blurred, hmethod,
      String.append_assoc]
  | leave value =>
    cases value with
    | none => rfl
    | some value => simp only [blurred, unbound, map, Option.map_some, text, Operand.text_blurred]
  | _ => simp only [blurred, unbound, map, text, Operand.text_blurred, argsText_map_blurred]

/-- Two instructions have the same text where they are the same up to what texts do not show. -/
theorem text_eq_iff [IdentifierTables] (h : i.IsSpellable) (hother : j.IsSpellable) :
    i.text = j.text ↔ i.blurred = j.blurred := by
  refine ⟨fun heq => ?_, fun heq => by rw [← text_blurred i, heq, text_blurred]⟩
  have hpieces : i.pieces = j.pieces := by
    have hi := pieces_of_isSpellable h
    have hj := pieces_of_isSpellable hother
    have hlists := congrArg String.toList heq
    rw [toList_text, toList_text] at hlists
    obtain ⟨hfirst, hothers⟩ := joined_inj hi.1 hj.1 hi.2 hj.2 hlists
    exact Prod.ext hfirst hothers
  rw [← pieces_unbound i, ← pieces_unbound j] at hpieces
  exact map_blurred_of_pieces h.unbound hother.unbound (unbound_unbound i) (unbound_unbound j)
    hpieces

theorem lineFeed_not_mem_text [IdentifierTables] (h : i.IsSpellable) : '\n' ∉ i.text.toList := by
  rw [toList_text]
  exact lineFeed_not_mem_joined (pieces_of_isSpellable h).1 (pieces_of_isSpellable h).2

end Instruction

end Offside
