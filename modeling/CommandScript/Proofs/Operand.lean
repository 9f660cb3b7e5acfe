import CommandScript.Condition
import CommandScript.Proofs.Formula.Layout
import CommandScript.Proofs.Numeral.Grammar

/-!
# Operands and conditions are read back

An operand is written as its own text, a literal text with its quotes and backslashes covered
(`Operand.written`). What is written is read as the same operand (`Operand.Writable.read_written`) if it is
a literal, a reference that has a text, or a formula that some text was read as. Such a text is marked off
from what stands around it: it has no blank at its ends, a scan for relation signs goes over it, and it
does not begin as a `NOT` does (`Operand.Stands`).
-/

namespace CommandScript.Operand

open Checked Text

/-- The text that an operand is written as. -/
def written : Operand → String
  | literal (.string s) => quoted s
  | o => o.toText

/-- The operand has a text that is read back. -/
inductive Writable : Operand → Prop
  | text (s : String) : Writable (literal (.string s))
  | truth (b : Bool) : Writable (literal (.boolean b))
  | number {n : Int64} (h : n ≠ Int64.minValue) : Writable (literal (.integer n))
  | reference {r : Reference} (h : r.Writable) : Writable (reference r)
  | formula {f : Formula} {raw : String} (h : read raw = .ok (formula f)) : Writable (formula f)

/-- The text keeps apart from what stands around it in a condition. -/
structure Stands (s : List Char) : Prop where
  ne_nil : s ≠ []
  tight : Tight s
  passes : Relation.Passes s
  head : ∀ c, s.head? = some c → c ≠ '!' ∧ c.toUpper ≠ 'N'

section Reading

variable {a b raw : String} {s : List Char}

/-- Blanks around an operand do not count. -/
theorem read_congr (h : trim a.toList = trim b.toList) : read a = read b := by
  simp only [read, h]

/-- A text that begins with neither a quote nor a letter is a reference, a number or a formula. -/
theorem read_of_head (hs : trim raw.toList = s) (hne : s ≠ [])
    (hhead : ∀ c, s.head? = some c → c.isAlpha = false ∧ c ≠ '"') :
    read raw =
      if Reference.looksWhole s then reference <$> Reference.read (String.ofList s)
      else (Numeral.integer? s).elim
        (if s.all isFormulaChar && s.any isFormulaMark then formula <$> Formula.read (String.ofList s)
          else .fail .malformed s!"'{String.ofList s}' is not a value; quote string literals")
        fun n => .ok (literal (.integer n)) := by
  obtain ⟨c, rest, rfl⟩ := List.exists_cons_of_ne_nil hne
  obtain ⟨hletter, hquote⟩ := hhead c rfl
  have hword : ∀ word : String, (word.toList.map Char.toUpper).all Char.isAlpha = true →
      isWord word (String.ofList (c :: rest)) = false := by
    intro word hword
    refine isWord_eq_false_of_head (c := c) hword ?_ hletter
    rw [String.toList_ofList]
    rfl
  have hfirst : ((c :: rest).head? == some '"') = false := by simpa using hquote
  simp only [read, hs, List.isEmpty_cons, hfirst, hword "TRUE" (by decide), hword "FALSE" (by decide),
    Bool.false_eq_true, ↓reduceIte]
  cases Numeral.integer? (c :: rest) <;> rfl

/-- A formula is read from the text without the blanks around it, which is kept as its text. -/
theorem formula_of_read {f : Formula} (h : read raw = .ok (formula f)) :
    trim raw.toList ≠ [] ∧ f.text = String.ofList (trim raw.toList) ∧
      Formula.read f.text = .ok f := by
  have hread : trim raw.toList ≠ [] ∧ Formula.read (String.ofList (trim raw.toList)) = .ok f := by
    unfold read at h
    dsimp only at h
    split at h
    · exact (fail_ok.mp h).elim
    rename_i hne
    refine ⟨by simpa using hne, ?_⟩
    split at h
    · split at h
      · obtain ⟨_, -, hform⟩ := map_ok.mp h
        cases hform
      · exact (fail_ok.mp h).elim
    split at h
    · obtain ⟨_, -, hform⟩ := map_ok.mp h
      cases hform
    split at h
    · cases h
    split at h
    · cases h
    split at h
    · cases h
    split at h
    · obtain ⟨g, hg, hform⟩ := map_ok.mp h
      cases hform
      exact hg
    · exact (fail_ok.mp h).elim
  have htext := (Formula.read_iff.mp hread.2).2.2
  rw [String.toList_ofList, trim_trim] at htext
  exact ⟨hread.1, htext, htext ▸ hread.2⟩

end Reading

section Writing

variable {o : Operand}

theorem isOneQuoted_quoted (s : String) : isOneQuoted (quoted s).toList = true := by
  obtain ⟨hwhole, hplace⟩ := whole_quoted (p := {}) (show isBlank '"' = false by decide) rfl rfl s
  have hcut := cutOutside_whole hwhole (by rw [hplace])
  rw [isOneQuoted, hcut, toList_quoted]
  simp

theorem tight_quoted (s : String) : Tight (quoted s).toList := by
  rw [toList_quoted]
  exact Tight.append (tight_singleton (c := '"') rfl) (tight_singleton (c := '"') rfl)
    (List.cons_ne_nil _ _) (List.cons_ne_nil _ _)

theorem read_quoted (s : String) : read (quoted s) = .ok (literal (.string s)) := by
  have hne : (quoted s).toList.isEmpty = false := by
    rw [toList_quoted]
    rfl
  have hhead : ((quoted s).toList.head? == some '"') = true := by
    rw [toList_quoted]
    rfl
  simp only [read, (tight_quoted s).trim_eq, hne, hhead, isOneQuoted_quoted, String.ofList_toList,
    readLiteral_quoted, Bool.false_eq_true, ↓reduceIte]
  rfl

theorem stands_quoted (s : String) : Stands (quoted s).toList where
  ne_nil := by
    rw [toList_quoted]
    exact List.cons_ne_nil _ _
  tight := tight_quoted s
  passes := Relation.passes_quoted s
  head c hc := by
    rw [toList_quoted] at hc
    cases hc
    decide

theorem read_toString {n : Int64} (h : n ≠ Int64.minValue) :
    read (toString n) = .ok (literal (.integer n)) := by
  have hwhole : Reference.looksWhole (toString n).toList = false := by
    rw [Reference.looksWhole, Bool.and_eq_false_imp]
    intro hhead
    have hmem := List.mem_of_mem_head? (eq_of_beq hhead)
    exact absurd rfl (Numeral.ne_of_mem_toString (by decide) (by decide) hmem)
  rw [read_of_head (Numeral.tight_toString n).trim_eq (Numeral.toString_ne_nil n) fun c hc => ?_, hwhole,
    Numeral.integer?_toString.mpr h]
  · rfl
  · have hmem := List.mem_of_mem_head? hc
    exact ⟨Numeral.isAlpha_of_mem_toString hmem, Numeral.ne_of_mem_toString (by decide) (by decide) hmem⟩

theorem hasChar_of_mem_toString {n : Int64} {c : Char} (hc : c ∈ (toString n).toList) :
    Index.HasChar c := by
  rcases Numeral.of_mem_toString hc with rfl | hc
  · exact .inr (.inr (.inl rfl))
  · exact .inl (isNameChar_of_isDigit hc)

theorem toUpper_ne_of_isAlpha {c : Char} (h : c.isAlpha = false) : c.toUpper ≠ 'N' := by
  rw [toUpper_of_isAlpha_eq_false h]
  rintro rfl
  exact absurd h (by decide)

theorem stands_toString (n : Int64) : Stands (toString n).toList where
  ne_nil := Numeral.toString_ne_nil n
  tight := Numeral.tight_toString n
  passes := Relation.passes_plain fun _ hc => (hasChar_of_mem_toString hc).not_signal
  head c hc := by
    have hmem := List.mem_of_mem_head? hc
    exact ⟨Numeral.ne_of_mem_toString (by decide) (by decide) hmem,
      toUpper_ne_of_isAlpha (Numeral.isAlpha_of_mem_toString hmem)⟩

theorem isAlpha_of_mem_truth {b : Bool} : ∀ c ∈ (Value.boolean b).toText.toList, c.isAlpha = true := by
  have hall : (Value.boolean b).toText.toList.all Char.isAlpha = true := by cases b <;> decide +kernel
  exact List.all_eq_true.mp hall

theorem stands_truth (b : Bool) : Stands (Value.boolean b).toText.toList where
  ne_nil := by cases b <;> decide +kernel
  tight := tight_of_forall fun c hc =>
    isBlank_of_isAlphanum (by simp [Char.isAlphanum, isAlpha_of_mem_truth c hc])
  passes := Relation.passes_plain fun c hc =>
    (Index.hasChar_of_isAlpha (isAlpha_of_mem_truth c hc)).not_signal
  head c hc := by
    cases b
    all_goals
      cases hc
      decide +kernel

theorem shaped_toText {r : Reference} (h : r.Writable) : Reference.Shaped r.toText.toList :=
  Reference.shaped_of_read h.read_toText

theorem head_toText {r : Reference} : r.toText.toList.head? = some '$' := by
  rw [Reference.toList_toText]
  rfl

theorem read_toText_reference {r : Reference} (h : r.Writable) :
    read r.toText = .ok (reference r) := by
  have hwhole : Reference.looksWhole r.toText.toList = true := by
    rw [Reference.looksWhole, head_toText, (shaped_toText h).span_eq]
    simp
  rw [read_of_head (shaped_toText h).tight.trim_eq, hwhole, String.ofList_toList, h.read_toText]
  · rfl
  · exact fun hnil => by simpa [hnil] using head_toText (r := r)
  · intro c hc
    rw [head_toText] at hc
    cases hc
    decide

theorem stands_toText_reference {r : Reference} (h : r.Writable) : Stands r.toText.toList where
  ne_nil hnil := by simpa [hnil] using head_toText (r := r)
  tight := (shaped_toText h).tight
  passes := (shaped_toText h).passes
  head c hc := by
    rw [head_toText] at hc
    cases hc
    decide

theorem stands_text_formula {f : Formula} {raw : String} (h : read raw = .ok (formula f)) :
    Stands f.text.toList := by
  obtain ⟨hne, htext, hread⟩ := formula_of_read h
  have hlaid := Formula.laid_of_read hread
  refine ⟨?_, ?_, hlaid.passes, fun c hc => ?_⟩
  · rwa [htext, String.toList_ofList]
  · rw [htext, String.toList_ofList]
    exact tight_trim _
  · obtain ⟨hletter, hmark, -⟩ := hlaid.head hc
    exact ⟨hmark, toUpper_ne_of_isAlpha hletter⟩

theorem read_text_formula {f : Formula} {raw : String} (h : read raw = .ok (formula f)) :
    read f.text = .ok (formula f) := by
  rw [← h]
  refine read_congr ?_
  rw [(formula_of_read h).2.1, String.toList_ofList, trim_trim]

/-- What is written is read as the same operand. -/
theorem Writable.read_written (h : o.Writable) : read o.written = .ok o := by
  cases h with
  | text s => exact read_quoted s
  | truth b => cases b <;> exact ok_of_toOption (by decide +kernel)
  | number h => exact read_toString h
  | reference h => exact read_toText_reference h
  | formula h => exact read_text_formula h

theorem Writable.stands (h : o.Writable) : Stands o.written.toList := by
  cases h with
  | text s => exact stands_quoted s
  | truth b => exact stands_truth b
  | number => exact stands_toString _
  | reference h => exact stands_toText_reference h
  | formula h => exact stands_text_formula h

/-- Blanks around what is written do not count. -/
theorem read_padded (h : o.Writable) {u v : List Char} (hu : ∀ c ∈ u, isBlank c = true)
    (hv : ∀ c ∈ v, isBlank c = true) :
    read (String.ofList (u ++ (o.written.toList ++ v))) = .ok o := by
  rw [← h.read_written]
  refine read_congr ?_
  rw [String.toList_ofList, h.stands.tight.trim_padded h.stands.ne_nil hu hv, h.stands.tight.trim_eq]

end Writing

end CommandScript.Operand

/-!
## Conditions are read back

A condition is written as its operands are, with the relation sign between two of them or `NOT` before
one (`Condition.written`). What is written is read as the same condition
(`Condition.restored_of_written`), whatever signs, brackets, quotes and backslashes a literal has: a scan
for the sign goes over the left operand, and no operand begins as a `NOT` does.
-/

namespace CommandScript.Condition

open Checked Text

/-- The text that a condition is written as. -/
def written : Condition → String
  | relation left r right => s!"{left.written} {r} {right.written}"
  | flag o true => s!"NOT {o.written}"
  | flag o false => o.written

variable {s : List Char} {left right o : Operand} {r : Relation} {c : Condition}

theorem toList_written_relation (left : Operand) (r : Relation) (right : Operand) :
    (relation left r right).written.toList =
      left.written.toList ++ ' ' :: (r.symbol.toList ++ ' ' :: right.written.toList) := by
  simp [written, toString]

theorem toList_written_negated (o : Operand) :
    (flag o true).written.toList = "NOT ".toList ++ o.written.toList := by
  simp [written, toString]

/-- What does not begin as a `NOT` does is an operand and nothing else. -/
theorem splitNot_of_stands (h : Operand.Stands s) : splitNot s = (false, s) := by
  obtain ⟨c, rest, rfl⟩ := List.exists_cons_of_ne_nil h.ne_nil
  obtain ⟨hmark, hletter⟩ := h.head c rfl
  have hnot : afterFolded? "NOT ".toList (c :: rest) = none := by
    rw [afterFolded?, if_neg]
    intro hfolded
    have hfirst := congrArg List.head? (eq_of_beq hfolded)
    exact hletter (Option.some.inj hfirst)
  unfold splitNot
  rw [hnot]
  dsimp only
  split
  · rename_i heq
    cases heq
    exact absurd rfl hmark
  · rfl

theorem splitNot_not (s : List Char) : splitNot ("NOT ".toList ++ s) = (true, s) := by
  have hnot : afterFolded? "NOT ".toList ("NOT ".toList ++ s) = some s := by
    rw [afterFolded?, List.take_left, List.drop_left, if_pos (by decide)]
  unfold splitNot
  rw [hnot]

theorem read_relation (hleft : left.Writable) (hright : right.Writable) (r : Relation) :
    read (relation left r right).written = .ok (relation left r right) := by
  have hl := hleft.stands
  have hr := hright.stands
  have htight : Tight (relation left r right).written.toList := by
    have h := hl.tight.append (m := ' ' :: (r.symbol.toList ++ [' '])) hr.tight hl.ne_nil hr.ne_nil
    simpa [toList_written_relation] using h
  have hne : (relation left r right).written.toList.isEmpty = false := by
    simp [toList_written_relation]
  have hfind : Relation.find? (relation left r right).written.toList =
      some (left.written.toList ++ [' '], r, ' ' :: right.written.toList) := by
    rw [toList_written_relation]
    exact Relation.find?_of_passes hl.passes r _
  have hfront : Operand.read (String.ofList (left.written.toList ++ [' '])) = .ok left :=
    Operand.read_padded (u := []) hleft nofun isBlank_of_mem_space
  have hback : Operand.read (String.ofList (' ' :: right.written.toList)) = .ok right := by
    have h := Operand.read_padded (v := []) hright isBlank_of_mem_space nofun
    rwa [List.append_nil] at h
  simp only [read, htight.trim_eq, hne, hfind, hfront, hback, Bool.false_eq_true, ↓reduceIte]
  rfl

theorem read_flag (h : o.Writable) : read (flag o false).written = .ok (flag o false) := by
  have hs := h.stands
  have hne : o.written.toList.isEmpty = false := by simpa using hs.ne_nil
  simp only [written, read, hs.tight.trim_eq, hne, Relation.find?_eq_none hs.passes,
    splitNot_of_stands hs, String.ofList_toList, h.read_written, Bool.false_eq_true, ↓reduceIte]
  rfl

theorem read_negated (h : o.Writable) : read (flag o true).written = .ok (flag o true) := by
  have hs := h.stands
  have htight : Tight ("NOT ".toList ++ o.written.toList) :=
    Tight.append (u := "NOT".toList) (m := [' '])
      (tight_of_forall (List.all_iff_forall_prop.mp (by decide))) hs.tight (by decide) hs.ne_nil
  have hpasses : Relation.Passes ("NOT ".toList ++ o.written.toList) :=
    (Relation.passes_plain (List.all_iff_forall_prop.mp (by decide))).append hs.passes
  have hne : ("NOT ".toList ++ o.written.toList).isEmpty = false := rfl
  simp only [read, toList_written_negated, htight.trim_eq, hne, Relation.find?_eq_none hpasses,
    splitNot_not, String.ofList_toList, h.read_written, Bool.false_eq_true, ↓reduceIte]
  rfl

/-- What a condition is written as is read as the same condition. -/
theorem restored_of_written (h : ∀ o ∈ c.operands, o.Writable) : read c.written = .ok c := by
  cases c with
  | relation left r right =>
    obtain ⟨hleft, hright⟩ := List.forall_mem_cons.mp h
    exact read_relation hleft (hright right List.mem_cons_self) r
  | flag o negated =>
    have ho := h o List.mem_cons_self
    cases negated with
    | false => exact read_flag ho
    | true => exact read_negated ho

theorem restored_of_written_signs :
    ∃ c, c.written = "\"a \\\"== [\\\\\" <= ($A[ 1 ] + 2) * -3" ∧
      (∀ o ∈ c.operands, o.Writable) ∧ read c.written = .ok c := by
  let product : Formula :=
    ⟨"($A[ 1 ] + 2) * -3", [.opening, .reference ⟨"A", some (.single (.position 1)), none⟩,
      .operator .add, .value 2, .closing, .operator .mul, .value (-3)]⟩
  let c : Condition := .relation (.literal (.string "a \"== [\\")) .le (.formula product)
  have hread : Operand.read product.text = .ok (.formula product) := ok_of_toOption (by decide +kernel)
  have hc : ∀ o ∈ c.operands, o.Writable :=
    List.forall_mem_cons.mpr ⟨.text _, List.forall_mem_singleton.mpr (.formula hread)⟩
  exact ⟨c, by decide +kernel, hc, restored_of_written hc⟩

end CommandScript.Condition
