import CommandScript.Proofs.Formula.Single
import CommandScript.Proofs.Operand

/-!
# Formulas as operands

A formula of one literal is read as that literal where an operand is due, one of a reference as that
reference, and any other as the formula itself if its characters are those that operands may have: the
blanks inside an index have to be spaces and tabs (`Formula.IsOperand`). The operand then stands for the
number that the formula has (`Operand.Agrees`). The remaining formulas are refused
(`Formula.operand_of_read`).
-/

namespace CommandScript

open Checked Text

/-- The operand stands for the number of the formula, whatever its references stand for: both give it, with
the same effects, or both fail. -/
def Operand.Agrees (o : Operand) (f : Formula) : Prop :=
  ∀ (n : Type → Type) [Monad n] [LawfulMonad n] (look : Reference → ExceptT Fault n Value),
    Except.toOption <$> (do monadLift (← o.evaluate look).toInteger : ExceptT Fault n Int64).run =
      Except.toOption <$> (f.evaluate (lookInteger look)).run

namespace Operand

variable {f : Formula}

theorem agrees_literal {k : Int64} (hf : f.tokens = [.value k]) : Agrees (literal (.integer k)) f := by
  intro n _ _ look
  rw [Formula.evaluate_of_token (x := pure k) hf (by simp [Formula.lookedUp]) (by simp)]
  rw [evaluate, pure_bind]
  rfl

theorem agrees_reference {r : Reference} (hf : f.tokens = [.reference r]) : Agrees (reference r) f := by
  intro n _ _ look
  rw [Formula.evaluate_of_token (x := lookInteger look r) hf (map_eq_pure_bind _ _).symm (by simp)]
  rfl

theorem agrees_formula (f : Formula) : Agrees (formula f) f := by
  intro n _ _ look
  have hinteger : ∀ k : Int64, (monadLift (Value.integer k).toInteger : ExceptT Fault n Int64) = pure k :=
    fun _ => rfl
  simp only [evaluate, bind_assoc, pure_bind, hinteger, bind_pure]

end Operand

namespace Formula

section Reading

variable {raw : String} {f : Formula}

/-- The formula is one reference, or its text has no blanks but spaces and tabs. -/
def IsOperand (f : Formula) : Prop :=
  f.single?.isSome = true ∨ ∀ c ∈ f.text.toList, isBlank c = true → c = ' ' ∨ c = '\t'

instance : DecidablePred IsOperand := fun _ =>
  @instDecidableOr _ _ _ (List.decidableBAll _ _)

theorem isSome_single? : f.single?.isSome = true ↔ ∃ r, f.tokens = [.reference r] := by
  unfold single?
  split
  · rename_i r hr
    exact iff_of_true rfl ⟨r, hr⟩
  · rename_i hnone
    exact iff_of_false nofun fun ⟨r, hr⟩ => hnone r hr

theorem isOperand_of_value {n : Int64} (h : read raw = .ok f) (hf : f.tokens = [.value n]) :
    f.IsOperand := by
  have hlaid := laid_of_read (read_trimmed h)
  rw [hf] at hlaid
  obtain ⟨-, -, hblank⟩ := of_spelledBy_value (hlaid.spelledBy (tight_text h))
  refine .inr fun c hc hspace => ?_
  rw [hblank c hc] at hspace
  cases hspace

/-- A formula is neither a literal text nor a truth value. -/
theorem read_operand (h : read raw = .ok f) : Operand.read raw =
    if Reference.looksWhole f.text.toList then .reference <$> Reference.read f.text
    else (Numeral.integer? f.text.toList).elim
      (if f.text.toList.all Operand.isFormulaChar && f.text.toList.any Operand.isFormulaMark then
          .ok (.formula f)
        else .fail .malformed s!"'{f.text}' is not a value; quote string literals")
      fun n => .ok (.literal (.integer n)) := by
  have hlaid := laid_of_read (read_trimmed h)
  have hne := hlaid.ne_nil (read_iff.mp h).2.1.ne_nil
  rw [Operand.read_of_head (toList_text h) hne fun c hc => ⟨(hlaid.head hc).1, (hlaid.head hc).2.2⟩,
    String.ofList_toList, read_trimmed h]
  rfl

theorem read_operand_value {n : Int64} (h : read raw = .ok f) (hf : f.tokens = [.value n]) :
    Operand.read raw = .ok (.literal (.integer n)) := by
  have hlaid := laid_of_read (read_trimmed h)
  rw [hf] at hlaid
  obtain ⟨hwhole, hn, -⟩ := of_spelledBy_value (hlaid.spelledBy (tight_text h))
  rw [read_operand h, hwhole, hn]
  rfl

theorem read_operand_reference {r : Reference} (h : read raw = .ok f) (hf : f.tokens = [.reference r]) :
    Operand.read raw = .ok (.reference r) := by
  have hlaid := laid_of_read (read_trimmed h)
  rw [hf] at hlaid
  obtain ⟨hwhole, hr⟩ := of_spelledBy_reference (hlaid.spelledBy (tight_text h))
  rw [String.ofList_toList] at hr
  rw [read_operand h, hwhole, hr]
  rfl

/-- A formula of more than one token is taken for nothing else. -/
theorem read_operand_formula (h : read raw = .ok f) (hvalue : ∀ n, f.tokens ≠ [.value n])
    (hreference : ∀ r, f.tokens ≠ [.reference r]) :
    Operand.read raw = if f.text.toList.all Operand.isFormulaChar then .ok (.formula f)
      else .fail .malformed s!"'{f.text}' is not a value; quote string literals" := by
  obtain ⟨hlex, hforms, -⟩ := read_iff.mp (read_trimmed h)
  have hwhole : Reference.looksWhole f.text.toList = false := by
    rw [Bool.eq_false_iff]
    intro hwhole
    obtain ⟨r, hr⟩ := exists_reference_of_looksWhole hlex hwhole
    exact hreference r hr
  have hinteger : Numeral.integer? f.text.toList = none := by
    cases hn : Numeral.integer? f.text.toList with
    | none => rfl
    | some n => exact absurd (eq_value_of_integer? hlex (check_of_read h) (tight_text h) hn) (hvalue n)
  have hmark : f.text.toList.any Operand.isFormulaMark = true := by
    rcases hforms.kinds with ⟨n, hn⟩ | ⟨r, hr⟩ | ⟨t, ht, hmark⟩
    · exact absurd hn (hvalue n)
    · exact absurd hr (hreference r)
    · exact List.any_eq_true.mpr ((laid_of_lexFrom hlex).exists_mark ht hmark)
  rw [read_operand h, hwhole, hinteger, hmark, Bool.and_true]
  rfl

/-- Of the characters of a formula, operands may not have the blanks other than spaces and tabs. -/
theorem all_isFormulaChar (h : read raw = .ok f) : f.text.toList.all Operand.isFormulaChar = true ↔
    ∀ c ∈ f.text.toList, isBlank c = true → c = ' ' ∨ c = '\t' := by
  rw [List.all_eq_true]
  refine forall₂_congr fun c hc => ?_
  constructor
  · intro hchar hblank
    have hmarks : ∀ d ∈ "$_[].()+-*/% \t".toList, isBlank d = true → d = ' ' ∨ d = '\t' :=
      List.all_iff_forall_prop.mp (by decide)
    rcases Bool.or_eq_true_iff.mp hchar with halnum | hmark
    · rw [isBlank_of_isAlphanum halnum] at hblank
      cases hblank
    · exact hmarks c (List.elem_iff.mp hmark) hblank
  · intro hspace
    rcases (laid_of_read (read_trimmed h)).of_mem hc with hchar | hblank
    · exact hchar
    · rcases hspace hblank with rfl | rfl <;> decide

/-- A formula is read as an operand that stands for its number, unless it is no single reference and has a
blank inside that is neither a space nor a tab: such a formula is refused. -/
theorem operand_of_read (h : read raw = .ok f) :
    (f.IsOperand → ∃ o, Operand.read raw = .ok o ∧ o.Agrees f) ∧
    (¬f.IsOperand → Operand.read raw =
      .error (.cause .malformed s!"'{f.text}' is not a value; quote string literals")) := by
  by_cases hvalue : ∃ n, f.tokens = [.value n]
  · obtain ⟨n, hn⟩ := hvalue
    exact ⟨fun _ => ⟨_, read_operand_value h hn, Operand.agrees_literal hn⟩,
      fun hnot => absurd (isOperand_of_value h hn) hnot⟩
  by_cases hreference : ∃ r, f.tokens = [.reference r]
  · obtain ⟨r, hr⟩ := hreference
    exact ⟨fun _ => ⟨_, read_operand_reference h hr, Operand.agrees_reference hr⟩,
      fun hnot => absurd (.inl (isSome_single?.mpr ⟨r, hr⟩)) hnot⟩
  have hsingle : ¬f.single?.isSome = true := fun hsome => hreference (isSome_single?.mp hsome)
  rw [not_exists] at hvalue hreference
  rw [read_operand_formula h hvalue hreference, IsOperand, ← all_isFormulaChar h]
  refine ⟨fun hsome => ?_, fun hnot => ?_⟩
  · rw [if_pos (hsome.resolve_left hsingle)]
    exact ⟨_, rfl, Operand.agrees_formula f⟩
  · rw [not_or] at hnot
    rw [if_neg hnot.2]
    rfl

theorem operand_of_read_product :
    ∃ f, read "\t(1 + $A[ 2 ]) % -0x3 " = .ok f ∧ f.IsOperand ∧
      ∃ o, Operand.read "\t(1 + $A[ 2 ]) % -0x3 " = .ok o ∧ o.Agrees f := by
  let f : Formula := ⟨"(1 + $A[ 2 ]) % -0x3", [.opening, .value 1, .operator .add,
    .reference ⟨"A", some (.single (.position 2)), none⟩, .closing, .operator .rem, .value (-3)]⟩
  have hread : read "\t(1 + $A[ 2 ]) % -0x3 " = .ok f := ok_of_toOption (by decide +kernel)
  have hplain : f.IsOperand := by decide +kernel
  exact ⟨f, hread, hplain, (operand_of_read hread).1 hplain⟩

/-- A blank in an index that is no space keeps a sum from being an operand. -/
theorem refused_of_blank :
    ∃ f, read "$L[\u00a00] + 1" = .ok f ∧ f.evaluate (fun _ => (.ok 4 : Checked Int64)) = .ok 5 ∧
      ∀ o, Operand.read "$L[\u00a00] + 1" ≠ .ok o := by
  refine ⟨⟨"$L[\u00a00] + 1", [.reference ⟨"L", some (.single (.position 0)), none⟩, .operator .add,
    .value 1]⟩, ok_of_toOption (by decide +kernel), ok_of_toOption (by decide +kernel), fun o ho => ?_⟩
  have hnone : (Operand.read "$L[\u00a00] + 1").toOption = none := by decide +kernel
  rw [ho] at hnone
  cases hnone

end Reading

end Formula

end CommandScript
