import CommandScript.Proofs.Engine.Visits
import CommandScript.Proofs.Formula.Arithmetic

/-!
# Compound assignments apply their operators

A compound assignment of a number evaluates its right side, reads the variable after that and keeps what
its operator makes of the two (`run_assign`), so that it is exact where the operator is
(`exact_of_apply`).
-/

namespace CommandScript

/-- The operator of arithmetic that a compound assignment applies. -/
def AssignOp.operator? : AssignOp → Option Operator
  | add => some .add
  | sub => some .sub
  | mul => some .mul
  | div => some .div
  | rem => some .rem
  | set | and | or | xor => none

theorem AssignOp.combine_of_operator? {compound : AssignOp} {op : Operator}
    (h : compound.operator? = some op) : compound.combine = op.apply := by
  cases compound <;> cases h <;> rfl

namespace Engine

/-- The number that a variable holds. -/
def heldNumber (target owner : String) : EngineM Int64 := do
  (← onMemory (MemoryM.read target owner)).toInteger

/-- Gives a number to a variable of type `t`, which takes it only if it fits. -/
def keepNumber (t : ValueType) (target owner : String) (line : Nat) (n : Int64) : EngineM Unit := do
  if t = .unsigned then store target owner (.unsigned (← Numeral.unsigned n)) line
  else store target owner (.integer n) line

/-- A compound assignment reads the variable behind the right side, and then applies its operator. -/
theorem run_assign {op : Operator} {compound : AssignOp} {line : Nat} {target : String}
    {f : Formula} {e e₁ e₂ : Engine} {t : ValueType} {a b : Int64}
    (hop : compound.operator? = some op) (ht : e.memory.store.typeOf target e.owner = .ok t)
    (hb : Gives (number f) e b e₁) (ha : Gives (heldNumber target e.owner) e₁ a e₂) :
    (assign line target compound (.number f)).run e = match op.apply a b with
      | .ok v => (keepNumber t target e.owner line v).run e₂
      | .error g => (.error g, e₂) := by
  have hset : compound ≠ .set := by
    rintro rfl
    cases hop
  -- the right side comes first, and the variable is read in the state that it leaves
  have hnumber : (assignedNumber target e.owner compound f).run e = (op.apply a b, e₂) := by
    have hheld : (heldNumber target e.owner >>= fun old =>
        (liftM (compound.combine old b) : EngineM Int64)).run e₁ = (op.apply a b, e₂) := by
      rw [run_bind, ha, AssignOp.combine_of_operator? hop]
      rfl
    rw [heldNumber, bind_assoc] at hheld
    unfold assignedNumber
    rw [run_bind, hb]
    dsimp only
    rwa [if_neg hset]
  have hassign : (assign line target compound (.number f)).run e =
      (assignedNumber target e.owner compound f >>= keepNumber t target e.owner line).run e := by
    unfold assign
    rw [run_bind, show (get : EngineM Engine).run e = (.ok e, e) from rfl]
    dsimp only
    rw [ht]
    rfl
  rw [hassign, run_bind, hnumber]
  cases op.apply a b <;> rfl

/-- An operation gives the exact result where that is a signed 64-bit number, and the one it gives
nothing for all the same is the remainder of the least number by minus one; without a result it is a
division by zero, and with one outside the range an overflow. A compound assignment reads the variable
behind its right side and then comes to what the operation comes to. -/
theorem exact_of_apply (op : Operator) (a b : Int64) :
    (∀ v, op.apply a b = .ok v ↔ op.Results a.toInt b.toInt v.toInt ∧ ¬op.Refused a b) ∧
    (∀ f, op.apply a b = .error f ↔
      op.DividesByZero b ∧ f = .cause .divideByZero s!"{a} {op.symbol} 0" ∨
      ((∃ c, op.Results a.toInt b.toInt c ∧
          ¬(Int64.minValue.toInt ≤ c ∧ c ≤ Int64.maxValue.toInt)) ∨ op.Refused a b) ∧
        f = .cause .runtime s!"overflow in {a} {op.symbol} {b}") ∧
    ∀ (compound : AssignOp) (line : Nat) (target : String) (f : Formula) (e e₁ e₂ : Engine)
      (t : ValueType), compound.operator? = some op →
      e.memory.store.typeOf target e.owner = .ok t → Gives (number f) e b e₁ →
      Gives (heldNumber target e.owner) e₁ a e₂ →
      (assign line target compound (.number f)).run e = match op.apply a b with
        | .ok v => (keepNumber t target e.owner line v).run e₂
        | .error g => (.error g, e₂) :=
  ⟨fun _ => Operator.apply_eq_ok, fun _ => Operator.apply_eq_error,
    fun _ _ _ _ _ _ _ _ hop ht hb ha => run_assign hop ht hb ha⟩

/-- A script that gives a variable a negative number. -/
def negative : String := "ALLOCATE GLOBAL Integer X\nSET X = -7\n"

/-- The remainder of the number by 2 is -1, and an assignment of it keeps that. -/
theorem exact_of_apply_remainder : ∃ e e₁ : Engine,
    (heldNumber "X" e.owner).run e = (.ok (-7), e₁) ∧ Operator.rem.apply (-7) 2 = .ok (-1) ∧
    (assign 3 "X" .rem (.number (.literal 2))).run e =
      (keepNumber .integer "X" e.owner 3 (-1)).run e₁ := by
  obtain ⟨-, start, -, -, h⟩ := exists_of_tried negative
    (fun _ e =>
      let e := (e.runFor 2).2
      (e.memory.store.typeOf "X" e.owner).toOption == some .integer &&
        ((heldNumber "X" e.owner).run e).1.toOption == some (-7))
    (by decide +kernel)
  simp only [Bool.and_eq_true, beq_iff_eq] at h
  obtain ⟨ht, ha⟩ := h
  generalize (start.runFor 2).2 = e at ht ha
  obtain ⟨hok, -, hassign⟩ := exact_of_apply .rem (-7) 2
  have hvalue : Operator.rem.apply (-7) 2 = .ok (-1) :=
    (hok (-1)).mpr ⟨by decide +kernel, fun h => absurd h.2.1 (by decide)⟩
  have hheld : (heldNumber "X" e.owner).run e = (.ok (-7), ((heldNumber "X" e.owner).run e).2) :=
    Prod.ext (Checked.ok_of_toOption ha) rfl
  refine ⟨e, _, hheld, hvalue, ?_⟩
  rw [hassign .rem 3 "X" (.literal 2) e e _ .integer rfl (Checked.ok_of_toOption ht) rfl hheld, hvalue]

/-- The remainder of the least number by minus one is zero, and is refused. -/
theorem refused_of_zero : Operator.rem.Results Int64.minValue.toInt (-1 : Int64).toInt (0 : Int64).toInt ∧
    Operator.rem.apply Int64.minValue (-1) =
      .error (.cause .runtime "overflow in -9223372036854775808 % -1") := by
  constructor
  · decide +kernel
  · rfl

end Engine

end CommandScript
