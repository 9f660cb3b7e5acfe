import CommandScript.Proofs.Bookkeeping
import CommandScript.Proofs.Relates
import CommandScript.Relation
import Mathlib.Data.String.Basic

/-!
# Relations of numbers and of values

A relation tests how two things compare; between numbers that is the relation its sign stands for.
Between values it may be a fault, and where it is none the relations obey laws.
-/

namespace CommandScript.Relation

/-- The numbers stand in the relation. -/
def Between (r : Relation) (a b : Int) : Prop :=
  match r with
  | eq => a = b
  | ne => a ≠ b
  | lt => a < b
  | le => a ≤ b
  | gt => a > b
  | ge => a ≥ b

theorem holds_compare {r : Relation} {a b : Int} :
    r.holds (compare a b) = true ↔ r.Between a b := by
  have hcompare : compare a b = if a < b then .lt else if a = b then .eq else .gt := rfl
  rw [hcompare]
  by_cases hlt : a < b
  · cases r <;> simp [holds, Between, hlt] <;> omega
  · by_cases heq : a = b
    · cases r <;> simp [holds, Between, heq]
    · cases r <;> simp [holds, Between, hlt, heq] <;> omega

instance (r : Relation) (a b : Int) : Decidable (r.Between a b) :=
  decidable_of_iff _ holds_compare

end CommandScript.Relation

/-!
## Laws of comparison

Values that are neither truth values nor arrays compare by an ordering (`test_eq_map`), which turns round
with its sides: texts by their code points and numbers by their size. The laws on the relations, converse
and negation, follow from those on orderings; truth values have them too where they compare at all
(`laws_of_test`).
-/

namespace CommandScript

open Checked

namespace Relation

variable {r : Relation} {a b : Value} {order : Ordering}

/-- The relation between things of which one may stand before another. -/
def Stands {α : Type} (r : Relation) (before : α → α → Prop) (x y : α) : Prop :=
  match r with
  | eq => x = y
  | ne => x ≠ y
  | lt => before x y
  | le => before x y ∨ x = y
  | gt => before y x
  | ge => before y x ∨ x = y

/-- The code points of a text. -/
def codePoints (s : String) : List Nat :=
  s.toList.map Char.toNat

/-! ### Relations and orderings -/

theorem holds_converse (r : Relation) (order : Ordering) :
    r.converse.holds order.swap = r.holds order := by
  cases r <;> cases order <;> rfl

theorem holds_negation (r : Relation) (order : Ordering) : r.negation.holds order = !r.holds order := by
  cases r <;> cases order <;> rfl

/-- An ordering makes one of the three strict relations hold. -/
theorem existsUnique_holds (order : Ordering) :
    ∃! q, q ∈ [lt, eq, gt] ∧ q.holds order = true := by
  have only {q : Relation} (hq : q ∈ [lt, eq, gt]) (hholds : q.holds order = true)
      (hother : ∀ q' ∈ [lt, eq, gt], q'.holds order = true → q' = q) :
      ∃! q, q ∈ [lt, eq, gt] ∧ q.holds order = true :=
    ⟨q, ⟨hq, hholds⟩, fun q' h => hother q' h.1 h.2⟩
  cases order with
  | lt => exact only (q := lt) (by decide) rfl (by decide)
  | eq => exact only (q := eq) (by decide) rfl (by decide)
  | gt => exact only (q := gt) (by decide) rfl (by decide)

/-- A test of the outcome of a comparison that is the smaller, the same or the greater. -/
theorem holds_iff_stands {α : Type} {before : α → α → Prop} {x y : α}
    (hlt : order = .lt ↔ before x y) (heq : order = .eq ↔ x = y) (hgt : order = .gt ↔ before y x) :
    r.holds order = true ↔ r.Stands before x y := by
  cases r <;> cases order <;> simp_all [holds, Stands]

theorem stands_iff_between {m n : Int} : r.Stands (· < ·) m n ↔ r.Between m n := by
  cases r <;> simp only [Stands, Between] <;> omega

/-! ### Texts -/

theorem toNat_inj {c d : Char} : c.toNat = d.toNat ↔ c = d :=
  ⟨fun h => Char.ext (UInt32.toNat_inj.mp h), congrArg Char.toNat⟩

theorem map_toNat_lt {s t : List Char} : s.map Char.toNat < t.map Char.toNat ↔ s < t := by
  induction s generalizing t with
  | nil => cases t <;> simp
  | cons c s ih =>
    cases t with
    | nil => simp
    | cons d t =>
      have hchar : c.toNat < d.toNat ↔ c < d := UInt32.lt_iff_toNat_lt.symm
      rw [List.map_cons, List.map_cons, List.cons_lt_cons_iff, List.cons_lt_cons_iff, ih, hchar,
        toNat_inj]

theorem codePoints_lt {s t : String} : codePoints s < codePoints t ↔ s < t :=
  map_toNat_lt

theorem codePoints_inj {s t : String} : codePoints s = codePoints t ↔ s = t := by
  rw [codePoints, codePoints, List.map_inj_right fun _ _ => toNat_inj.mp, String.toList_inj]

theorem compare_texts (s t : String) :
    compare s t = if s < t then .lt else if s = t then .eq else .gt :=
  rfl

theorem compare_eq_lt {s t : String} : compare s t = .lt ↔ s < t := by
  rw [compare_texts]
  split
  · exact iff_of_true rfl ‹_›
  · split <;> exact iff_of_false nofun ‹_›

theorem compare_eq_eq {s t : String} : compare s t = .eq ↔ s = t := by
  rw [compare_texts]
  split
  · exact iff_of_false nofun (ne_of_lt ‹_›)
  · split
    · exact iff_of_true rfl ‹_›
    · exact iff_of_false nofun ‹_›

theorem compare_eq_gt {s t : String} : compare s t = .gt ↔ t < s := by
  rw [compare_texts]
  split
  · exact iff_of_false nofun (lt_asymm ‹_›)
  · rename_i h
    split
    · rename_i heq
      exact iff_of_false nofun (heq ▸ h)
    · exact iff_of_true rfl (lt_of_le_of_ne (not_lt.mp h) (Ne.symm ‹_›))

theorem compare_swap_texts (s t : String) : compare t s = (compare s t).swap := by
  cases h : compare s t with
  | lt => exact compare_eq_gt.mpr (compare_eq_lt.mp h)
  | eq => exact compare_eq_eq.mpr (compare_eq_eq.mp h).symm
  | gt => exact compare_eq_lt.mpr (compare_eq_gt.mp h)

/-- Texts are tested by the lexicographic order of their code points. -/
theorem test_string (r : Relation) (s t : String) : ∃ v,
    r.test (.string s) (.string t) = .ok v ∧
      (v = true ↔ r.Stands (· < ·) (codePoints s) (codePoints t)) :=
  ⟨_, rfl, holds_iff_stands (compare_eq_lt.trans codePoints_lt.symm)
    (compare_eq_eq.trans codePoints_inj.symm) (compare_eq_gt.trans codePoints_lt.symm)⟩

/-! ### Values -/

/-- How two values compare, neither of which is a truth value or an array. -/
def ordering : Value → Value → Checked Ordering
  | .string s, .string t => .ok (compare s t)
  | a, b => do
    let x ← a.toInteger
    let y ← b.toInteger
    return compare x.toInt y.toInt

theorem mayCount_iff {t : ValueType} : t.mayCount = true ↔ t.isArray = false ∧ t ≠ .boolean := by
  cases t <;> decide

/-- Numbers and texts are tested by the way they compare. -/
theorem test_eq_map (ha : a.type.mayCount = true) (hb : b.type.mayCount = true) (r : Relation) :
    r.test a b = r.holds <$> ordering a b := by
  cases a <;> cases ha <;> cases b <;> cases hb <;> simp [test, ordering, Value.type, ValueType.isArray]

/-- A number is one as it stands. -/
theorem toInteger_of_isNumeric (h : a.type.isNumeric = true) : ∃ n, a.toInteger = .ok n := by
  cases a <;> cases h <;> exact ⟨_, rfl⟩

/-- With a number on one side the two values compare as numbers. -/
theorem ordering_of_isNumeric (h : a.type.isNumeric = true ∨ b.type.isNumeric = true) :
    ordering a b = do return compare (← a.toInteger).toInt (← b.toInteger).toInt := by
  unfold ordering
  split
  · rcases h with h | h <;> cases h
  · rfl

/-- Two operations of which one does not fail come to the same in either order. -/
theorem meets_both {α β γ : Type} {S : γ → γ → Prop} {x : Checked α} {y : Checked β}
    {f : α → β → Checked γ} {g : β → α → Checked γ}
    (hone : (∃ u, x = .ok u) ∨ ∃ v, y = .ok v) (h : ∀ u v, Meets S (f u v) (g v u)) :
    Meets S (do f (← x) (← y)) (do g (← y) (← x)) := by
  rcases x with e | u <;> rcases y with e' | v
  · rcases hone with ⟨_, hu⟩ | ⟨_, hv⟩
    · cases hu
    · cases hv
  · exact .error rfl
  · exact .error rfl
  · exact h u v

/-- Two values compare the other way round in the other order. -/
theorem ordering_swap (ha : a.type.mayCount = true) (hb : b.type.mayCount = true) :
    Meets (fun order order' => order' = order.swap) (ordering a b) (ordering b a) := by
  by_cases hnumber : a.type.isNumeric = true ∨ b.type.isNumeric = true
  · rw [ordering_of_isNumeric hnumber, ordering_of_isNumeric hnumber.symm]
    exact meets_both (hnumber.imp toInteger_of_isNumeric toInteger_of_isNumeric)
      fun _ _ => .ok Std.OrientedCmp.eq_swap
  · -- what may count and is no number is a text
    obtain ⟨s, rfl⟩ : ∃ s, a = .string s := by
      cases a <;> simp_all [Value.type, ValueType.isNumeric, ValueType.mayCount]
    obtain ⟨t, rfl⟩ : ∃ t, b = .string t := by
      cases b <;> simp_all [Value.type, ValueType.isNumeric, ValueType.mayCount]
    exact .ok (compare_swap_texts s t)

/-- With a truth value on one side the two values are equal or not, and nothing else. -/
def testTruth (r : Relation) (x y : Bool) : Checked Bool :=
  match r with
  | eq => .ok (x == y)
  | ne => .ok (x != y)
  | _ => .fail .typeMismatch s!"'{r}' is not defined for Boolean"

theorem test_boolean (ha : a.type.isArray = false) (hb : b.type.isArray = false)
    (h : a.type = .boolean ∨ b.type = .boolean) (r : Relation) :
    r.test a b = (do testTruth r (← a.toBoolean) (← b.toBoolean)) := by
  unfold test
  rw [ha, hb, if_neg (by decide), if_pos h]
  cases r <;> rfl

theorem test_array (h : a.type.isArray = true ∨ b.type.isArray = true) (r : Relation) :
    r.test a b = .fail .typeMismatch s!"cannot compare {a.type} {r} {b.type}" :=
  if_pos (Bool.or_eq_true_iff.mpr h)

theorem toBoolean_of_boolean (h : a.type = .boolean) : ∃ b, a.toBoolean = .ok b := by
  cases a <;> cases h
  exact ⟨_, rfl⟩

theorem testTruth_converse (r : Relation) (x y : Bool) :
    Meets Eq (testTruth r x y) (testTruth r.converse y x) := by
  cases r with
  | eq => exact .ok BEq.comm
  | ne => exact .ok bne_comm
  | _ => exact meets_fail

theorem testTruth_negation {r : Relation} {x y v : Bool} (h : testTruth r x y = .ok v) :
    testTruth r.negation x y = .ok (!v) := by
  cases r <;> cases h
  · rfl
  · rw [bne, Bool.not_not]
    rfl

/-! ### The laws -/

/-- What is compared: arrays, truth values, or numbers and texts. -/
theorem sorts (a b : Value) :
    (a.type.isArray = true ∨ b.type.isArray = true) ∨
    (a.type.isArray = false ∧ b.type.isArray = false ∧ (a.type = .boolean ∨ b.type = .boolean)) ∨
    (a.type.mayCount = true ∧ b.type.mayCount = true) := by
  cases a.type <;> cases b.type <;> decide

theorem test_converse (r : Relation) (a b : Value) : Meets Eq (r.test a b) (r.converse.test b a) := by
  rcases sorts a b with harray | ⟨ha, hb, htruth⟩ | ⟨ha, hb⟩
  · rw [test_array harray, test_array harray.symm]
    exact meets_fail
  · rw [test_boolean ha hb htruth, test_boolean hb ha htruth.symm]
    exact meets_both (htruth.imp toBoolean_of_boolean toBoolean_of_boolean)
      fun _ _ => testTruth_converse r _ _
  · rw [test_eq_map ha hb, test_eq_map hb ha, map_eq_pure_bind, map_eq_pure_bind]
    refine (ordering_swap ha hb).bind fun order order' heq => .ok ?_
    rw [heq, holds_converse]

theorem test_negation {v : Bool} (h : r.test a b = .ok v) : r.negation.test a b = .ok (!v) := by
  rcases sorts a b with harray | ⟨ha, hb, htruth⟩ | ⟨ha, hb⟩
  · rw [test_array harray] at h
    cases h
  · rw [test_boolean ha hb htruth] at h ⊢
    obtain ⟨x, hx, hrest⟩ := bind_ok.mp h
    obtain ⟨y, hy, hv⟩ := bind_ok.mp hrest
    rw [hx, hy]
    exact testTruth_negation hv
  · rw [test_eq_map ha hb, map_ok] at h ⊢
    obtain ⟨order, horder, rfl⟩ := h
    exact ⟨order, horder, holds_negation r order⟩

/-- If one test of numbers and texts does not fail, none does, and they agree on an ordering. -/
theorem exists_ordering {v : Bool} (ha : a.type.mayCount = true) (hb : b.type.mayCount = true)
    (h : r.test a b = .ok v) : ∃ order, ∀ q : Relation, q.test a b = .ok (q.holds order) := by
  rw [test_eq_map ha hb, map_ok] at h
  obtain ⟨order, horder, -⟩ := h
  exact ⟨order, fun q => by rw [test_eq_map ha hb, map_ok]; exact ⟨order, horder, rfl⟩⟩

theorem isArray_of_toInteger {x : Int64} (h : a.toInteger = .ok x) : a.type.isArray = false := by
  cases a <;> first | rfl | cases h

theorem test_eq_ok_of_mayCount {v : Bool} (ha : a.type.mayCount = true) (hb : b.type.mayCount = true)
    (hnumber : a.type.isNumeric = true ∨ b.type.isNumeric = true) :
    r.test a b = .ok v ↔ ∃ x y, a.toInteger = .ok x ∧ b.toInteger = .ok y ∧
      r.holds (compare x.toInt y.toInt) = v := by
  rw [test_eq_map ha hb, ordering_of_isNumeric hnumber]
  simp only [map_ok, bind_ok, pure_ok]
  constructor
  · rintro ⟨_, ⟨x, hx, y, hy, rfl⟩, hv⟩
    exact ⟨x, y, hx, hy, hv⟩
  · rintro ⟨x, y, hx, hy, hv⟩
    exact ⟨_, ⟨x, hx, y, hy, rfl⟩, hv⟩

/-- With a number on one side the test is one of the numbers that both sides stand for. -/
theorem test_number {v : Bool} (hnumber : a.type.isNumeric = true ∨ b.type.isNumeric = true)
    (ha : a.type ≠ .boolean) (hb : b.type ≠ .boolean) :
    r.test a b = .ok v ↔ ∃ x y, a.toInteger = .ok x ∧ b.toInteger = .ok y ∧
      (v = true ↔ r.Stands (· < ·) x.toInt y.toInt) := by
  rcases sorts a b with harray | ⟨-, -, htruth⟩ | ⟨hcount, hcount'⟩
  · rw [test_array harray]
    refine iff_of_false nofun ?_
    rintro ⟨x, y, hx, hy, -⟩
    rw [isArray_of_toInteger hx, isArray_of_toInteger hy] at harray
    rcases harray with h | h <;> cases h
  · rcases htruth with h | h
    · exact absurd h ha
    · exact absurd h hb
  · rw [test_eq_ok_of_mayCount hcount hcount' hnumber]
    refine exists_congr fun x => exists_congr fun y =>
      and_congr_right fun _ => and_congr_right fun _ => ?_
    rw [stands_iff_between, ← holds_compare]
    cases v <;> simp

/-- A test comes to the same as the converse one of the two sides in the other order, or both fail with
faults of one kind; where it does not fail, the negated test gives the opposite, and one of the three
strict relations holds unless truth values or arrays are compared. Texts are ordered by their code
points, and with a number on one side the two sides are ordered as the numbers that they stand for. -/
theorem laws_of_test (r : Relation) (a b : Value) :
    Meets Eq (r.test a b) (r.converse.test b a) ∧
    (∀ v, r.test a b = .ok v → r.negation.test a b = .ok (!v)) ∧
    (a.type.isArray = false → b.type.isArray = false → a.type ≠ .boolean → b.type ≠ .boolean →
      (r.test a b).isOk = true → ∃! q, q ∈ [lt, eq, gt] ∧ q.test a b = .ok true) ∧
    (∀ s t, a = .string s → b = .string t → ∃ v, r.test a b = .ok v ∧
      (v = true ↔ r.Stands (· < ·) (codePoints s) (codePoints t))) ∧
    (a.type.isNumeric = true ∨ b.type.isNumeric = true → a.type ≠ .boolean → b.type ≠ .boolean →
      ∀ v, r.test a b = .ok v ↔ ∃ x y, a.toInteger = .ok x ∧ b.toInteger = .ok y ∧
        (v = true ↔ r.Stands (· < ·) x.toInt y.toInt)) := by
  refine ⟨test_converse r a b, fun v => test_negation, fun ha hb hta htb hok => ?_, ?_,
    fun hnumber ha hb v => test_number hnumber ha hb⟩
  · obtain ⟨v, hv⟩ : ∃ v, r.test a b = .ok v := by
      cases h : r.test a b with
      | ok v => exact ⟨v, rfl⟩
      | error f =>
        rw [h] at hok
        cases hok
    obtain ⟨order, horder⟩ :=
      exists_ordering (mayCount_iff.mpr ⟨ha, hta⟩) (mayCount_iff.mpr ⟨hb, htb⟩) hv
    simp only [horder, Except.ok.injEq]
    exact existsUnique_holds order
  · rintro s t rfl rfl
    exact test_string r s t

/-- A text that is a numeral beside a number is compared as one, though it is the greater text. -/
theorem laws_of_test_numeral :
    (∃! q, q ∈ [lt, eq, gt] ∧ q.test (.string "7") (.integer 12) = .ok true) ∧
    lt.test (.string "7") (.integer 12) = .ok true ∧ ge.test (.string "7") (.integer 12) = .ok false ∧
    gt.test (.string "7") (.string "12") = .ok true := by
  obtain ⟨-, hnegation, hone, -, hnumber⟩ := laws_of_test lt (.string "7") (.integer 12)
  obtain ⟨-, -, -, htexts, -⟩ := laws_of_test gt (.string "7") (.string "12")
  have hlt : lt.test (.string "7") (.integer 12) = .ok true :=
    (hnumber (.inr rfl) nofun nofun true).mpr
      ⟨7, 12, by decide +kernel, rfl,
        iff_of_true rfl (show (7 : Int64).toInt < (12 : Int64).toInt by decide)⟩
  obtain ⟨v, hv, hgreater⟩ := htexts "7" "12" rfl rfl
  have hv' : v = true := hgreater.mpr (by decide : codePoints "12" < codePoints "7")
  exact ⟨hone rfl rfl nofun nofun rfl, hlt, hnegation true hlt, hv' ▸ hv⟩

end Relation

end CommandScript
