import CommandScript.Proofs.Assembly.Change
import CommandScript.Proofs.Typing

/-!
# Commands are read in a context that admits them

Each reader of a part of a command checks the part in the context of its line. Put together, what a
line becomes is admitted by the context of the line.
-/

namespace CommandScript

namespace Context

open Assembly (readFormula_ok)
open Checked

variable {c : Context} {keyword : Keyword} {target text rest name : String} {t : ValueType}
  {a : Argument} {cmd : Command}

/-! ### Arguments -/

theorem readArgument_ok (h : c.readArgument text = .ok a) : ∃ t, c.argumentType a = .ok t := by
  simp only [readArgument, bind_ok, pure_ok, discard_ok] at h
  obtain ⟨_, -, _, ht, rfl⟩ := h
  exact ht

theorem readCondition_ok {condition : Condition} (h : c.readCondition text = .ok condition) :
    c.checkCondition condition = .ok () := by
  simp only [readCondition, bind_ok, pure_ok] at h
  obtain ⟨_, -, _, hc, rfl⟩ := h
  exact hc

theorem readPath_ok (h : c.readPath text = .ok a) : ∃ t, c.argumentType a = .ok t := by
  unfold readPath at h
  split at h
  · cases h
  · exact readArgument_ok h
  · exact readArgument_ok h
  · cases h
    exact ⟨.string, rfl⟩

theorem readPathWord_ok {α : Type} {meaning : String → Option α} {word : Option α}
    (h : c.readPathWord rest meaning = .ok (a, word)) : ∃ t, c.argumentType a = .ok t := by
  simp only [readPathWord, bind_ok] at h
  obtain ⟨arguments, -, h⟩ := h
  have path {text : String} {other : Option α}
      (h : (do return (← c.readPath text, other) : Checked (Argument × Option α)) = .ok (a, word)) :
      ∃ t, c.argumentType a = .ok t := by
    simp only [bind_ok, pure_ok] at h
    obtain ⟨_, hp, heq⟩ := h
    cases heq
    exact readPath_ok hp
  split at h
  · split at h
    · exact path h
    · exact path h
  · exact path h

/-! ### Arrays -/

theorem readArray_ok {index : Option Index} (h : c.readArray text = .ok (name, t, index)) :
    c.typeOf name = .ok t ∧ t.isArray = true ∧
      ∀ i, index = some i → ∀ other, .named other ∈ i.bounds → c.Counts other := by
  simp only [readArray, bind_ok, ite_ok, fail_ok, pure_ok, false_and, and_false, exists_false,
    false_or] at h
  obtain ⟨r, -, -, -, t', ht, ha, _, hi, heq⟩ := h
  cases heq
  refine ⟨ht, by simpa using ha, fun i hr other hother => ?_⟩
  exact checkIndexNames_ok.mp hi other (Reference.mem_indexNames hr hother)

theorem readWholeArray_ok (h : c.readWholeArray text = .ok (name, t)) :
    c.typeOf name = .ok t ∧ t.isArray = true := by
  simp only [readWholeArray, bind_ok, ite_ok, fail_ok, pure_ok, false_and, and_false, exists_false,
    false_or] at h
  obtain ⟨⟨name', t', index⟩, hr, -, heq⟩ := h
  cases heq
  exact ⟨(readArray_ok hr).1, (readArray_ok hr).2.1⟩

theorem readItem_ok (h : c.readItem t text = .ok a) :
    ∃ found, c.argumentType a = .ok found ∧ found.isArray = false := by
  simp only [readItem, bind_ok, ite_ok, fail_ok, pure_ok, false_and, and_false, exists_false,
    false_or] at h
  rcases h with ⟨-, ⟨-, _, -, found, hf, ha, -, rfl⟩ | ⟨-, _, -, found, hf, ha, -, rfl⟩⟩
  · exact ⟨found, hf, Bool.eq_false_iff.mpr ha⟩
  · exact ⟨found, hf, Bool.eq_false_iff.mpr ha⟩

theorem readIndexed_ok {index : Bound} (h : c.readIndexed keyword rest = .ok (name, index, a)) :
    (∃ t, c.typeOf name = .ok t ∧ t.isArray = true ∧
      ∃ found, c.argumentType a = .ok found ∧ found.isArray = false) ∧
    ∀ other, .named other ∈ [index] → c.Counts other := by
  simp only [readIndexed, bind_ok] at h
  obtain ⟨⟨target, item⟩, -, ⟨array, t, found⟩, harray, h⟩ := h
  split at h
  · rename_i b hb
    obtain rfl : found = some (.single b) := hb
    simp only [bind_ok, pure_ok] at h
    obtain ⟨_, hitem, heq⟩ := h
    cases heq
    obtain ⟨ht, ha, hbounds⟩ := readArray_ok harray
    exact ⟨⟨t, ht, ha, readItem_ok hitem⟩, hbounds _ rfl⟩
  · cases h

theorem readCounted_ok {f : Formula} (h : c.readCounted rest = .ok (name, f)) :
    (∃ t, c.typeOf name = .ok t ∧ t.isArray = true) ∧ c.checkFormula f = .ok () := by
  simp only [readCounted, bind_ok, ite_ok, pure_ok] at h
  obtain ⟨_, -, ⟨array, t⟩, harray, ⟨-, heq⟩ | ⟨-, _, hf, heq⟩⟩ := h <;> cases heq
  · exact ⟨⟨t, readWholeArray_ok harray⟩, rfl⟩
  · exact ⟨⟨t, readWholeArray_ok harray⟩, readFormula_ok hf⟩

/-! ### Commands -/

theorem admits_of_formula {f : Formula} (hf : c.checkFormula f = .ok ())
    (hlists : cmd.formulas = [f] ∧ cmd.arguments = [] ∧ cmd.conditions = [] ∧ cmd.bounds = [])
    (hs : c.Suits cmd) : c.Admits cmd := by
  obtain ⟨h₁, h₂, h₃, h₄⟩ := hlists
  constructor <;> simp_all

theorem admits_of_argument (ha : ∃ t, c.argumentType a = .ok t)
    (hlists : cmd.formulas = [] ∧ cmd.arguments = [a] ∧ cmd.conditions = [])
    (hb : ∀ other, .named other ∈ cmd.bounds → c.Counts other) (hs : c.Suits cmd) :
    c.Admits cmd := by
  obtain ⟨h₁, h₂, h₃⟩ := hlists
  constructor <;> simp_all

theorem admits_of_condition {condition : Condition} (hc : c.checkCondition condition = .ok ())
    (hlists : cmd.formulas = [] ∧ cmd.arguments = [] ∧ cmd.conditions = [condition] ∧
      cmd.bounds = []) (hs : c.Suits cmd) : c.Admits cmd := by
  obtain ⟨h₁, h₂, h₃, h₄⟩ := hlists
  constructor <;> simp_all

theorem admits_of_none
    (hlists : cmd.formulas = [] ∧ cmd.arguments = [] ∧ cmd.conditions = [])
    (hb : ∀ other, .named other ∈ cmd.bounds → c.Counts other) (hs : c.Suits cmd) :
    c.Admits cmd := by
  obtain ⟨h₁, h₂, h₃⟩ := hlists
  constructor <;> simp_all

theorem unbounded (h : cmd.bounds = []) : ∀ other, .named other ∈ cmd.bounds → c.Counts other :=
  fun _ hother => absurd (h ▸ hother) List.not_mem_nil

/-- The right-hand side that is read for a target of a type fits it. -/
theorem readRight_ok {op : AssignOp} {right : RightSide} (ht : c.typeOf target = .ok t)
    (h : c.readRight target t op text = .ok right) : c.Admits (.set target op right) := by
  unfold readRight at h
  split at h
  iterate 2
    obtain ⟨f, hf, rfl⟩ := map_ok.mp h
    exact admits_of_formula (readFormula_ok hf) ⟨rfl, rfl, rfl, rfl⟩ ⟨_, ht, by simp [SuitsRight]⟩
  iterate 4
    obtain ⟨condition, hc, rfl⟩ := map_ok.mp h
    exact admits_of_condition (readCondition_ok hc) ⟨rfl, rfl, rfl, rfl⟩
      ⟨_, ht, by simp [SuitsRight]⟩
  iterate 2
    obtain ⟨a, ha, rfl⟩ := map_ok.mp h
    exact admits_of_argument (readArgument_ok ha) ⟨rfl, rfl, rfl⟩ (unbounded rfl) ⟨_, ht, rfl⟩
  iterate 2
    simp only [bind_ok] at h
    obtain ⟨o, -, h⟩ := h
    split at h
    · rename_i r
      simp only [bind_ok, ite_ok, pure_ok, fail_ok, and_false, or_false] at h
      obtain ⟨_, hr, rfl, rfl⟩ := h
      exact admits_of_argument (a := .operand (.reference r)) ⟨_, hr⟩ ⟨rfl, rfl, rfl⟩ (unbounded rfl)
        ⟨_, ht, rfl, fun _ => hr⟩
    · cases h
  · simp only [bind_ok, ite_ok, pure_ok, fail_ok, false_and, exists_false, and_false, false_or] at h
    obtain ⟨a, -, found, ha, -, rfl⟩ := h
    exact admits_of_argument ⟨_, ha⟩ ⟨rfl, rfl, rfl⟩ (unbounded rfl) ⟨_, ht, rfl, nofun⟩
  · simp only [bind_ok, ite_ok, pure_ok, fail_ok, false_and, exists_false, and_false, false_or] at h
    obtain ⟨o, -, found, ho, -, rfl⟩ := h
    exact admits_of_argument (a := .operand o) ⟨_, ho⟩ ⟨rfl, rfl, rfl⟩ (unbounded rfl)
      ⟨_, ht, rfl, nofun⟩
  · cases h

theorem readSet_admits (h : c.readSet rest = .ok cmd) : c.Admits cmd := by
  simp only [readSet, bind_ok, ite_ok, fail_ok, pure_ok, false_and, and_false, exists_false,
    false_or] at h
  obtain ⟨a, -, ⟨-, -, f, hf, rfl⟩ | ⟨-, -, -, t, ht, right, hr, rfl⟩⟩ := h
  · exact admits_of_formula (readFormula_ok hf) ⟨rfl, rfl, rfl, rfl⟩ trivial
  · exact readRight_ok ht hr

theorem readAppend_admits (h : c.readAppend rest = .ok cmd) : c.Admits cmd := by
  simp only [readAppend, bind_ok, pure_ok] at h
  obtain ⟨_, -, ⟨array, t⟩, harray, a, ha, rfl⟩ := h
  obtain ⟨found, hf, hn⟩ := readItem_ok ha
  exact admits_of_argument ⟨found, hf⟩ ⟨rfl, rfl, rfl⟩ (unbounded rfl)
    ⟨t, (readWholeArray_ok harray).1, (readWholeArray_ok harray).2, found, hf, hn⟩

theorem readRemove_admits (h : c.readRemove rest = .ok cmd) : c.Admits cmd := by
  simp only [readRemove, bind_ok] at h
  obtain ⟨_, -, _, -, ⟨array, t, index⟩, harray, h⟩ := h
  obtain ⟨ht, ha, hbounds⟩ := readArray_ok harray
  cases index with
  | none => cases h
  | some index =>
    cases h
    exact admits_of_none ⟨rfl, rfl, rfl⟩ (hbounds index rfl) ⟨t, ht, ha⟩

theorem readClear_admits (h : c.readClear rest = .ok cmd) : c.Admits cmd := by
  simp only [readClear, bind_ok, ite_ok, fail_ok, pure_ok, false_and, and_false, exists_false,
    false_or] at h
  obtain ⟨-, _, -, rfl⟩ := h
  exact admits_of_none ⟨rfl, rfl, rfl⟩ (unbounded rfl) trivial

theorem readReset_admits (h : c.readReset rest = .ok cmd) : c.Admits cmd := by
  simp only [readReset, bind_ok, pure_ok] at h
  obtain ⟨_, -, _, -, ⟨array, t⟩, harray, rfl⟩ := h
  exact admits_of_none ⟨rfl, rfl, rfl⟩ (unbounded rfl) ⟨t, readWholeArray_ok harray⟩

theorem readFilter_admits (h : c.readFilter rest = .ok cmd) : c.Admits cmd := by
  simp only [readFilter, bind_ok, ite_ok, pure_ok] at h
  obtain ⟨⟨target, text⟩, -, ⟨array, t⟩, harray, h⟩ := h
  obtain ⟨ht, ha⟩ := readWholeArray_ok harray
  rcases h with ⟨-, rfl⟩ | ⟨-, ⟨ht', spec, hs, rfl⟩ | ⟨ht', spec, hs, rfl⟩⟩
  · exact admits_of_none ⟨rfl, rfl, rfl⟩ (unbounded rfl) ⟨t, ht, ha⟩
  · obtain rfl : t = .integers := ht'
    unfold readNumberFilter at hs
    split at hs
    · simp only [bind_ok, pure_ok] at hs
      obtain ⟨f, hf, rfl⟩ := hs
      exact admits_of_formula (readFormula_ok hf) ⟨rfl, rfl, rfl, rfl⟩ ht
    · cases hs
  · have ht' : t ≠ .integers := ht'
    obtain rfl : t = .strings := by cases t <;> first | rfl | exact absurd rfl ht' | cases ha
    simp only [readTextFilter, bind_ok, ite_ok, fail_ok, pure_ok, false_and, and_false, exists_false,
      false_or] at hs
    obtain ⟨-, a, ha, rfl⟩ := hs
    exact admits_of_argument (readArgument_ok ha) ⟨rfl, rfl, rfl⟩ (unbounded rfl) ht

theorem readOptions_admits (h : readOptions rest = .ok cmd) : c.Admits cmd := by
  simp only [readOptions, bind_ok, pure_ok] at h
  obtain ⟨_, -, _, -, rfl⟩ := h
  exact admits_of_none ⟨rfl, rfl, rfl⟩ (unbounded rfl) trivial

theorem readDirectory_admits (h : c.readDirectory rest = .ok cmd) : c.Admits cmd := by
  have here {wanted : Files.Selection} : c.Admits (.directory (Argument.text ".") wanted) :=
    admits_of_argument ⟨.string, rfl⟩ ⟨rfl, rfl, rfl⟩ (unbounded rfl) trivial
  have path {text : String} {a : Argument} {wanted : Files.Selection} (h : c.readPath text = .ok a) :
      c.Admits (.directory a wanted) :=
    admits_of_argument (readPath_ok h) ⟨rfl, rfl, rfl⟩ (unbounded rfl) trivial
  simp only [readDirectory, bind_ok, ite_ok, pure_ok] at h
  obtain ⟨-, _, -, ⟨-, rfl⟩ | ⟨-, p, hp, rfl⟩⟩ | ⟨-, _, -, ⟨-, rfl⟩ | ⟨-, p, hp, rfl⟩⟩ := h
  · exact here
  · exact path hp
  · exact here
  · exact path hp

/-- What is read for a keyword that opens and closes no block is admitted. -/
theorem readCommand_admits (h : c.readCommand keyword rest = .ok (some cmd)) : c.Admits cmd := by
  have argument {a : Argument} {other : Command} (ha : ∃ t, c.argumentType a = .ok t)
      (hlists : other.formulas = [] ∧ other.arguments = [a] ∧ other.conditions = [] ∧
        other.bounds = []) (hs : c.Suits other) : c.Admits other :=
    admits_of_argument ha ⟨hlists.1, hlists.2.1, hlists.2.2.1⟩ (unbounded hlists.2.2.2) hs
  cases keyword <;>
    simp only [readCommand, map_ok, ite_ok, Except.ok.injEq, Function.comp_apply, Option.some.injEq,
      reduceCtorEq] at h
  case set => obtain ⟨_, h, rfl⟩ := h; exact readSet_admits h
  case run => obtain ⟨_, h, rfl⟩ := h; exact readOptions_admits h
  case append => obtain ⟨_, h, rfl⟩ := h; exact readAppend_admits h
  case remove => obtain ⟨_, h, rfl⟩ := h; exact readRemove_admits h
  case clear => obtain ⟨_, h, rfl⟩ := h; exact readClear_admits h
  case filter => obtain ⟨_, h, rfl⟩ := h; exact readFilter_admits h
  case reset => obtain ⟨_, h, rfl⟩ := h; exact readReset_admits h
  case directory => obtain ⟨_, h, rfl⟩ := h; exact readDirectory_admits h
  case return_ =>
    obtain ⟨-, rfl⟩ | ⟨-, a, ha, rfl⟩ := h
    · exact admits_of_none ⟨rfl, rfl, rfl⟩ (unbounded rfl) trivial
    · exact argument (readArgument_ok ha) ⟨rfl, rfl, rfl, rfl⟩ trivial
  case fileRead =>
    obtain ⟨-, rfl⟩ | ⟨-, f, hf, rfl⟩ := h
    · exact admits_of_none ⟨rfl, rfl, rfl⟩ (unbounded rfl) trivial
    · exact admits_of_formula (readFormula_ok hf) ⟨rfl, rfl, rfl, rfl⟩ trivial
  case exit | fileClose =>
    obtain ⟨_, -, rfl⟩ := h
    exact admits_of_none ⟨rfl, rfl, rfl⟩ (unbounded rfl) trivial
  case insert | modify =>
    obtain ⟨⟨array, index, item⟩, h, rfl⟩ := h
    obtain ⟨hs, hb⟩ := readIndexed_ok h
    obtain ⟨_, _, _, found, hf, -⟩ := hs
    exact admits_of_argument ⟨found, hf⟩ ⟨rfl, rfl, rfl⟩ hb (readIndexed_ok h).1
  case truncate | pop =>
    obtain ⟨⟨array, f⟩, h, rfl⟩ := h
    exact admits_of_formula (readCounted_ok h).2 ⟨rfl, rfl, rfl, rfl⟩ (readCounted_ok h).1
  case print | fileWrite =>
    obtain ⟨a, ha, rfl⟩ := h
    exact argument (readArgument_ok ha) ⟨rfl, rfl, rfl, rfl⟩ trivial
  case fileOpen | fileExists =>
    obtain ⟨⟨a, word⟩, ha, rfl⟩ := h
    exact argument (readPathWord_ok ha) ⟨rfl, rfl, rfl, rfl⟩ trivial
  all_goals
    obtain ⟨a, ha, rfl⟩ := h
    exact argument (readPath_ok ha) ⟨rfl, rfl, rfl, rfl⟩ trivial

end Context

namespace Assembly

open Context

variable {a a' : Assembly} {keyword : Keyword} {rest : String} {cmd : Command}

/-- What a line becomes is admitted where the line stands. -/
theorem Change.admits (h : Change a keyword rest (some cmd) a') : a.context.Admits cmd := by
  cases h with
  | simple _ hr => exact readCommand_admits hr
  | if_ hc | elseIf hc | skipIf _ hc | breakIf _ hc =>
    exact admits_of_condition (readCondition_ok hc) ⟨rfl, rfl, rfl, rfl⟩ trivial
  | _ => exact admits_of_none ⟨rfl, rfl, rfl⟩ (unbounded rfl) trivial

end Assembly

end CommandScript
