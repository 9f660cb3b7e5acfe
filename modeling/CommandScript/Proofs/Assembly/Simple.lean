import CommandScript.Command.Reader
import CommandScript.Proofs.Checked

/-!
# Simple commands

A keyword is simple when its commands neither open, divide nor close a block, nor leave a loop, nor
touch the subroutines or the names of the store. What is read for a simple keyword is a command that
is written with it (`readCommand_keyword`).
-/

namespace CommandScript

/-- Commands of this keyword say nothing about blocks, subroutines and allocations. -/
def Keyword.isSimple : Keyword → Bool
  | allocate | if_ | elseIf | else_ | endIf | for_ | next | skip | skipIf | break_ | breakIf
  | endFor | sub | endSub | gosub | endMain | startup | endStartup => false
  | _ => true

namespace Context

open Checked

variable {c : Context} {keyword : Keyword} {rest : String} {cmd : Command}

theorem readSet_keyword (h : c.readSet rest = .ok cmd) : cmd.keyword = .set := by
  simp only [readSet, bind_ok, ite_ok, fail_ok, pure_ok, false_and, and_false, exists_false,
    false_or] at h
  obtain ⟨a, -, ⟨-, -, f, -, rfl⟩ | ⟨-, -, -, t, -, r, -, rfl⟩⟩ := h
  · rfl
  · rfl

theorem readAppend_keyword (h : c.readAppend rest = .ok cmd) : cmd.keyword = .append := by
  simp only [readAppend, bind_ok, pure_ok] at h
  obtain ⟨a, -, t, -, item, -, rfl⟩ := h
  rfl

theorem readRemove_keyword (h : c.readRemove rest = .ok cmd) : cmd.keyword = .remove := by
  simp only [readRemove, bind_ok] at h
  obtain ⟨a, -, u, -, ⟨array, t, index⟩, -, h⟩ := h
  cases index with
  | none => simp only [fail_ok] at h
  | some index =>
    cases h
    rfl

theorem readClear_keyword (h : c.readClear rest = .ok cmd) : cmd.keyword = .clear := by
  simp only [readClear, bind_ok, ite_ok, fail_ok, pure_ok, false_and, and_false, exists_false,
    false_or] at h
  obtain ⟨-, u, -, rfl⟩ := h
  rfl

theorem readReset_keyword (h : c.readReset rest = .ok cmd) : cmd.keyword = .reset := by
  simp only [readReset, bind_ok, pure_ok] at h
  obtain ⟨a, -, u, -, t, -, rfl⟩ := h
  rfl

theorem readFilter_keyword (h : c.readFilter rest = .ok cmd) : cmd.keyword = .filter := by
  simp only [readFilter, bind_ok, ite_ok, pure_ok] at h
  obtain ⟨a, -, t, -, ⟨-, rfl⟩ | ⟨-, ⟨-, f, -, rfl⟩ | ⟨-, f, -, rfl⟩⟩⟩ := h
  · rfl
  · rfl
  · rfl

theorem readOptions_keyword (h : readOptions rest = .ok cmd) : cmd.keyword = .run := by
  simp only [readOptions, bind_ok, pure_ok] at h
  obtain ⟨a, -, o, -, rfl⟩ := h
  rfl

theorem readDirectory_keyword (h : c.readDirectory rest = .ok cmd) :
    cmd.keyword = .directory := by
  simp only [readDirectory, bind_ok, ite_ok, pure_ok] at h
  obtain ⟨-, a, -, ⟨-, rfl⟩ | ⟨-, p, -, rfl⟩⟩ | ⟨-, a, -, ⟨-, rfl⟩ | ⟨-, p, -, rfl⟩⟩ := h
  · rfl
  · rfl
  · rfl
  · rfl

/-- A simple keyword is read as a command that is written with it. -/
theorem readCommand_keyword {r : Option Command} (hk : keyword.isSimple = true)
    (h : c.readCommand keyword rest = .ok r) : ∃ cmd, r = some cmd ∧ cmd.keyword = keyword := by
  cases keyword <;> cases hk
  all_goals
    simp only [readCommand, map_ok, ite_ok, Except.ok.injEq, Function.comp_apply] at h
  case set =>
    obtain ⟨cmd, h, rfl⟩ := h
    exact ⟨cmd, rfl, readSet_keyword h⟩
  case run =>
    obtain ⟨cmd, h, rfl⟩ := h
    exact ⟨cmd, rfl, readOptions_keyword h⟩
  case append =>
    obtain ⟨cmd, h, rfl⟩ := h
    exact ⟨cmd, rfl, readAppend_keyword h⟩
  case remove =>
    obtain ⟨cmd, h, rfl⟩ := h
    exact ⟨cmd, rfl, readRemove_keyword h⟩
  case clear =>
    obtain ⟨cmd, h, rfl⟩ := h
    exact ⟨cmd, rfl, readClear_keyword h⟩
  case filter =>
    obtain ⟨cmd, h, rfl⟩ := h
    exact ⟨cmd, rfl, readFilter_keyword h⟩
  case reset =>
    obtain ⟨cmd, h, rfl⟩ := h
    exact ⟨cmd, rfl, readReset_keyword h⟩
  case directory =>
    obtain ⟨cmd, h, rfl⟩ := h
    exact ⟨cmd, rfl, readDirectory_keyword h⟩
  case return_ =>
    obtain ⟨-, rfl⟩ | ⟨-, a, -, rfl⟩ := h
    · exact ⟨_, rfl, rfl⟩
    · exact ⟨_, rfl, rfl⟩
  case fileRead =>
    obtain ⟨-, rfl⟩ | ⟨-, a, -, rfl⟩ := h
    · exact ⟨_, rfl, rfl⟩
    · exact ⟨_, rfl, rfl⟩
  all_goals
    obtain ⟨a, -, rfl⟩ := h
    exact ⟨_, rfl, rfl⟩

end Context

end CommandScript
