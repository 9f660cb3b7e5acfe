import CommandScript.Proofs.Checked
import CommandScript.Script.Declarations

/-!
# Statements

Both walks over a script cut a line into its keyword and the text behind it. The startup block runs
from a line `STARTUP` to the next line `ENDSTARTUP`; the other lines stand outside it.
-/

namespace CommandScript

namespace Keyword

theorem isWord_of_ofWord? {text : String} {k : Keyword} (h : ofWord? text = some k) :
    Text.isWord k.word text = true := by
  have := List.find?_some h
  exact this

theorem isWord_congr {v w text : String} (hv : Text.isWord v text = true)
    (hw : Text.isWord w text = true) : Text.isWord v w = true := by
  simp only [Text.isWord, Text.sameFolded, beq_iff_eq] at hv hw ⊢
  rw [← hv, hw]

/-- No other keyword is written like `ENDSTARTUP`. -/
theorem ofWord?_eq_endStartup {text : String} :
    ofWord? text = some .endStartup ↔ Text.isWord "ENDSTARTUP" text = true := by
  constructor
  · exact isWord_of_ofWord?
  · intro h
    have hfind : (ofWord? text).isSome := by
      rw [ofWord?, List.find?_isSome]
      exact ⟨.endStartup, mem_all _, h⟩
    obtain ⟨k, hk⟩ := Option.isSome_iff_exists.mp hfind
    have hw := isWord_congr (isWord_of_ofWord? hk) h
    rw [hk]
    cases k <;> first | rfl | exact absurd hw (by decide)

end Keyword

namespace Script

/-- The keyword that begins a line and the text behind it; a line of options has none. -/
def Line.statement? (l : Line) : Option (Keyword × String) :=
  if Line.isOption l.text.toList then none
  else (Keyword.ofWord? (String.ofList (Keyword.split l.text.toList).1)).map fun k =>
    (k, String.ofList (Keyword.split l.text.toList).2)

def Line.keyword? (l : Line) : Option Keyword :=
  l.statement?.map (·.1)

/-- The keyword of the command that a line becomes. -/
def Line.commandKeyword? (l : Line) : Option Keyword :=
  if Line.isOption l.text.toList then some .run else l.keyword?

/-- The lines outside the startup block; `inside` says that the block is open. -/
def outsideStartup (inside : Bool) : List Line → List Line
  | [] => []
  | l :: rest =>
    if inside then outsideStartup (l.keyword? ≠ some .endStartup) rest
    else if l.keyword? = some .startup then outsideStartup true rest
    else l :: outsideStartup false rest

theorem Line.statement?_eq_some {l : Line} {k : Keyword} {rest : String} :
    l.statement? = some (k, rest) ↔
      Line.isOption l.text.toList = false ∧
        Keyword.ofWord? (String.ofList (Keyword.split l.text.toList).1) = some k ∧
        String.ofList (Keyword.split l.text.toList).2 = rest := by
  unfold statement?
  cases Line.isOption l.text.toList
  · simp only [Bool.false_eq_true, ↓reduceIte, Option.map_eq_some_iff, Prod.mk.injEq, true_and]
    exact ⟨fun ⟨_, h, e, h'⟩ => ⟨e ▸ h, h'⟩, fun ⟨h, h'⟩ => ⟨k, h, rfl, h'⟩⟩
  · simp

theorem Line.keyword?_eq_some {l : Line} {k : Keyword} :
    l.keyword? = some k ↔
      Line.isOption l.text.toList = false ∧
        Keyword.ofWord? (String.ofList (Keyword.split l.text.toList).1) = some k := by
  unfold keyword? statement?
  cases Line.isOption l.text.toList <;> simp

theorem Line.keyword?_of_statement? {l : Line} {k : Keyword} {rest : String}
    (h : l.statement? = some (k, rest)) : l.keyword? = some k := by
  rw [keyword?, h, Option.map_some]

/-- The first word of a line of options begins with the same dash. -/
theorem Line.split_of_isOption {text : List Char} (h : Line.isOption text = true) :
    ∃ word, (Keyword.split text).1 = '-' :: word := by
  cases text with
  | nil => cases h
  | cons c rest =>
    simp only [Line.isOption, List.head?_cons, beq_iff_eq, Option.some.injEq] at h
    subst h
    refine ⟨rest.takeWhile fun c => !Text.isBlank c, ?_⟩
    rw [Keyword.split, List.takeWhile_cons_of_pos (by decide)]

/-- A line ends the startup block if its first word is `ENDSTARTUP`. -/
theorem Line.keyword?_eq_endStartup {l : Line} :
    l.keyword? = some .endStartup ↔
      Text.isWord "ENDSTARTUP" (String.ofList (Keyword.split l.text.toList).1) = true := by
  rw [Line.keyword?_eq_some, Keyword.ofWord?_eq_endStartup]
  refine ⟨And.right, fun h => ⟨?_, h⟩⟩
  cases hopt : Line.isOption l.text.toList with
  | false => rfl
  | true =>
    obtain ⟨word, hword⟩ := Line.split_of_isOption hopt
    rw [hword] at h
    simp only [Text.isWord, Text.sameFolded, String.toList_ofList, List.map_cons, beq_iff_eq] at h
    have hhead : ("ENDSTARTUP".toList.map Char.toUpper).head? = some 'E' := by decide
    rw [← h, List.head?_cons, Option.some.injEq] at hhead
    exact absurd hhead (by decide)

theorem outsideStartup_sublist (inside : Bool) (ls : List Line) :
    (outsideStartup inside ls).Sublist ls := by
  induction ls generalizing inside with
  | nil => exact .slnil
  | cons l ls ih =>
    unfold outsideStartup
    split
    · exact (ih _).cons l
    · split
      · exact (ih _).cons l
      · exact (ih _).cons_cons l

theorem linesFrom_numbers (number : Nat) (raws : List String) :
    (linesFrom number raws).Pairwise (fun l m => l.number < m.number) ∧
      ∀ l ∈ linesFrom number raws, number ≤ l.number := by
  induction raws generalizing number with
  | nil => exact ⟨.nil, fun _ h => absurd h List.not_mem_nil⟩
  | cons raw raws ih =>
    obtain ⟨hpair, hle⟩ := ih (number + 1)
    simp only [linesFrom]
    split
    · refine ⟨List.pairwise_cons.mpr ⟨fun l hl => hle l hl, hpair⟩, fun l hl => ?_⟩
      rcases List.mem_cons.mp hl with rfl | hl
      · exact Nat.le_refl _
      · exact Nat.le_of_succ_le (hle l hl)
    · exact ⟨hpair, fun l hl => Nat.le_of_succ_le (hle l hl)⟩

/-- The lines of a script stand in the order of their numbers. -/
theorem lines_pairwise (script : String) :
    (lines script).Pairwise fun l m => l.number < m.number :=
  (linesFrom_numbers 1 _).1

theorem readSubName_ok {k : Keyword} {rest name : String} (h : readSubName k rest = .ok name) :
    name = rest ∧ isValidName rest = true := by
  unfold readSubName at h
  split at h
  · cases h
    exact ⟨rfl, ‹_›⟩
  · exact (Checked.fail_ok.mp h).elim

end Script

end CommandScript
