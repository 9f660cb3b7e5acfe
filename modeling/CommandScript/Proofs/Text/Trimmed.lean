import CommandScript.Text.Blank
import Mathlib.Data.Bool.AllAny

/-!
# Trimmed texts

Trimming takes blanks off the two ends and nothing else (`exists_trim`), and leaves no blank at either
(`tight_trim`). A text without blanks at its ends is what is left of it between blanks
(`Tight.trim_padded`).
-/

namespace CommandScript.Text

/-- No blank stands at either end. -/
structure Tight (s : List Char) : Prop where
  head : ∀ c, s.head? = some c → isBlank c = false
  last : ∀ c, s.getLast? = some c → isBlank c = false

variable {s u v : List Char} {c : Char}

theorem isBlank_of_mem_space : ∀ c ∈ [' '], isBlank c = true :=
  List.forall_mem_singleton.mpr rfl

theorem isBlank_of_mem_takeWhile (h : c ∈ s.takeWhile isBlank) : isBlank c = true :=
  List.all_eq_true.mp List.all_takeWhile c h

theorem trimLeft_append (h : ∀ c ∈ u, isBlank c = true) : trimLeft (u ++ s) = trimLeft s :=
  List.dropWhile_append_of_pos h

theorem trimLeft_eq_self (h : ∀ c, s.head? = some c → isBlank c = false) : trimLeft s = s := by
  cases s with
  | nil => rfl
  | cons c rest => exact List.dropWhile_cons_of_neg (by simp [h c rfl])

theorem trimRight_append (h : ∀ c ∈ u, isBlank c = true) : trimRight (s ++ u) = trimRight s := by
  rw [trimRight, List.reverse_append, List.dropWhile_append_of_pos (by simpa using h), trimRight]

theorem trimRight_eq_self (h : ∀ c, s.getLast? = some c → isBlank c = false) : trimRight s = s := by
  have hself : trimLeft s.reverse = s.reverse := trimLeft_eq_self (by simpa using h)
  rw [trimRight, ← trimLeft, hself, List.reverse_reverse]

theorem Tight.trim_eq (h : Tight s) : trim s = s := by
  rw [trim, trimLeft_eq_self h.head, trimRight_eq_self h.last]

theorem exists_trimRight (s : List Char) :
    ∃ v, s = trimRight s ++ v ∧ ∀ c ∈ v, isBlank c = true := by
  refine ⟨(s.reverse.takeWhile isBlank).reverse, ?_, fun c hc => ?_⟩
  · rw [trimRight, ← List.reverse_append, List.takeWhile_append_dropWhile, List.reverse_reverse]
  · exact isBlank_of_mem_takeWhile (List.mem_reverse.mp hc)

/-- Trimming takes away blanks at the two ends. -/
theorem exists_trim (s : List Char) : ∃ u v, s = u ++ (trim s ++ v) ∧
    (∀ c ∈ u, isBlank c = true) ∧ ∀ c ∈ v, isBlank c = true := by
  obtain ⟨v, hv, hblank⟩ := exists_trimRight (trimLeft s)
  refine ⟨s.takeWhile isBlank, v, ?_, fun c => isBlank_of_mem_takeWhile, hblank⟩
  rw [trim, ← hv]
  exact List.takeWhile_append_dropWhile.symm

theorem head_trimLeft (h : (trimLeft s).head? = some c) : isBlank c = false := by
  have hfirst := List.head?_dropWhile_not isBlank s
  rw [trimLeft] at h
  simpa [h] using hfirst

theorem tight_trim (s : List Char) : Tight (trim s) where
  head := by
    intro c hc
    obtain ⟨v, hv, -⟩ := exists_trimRight (trimLeft s)
    have hhead : (trimLeft s).head? = some c := by
      rw [hv, List.head?_append, ← trim, hc]
      rfl
    exact head_trimLeft hhead
  last := by
    intro c hc
    rw [trim, trimRight, List.getLast?_reverse] at hc
    exact head_trimLeft hc

theorem trim_trim (s : List Char) : trim (trim s) = trim s :=
  (tight_trim s).trim_eq

/-- Blanks around a text that has none at its ends are taken away. -/
theorem Tight.trim_padded (h : Tight s) (hne : s ≠ []) (hu : ∀ c ∈ u, isBlank c = true)
    (hv : ∀ c ∈ v, isBlank c = true) : trim (u ++ (s ++ v)) = s := by
  have hhead : ∀ c, (s ++ v).head? = some c → isBlank c = false := by
    obtain ⟨d, rest, rfl⟩ := List.exists_cons_of_ne_nil hne
    exact h.head
  rw [trim, trimLeft_append hu, trimLeft_eq_self hhead, trimRight_append hv, trimRight_eq_self h.last]

/-- The ends of a text are the first end of its front and the last end of its back. -/
theorem Tight.append {m : List Char} (hu : Tight u) (hv : Tight v) (hune : u ≠ []) (hvne : v ≠ []) :
    Tight (u ++ (m ++ v)) where
  head := by
    obtain ⟨d, rest, rfl⟩ := List.exists_cons_of_ne_nil hune
    exact hu.head
  last := by
    intro c hc
    rw [← List.append_assoc, List.getLast?_append, List.getLast?_eq_some_getLast hvne] at hc
    exact hv.last c ((List.getLast?_eq_some_getLast hvne).trans hc)

/-- No blanks follow within such a text. -/
theorem Tight.eq_nil_of_append (h : Tight (u ++ v)) (hv : ∀ c ∈ v, isBlank c = true) : v = [] := by
  cases hlast : v.getLast? with
  | none => exact List.getLast?_eq_none_iff.mp hlast
  | some c =>
    have hblank := hv c (List.mem_of_getLast? hlast)
    rw [h.last c (by rw [List.getLast?_append, hlast]; rfl)] at hblank
    cases hblank

theorem tight_of_forall (h : ∀ c ∈ s, isBlank c = false) : Tight s where
  head c hc := h c (List.mem_of_mem_head? hc)
  last c hc := h c (List.mem_of_getLast? hc)

theorem tight_singleton (h : isBlank c = false) : Tight [c] :=
  tight_of_forall (List.forall_mem_singleton.mpr h)

theorem trim_eq_self (h : ∀ c ∈ s, isBlank c = false) : trim s = s :=
  (tight_of_forall h).trim_eq

end CommandScript.Text
