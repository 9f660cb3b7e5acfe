import CommandScript.Text.Folded

/-!
# Words in any case of their letters

A text that is a word in some case of its letters has as many characters as the word, and consists of
letters if the word does (`isAlpha_of_isWord`). So no text that begins with another character is such a
word (`isWord_eq_false_of_head`).
-/

namespace CommandScript.Text

variable {c : Char} {word text : String}

theorem toUpper_of_isLower_eq_false (h : c.isLower = false) : c.toUpper = c := by
  refine dif_neg ?_
  rintro ⟨hge, hle⟩
  have hlower : c.isLower = true := Bool.and_eq_true_iff.mpr ⟨decide_eq_true hge, decide_eq_true hle⟩
  rw [h] at hlower
  cases hlower

theorem isAlpha_toUpper (h : c.isAlpha = true) : c.toUpper.isAlpha = true := by
  cases hc : c.isLower with
  | false => rwa [toUpper_of_isLower_eq_false hc]
  | true =>
    obtain ⟨hge, hle⟩ := Bool.and_eq_true_iff.mp hc
    have hcase : 97 ≤ c.val.toNat ∧ c.val.toNat ≤ 122 :=
      ⟨UInt32.le_iff_toNat_le.mp (of_decide_eq_true hge),
        UInt32.le_iff_toNat_le.mp (of_decide_eq_true hle)⟩
    have hval : c.toUpper.val.toNat = c.val.toNat - 32 := by
      have hletter : 'a'.val ≤ c.val ∧ c.val ≤ 'z'.val := ⟨of_decide_eq_true hge, of_decide_eq_true hle⟩
      have hupper : ∃ hvalid, c.toUpper = ⟨c.val + ('A'.val - 'a'.val), hvalid⟩ := ⟨_, dif_pos hletter⟩
      obtain ⟨hvalid, hupper⟩ := hupper
      rw [hupper]
      simp only [UInt32.toNat_add]
      have hdiff : ('A'.val - 'a'.val).toNat = 4294967264 := rfl
      omega
    have hupper : 'A'.val ≤ c.toUpper.val ∧ c.toUpper.val ≤ 'Z'.val := by
      simp only [UInt32.le_iff_toNat_le, hval, UInt32.reduceToNat, Char.reduceVal]
      omega
    exact Bool.or_eq_true_iff.mpr (.inl (decide_eq_true hupper))

theorem isAlpha_of_toUpper (h : c.toUpper.isAlpha = true) : c.isAlpha = true := by
  cases hc : c.isLower with
  | true => exact Bool.or_eq_true_iff.mpr (.inr hc)
  | false => rwa [toUpper_of_isLower_eq_false hc] at h

theorem toUpper_of_isAlpha_eq_false (h : c.isAlpha = false) : c.toUpper = c :=
  toUpper_of_isLower_eq_false (Bool.or_eq_false_iff.mp h).2

/-- Folding makes no other character out of a letter. -/
theorem eq_of_toUpper {d : Char} (h : c.toUpper = d) (hd : d.isAlpha = false) : c = d := by
  cases hletter : c.isAlpha with
  | false => rw [← h, toUpper_of_isAlpha_eq_false hletter]
  | true =>
    rw [← h, isAlpha_toUpper hletter] at hd
    cases hd

theorem map_toUpper_of_isWord (h : isWord word text = true) :
    text.toList.map Char.toUpper = word.toList.map Char.toUpper :=
  eq_of_beq h

/-- A word of letters is one in any case. -/
theorem isAlpha_of_isWord (hword : (word.toList.map Char.toUpper).all Char.isAlpha = true)
    (h : isWord word text = true) : ∀ c ∈ text.toList, c.isAlpha = true := by
  intro c hc
  refine isAlpha_of_toUpper (List.all_eq_true.mp hword _ ?_)
  rw [← map_toUpper_of_isWord h]
  exact List.mem_map_of_mem hc

theorem isWord_eq_false_of_head (hword : (word.toList.map Char.toUpper).all Char.isAlpha = true)
    (hc : text.toList.head? = some c) (hletter : c.isAlpha = false) : isWord word text = false := by
  rw [Bool.eq_false_iff]
  intro h
  rw [isAlpha_of_isWord hword h c (List.mem_of_mem_head? hc)] at hletter
  cases hletter

section After

variable {mark s rest : List Char}

/-- The text is the mark in some case of its letters, and the rest. -/
theorem afterFolded?_eq_some :
    afterFolded? mark s = some rest ↔ ∃ front, s = front ++ rest ∧ sameFolded front mark = true := by
  constructor
  · intro h
    obtain ⟨hfolded, hrest⟩ := Option.ite_none_right_eq_some.mp h
    rw [← Option.some.inj hrest]
    exact ⟨s.take mark.length, (List.take_append_drop _ _).symm, hfolded⟩
  · rintro ⟨front, rfl, hfolded⟩
    have hlength : mark.length = front.length := by
      simpa using congrArg List.length (eq_of_beq hfolded).symm
    rw [afterFolded?, hlength, List.take_left, List.drop_left, if_pos hfolded]

end After

end CommandScript.Text
