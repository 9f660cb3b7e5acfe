import CommandScript.Assignment
import CommandScript.Proofs.Operand
import CommandScript.Proofs.Reference.Measure

/-!
# Assignments are read exactly

No operator begins with another: each has its one equals sign at its end (`AssignOp.exists_body`). So a
text is read as an assignment exactly if it is a name, blanks, an operator in any case of its letters,
blanks and a right-hand side that does not begin with an equals sign (`Assignment.read_iff`). Nothing before
the equals sign of such a text is a relation sign, a quote or a `$`, and it is followed by no other equals
sign, so it is not read as a condition (`Assignment.Spelt.read_condition`).
-/

namespace CommandScript

open Checked Text

namespace AssignOp

/-- The characters that an operator may have before its equals sign. -/
def HasChar (c : Char) : Prop :=
  c.isAlpha = true ∨ c ∈ ['+', '-', '*', '/', '%']

instance : DecidablePred HasChar := fun c =>
  inferInstanceAs (Decidable (c.isAlpha = true ∨ c ∈ ['+', '-', '*', '/', '%']))

variable {op op' : AssignOp} {c : Char} {s sign rest body : List Char}

theorem HasChar.ne_equals (h : HasChar c) : c ≠ '=' := by
  rintro rfl
  exact absurd h (by decide)

theorem HasChar.isBlank (h : HasChar c) : isBlank c = false := by
  rcases h with h | h
  · exact isBlank_of_isAlphanum (by simp [Char.isAlphanum, h])
  · simp only [List.mem_cons, List.not_mem_nil, or_false] at h
    rcases h with rfl | rfl | rfl | rfl | rfl <;> rfl

theorem eq_of_sameFolded (h : op.symbol.toList.map Char.toUpper = op'.symbol.toList.map Char.toUpper) :
    op = op' := by
  cases op <;> cases op' <;> first | rfl | exact absurd h (by decide)

/-- In any case of its letters an operator ends in an equals sign, which is its only one. -/
theorem exists_body (h : sameFolded sign op.symbol.toList = true) :
    ∃ body, sign = body ++ ['='] ∧ ∀ c ∈ body, HasChar c := by
  have hsymbol : op.symbol.toList.map Char.toUpper =
      op.symbol.toList.dropLast.map Char.toUpper ++ ['='] := by cases op <;> decide
  have hstem : (op.symbol.toList.dropLast.map Char.toUpper).all (fun d => decide (HasChar d)) = true := by
    cases op <;> decide
  have hmap : sign.map Char.toUpper = op.symbol.toList.map Char.toUpper := eq_of_beq h
  rw [hsymbol] at hmap
  obtain ⟨body, last, rfl, hbody, hlast⟩ := List.map_eq_append_iff.mp hmap
  obtain ⟨c, rfl, hc⟩ := List.map_eq_singleton_iff.mp hlast
  obtain rfl : c = '=' := eq_of_toUpper hc rfl
  refine ⟨body, rfl, fun c hc => ?_⟩
  cases hletter : c.isAlpha with
  | true => exact .inl hletter
  | false =>
    refine of_decide_eq_true (List.all_eq_true.mp hstem c ?_)
    rw [← hbody, ← toUpper_of_isAlpha_eq_false hletter]
    exact List.mem_map_of_mem hc

theorem atFront?_eq_some : atFront? s = some (op, rest) ↔
    ∃ sign, s = sign ++ rest ∧ sameFolded sign op.symbol.toList = true := by
  have sound {op : AssignOp} {rest : List Char} (h : atFront? s = some (op, rest)) :
      ∃ sign, s = sign ++ rest ∧ sameFolded sign op.symbol.toList = true := by
    obtain ⟨op', -, hfound⟩ := List.exists_of_findSome?_eq_some h
    obtain ⟨rest', hafter, hpair⟩ := Option.map_eq_some_iff.mp hfound
    cases hpair
    exact afterFolded?_eq_some.mp hafter
  refine ⟨sound, fun ⟨sign, hs, hsign⟩ => ?_⟩
  have hall : op ∈ all := by cases op <;> decide
  cases hfound : atFront? s with
  | none =>
    have hnone := List.findSome?_eq_none_iff.mp hfound op hall
    rw [afterFolded?_eq_some.mpr ⟨sign, hs, hsign⟩] at hnone
    cases hnone
  | some found =>
    obtain ⟨op', rest'⟩ := found
    obtain ⟨sign', hs', hsign'⟩ := sound hfound
    -- both operators end at the first equals sign of the text
    obtain ⟨body, rfl, hbody⟩ := exists_body hsign
    obtain ⟨body', rfl, hbody'⟩ := exists_body hsign'
    have hcut : cutAtMark '=' s = some (body, rest) := by
      rw [hs, List.append_assoc]
      exact cutAtMark_append fun c hc => (hbody c hc).ne_equals
    have hcut' : cutAtMark '=' s = some (body', rest') := by
      rw [hs', List.append_assoc]
      exact cutAtMark_append fun c hc => (hbody' c hc).ne_equals
    cases hcut.symm.trans hcut'
    have hop : op' = op := eq_of_sameFolded ((eq_of_beq hsign').symm.trans (eq_of_beq hsign))
    rw [hop]

theorem ne_nil_of_sameFolded (h : sameFolded sign op.symbol.toList = true) : sign ≠ [] := by
  obtain ⟨body, rfl, -⟩ := exists_body h
  simp

theorem isBlank_of_head (h : sameFolded sign op.symbol.toList = true)
    (hc : (sign ++ rest).head? = some c) : isBlank c = false := by
  obtain ⟨body, rfl, hbody⟩ := exists_body h
  cases body with
  | nil =>
    rw [← Option.some.inj hc]
    rfl
  | cons d body =>
    rw [← Option.some.inj hc]
    exact (hbody d List.mem_cons_self).isBlank

end AssignOp

namespace Operand

variable {raw : String} {front rest : List Char} {o : Operand}

/-- An operand with an equals sign is a literal text or begins with a `$`. -/
theorem not_mem_of_read (h : read raw = .ok o) (hquote : (trim raw.toList).head? ≠ some '"')
    (hdollar : (trim raw.toList).head? ≠ some '$') : '=' ∉ trim raw.toList := by
  intro hmem
  have hword {word : String} (hall : (word.toList.map Char.toUpper).all Char.isAlpha = true)
      (h : isWord word (String.ofList (trim raw.toList)) = true) : False :=
    absurd (isAlpha_of_isWord hall h '=' (by rwa [String.toList_ofList])) (by decide)
  unfold read at h
  dsimp only at h
  split at h
  · exact fail_ok.mp h
  split at h
  · rename_i hhead
    exact hquote (eq_of_beq hhead)
  split at h
  · rename_i hwhole
    exact hdollar (eq_of_beq (Bool.and_eq_true_iff.mp hwhole).1)
  split at h
  · rename_i htrue
    exact hword (by decide) htrue
  split at h
  · rename_i hfalse
    exact hword (by decide) hfalse
  split at h
  · rename_i hnumeral
    obtain ⟨first, second, n, hform⟩ := Numeral.form_of_integer? hnumeral
    rw [trim_trim] at hform
    rcases hform.of_mem hmem with hsign | hsign | hletter
    · cases first <;> simp [Sign.text] at hsign
    · cases second <;> simp [Sign.text] at hsign
    · cases hletter
  split at h
  · rename_i hchars
    exact absurd (List.all_eq_true.mp (Bool.and_eq_true_iff.mp hchars).1 '=' hmem) (by decide)
  · exact fail_ok.mp h

/-- No text is an operand that has an equals sign and neither a quote nor a `$` before it. -/
theorem read_ne_ok (h : ∀ c ∈ front, c ≠ '"' ∧ c ≠ '$') :
    read (String.ofList (front ++ '=' :: rest)) ≠ .ok o := by
  intro hread
  obtain ⟨u, v, hs, hu, hv⟩ := exists_trim (front ++ '=' :: rest)
  have hblank {c : Char} (hc : c ∈ u ∨ c ∈ v) : c ≠ '=' :=
    ne_of_isBlank (hc.elim (hu c) (hv c)) (by decide)
  have hmem : '=' ∈ trim (front ++ '=' :: rest) := by
    have hall : '=' ∈ u ++ (trim (front ++ '=' :: rest) ++ v) := by
      rw [← hs]
      simp
    rcases List.mem_append.mp hall with hc | hc
    · exact absurd rfl (hblank (.inl hc))
    · exact (List.mem_append.mp hc).resolve_right fun hc => hblank (.inr hc) rfl
  -- the first character that is no blank is one of the front or the equals sign itself
  have hhead {c : Char} (hc : (trim (front ++ '=' :: rest)).head? = some c) : c ∈ front ∨ c = '=' := by
    obtain ⟨t, ht⟩ := List.head?_eq_some_iff.mp hc
    rw [ht] at hs
    rcases List.append_eq_append_iff.mp hs with ⟨w, hw, hrest⟩ | ⟨w, hw, hrest⟩
    · cases w with
      | nil => exact .inr (List.cons.inj hrest).1.symm
      | cons d w =>
        rw [hw] at hblank
        exact absurd (List.cons.inj hrest).1.symm (hblank (.inl (by simp)))
    · cases w with
      | nil => exact .inr (List.cons.inj hrest).1
      | cons d w =>
        rw [hw, (List.cons.inj hrest).1]
        exact .inl (by simp)
  refine not_mem_of_read hread ?_ ?_ (by rwa [String.toList_ofList])
  all_goals
    rw [String.toList_ofList]
    intro hc
    rcases hhead hc with hc | hc
    · first | exact (h _ hc).1 rfl | exact (h _ hc).2 rfl
    · cases hc

end Operand

namespace Assignment

/-- The text is the target, blanks, the operator in some case of its letters, blanks and the right-hand
side. An operator of letters keeps apart from the target. -/
structure Spelt (a : Assignment) (s : List Char) : Prop where
  target : isValidName a.target = true
  right : a.right.toList ≠ [] ∧ Tight a.right.toList ∧ a.right.toList.head? ≠ some '='
  parts : ∃ gap sign blanks, s = a.target.toList ++ (gap ++ (sign ++ (blanks ++ a.right.toList))) ∧
    (∀ c ∈ gap, isBlank c = true) ∧ sameFolded sign a.op.symbol.toList = true ∧
    (∀ c ∈ blanks, isBlank c = true) ∧ ∀ c, (gap ++ sign).head? = some c → isNameChar c = false

variable {raw : String} {a : Assignment} {s : List Char}

theorem spelt_of_read (h : read raw = .ok a) : a.Spelt (trim raw.toList) := by
  unfold read at h
  dsimp only at h
  split at h
  · exact (fail_ok.mp (bind_ok.mp h).choose_spec.1).elim
  split at h
  · exact (fail_ok.mp (bind_ok.mp h).choose_spec.1).elim
  rename_i hname
  split at h
  · exact (fail_ok.mp h).elim
  rename_i op rest hfront
  split at h
  · exact (fail_ok.mp h).elim
  rename_i hright
  split at h
  · exact (fail_ok.mp h).elim
  rename_i hequals
  cases h
  obtain ⟨sign, htail, hsign⟩ := AssignOp.atFront?_eq_some.mp hfront
  obtain ⟨blanks, v, hrest, hblanks, hv⟩ := exists_trim rest
  have htight := tight_trim raw.toList
  have hfirst := List.head?_dropWhile_not isNameChar (trim raw.toList)
  have hdrop : (trim raw.toList).dropWhile isNameChar =
      ((trim raw.toList).dropWhile isNameChar).takeWhile isBlank ++
        (sign ++ (blanks ++ (trim rest ++ v))) := by
    rw [← hrest, ← htail]
    exact List.takeWhile_append_dropWhile.symm
  have hs : trim raw.toList = (trim raw.toList).takeWhile isNameChar ++
      (((trim raw.toList).dropWhile isNameChar).takeWhile isBlank ++
        (sign ++ (blanks ++ (trim rest ++ v)))) := by
    rw [← hdrop]
    exact List.takeWhile_append_dropWhile.symm
  have hgap (c : Char) (hc : c ∈ ((trim raw.toList).dropWhile isNameChar).takeWhile isBlank) :
      isBlank c = true := isBlank_of_mem_takeWhile hc
  generalize (trim raw.toList).takeWhile isNameChar = name at *
  generalize ((trim raw.toList).dropWhile isNameChar).takeWhile isBlank = gap at *
  -- the text is trimmed, so that nothing stands behind the right-hand side
  obtain rfl : v = [] := by
    refine Tight.eq_nil_of_append (u := name ++ (gap ++ (sign ++ (blanks ++ trim rest)))) ?_ hv
    rw [hs] at htight
    simpa using htight
  rw [List.append_nil] at hs hdrop
  refine ⟨by simpa [isValidName] using hname, ?_, gap, sign, blanks, ?_, hgap, hsign, hblanks,
    fun c hc => ?_⟩
  · rw [String.toList_ofList]
    exact ⟨by simpa using hright, tight_trim rest, by simpa using hequals⟩
  · simpa only [String.toList_ofList] using hs
  · rw [hdrop, ← List.append_assoc, List.head?_append, hc] at hfirst
    simpa using hfirst

/-- Such a text begins with a letter. -/
theorem Spelt.exists_letter (h : a.Spelt s) : ∃ c rest, s = c :: rest ∧ c.isAlpha = true := by
  obtain ⟨hname, -, gap, sign, blanks, rfl, -⟩ := h
  unfold isValidName at hname
  cases htarget : a.target.toList with
  | nil =>
    rw [htarget] at hname
    cases hname
  | cons c rest =>
    rw [htarget] at hname
    exact ⟨c, _, rfl, (Bool.and_eq_true_iff.mp hname).1⟩

theorem Spelt.head_ne (h : a.Spelt s) : s.head? ≠ some '$' := by
  obtain ⟨c, rest, rfl, hletter⟩ := h.exists_letter
  rintro ⟨⟩
  cases hletter

theorem Spelt.read_eq (h : a.Spelt (trim raw.toList)) : read raw = .ok a := by
  have hdollar : ((trim raw.toList).head? == some '$') = false := beq_eq_false_iff_ne.mpr h.head_ne
  obtain ⟨hname, ⟨hne, htight, hequals⟩, gap, sign, blanks, hs, hgap, hsign, hblanks, hapart⟩ := h
  have hbehind (c : Char) (hc : (gap ++ (sign ++ (blanks ++ a.right.toList))).head? = some c) :
      isNameChar c = false := by
    refine hapart c ?_
    rw [← List.append_assoc, List.head?_append, Option.or_eq_some_iff] at hc
    refine hc.resolve_right fun h => AssignOp.ne_nil_of_sameFolded hsign ?_
    exact (List.append_eq_nil_iff.mp (List.head?_eq_none_iff.mp h.1)).2
  obtain ⟨htake, hdrop⟩ := takeWhile_name _ hname hbehind
  have hsign' : trimLeft (gap ++ (sign ++ (blanks ++ a.right.toList))) =
      sign ++ (blanks ++ a.right.toList) := by
    rw [trimLeft_append hgap]
    exact trimLeft_eq_self fun c => AssignOp.isBlank_of_head hsign
  have hfront : AssignOp.atFront? (sign ++ (blanks ++ a.right.toList)) =
      some (a.op, blanks ++ a.right.toList) := AssignOp.atFront?_eq_some.mpr ⟨sign, rfl, hsign⟩
  have hright : trim (blanks ++ a.right.toList) = a.right.toList := by
    simpa using htight.trim_padded (v := []) hne hblanks nofun
  rw [hs] at hdollar
  unfold read
  have hname' : isName a.target.toList = true := hname
  have hempty : a.right.toList.isEmpty = false := by simpa using hne
  have hequals' : (a.right.toList.head? == some '=') = false := by simpa using hequals
  simp only [hs, hdollar, htake, hdrop, hsign', hfront, hright, hname', hempty, hequals',
    String.ofList_toList]
  rfl

/-- A text is read as an assignment exactly if it is spelt so. -/
theorem read_iff : read raw = .ok a ↔ a.Spelt (trim raw.toList) :=
  ⟨spelt_of_read, Spelt.read_eq⟩

/-- The characters that do not stand before the equals sign of an assignment. -/
def marks : List Char :=
  ['"', '$', '=', '!', '<', '>']

theorem not_mem_marks {c : Char} (h : isNameChar c = true ∨ isBlank c = true ∨ AssignOp.HasChar c) :
    c ∉ marks := by
  have hmarks : marks.all (fun c =>
      decide ¬(isNameChar c = true ∨ isBlank c = true ∨ AssignOp.HasChar c)) = true := by decide
  exact fun hc => of_decide_eq_true (List.all_eq_true.mp hmarks c hc) h

theorem Spelt.exists_front (h : a.Spelt s) : ∃ front rest, s = front ++ '=' :: rest ∧
    (∀ c ∈ front, c ∉ marks) ∧ rest.head? ≠ some '=' := by
  obtain ⟨hname, ⟨-, -, hequals⟩, gap, sign, blanks, rfl, hgap, hsign, hblanks, -⟩ := h
  obtain ⟨body, rfl, hbody⟩ := AssignOp.exists_body hsign
  refine ⟨a.target.toList ++ (gap ++ body), blanks ++ a.right.toList, by simp, fun c hc => ?_, ?_⟩
  · simp only [List.mem_append] at hc
    exact not_mem_marks (hc.imp (isNameChar_of_isName hname c) (.imp (hgap c) (hbody c)))
  · cases blanks with
    | nil => exact hequals
    | cons c blanks =>
      intro hc
      exact ne_of_isBlank (hblanks c List.mem_cons_self) (by decide) (Option.some.inj hc)

/-- No relation sign stands before the equals sign of an assignment, and none begins with it. -/
theorem Spelt.mem_of_sign {r : Relation} {left rest : List Char} (h : a.Spelt s)
    (hs : s = left ++ (r.symbol.toList ++ rest)) : '=' ∈ left := by
  obtain ⟨front, behind, hfront, hmarks, hequals⟩ := h.exists_front
  obtain ⟨c, more, hsymbol, hc, hmore⟩ : ∃ c more, r.symbol.toList = c :: more ∧ c ∈ marks ∧
      (c = '=' → more = ['=']) := by
    cases r <;> exact ⟨_, _, rfl, by decide⟩
  rw [hfront, hsymbol, List.cons_append] at hs
  have hfirst (h : '=' :: behind = c :: (more ++ rest)) : False := by
    obtain ⟨rfl, hbehind⟩ := List.cons.inj h
    rw [hmore rfl] at hbehind
    exact hequals (by rw [hbehind]; rfl)
  rcases List.append_eq_append_iff.mp hs with ⟨w, rfl, hrest⟩ | ⟨w, rfl, hrest⟩
  · cases w with
    | nil => exact (hfirst hrest).elim
    | cons d w =>
      rw [(List.cons.inj hrest).1]
      simp
  · cases w with
    | nil => exact (hfirst hrest.symm).elim
    | cons d w =>
      rw [← (List.cons.inj hrest).1] at hmarks
      exact absurd hc (hmarks c (by simp))

/-- What stands behind a part of such a text that has no equals sign is no operand. -/
theorem Spelt.read_behind {o : Operand} {u v : List Char} (h : a.Spelt (u ++ v)) (hu : '=' ∉ u) :
    Operand.read (String.ofList v) ≠ .ok o := by
  obtain ⟨front, behind, hs, hmarks, -⟩ := h.exists_front
  rcases List.append_eq_append_iff.mp hs with ⟨w, rfl, rfl⟩ | ⟨w, rfl, hv⟩
  · refine Operand.read_ne_ok fun c hc => ?_
    have hplain := hmarks c (List.mem_append_right _ hc)
    exact ⟨fun heq => hplain (by simp [heq, marks]), fun heq => hplain (by simp [heq, marks])⟩
  · cases w with
    | nil =>
      rw [List.nil_append] at hv
      rw [← hv]
      have hread : Operand.read (String.ofList ([] ++ '=' :: behind)) ≠ .ok o :=
        Operand.read_ne_ok nofun
      exact hread
    | cons d w =>
      rw [(List.cons.inj hv).1] at hu
      exact absurd (by simp) hu

/-- Nor is a part in front that has one. -/
theorem Spelt.read_front {o : Operand} {u v : List Char} (h : a.Spelt (u ++ v)) (hu : '=' ∈ u) :
    Operand.read (String.ofList u) ≠ .ok o := by
  obtain ⟨front, behind, hs, hmarks, -⟩ := h.exists_front
  have hfront (hmem : '=' ∈ front) : False := hmarks _ hmem (by decide)
  rcases List.append_eq_append_iff.mp hs with ⟨w, rfl, -⟩ | ⟨w, rfl, hv⟩
  · exact (hfront (List.mem_append_left _ hu)).elim
  · cases w with
    | nil => exact (hfront (by simpa using hu)).elim
    | cons d w =>
      rw [← (List.cons.inj hv).1]
      refine Operand.read_ne_ok fun c hc => ?_
      exact ⟨fun heq => hmarks c hc (by simp [heq, marks]),
        fun heq => hmarks c hc (by simp [heq, marks])⟩

/-- The text is no condition. -/
theorem Spelt.read_condition {c : Condition} (h : a.Spelt (trim raw.toList)) :
    Condition.read raw ≠ .ok c := by
  intro hread
  unfold Condition.read at hread
  dsimp only at hread
  split at hread
  · exact fail_ok.mp (bind_ok.mp hread).choose_spec.1
  split at hread
  · -- a relation: its left operand has the equals sign
    rename_i before r after hfind
    have hs := Relation.append_of_find? hfind
    obtain ⟨left, hleft, -⟩ := bind_ok.mp hread
    rw [hs] at h
    exact h.read_front (h.mem_of_sign rfl) hleft
  · -- a flag: its operand has it, perhaps behind a `NOT`
    obtain ⟨o, hread, -⟩ := bind_ok.mp hread
    unfold Condition.splitNot at hread
    split at hread
    · rename_i rest hnot
      obtain ⟨front, hs, hfolded⟩ := afterFolded?_eq_some.mp hnot
      rw [hs] at h
      refine h.read_behind (fun hmem => ?_) hread
      have hupper := List.mem_map_of_mem (f := Char.toUpper) hmem
      rw [eq_of_beq hfolded] at hupper
      exact absurd hupper (by decide)
    split at hread
    · rename_i hs
      obtain ⟨d, more, hletter, halpha⟩ := h.exists_letter
      rw [hs] at hletter
      cases hletter
      cases halpha
    · exact h.read_behind (u := []) nofun hread

/-- Blanks around the right-hand side do not belong to it. -/
theorem read_parts {name gap sign blanks right : List Char} {op : AssignOp} (hname : isName name = true)
    (hne : gap ≠ []) (hgap : ∀ c ∈ gap, isBlank c = true)
    (hsign : sameFolded sign op.symbol.toList = true)
    (hblanks : ∀ c ∈ blanks, isBlank c = true) (hright : trim right ≠ [])
    (hequals : (trim right).head? ≠ some '=') :
    read (String.ofList (name ++ (gap ++ (sign ++ (blanks ++ right))))) =
      .ok ⟨String.ofList name, op, String.ofList (trim right)⟩ := by
  obtain ⟨u, v, hparts, hu, hv⟩ := exists_trim right
  have hnil : name ≠ [] := by
    rintro rfl
    cases hname
  have htight : Tight (name ++ (gap ++ (sign ++ (blanks ++ u)) ++ trim right)) :=
    Tight.append (tight_of_forall fun c hc => isBlank_of_isNameChar (isNameChar_of_isName hname c hc))
      (tight_trim right) hnil hright
  have hwhole : name ++ (gap ++ (sign ++ (blanks ++ (u ++ (trim right ++ v))))) =
      [] ++ (name ++ (gap ++ (sign ++ (blanks ++ u)) ++ trim right) ++ v) := by simp
  rw [← hparts] at hwhole
  have htrim : trim (name ++ (gap ++ (sign ++ (blanks ++ right)))) =
      name ++ (gap ++ (sign ++ (blanks ++ u)) ++ trim right) := by
    rw [hwhole]
    exact htight.trim_padded (by simp [hnil]) nofun hv
  refine Spelt.read_eq ⟨?_, ?_, gap, sign, blanks ++ u, ?_, hgap, hsign, ?_, fun c hc => ?_⟩
  · rwa [isValidName, String.toList_ofList]
  · rw [String.toList_ofList]
    exact ⟨hright, tight_trim right, hequals⟩
  · simp only [String.toList_ofList, htrim, List.append_assoc]
  · exact List.forall_mem_append.mpr ⟨hblanks, hu⟩
  · obtain ⟨d, gap, rfl⟩ := List.exists_cons_of_ne_nil hne
    rw [← Option.some.inj hc]
    exact not_isNameChar_of_isBlank (hgap d List.mem_cons_self)

/-- A name, blanks, an operator in any case of its letters, blanks and a text that has more than blanks and
does not begin with an equals sign behind them are the assignment of that text, trimmed, to the name. Of a
text that is read as an assignment only blanks are left out; it does not begin with a `$`, no relation sign
stands in it before an equals sign does, and it is not read as a condition. -/
theorem spelling_of_read :
    (∀ name gap sign blanks right op, isName name = true → gap ≠ [] → (∀ c ∈ gap, isBlank c = true) →
      sameFolded sign (AssignOp.symbol op).toList = true → (∀ c ∈ blanks, isBlank c = true) →
      trim right ≠ [] → (trim right).head? ≠ some '=' →
        read (String.ofList (name ++ (gap ++ (sign ++ (blanks ++ right))))) =
          .ok ⟨String.ofList name, op, String.ofList (trim right)⟩) ∧
    ∀ raw a, read raw = .ok a →
      (isValidName a.target = true ∧ ∃ gap sign blanks,
        trim raw.toList = a.target.toList ++ (gap ++ (sign ++ (blanks ++ a.right.toList))) ∧
        (∀ c ∈ gap, isBlank c = true) ∧ sameFolded sign a.op.symbol.toList = true ∧
        (∀ c ∈ blanks, isBlank c = true) ∧ a.right.toList ≠ [] ∧
        trim a.right.toList = a.right.toList ∧ a.right.toList.head? ≠ some '=') ∧
      (trim raw.toList).head? ≠ some '$' ∧
      (∀ left r rest, trim raw.toList = left ++ ((Relation.symbol r).toList ++ rest) → '=' ∈ left) ∧
      ∀ c, Condition.read raw ≠ .ok c := by
  refine ⟨fun _ _ _ _ _ _ => read_parts, fun raw a hread => ?_⟩
  have h := spelt_of_read hread
  obtain ⟨htarget, ⟨hne, htight, hequals⟩, gap, sign, blanks, hs, hgap, hsign, hblanks, -⟩ := id h
  exact ⟨⟨htarget, gap, sign, blanks, hs, hgap, hsign, hblanks, hne, htight.trim_eq, hequals⟩, h.head_ne,
    fun _ _ _ => h.mem_of_sign, fun _ => h.read_condition⟩

/-- An operator in small letters, with what stands to its right between blanks. -/
theorem spelling_of_read_small :
    read "FLAGS xor=  0x4 " = .ok ⟨"FLAGS", .xor, "0x4"⟩ ∧
      Condition.read "FLAGS xor=  0x4 " ≠ .ok (.flag (.literal (.integer 4)) false) := by
  have h := spelling_of_read.1 "FLAGS".toList [' '] "xor=".toList [' '] " 0x4 ".toList .xor (by decide)
    (by decide) (List.forall_mem_singleton.mpr rfl) (by decide) (List.forall_mem_singleton.mpr rfl)
    (by decide) (by decide)
  exact ⟨h, (spelling_of_read.2 _ _ h).2.2.2 _⟩

end Assignment

end CommandScript
