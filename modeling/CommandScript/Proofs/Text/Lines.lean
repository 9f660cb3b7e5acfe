import CommandScript.Text.Blank

/-!
# Pieces and lines

A text that is cut at a mark in the middle falls into the pieces of its two sides. A text that a line feed
ends is finished: what is put behind it begins a line of its own, and behind any other text it goes on
with the last line.
-/

namespace CommandScript.Text

variable {s w : List Char}

theorem splitAtMark_eq_splitOn (mark : Char) (s : List Char) :
    splitAtMark mark s = s.splitOn mark := by
  induction s with
  | nil => rw [List.splitOn_nil, splitAtMark]
  | cons c s ih =>
    rw [splitAtMark, List.splitOn_cons_eq_if_modifyHead, ih]
    simp only [beq_iff_eq]
    split
    · rfl
    · split
      · exact absurd ‹_› (List.splitOn_ne_nil mark s)
      · rw [‹List.splitOn mark s = _›, List.modifyHead_cons]

theorem splitAtMark_append_mark (mark : Char) (u v : List Char) :
    splitAtMark mark (u ++ mark :: v) = splitAtMark mark u ++ splitAtMark mark v := by
  simp only [splitAtMark_eq_splitOn, List.splitOn_append_cons_self]

theorem linesOfPieces_cons {rest : List (List Char)} (h : rest ≠ []) (piece : List Char) :
    linesOfPieces (piece :: rest) = dropReturn piece :: linesOfPieces rest := by
  obtain ⟨next, more, rfl⟩ := List.exists_cons_of_ne_nil h
  rfl

/-- Pieces that another one follows are finished lines. -/
theorem linesOfPieces_append_singleton (pieces : List (List Char)) (last : List Char) :
    linesOfPieces (pieces ++ [last]) = pieces.map dropReturn ++ linesOfPieces [last] := by
  induction pieces with
  | nil => rfl
  | cons piece pieces ih =>
    have hrest : pieces ++ [last] ≠ [] := List.append_ne_nil_of_right_ne_nil _ (List.cons_ne_nil _ _)
    rw [List.cons_append, linesOfPieces_cons hrest, ih]
    rfl

/-- Nothing is behind the last line feed. -/
def Finished (s : List Char) : Prop :=
  s = [] ∨ s.getLast? = some '\n'

/-- What is written behind a text goes on with its last piece, and this one is empty in a finished text. -/
theorem exists_pieces (s : List Char) : ∃ pieces last, (last = [] ↔ Finished s) ∧
    ∀ w, '\n' ∉ w → splitAtMark '\n' (s ++ w) = pieces ++ [last ++ w] := by
  have hparts : ∃ last, '\n' ∉ last ∧ (s = last ∨ ∃ u, s = u ++ '\n' :: last) := by
    induction s with
    | nil => exact ⟨[], List.not_mem_nil, .inl rfl⟩
    | cons c s ih =>
      obtain ⟨last, hlast, rfl | ⟨u, rfl⟩⟩ := ih
      · by_cases hc : c = '\n'
        · exact ⟨s, hlast, .inr ⟨[], by rw [hc]; rfl⟩⟩
        · refine ⟨c :: s, ?_, .inl rfl⟩
          rw [List.mem_cons, not_or]
          exact ⟨Ne.symm hc, hlast⟩
      · exact ⟨last, hlast, .inr ⟨c :: u, rfl⟩⟩
  have hunmarked {last w : List Char} (hlast : '\n' ∉ last) (hw : '\n' ∉ w) : '\n' ∉ last ++ w := by
    rw [List.mem_append, not_or]
    exact ⟨hlast, hw⟩
  obtain ⟨last, hlast, rfl | ⟨u, rfl⟩⟩ := hparts
  · refine ⟨[], s, ⟨.inl, fun h => h.elim id fun hend => ?_⟩, fun w hw => ?_⟩
    · exact absurd (List.mem_of_getLast? hend) hlast
    · rw [splitAtMark_eq_splitOn, List.splitOn_eq_singleton (hunmarked hlast hw)]
      rfl
  · refine ⟨splitAtMark '\n' u, last, ⟨fun h => .inr ?_, fun h => ?_⟩, fun w hw => ?_⟩
    · rw [h, List.getLast?_append]
      rfl
    · cases last with
      | nil => rfl
      | cons c rest =>
        obtain h | h := h
        · cases List.append_eq_nil_iff.mp h with
          | intro _ h => cases h
        · rw [List.getLast?_append, List.getLast?_cons_cons,
            List.getLast?_eq_some_getLast (List.cons_ne_nil c rest)] at h
          exact absurd (Option.some.inj h ▸ List.getLast_mem _) hlast
    · rw [List.append_assoc, List.cons_append, splitAtMark_append_mark, splitAtMark_eq_splitOn _ (last ++ w),
        List.splitOn_eq_singleton (hunmarked hlast hw)]

/-! ### Lines behind a text -/

/-- A line as it is read: without the carriage return that ends it. -/
def readBack (text : String) : String :=
  String.ofList (dropReturn text.toList)

theorem readBack_eq_self {text : String} (h : text.toList.getLast? ≠ some '\r') : readBack text = text := by
  unfold readBack dropReturn
  split
  · rename_i rest hrest
    rw [List.getLast?_eq_head?_reverse, hrest] at h
    exact absurd rfl h
  · exact String.ofList_toList

variable {text line : String}

/-- The finished lines of a text and what is behind them, which the next line is put behind. -/
theorem exists_lines (text : String) : ∃ (before : List String) (last : List Char),
    (last = [] ↔ Finished text.toList) ∧
    lines text = before ++ (linesOfPieces [last]).map String.ofList ∧
    ∀ line : String, '\n' ∉ line.toList →
      lines (text ++ (line ++ "\n")) = before ++ [String.ofList (dropReturn (last ++ line.toList))] := by
  obtain ⟨pieces, last, hlast, hpieces⟩ := exists_pieces text.toList
  refine ⟨(pieces.map dropReturn).map String.ofList, last, hlast, ?_, fun line hline => ?_⟩
  · have htext := hpieces [] List.not_mem_nil
    rw [List.append_nil, List.append_nil] at htext
    rw [lines, htext, linesOfPieces_append_singleton, List.map_append]
  · have hcut : (text ++ (line ++ "\n")).toList = (text.toList ++ line.toList) ++ '\n' :: [] := by
      rw [String.toList_append, String.toList_append, List.append_assoc]
      rfl
    rw [lines, hcut, splitAtMark_append_mark, hpieces _ hline]
    show (linesOfPieces ((pieces ++ [last ++ line.toList]) ++ [[]])).map String.ofList = _
    rw [linesOfPieces_append_singleton, List.map_append, List.map_append, List.map_append]
    exact List.append_nil _

/-- A line behind a finished text is read as one more. -/
theorem lines_append_of_finished (h : Finished text.toList) (hline : '\n' ∉ line.toList) :
    lines (text ++ (line ++ "\n")) = lines text ++ [readBack line] := by
  obtain ⟨before, last, hlast, htext, happend⟩ := exists_lines text
  obtain rfl := hlast.mpr h
  rw [happend line hline, htext]
  exact (List.append_assoc before [] _).symm

/-- Behind any other text it goes on with the last line. -/
theorem lines_append_of_not_finished (h : ¬ Finished text.toList) (hline : '\n' ∉ line.toList) :
    ∃ before last, lines text = before ++ [last] ∧
      lines (text ++ (line ++ "\n")) = before ++ [readBack (last ++ line)] := by
  obtain ⟨before, last, hlast, htext, happend⟩ := exists_lines text
  obtain ⟨c, rest, rfl⟩ := List.exists_cons_of_ne_nil (mt hlast.mp h)
  refine ⟨before, String.ofList (c :: rest), htext, ?_⟩
  rw [happend line hline, readBack, String.toList_append, String.toList_ofList]

theorem finished_append_feed (text : String) : Finished (text ++ "\n").toList := by
  right
  rw [String.toList_append, List.getLast?_append]
  rfl

/-- The texts as lines, each with its line feed. -/
def written : List String → String
  | [] => ""
  | text :: texts => text ++ "\n" ++ written texts

/-- Lines that are written behind a finished text are read as they were written, but for a carriage return
at the end of each. -/
theorem lines_append_written {texts : List String} (h : Finished text.toList)
    (htexts : ∀ t ∈ texts, '\n' ∉ t.toList) :
    lines (text ++ written texts) = lines text ++ texts.map readBack := by
  induction texts generalizing text with
  | nil => rw [written, String.append_empty, List.map_nil, List.append_nil]
  | cons first texts ih =>
    rw [List.forall_mem_cons] at htexts
    have hfinished : Finished (text ++ (first ++ "\n")).toList := by
      rw [← String.append_assoc]
      exact finished_append_feed _
    rw [written, ← String.append_assoc, ih hfinished htexts.2, lines_append_of_finished h htexts.1,
      List.append_assoc, List.map_cons]
    rfl

/-- Behind any other text the first of them goes on with the last line. -/
theorem lines_append_written_cons {first : String} {texts : List String} (h : ¬ Finished text.toList)
    (hfirst : '\n' ∉ first.toList) (htexts : ∀ t ∈ texts, '\n' ∉ t.toList) :
    ∃ before last, lines text = before ++ [last] ∧
      lines (text ++ written (first :: texts)) =
        before ++ readBack (last ++ first) :: texts.map readBack := by
  obtain ⟨before, last, htext, happend⟩ := lines_append_of_not_finished h hfirst
  have hfinished : Finished (text ++ (first ++ "\n")).toList := by
    rw [← String.append_assoc]
    exact finished_append_feed _
  refine ⟨before, last, htext, ?_⟩
  rw [written, ← String.append_assoc, lines_append_written hfinished htexts, happend, List.append_assoc]
  rfl

end CommandScript.Text
