import CommandScript.Proofs.Text.Quoted

/-!
# Argument texts are cut at blanks and nowhere else

Where a text is cut is told apart from how the scan goes about it (`Cuts`, `cutOutside_eq_some`): between
two pieces stands one mark that is outside quotes and brackets, and no piece has such a mark in it. The
place that the scan has reached goes on from piece to piece, so brackets that are left open or closed too
often count for all that follows. Since marks outside do not move the place, the arguments of a text may be
set apart by any blanks (`arguments_of_split`).
-/

namespace CommandScript.Text

/-- From the place `p` on, the text is cut into these pieces. -/
inductive Cuts (isMark : Char → Bool) : Place → List Char → List (List Char) → Prop
  | last {p : Place} {a : List Char} (whole : Whole isMark p a)
      (closed : (a.foldl Place.next p).quoted = false) : Cuts isMark p a [a]
  | cons {p : Place} {a rest : List Char} {m : Char} {more : List (List Char)}
      (whole : Whole isMark p a) (outside : (a.foldl Place.next p).isOutside = true)
      (mark : isMark m = true) (behind : Cuts isMark (a.foldl Place.next p) rest more) :
      Cuts isMark p (a ++ m :: rest) (a :: more)

/-- The arguments stand in the text in this order: blanks are in front of them, behind them and between
any two, and nothing else. -/
inductive Spread : List Char → List (List Char) → Prop
  | blank {s : List Char} (blanks : ∀ c ∈ s, isBlank c = true) : Spread s []
  | cons {gap a rest : List Char} {more : List (List Char)} (blanks : ∀ c ∈ gap, isBlank c = true)
      (nonempty : a ≠ []) (apart : ∀ c ∈ rest.head?, isBlank c = true) (behind : Spread rest more) :
      Spread (gap ++ (a ++ rest)) (a :: more)

/-- The pieces that are arguments. -/
def proper (pieces : List (List Char)) : List (List Char) :=
  pieces.filter fun a => !a.isEmpty

section Cutting

variable {isMark : Char → Bool} {p : Place} {s : List Char} {pieces : List (List Char)}

theorem Whole.concat {c : Char} {u : List Char} (hu : Whole isMark p u)
    (hc : ((u.foldl Place.next p).isOutside && isMark c) = false) : Whole isMark p (u ++ [c]) :=
  hu.append ⟨hc, trivial⟩

theorem Place.quoted_of_isOutside (h : p.isOutside = true) : p.quoted = false := by
  rw [Place.isOutside, Bool.and_eq_true] at h
  simpa using h.1

theorem Cuts.cutOutside (h : Cuts isMark p s pieces) : cutOutside isMark p [] s = some pieces := by
  induction h with
  | last whole closed => exact cutOutside_whole whole closed
  | @cons p a rest m more whole outside mark behind ih =>
    rw [cutOutside_append whole, cutOutside_mark outside mark, ih]
    simp

/-- The scan has read `current` since the place `p` and goes over `s` now. -/
theorem cuts_of_cutOutside (current : List Char) (hcurrent : Whole isMark p current.reverse)
    (h : Text.cutOutside isMark (current.reverse.foldl Place.next p) current s = some pieces) :
    Cuts isMark p (current.reverse ++ s) pieces := by
  induction s generalizing p current pieces with
  | nil =>
    rw [Text.cutOutside] at h
    split at h
    · cases h
    · rename_i hclosed
      cases h
      rw [List.append_nil]
      exact .last hcurrent (Bool.eq_false_iff.mpr hclosed)
  | cons c s ih =>
    rw [Text.cutOutside] at h
    split at h
    · rename_i hmark
      obtain ⟨houtside, hmark⟩ := Bool.and_eq_true_iff.mp hmark
      obtain ⟨more, hmore, rfl⟩ := Option.map_eq_some_iff.mp h
      exact .cons hcurrent houtside hmark (ih [] trivial hmore)
    · rename_i hplain
      have hnext : Whole isMark p (c :: current).reverse := by
        rw [List.reverse_cons]
        exact hcurrent.concat (Bool.eq_false_iff.mpr hplain)
      have hcuts := ih (c :: current) hnext (by simpa using h)
      simpa using hcuts

/-- The scan finds the pieces that a text is cut into. -/
theorem cutOutside_eq_some : Text.cutOutside isMark p [] s = some pieces ↔ Cuts isMark p s pieces :=
  ⟨cuts_of_cutOutside [] trivial, Cuts.cutOutside⟩

/-- The pieces that are left when empty ones are taken out are cut from each other by one mark. -/
theorem Cuts.proper {m : Char} (hm : isMark m = true) (h : Cuts isMark p s pieces) :
    Text.proper pieces = [] ∨ Cuts isMark p ([m].intercalate (Text.proper pieces)) (Text.proper pieces) := by
  induction h with
  | @last p a whole closed =>
    cases a with
    | nil => exact .inl rfl
    | cons c a =>
      refine .inr ?_
      have hproper : Text.proper [c :: a] = [c :: a] := rfl
      rw [hproper, List.intercalate_singleton]
      exact .last whole closed
  | @cons p a rest m' more whole outside mark behind ih =>
    cases a with
    | nil => exact ih
    | cons c a =>
      refine .inr ?_
      have hproper : Text.proper ((c :: a) :: more) = (c :: a) :: Text.proper more := rfl
      rw [hproper]
      rcases ih with hnil | hcuts
      · rw [hnil, List.intercalate_singleton]
        exact .last whole (Place.quoted_of_isOutside outside)
      · cases hmore : Text.proper more with
        | nil =>
          rw [List.intercalate_singleton]
          exact .last whole (Place.quoted_of_isOutside outside)
        | cons b bs =>
          rw [hmore] at hcuts
          rw [List.intercalate_cons_cons, List.append_assoc]
          exact .cons whole outside hm hcuts

end Cutting

section Arguments

variable {p : Place} {s : List Char} {pieces : List (List Char)} {text : String} {args : List String}

/-- The pieces between blanks stand in the text, behind any further blanks. -/
theorem Cuts.spread (h : Cuts isBlank p s pieces) {gap : List Char} (hgap : ∀ c ∈ gap, isBlank c = true) :
    Spread (gap ++ s) (Text.proper pieces) := by
  induction h generalizing gap with
  | @last p a whole closed =>
    cases a with
    | nil =>
      rw [List.append_nil]
      exact .blank hgap
    | cons c a =>
      have hspread : Spread (gap ++ (c :: a ++ [])) [c :: a] :=
        .cons hgap (List.cons_ne_nil c a) nofun (.blank nofun)
      rwa [List.append_nil] at hspread
  | @cons p a rest m more whole outside mark behind ih =>
    cases a with
    | nil =>
      have hlonger : ∀ c ∈ gap ++ [m], isBlank c = true :=
        List.forall_mem_append.mpr ⟨hgap, List.forall_mem_singleton.mpr mark⟩
      have hspread := ih hlonger
      rwa [List.append_assoc] at hspread
    | cons c a =>
      refine .cons hgap (List.cons_ne_nil c a) (fun d hd => ?_)
        (ih (List.forall_mem_singleton.mpr mark))
      rwa [← Option.some.inj hd]

theorem splitArguments_eq_ok : splitArguments text = .ok args ↔
    ∃ pieces, Cuts isBlank {} text.toList pieces ∧ args = (proper pieces).map String.ofList := by
  simp only [← cutOutside_eq_some]
  unfold splitArguments unterminated
  split
  · rename_i hnone
    simp [hnone, Checked.fail]
  · rename_i pieces hsome
    rw [hsome]
    constructor
    · intro h
      cases h
      exact ⟨pieces, rfl, rfl⟩
    · rintro ⟨_, hpieces, rfl⟩
      cases hpieces
      rfl

/-- Texts that are cut from each other by single spaces are the arguments of the text that they make up. -/
theorem splitArguments_intercalate
    (h : proper pieces = [] ∨ Cuts isBlank {} ([' '].intercalate (proper pieces)) (proper pieces)) :
    splitArguments (" ".intercalate ((proper pieces).map String.ofList)) =
      .ok ((proper pieces).map String.ofList) := by
  rcases h with hnil | hcuts
  · rw [hnil]
    rfl
  · refine splitArguments_eq_ok.mpr ⟨proper pieces, ?_, ?_⟩
    · rw [String.toList_intercalate, List.map_map]
      simpa using hcuts
    · simp [proper]

theorem ofList_ne_empty {a : List Char} (h : a ≠ []) : String.ofList a ≠ "" := by
  intro hempty
  have := congrArg String.toList hempty
  rw [String.toList_ofList] at this
  exact h this

/-- Literals that are joined by spaces are cut at these. -/
theorem cuts_quoted {texts : List String} (h : texts ≠ []) :
    Cuts isBlank {} ([' '].intercalate (texts.map fun s => (quoted s).toList))
      (texts.map fun s => (quoted s).toList) := by
  induction texts with
  | nil => contradiction
  | cons s texts ih =>
    have hmark : isBlank '"' = false := rfl
    obtain ⟨hwhole, hplace⟩ := whole_quoted (p := {}) hmark rfl rfl s
    cases texts with
    | nil =>
      rw [List.map_singleton, List.intercalate_singleton]
      exact .last hwhole (by rw [hplace])
    | cons t texts =>
      have hcuts := ih (List.cons_ne_nil t texts)
      simp only [List.map_cons] at hcuts ⊢
      rw [List.intercalate_cons_cons, List.append_assoc]
      exact .cons hwhole (by rw [hplace]; rfl) rfl (by rwa [hplace])

/-- Literals that are joined by spaces are the arguments. -/
theorem splitArguments_quoted (texts : List String) :
    splitArguments (" ".intercalate (texts.map quoted)) = .ok (texts.map quoted) := by
  cases texts with
  | nil => rfl
  | cons t texts =>
    refine splitArguments_eq_ok.mpr ⟨(t :: texts).map fun s => (quoted s).toList, ?_, ?_⟩
    · rw [String.toList_intercalate, List.map_map]
      exact cuts_quoted (List.cons_ne_nil t texts)
    · have hproper : proper ((t :: texts).map fun s => (quoted s).toList) =
          (t :: texts).map fun s => (quoted s).toList :=
        List.filter_eq_self.mpr (List.forall_mem_map.mpr fun s _ => by rw [toList_quoted]; rfl)
      rw [hproper, List.map_map]
      simp

end Arguments

/-- The arguments of a text are not empty and stand in it in their order, with blanks around them and
between them and nothing else; joined by single spaces they are the arguments of the text that they make up.
Texts that are written as literals and joined by spaces are cut into these literals, and each of them stands
for its text. -/
theorem arguments_of_split :
    (∀ text args, splitArguments text = .ok args →
      (∀ a ∈ args, a ≠ "") ∧ Spread text.toList (args.map String.toList) ∧
      splitArguments (" ".intercalate args) = .ok args) ∧
    ∀ texts : List String, splitArguments (" ".intercalate (texts.map quoted)) = .ok (texts.map quoted) ∧
      ∀ s ∈ texts, readLiteral (quoted s) = .ok s := by
  refine ⟨fun text args h => ?_, fun texts => ⟨splitArguments_quoted texts, fun s _ => readLiteral_quoted s⟩⟩
  obtain ⟨pieces, hcuts, rfl⟩ := splitArguments_eq_ok.mp h
  refine ⟨fun a ha => ?_, ?_, splitArguments_intercalate (hcuts.proper rfl)⟩
  · obtain ⟨piece, hpiece, rfl⟩ := List.mem_map.mp ha
    refine ofList_ne_empty fun hempty => ?_
    rw [hempty] at hpiece
    exact absurd (List.mem_filter.mp hpiece).2 (by decide)
  · have hnone : ∀ c ∈ ([] : List Char), isBlank c = true := nofun
    have hspread := hcuts.spread hnone
    simpa using hspread

/-- A bracket that is closed without having been opened lets the blanks within the next ones cut, however
wide they are. -/
theorem arguments_of_split_unbalanced :
    splitArguments "] \t LIST[1 - 2]  \"a b\" " = .ok ["]", "LIST[1", "-", "2]", "\"a b\""] ∧
    splitArguments "] LIST[1 - 2] \"a b\"" = .ok ["]", "LIST[1", "-", "2]", "\"a b\""] ∧
    readLiteral "\"a b\"" = .ok "a b" := by
  have hsplit : splitArguments "] \t LIST[1 - 2]  \"a b\" " =
      .ok ["]", "LIST[1", "-", "2]", "\"a b\""] := Checked.ok_of_toOption (by decide +kernel)
  obtain ⟨hargs, hliterals⟩ := arguments_of_split
  exact ⟨hsplit, (hargs _ _ hsplit).2.2, (hliterals ["a b"]).2 "a b" (List.mem_singleton.mpr rfl)⟩

end CommandScript.Text
