import CommandScript.Proofs.Operand
import Mathlib.Data.List.Forall2

/-!
# Joined texts are read back

Operands whose texts are joined by `+` are read as these operands in their order, and the text that they
make up is the concatenation of their own texts (`Argument.joined_of_written`). The cutting at `+` follows
quotes and brackets, so no sign inside a literal or a reference is taken for a joining one; in a formula
none may stand outside its brackets and parentheses (`PlusInside`).
-/

namespace CommandScript.Argument

open Checked Text

/-- Every plus of the text stands inside brackets or parentheses. -/
def PlusInside (s : List Char) : Prop :=
  ∀ i < s.length, s[i]? = some '+' → 0 < level (s.take i)

instance (s : List Char) : Decidable (PlusInside s) :=
  inferInstanceAs (Decidable (∀ i < s.length, s[i]? = some '+' → 0 < level (s.take i)))

/-- The text is not cut at a plus, and closes all that it opens. -/
structure OnePiece (s : List Char) : Prop where
  whole : Whole (· == '+') {} s
  closed : s.foldl Place.next {} = {}

/-- The piece is the text between blanks. -/
def Around (s piece : List Char) : Prop :=
  ∃ u v, piece = u ++ (s ++ v) ∧ (∀ c ∈ u, isBlank c = true) ∧ ∀ c ∈ v, isBlank c = true

section Cutting

variable {s current : List Char} {texts : List (List Char)}

theorem onePiece_of_unquoted (hquote : '"' ∉ s) (hlevel : level s = 0) (hplus : PlusInside s) :
    OnePiece s where
  whole := by
    refine whole_of_inside rfl hquote fun i c hc hmark => ?_
    obtain rfl : c = '+' := eq_of_beq hmark
    have hpos := hplus i (List.getElem?_eq_some_iff.mp hc).1 hc
    simpa using hpos
  closed := by
    rw [foldl_next_of_unquoted rfl hquote, hlevel]
    rfl

theorem plusInside_of_not_mem (h : '+' ∉ s) : PlusInside s :=
  fun _ _ hc => absurd (List.mem_of_getElem? hc) h

/-- Joined texts are cut at the joining signs and nowhere else. -/
theorem exists_cut (hne : texts ≠ []) (h : ∀ s ∈ texts, OnePiece s)
    (hcurrent : ∀ c ∈ current, isBlank c = true) :
    ∃ pieces, cutOutside (· == '+') {} current (" + ".toList.intercalate texts) = some pieces ∧
      List.Forall₂ Around texts pieces := by
  induction texts generalizing current with
  | nil => contradiction
  | cons s texts ih =>
    obtain ⟨hs, htexts⟩ := List.forall_mem_cons.mp h
    have hblank : ∀ c ∈ current.reverse, isBlank c = true := by simpa using hcurrent
    cases texts with
    | nil =>
      refine ⟨[current.reverse ++ s], ?_, .cons ⟨current.reverse, [], by simp, hblank, nofun⟩ .nil⟩
      have hcut := cutOutside_append hs.whole current []
      rw [hs.closed, cutOutside_nil rfl, List.append_nil] at hcut
      simpa using hcut
    | cons t texts =>
      obtain ⟨pieces, hpieces, haround⟩ := ih (List.cons_ne_nil _ _) htexts isBlank_of_mem_space
      refine ⟨(current.reverse ++ (s ++ [' '])) :: pieces, ?_,
        .cons ⟨current.reverse, [' '], rfl, hblank, isBlank_of_mem_space⟩ haround⟩
      calc cutOutside (· == '+') {} current (" + ".toList.intercalate (s :: t :: texts))
          = cutOutside (· == '+') {} (' ' :: (s.reverse ++ current))
              ('+' :: ' ' :: " + ".toList.intercalate (t :: texts)) := by
            rw [List.intercalate_cons_cons, List.append_assoc, cutOutside_append hs.whole, hs.closed]
            rfl
        _ = ((current.reverse ++ (s ++ [' '])) :: ·) <$>
              cutOutside (· == '+') {} [' '] (" + ".toList.intercalate (t :: texts)) := by
            rw [cutOutside_mark rfl rfl]
            simp [cutOutside, Place.isOutside, Place.next]
        _ = some ((current.reverse ++ (s ++ [' '])) :: pieces) := by
            rw [hpieces]
            rfl

/-- Joined texts have an end of theirs at either end. -/
theorem tight_intercalate (hne : texts ≠ []) (h : ∀ s ∈ texts, Tight s ∧ s ≠ []) :
    Tight (" + ".toList.intercalate texts) ∧ " + ".toList.intercalate texts ≠ [] := by
  induction texts with
  | nil => contradiction
  | cons s texts ih =>
    obtain ⟨⟨hs, hsne⟩, htexts⟩ := List.forall_mem_cons.mp h
    cases texts with
    | nil =>
      rw [List.intercalate_singleton]
      exact ⟨hs, hsne⟩
    | cons t texts =>
      obtain ⟨htight, htne⟩ := ih (List.cons_ne_nil _ _) htexts
      rw [List.intercalate_cons_cons, List.append_assoc]
      exact ⟨hs.append htight hsne htne, List.append_ne_nil_of_left_ne_nil hsne _⟩

end Cutting

section Operands

variable {o : Operand} {parts : List Operand}

theorem onePiece_quoted (s : String) : OnePiece (quoted s).toList :=
  have h := whole_quoted (p := {}) (show ('"' == '+') = false from rfl) rfl rfl s
  ⟨h.1, h.2⟩

/-- A number or a truth value has neither quotes, brackets nor pluses. -/
theorem onePiece_of_hasChar {s : List Char} (h : ∀ c ∈ s, Index.HasChar c) : OnePiece s :=
  onePiece_of_unquoted (fun hquote => absurd (h '"' hquote) (by decide))
    (level_eq_zero fun c hc => (h c hc).flat)
    (plusInside_of_not_mem fun hplus => absurd (h '+' hplus) (by decide))

theorem onePiece_reference {r : Reference} (h : r.Writable) : OnePiece r.toText.toList := by
  have hshaped := Operand.shaped_toText h
  have hne : ∀ d, d ∉ ['[', ']', '.'] → ¬Index.HasChar d → d ∉ r.toText.toList :=
    fun d hmark hchar hd => (hshaped.of_mem hd).elim hmark hchar
  exact onePiece_of_unquoted (hne '"' (by decide) (by decide)) hshaped.level
    (plusInside_of_not_mem (hne '+' (by decide) (by decide)))

theorem onePiece_formula {f : Formula} {raw : String} (h : Operand.read raw = .ok (.formula f))
    (hplus : PlusInside f.text.toList) : OnePiece f.text.toList := by
  have hread := (Operand.formula_of_read h).2.2
  have hquote : '"' ∉ f.text.toList := fun hmem =>
    absurd ((Formula.laid_of_read hread).of_mem hmem) (by decide)
  exact onePiece_of_unquoted hquote (Formula.level_of_read hread) hplus

theorem onePiece_written (h : o.Writable) (hplus : ∀ f, o = .formula f → PlusInside f.text.toList) :
    OnePiece o.written.toList := by
  cases h with
  | text s => exact onePiece_quoted s
  | truth =>
    exact onePiece_of_hasChar fun c hc => Index.hasChar_of_isAlpha (Operand.isAlpha_of_mem_truth c hc)
  | number => exact onePiece_of_hasChar fun _ => Operand.hasChar_of_mem_toString
  | reference h => exact onePiece_reference h
  | formula h => exact onePiece_formula h (hplus _ rfl)

/-- Each piece is read as the operand that was written there. -/
theorem mapM_read {pieces : List (List Char)} (h : ∀ o ∈ parts, o.Writable)
    (haround : List.Forall₂ Around (parts.map fun o => o.written.toList) pieces) :
    (pieces.map String.ofList).mapM Operand.read = .ok parts := by
  rw [List.forall₂_map_left_iff] at haround
  induction haround with
  | nil => rfl
  | cons hpiece _ ih =>
    obtain ⟨ho, hparts⟩ := List.forall_mem_cons.mp h
    obtain ⟨u, v, rfl, hu, hv⟩ := hpiece
    rw [List.map_cons, List.mapM_cons, Operand.read_padded ho hu hv, ih hparts]
    rfl

theorem read_written (hsize : 2 ≤ parts.length) (h : ∀ o ∈ parts, o.Writable)
    (hplus : ∀ f, .formula f ∈ parts → PlusInside f.text.toList) :
    read (" + ".intercalate (parts.map Operand.written)) = .ok (joined parts) := by
  have htext : (" + ".intercalate (parts.map Operand.written)).toList =
      " + ".toList.intercalate (parts.map fun o => o.written.toList) := by
    rw [String.toList_intercalate, List.map_map]
    rfl
  have hne : (parts.map fun o => o.written.toList) ≠ [] := by
    rw [ne_eq, List.map_eq_nil_iff]
    rintro rfl
    contradiction
  obtain ⟨htight, hempty⟩ := tight_intercalate hne (List.forall_mem_map.mpr fun o ho =>
    ⟨(h o ho).stands.tight, (h o ho).stands.ne_nil⟩)
  obtain ⟨pieces, hpieces, haround⟩ := exists_cut hne
    (List.forall_mem_map.mpr fun o ho => onePiece_written (h o ho) fun f hf => hplus f (hf ▸ ho))
    (List.forall_mem_nil _)
  have hcut : splitJoined (String.ofList (" + ".toList.intercalate (parts.map fun o => o.written.toList))) =
      .ok (pieces.map String.ofList) := by
    rw [splitJoined, String.toList_ofList, hpieces]
  rw [← List.isEmpty_eq_false_iff] at hempty
  simp only [read, htext, htight.trim_eq, hempty, Bool.false_eq_true, ↓reduceIte]
  refine bind_ok.mpr ⟨_, hcut, bind_ok.mpr ⟨parts, mapM_read h haround, ?_⟩⟩
  match parts, hsize with
  | _ :: _ :: _, _ => rfl

variable {m : Type → Type} [Monad m] [LawfulMonad m] [MonadExceptOf Fault m] [MonadLiftT Checked m]

/-- The text of joined operands is the texts of the operands, one behind the other. -/
theorem evaluateText_joined (look : Reference → m Value) (parts : List Operand) :
    (joined parts).evaluateText look =
      String.join <$> parts.mapM fun o => (operand o).evaluateText look := by
  have htext : ∀ o, (operand o).evaluateText look = Value.toText <$> o.evaluate look :=
    fun o => (map_eq_pure_bind _ _).symm
  have htexts : (parts.mapM fun o => Value.toText <$> o.evaluate look) =
      List.map Value.toText <$> parts.mapM fun o => o.evaluate look := by
    induction parts with
    | nil => simp
    | cons o parts ih => simp [List.mapM_cons, ih]
  simp only [htext, htexts]
  simp only [evaluateText, evaluate, bind_assoc, pure_bind, map_eq_pure_bind]
  rfl

end Operands

/-- Operands joined by `+` are read as these operands in their order, and their texts make up the text of
the whole. -/
theorem joined_of_written {parts : List Operand} (hsize : 2 ≤ parts.length)
    (h : ∀ o ∈ parts, o.Writable) (hplus : ∀ f, .formula f ∈ parts → PlusInside f.text.toList) :
    read (" + ".intercalate (parts.map Operand.written)) = .ok (joined parts) ∧
    ∀ (m : Type → Type) [Monad m] [LawfulMonad m] [MonadExceptOf Fault m] [MonadLiftT Checked m]
      (look : Reference → m Value),
      (joined parts).evaluateText look =
        String.join <$> parts.mapM fun o => (operand o).evaluateText look :=
  ⟨read_written hsize h hplus, fun _ _ _ _ _ look => evaluateText_joined look parts⟩

theorem joined_of_written_pluses :
    ∃ parts, " + ".intercalate (parts.map Operand.written) =
        "\"1 + \\\"\" + true + -5 + $L[0-$N].LENGTH + ($A + 2) * 3" ∧
      2 ≤ parts.length ∧ (∀ o ∈ parts, o.Writable) ∧
      (∀ f, .formula f ∈ parts → PlusInside f.text.toList) ∧
      read (" + ".intercalate (parts.map Operand.written)) = .ok (joined parts) ∧
      (joined parts).evaluateText (fun _ => (.ok (.integer 4) : Checked Value)) = .ok "1 + \"true-5418" := by
  let product : Formula :=
    ⟨"($A + 2) * 3", [.opening, .reference ⟨"A", none, none⟩, .operator .add, .value 2, .closing,
      .operator .mul, .value 3]⟩
  let parts : List Operand :=
    [.literal (.string "1 + \""), .literal (.boolean true), .literal (.integer (-5)),
      .reference ⟨"L", some (.range (.position 0) (.named "N")), some .length⟩, .formula product]
  have hreference :
      (Operand.reference ⟨"L", some (.range (.position 0) (.named "N")), some .length⟩).Writable :=
    .reference (Reference.writable_of_read (show Reference.read "$L[0-$N].length" = _ from
      ok_of_toOption (by decide +kernel)))
  have hproduct : Operand.read product.text = .ok (.formula product) := ok_of_toOption (by decide +kernel)
  have hparts : ∀ o ∈ parts, o.Writable := by
    simp only [parts, List.forall_mem_cons]
    exact ⟨.text _, .truth _, .number (by decide), hreference, .formula hproduct, nofun⟩
  have hplus : ∀ f, .formula f ∈ parts → PlusInside f.text.toList := by
    intro f hf
    simp only [parts, List.mem_cons, reduceCtorEq, Operand.formula.injEq, List.not_mem_nil, or_false,
      false_or] at hf
    rw [hf]
    decide +kernel
  have hsize : 2 ≤ parts.length := by decide
  have h := joined_of_written hsize hparts hplus
  exact ⟨parts, by decide +kernel, hsize, hparts, hplus, h.1,
    (h.2 Checked _).trans (ok_of_toOption (by decide +kernel))⟩

end CommandScript.Argument
