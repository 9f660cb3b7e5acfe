import CommandScript.Proofs.Reference.Measure
import CommandScript.Proofs.Text.Bytes

/-!
# Where a reference ends

A reference is cut out of a longer text by its shape and read only then. The measure takes in all of a
text that is read as a reference, and a reference is cut off in front of every text that does not continue
it and of no other (`Reference.Writable.span_append_iff`). A scan of the bytes of the text measures the
same, since all that it looks for are characters of ASCII, so it ends between two characters
(`Reference.measured_of_read`).
-/

namespace CommandScript

open Text Checked

namespace Reference

variable {c : Char} {s u : List Char} {r : Reference}

/-! ### Texts that continue a reference -/

/-- A point and a letter begin the text. -/
def beginsTrait : List Char → Bool
  | '.' :: c :: _ => c.isAlpha
  | _ => false

/-- The reference `r` goes on in a text behind it: a trait in a letter, an index in a trait, and a bare
name in a character of names, an index or a trait. -/
def isContinuedBy (r : Reference) (u : List Char) : Bool :=
  match r.index, r.trait with
  | _, some _ => u.head?.any Char.isAlpha
  | some _, none => beginsTrait u
  | none, none => u.head?.any isNameChar || u.head? == some '[' || beginsTrait u

theorem indexSpan_eq_zero_iff : indexSpan s = 0 ↔ s.head? ≠ some '[' := by
  rcases index_cases s with hhead | ⟨inside, behind, hinside, rfl⟩ | ⟨inside, hinside, rfl⟩
  · exact iff_of_true (indexSpan_eq_zero hhead) fun hs => hhead '[' hs rfl
  · simp [indexSpan_closed hinside]
  · simp [indexSpan_open hinside]

theorem exists_of_beginsTrait (h : beginsTrait s = true) :
    ∃ c rest, s = '.' :: c :: rest ∧ c.isAlpha = true := by
  unfold beginsTrait at h
  split at h
  · exact ⟨_, _, rfl, h⟩
  · cases h

theorem traitSpan_eq_zero_iff : traitSpan s = 0 ↔ beginsTrait s = false := by
  unfold traitSpan beginsTrait
  split
  · split <;> rename_i hc <;> simp [hc]
  · simp

theorem Writable.indexShape (h : r.Writable) : IndexShape r.indexText := by
  unfold indexText
  split
  · exact .absent
  · rename_i i hi
    rw [Index.toList_toText]
    refine .present fun c hc => ?_
    rcases (h.index i hi).of_mem hc with rfl | rfl | hc
    · exact .inr (.inr (.inl rfl))
    · exact .inr (.inl rfl)
    · exact .inl hc

/-- A text behind a name is taken in beyond it if it goes on with the name. -/
theorem lt_span_of_goesOn {name : List Char} (hname : isName name = true)
    (hu : u.head?.any isNameChar = true) : 1 + name.length < span ('$' :: (name ++ u)) := by
  have hmore : 0 < (u.takeWhile isNameChar).length := by
    rw [List.length_pos_iff, ne_eq, takeWhile_eq_nil, hu]
    decide
  simp only [span, List.drop_succ_cons, List.drop_zero,
    List.takeWhile_append_of_pos (isNameChar_of_isName hname), List.length_append]
  omega

/-- The trait of a reference is measured to its own length in front of what is no letter. -/
theorem traitSpan_name_iff (t : Trait) : traitSpan ('.' :: (t.name.toList ++ u)) =
    t.name.toList.length + 1 ↔ u.head?.any Char.isAlpha = false := by
  obtain ⟨hne, hletters⟩ := Trait.isAlpha_of_ofWord? (ofWord?_name t)
  rw [traitSpan_word hne hletters, Nat.add_eq_left, List.length_eq_zero_iff, takeWhile_eq_nil]

/-- A bare name is measured to its own length in front of what does not continue it. -/
theorem span_bare_iff {name : List Char} (hname : isName name = true) :
    span ('$' :: (name ++ u)) = 1 + name.length ↔
      (u.head?.any isNameChar || u.head? == some '[' || beginsTrait u) = false := by
  cases hu : u.head?.any isNameChar with
  | true => exact iff_of_false (Nat.ne_of_gt (lt_span_of_goesOn hname hu)) nofun
  | false =>
    have hend : ∀ c, u.head? = some c → isNameChar c = false := by
      intro c hc
      simpa [hc] using hu
    rw [span_name hname hend, Nat.add_assoc, Nat.add_eq_left, Nat.add_eq_zero_iff,
      Bool.false_or, Bool.or_eq_false_iff, beq_eq_false_iff_ne, ← indexSpan_eq_zero_iff,
      ← traitSpan_eq_zero_iff]
    refine and_congr_right fun hindex => ?_
    rw [hindex, List.drop_zero]

/-- A reference is measured to its own length in front of the texts that do not continue it, and only
there. -/
theorem Writable.span_append_iff (h : r.Writable) :
    span (r.toText.toList ++ u) = r.toText.toList.length ↔ r.isContinuedBy u = false := by
  simp only [toList_toText, List.cons_append, List.append_assoc, List.length_cons, List.length_append]
  cases ht : r.trait with
  | some t =>
    have hpoint : ∀ c, (r.traitText ++ u).head? = some c → isNameChar c = false ∧ c ≠ '[' := by
      simp only [traitText, ht, List.cons_append, List.head?_cons, Option.some.injEq]
      rintro c rfl
      decide
    rw [h.indexShape.span_append h.name fun _ => hpoint]
    simp only [isContinuedBy, traitText, ht, ← traitSpan_name_iff t, List.cons_append, List.length_cons]
    omega
  | none =>
    simp only [isContinuedBy, traitText, ht, List.nil_append, List.length_nil]
    cases hi : r.index with
    | some i =>
      have hpresent : r.indexText ≠ [] := by simp [indexText, hi, Index.toList_toText]
      rw [h.indexShape.span_append h.name fun hnil => absurd hnil hpresent,
        ← traitSpan_eq_zero_iff]
      omega
    | none =>
      rw [← span_bare_iff h.name]
      simp only [indexText, hi, List.nil_append, List.length_nil]
      omega

/-! ### The scan of the bytes -/

/-- How many bytes the reference at the front of a text has, by the same scan over the bytes of the text:
each byte is taken for the character whose code it is, so those of a character outside ASCII are in no
class that the scan knows and are no marks. -/
def byteSpan (text : String) : Nat :=
  span (text.toByteArray.data.toList.map Char.ofUInt8)

theorem isAsciiClass_isAlpha : IsAsciiClass Char.isAlpha :=
  isAsciiClass_of_lt fun c hc => by
    rw [isAlpha_iff] at hc
    omega

theorem isAsciiClass_isNameChar : IsAsciiClass isNameChar :=
  isAsciiClass_of_lt fun c hc => by
    rcases Bool.or_eq_true_iff.mp hc with hc | hc
    · rw [isAlphanum_iff] at hc
      omega
    · rw [eq_of_beq hc]
      decide

theorem beginsTrait_point (s : List Char) : beginsTrait ('.' :: s) = s.head?.any Char.isAlpha := by
  cases s <;> rfl

theorem beginsTrait_eq_false (h : s.head? ≠ some '.') : beginsTrait s = false := by
  rw [Bool.eq_false_iff]
  intro hs
  obtain ⟨c, rest, rfl, -⟩ := exists_of_beginsTrait hs
  exact h rfl

theorem beginsTrait_codes (s : List Char) : beginsTrait (codes s) = beginsTrait s := by
  by_cases hs : s.head? = some '.'
  · obtain ⟨rest, rfl⟩ := List.head?_eq_some_iff.mp hs
    rw [codes_ascii (by decide), beginsTrait_point, beginsTrait_point,
      any_head_codes isAsciiClass_isAlpha]
  · have hcodes : (codes s).head? ≠ some '.' := fun h => hs ((head_codes (by decide)).mp h)
    rw [beginsTrait_eq_false hs, beginsTrait_eq_false hcodes]

theorem indexSpan_codes (s : List Char) :
    indexSpan (codes s) = byteLength (s.take (indexSpan s)) := by
  rw [← length_codes]
  rcases index_cases s with hhead | ⟨inside, behind, hinside, rfl⟩ | ⟨inside, hinside, rfl⟩
  · have hcodes : (codes s).head? ≠ some '[' := fun h => hhead '[' ((head_codes (by decide)).mp h) rfl
    rw [indexSpan_eq_zero hhead, indexSpan_eq_zero_iff.mpr hcodes]
    rfl
  · have hcodes : ']' ∉ codes inside := fun hmem => hinside ((mem_codes (by decide)).mp hmem)
    have htake : ('[' :: (inside ++ ']' :: behind)).take (inside.length + 2) =
        '[' :: (inside ++ [']']) := by
      rw [List.take_succ_cons, List.take_length_add_append]
      rfl
    rw [indexSpan_closed hinside, htake]
    simp only [codes_ascii (c := '[') (by decide), codes_ascii (c := ']') (by decide), codes_append,
      indexSpan_closed hcodes, List.length_cons, List.length_append]
    rfl
  · have hcodes : ']' ∉ codes inside := fun hmem => hinside ((mem_codes (by decide)).mp hmem)
    rw [indexSpan_open hinside, List.take_length, codes_ascii (by decide), indexSpan_open hcodes]

theorem traitSpan_codes (s : List Char) :
    traitSpan (codes s) = byteLength (s.take (traitSpan s)) := by
  rw [← length_codes]
  cases hs : beginsTrait s with
  | false =>
    rw [traitSpan_eq_zero_iff.mpr hs, traitSpan_eq_zero_iff.mpr ((beginsTrait_codes s).trans hs)]
    rfl
  | true =>
    obtain ⟨c, rest, rfl, hc⟩ := exists_of_beginsTrait hs
    have hascii : c.toNat < 128 := by
      rw [isAlpha_iff] at hc
      omega
    simp only [codes_ascii (c := '.') (by decide), codes_ascii hascii, traitSpan, hc, ↓reduceIte,
      (cut_codes isAsciiClass_isAlpha rest).1, List.take_succ_cons, take_takeWhile, List.length_cons]

/-- The scan of the bytes measures the bytes of what the scan of the characters measures. -/
theorem span_codes (s : List Char) :
    span (codes ('$' :: s)) = byteLength (('$' :: s).take (span ('$' :: s))) := by
  have hcodes : codes ('$' :: s) = '$' :: codes s := codes_ascii (by decide)
  have hname : 1 + ((codes s).takeWhile isNameChar).length =
      byteLength (('$' :: s).take (1 + (s.takeWhile isNameChar).length)) := by
    rw [(cut_codes isAsciiClass_isNameChar s).1, length_codes, Nat.add_comm _ (List.length _),
      List.take_succ_cons, take_takeWhile, byteLength_cons]
    rfl
  simp only [span, hcodes, List.drop_succ_cons, List.drop_zero, hname]
  rw [← hcodes, drop_codes, indexSpan_codes, ← byteLength_take_add, drop_codes, traitSpan_codes,
    ← byteLength_take_add]

theorem byteSpan_eq {text : String} (h : text.toList.head? = some '$') :
    byteSpan text = byteLength (text.toList.take (span text.toList)) := by
  obtain ⟨s, hs⟩ := List.head?_eq_some_iff.mp h
  rw [byteSpan, map_toByteArray, hs, span_codes]

theorem Shaped.head (h : Shaped s) : s.head? = some '$' := by
  cases h with
  | mk => rfl

theorem byteSpan_of_read {text : String} (h : read text = .ok r) :
    byteSpan text = text.utf8ByteSize := by
  have hshaped := shaped_of_read h
  rw [byteSpan_eq hshaped.head, hshaped.span_eq, List.take_length, byteLength_toList]

theorem Writable.byteSpan_append_iff (h : r.Writable) (u : String) :
    byteSpan (r.toText ++ u) = r.toText.utf8ByteSize ↔ r.isContinuedBy u.toList = false := by
  have hfront : byteLength ((r.toText ++ u).toList.take r.toText.toList.length) =
      r.toText.utf8ByteSize := by
    rw [String.toList_append, List.take_left, byteLength_toList]
  have hhead : (r.toText ++ u).toList.head? = some '$' := by
    rw [String.toList_append, toList_toText]
    rfl
  have hne : (r.toText ++ u).toList ≠ [] := by
    rintro hnil
    rw [hnil] at hhead
    cases hhead
  have hle : r.toText.toList.length ≤ (r.toText ++ u).toList.length := by
    rw [String.toList_append, List.length_append]
    exact Nat.le_add_right _ _
  rw [byteSpan_eq hhead, ← hfront, byteLength_take_inj (span_le hne) hle, String.toList_append,
    h.span_append_iff]

theorem isValid_byteSpan {text : String} (h : text.toList.head? = some '$') :
    String.Pos.Raw.IsValid text ⟨byteSpan text⟩ := by
  refine String.Pos.Raw.isValid_iff_exists_take_toList.mpr ⟨span text.toList, ?_⟩
  rw [byteSpan_eq h, ← byteLength_toList, String.toList_ofList]

/-- What is read as a reference is taken in by the measure to the last byte, and a reference in front of a
text is measured to its own length just if the text does not continue it. Behind a `$` the measure is one
byte at least and no more than there are, and it ends between two characters, at the same place as the
measure in characters by which references are cut out. -/
theorem measured_of_read :
    (∀ text r, read text = .ok r → byteSpan text = text.utf8ByteSize) ∧
    (∀ (r : Reference) (u : String), r.Writable →
      (byteSpan (r.toText ++ u) = r.toText.utf8ByteSize ↔ r.isContinuedBy u.toList = false)) ∧
    ∀ text : String, text.toList.head? = some '$' →
      1 ≤ byteSpan text ∧ byteSpan text ≤ text.utf8ByteSize ∧
        String.Pos.Raw.IsValid text ⟨byteSpan text⟩ ∧
        byteSpan text = byteLength (text.toList.take (span text.toList)) := by
  refine ⟨fun text r => byteSpan_of_read, fun r u h => h.byteSpan_append_iff u, fun text h => ?_⟩
  have hvalid := isValid_byteSpan h
  exact ⟨span_pos _, hvalid.le_utf8ByteSize, hvalid, byteSpan_eq h⟩

/-- A blank in an index and a letter behind a reference are of two bytes, and an index that is not closed
takes in all of the text. -/
theorem measured_of_read_accents :
    read "$L[\u00a00 ].size" = .ok ⟨"L", some (.single (.position 0)), some .size⟩ ∧
    byteSpan "$L[\u00a00 ].size" = 13 ∧
    Writable ⟨"L", some (.single (.position 0)), none⟩ ∧
    byteSpan "$L[0].é" = 5 ∧ byteSpan "$L[0].e" ≠ 5 ∧
    "$L[é".toList.head? = some '$' ∧ String.Pos.Raw.IsValid "$L[é" ⟨5⟩ := by
  obtain ⟨hread, hcut, hends⟩ := measured_of_read
  have hsize : read "$L[\u00a00 ].size" = .ok ⟨"L", some (.single (.position 0)), some .size⟩ :=
    ok_of_toOption (by decide +kernel)
  have hentry : read "$L[0]" = .ok ⟨"L", some (.single (.position 0)), none⟩ :=
    ok_of_toOption (by decide +kernel)
  have hwritable := writable_of_read hentry
  have hhead : "$L[é".toList.head? = some '$' := by decide +kernel
  refine ⟨hsize, hread _ _ hsize, hwritable, (hcut _ ".é" hwritable).mpr (by decide +kernel),
    fun h => ?_, hhead, (hends _ hhead).2.2.1⟩
  have hnot := (hcut _ ".e" hwritable).mp h
  cases hnot

end Reference

end CommandScript
