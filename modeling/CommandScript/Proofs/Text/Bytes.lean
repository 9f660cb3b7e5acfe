import CommandScript.Text.Blank

/-!
# The bytes of a text

A text is stored in UTF-8. A character of ASCII is the one byte that is its code, and no byte of another
character is a code of ASCII. So a text and its bytes are cut at the same place where a class of characters
ends, if the class has all characters outside ASCII or none of them (`Text.cut_codes`).
-/

namespace CommandScript.Text

variable {c d : Char} {p : Char → Bool} {s t : List Char} {m n : Nat}

theorem byteLength_cons (c : Char) (s : List Char) : byteLength (c :: s) = c.utf8Size + byteLength s := by
  have hfrom : ∀ n, s.foldl (fun n c => n + c.utf8Size) n = n + byteLength s := by
    unfold byteLength
    induction s with
    | nil => simp
    | cons c s ih =>
      intro n
      rw [List.foldl_cons, List.foldl_cons, ih (n + _), ih (0 + _)]
      omega
  rw [byteLength, List.foldl_cons, hfrom]
  omega

theorem byteLength_toList (raw : String) : byteLength raw.toList = raw.utf8ByteSize := by
  have hlist : ∀ s : List Char, byteLength s = (String.ofList s).utf8ByteSize := by
    intro s
    induction s with
    | nil => rfl
    | cons c s ih => simp [byteLength_cons, ih, String.ofList_cons]
  rw [hlist, String.ofList_toList]

/-- A text of single bytes. -/
theorem byteLength_eq_length (h : ∀ c ∈ s, c.utf8Size = 1) : byteLength s = s.length := by
  induction s with
  | nil => rfl
  | cons c s ih =>
    rw [byteLength_cons, h c List.mem_cons_self, ih fun d hd => h d (List.mem_cons_of_mem c hd),
      List.length_cons, Nat.add_comm]

theorem byteLength_append (s t : List Char) : byteLength (s ++ t) = byteLength s + byteLength t := by
  induction s with
  | nil => exact (Nat.zero_add _).symm
  | cons c s ih => rw [List.cons_append, byteLength_cons, byteLength_cons, ih, Nat.add_assoc]

theorem byteLength_take_add (s : List Char) (m n : Nat) :
    byteLength (s.take (m + n)) = byteLength (s.take m) + byteLength ((s.drop m).take n) := by
  rw [List.take_add, byteLength_append]

theorem byteLength_take_lt (h : m < n) (hn : n ≤ s.length) :
    byteLength (s.take m) < byteLength (s.take n) := by
  have hrest : 0 < byteLength ((s.drop m).take (n - m)) := by
    cases hdrop : s.drop m with
    | nil =>
      rw [List.drop_eq_nil_iff] at hdrop
      omega
    | cons c rest =>
      obtain ⟨k, hk⟩ : ∃ k, n - m = k + 1 := ⟨n - m - 1, by omega⟩
      rw [hk, List.take_succ_cons, byteLength_cons]
      have hc := c.utf8Size_pos
      omega
  have hsplit := byteLength_take_add s m (n - m)
  rw [Nat.add_sub_cancel' (Nat.le_of_lt h)] at hsplit
  omega

/-- Two fronts of a text are the same if they have as many bytes. -/
theorem byteLength_take_inj (hm : m ≤ s.length) (hn : n ≤ s.length) :
    byteLength (s.take m) = byteLength (s.take n) ↔ m = n := by
  refine ⟨fun h => ?_, fun h => by rw [h]⟩
  rcases Nat.lt_trichotomy m n with hlt | heq | hgt
  · exact absurd h (Nat.ne_of_lt (byteLength_take_lt hlt hn))
  · exact heq
  · exact absurd h (Nat.ne_of_gt (byteLength_take_lt hgt hm))

/-! ### Bytes as characters -/

/-- The bytes of a text in UTF-8, each as the character whose code it is. -/
def codes (s : List Char) : List Char :=
  s.flatMap fun c => (String.utf8EncodeChar c).map Char.ofUInt8

theorem map_toByteArray (text : String) :
    text.toByteArray.data.toList.map Char.ofUInt8 = codes text.toList := by
  rw [← String.utf8Encode_toList, List.utf8Encode, List.toList_data_toByteArray, codes,
    List.map_flatMap]

theorem codes_append (s t : List Char) : codes (s ++ t) = codes s ++ codes t :=
  List.flatMap_append

theorem codes_cons (c : Char) (s : List Char) : codes (c :: s) = codes [c] ++ codes s :=
  codes_append [c] s

theorem length_codes (s : List Char) : (codes s).length = byteLength s := by
  induction s with
  | nil => rfl
  | cons c s ih =>
    rw [codes_cons, List.length_append, ih, byteLength_cons, codes, List.flatMap_singleton,
      List.length_map, String.length_utf8EncodeChar]

theorem drop_codes (s : List Char) (n : Nat) :
    (codes s).drop (byteLength (s.take n)) = codes (s.drop n) := by
  have hsplit : codes s = codes (s.take n) ++ codes (s.drop n) := by
    rw [← codes_append, List.take_append_drop]
  rw [hsplit, ← length_codes, List.drop_left]

theorem codes_ascii (h : c.toNat < 128) : codes (c :: s) = c :: codes s := by
  have hsize : c.utf8Size = 1 :=
    Char.utf8Size_eq_one_iff.mpr (UInt32.le_iff_toNat_le.mpr (Nat.le_of_lt_succ h))
  have hcode : Char.ofUInt8 c.val.toUInt8 = c := by
    refine Char.ext (UInt32.toNat_inj.mp ?_)
    change c.val.toNat % 256 = c.val.toNat
    exact Nat.mod_eq_of_lt (Nat.lt_trans h (by decide))
  rw [codes_cons, codes, List.flatMap_singleton, String.utf8EncodeChar_eq_singleton hsize,
    List.map_singleton, hcode, List.singleton_append]

/-- The bytes of a character outside ASCII are no codes of ASCII. -/
theorem le_of_mem_codes (h : 128 ≤ c.toNat) (hd : d ∈ codes [c]) : 128 ≤ d.toNat := by
  have hc : ¬c.val.toNat ≤ 127 := Nat.not_le.mpr h
  rw [codes, List.flatMap_singleton, List.mem_map] at hd
  obtain ⟨b, hb, rfl⟩ := hd
  -- each byte is a leading or a continuing mark and some bits of the code
  have hmark (x : Nat) (hx : 128 ≤ x % 256) : 128 ≤ (Char.ofUInt8 (UInt8.ofNat x)).toNat := by
    change 128 ≤ (UInt8.ofNat x).toNat
    rwa [UInt8.toNat_ofNat']
  simp only [String.utf8EncodeChar, hc, ↓reduceIte] at hb
  split at hb
  · simp only [List.mem_cons, List.not_mem_nil, or_false] at hb
    rcases hb with rfl | rfl <;> exact hmark _ (by omega)
  split at hb
  · simp only [List.mem_cons, List.not_mem_nil, or_false] at hb
    rcases hb with rfl | rfl | rfl <;> exact hmark _ (by omega)
  · simp only [List.mem_cons, List.not_mem_nil, or_false] at hb
    rcases hb with rfl | rfl | rfl | rfl <;> exact hmark _ (by omega)

/-! ### Classes of characters -/

/-- The class has all characters outside ASCII or none of them. -/
def IsAsciiClass (p : Char → Bool) : Prop :=
  ∀ c d, 128 ≤ c.toNat → 128 ≤ d.toNat → p c = p d

theorem isAsciiClass_of_lt (h : ∀ c, p c = true → c.toNat < 128) : IsAsciiClass p := by
  have hout (c : Char) (hc : 128 ≤ c.toNat) : p c = false :=
    Bool.eq_false_iff.mpr fun hp => Nat.not_le.mpr (h c hp) hc
  exact fun c d hc hd => (hout c hc).trans (hout d hd).symm

theorem isAsciiClass_eq (h : d.toNat < 128) : IsAsciiClass (· == d) :=
  isAsciiClass_of_lt fun c hc => by rwa [eq_of_beq hc]

/-- A character has a byte at least, and all its bytes are in the class if the character is, and none of
them if it is not. -/
theorem exists_codes (hp : IsAsciiClass p) (c : Char) :
    ∃ b bs, codes [c] = b :: bs ∧ ∀ d ∈ b :: bs, p d = p c := by
  by_cases hc : c.toNat < 128
  · exact ⟨c, [], codes_ascii hc, fun d hd => by rw [List.mem_singleton.mp hd]⟩
  · have hc : 128 ≤ c.toNat := Nat.not_lt.mp hc
    cases hcodes : codes [c] with
    | nil => simp [codes] at hcodes
    | cons b bs => exact ⟨b, bs, rfl, fun d hd => hp d c (le_of_mem_codes hc (hcodes ▸ hd)) hc⟩

/-- A text and its bytes are cut at the same place where the class ends. -/
theorem cut_codes (hp : IsAsciiClass p) (s : List Char) :
    (codes s).takeWhile p = codes (s.takeWhile p) ∧
      (codes s).dropWhile p = codes (s.dropWhile p) := by
  induction s with
  | nil => exact ⟨rfl, rfl⟩
  | cons c s ih =>
    obtain ⟨b, bs, hcodes, hsame⟩ := exists_codes hp c
    rw [codes_cons, hcodes]
    cases hc : p c with
    | true =>
      have hall : ∀ d ∈ b :: bs, p d = true := fun d hd => (hsame d hd).trans hc
      rw [List.takeWhile_append_of_pos hall, List.dropWhile_append_of_pos hall, ih.1, ih.2,
        List.takeWhile_cons_of_pos hc, List.dropWhile_cons_of_pos hc, codes_cons, hcodes]
      exact ⟨rfl, rfl⟩
    | false =>
      have hb : ¬p b = true := by simp [hsame b List.mem_cons_self, hc]
      rw [List.cons_append, List.takeWhile_cons_of_neg hb, List.dropWhile_cons_of_neg hb,
        List.takeWhile_cons_of_neg (by simp [hc]), List.dropWhile_cons_of_neg (by simp [hc]),
        codes_cons c s, hcodes]
      exact ⟨rfl, rfl⟩

theorem any_head_codes (hp : IsAsciiClass p) (s : List Char) :
    (codes s).head?.any p = s.head?.any p := by
  cases s with
  | nil => rfl
  | cons c s =>
    obtain ⟨b, bs, hcodes, hsame⟩ := exists_codes hp c
    rw [codes_cons, hcodes]
    exact hsame b List.mem_cons_self

theorem head_codes (hd : d.toNat < 128) : (codes s).head? = some d ↔ s.head? = some d := by
  cases s with
  | nil => rfl
  | cons c s =>
    obtain ⟨b, bs, hcodes, hsame⟩ := exists_codes (isAsciiClass_eq hd) c
    have hb : (b == d) = (c == d) := hsame b List.mem_cons_self
    rw [codes_cons, hcodes, List.cons_append, List.head?_cons, List.head?_cons, Option.some_inj,
      Option.some_inj, ← beq_iff_eq, hb, beq_iff_eq]

theorem mem_codes (hd : d.toNat < 128) : d ∈ codes s ↔ d ∈ s := by
  induction s with
  | nil => rfl
  | cons c s ih =>
    rw [codes_cons, List.mem_append, ih, List.mem_cons]
    refine or_congr_left ?_
    by_cases hc : c.toNat < 128
    · rw [codes_ascii hc]
      exact List.mem_singleton
    · have hc : 128 ≤ c.toNat := Nat.not_lt.mp hc
      refine iff_of_false (fun hmem => ?_) ?_
      · exact Nat.not_le.mpr hd (le_of_mem_codes hc hmem)
      · rintro rfl
        exact Nat.not_le.mpr hd hc

end CommandScript.Text
