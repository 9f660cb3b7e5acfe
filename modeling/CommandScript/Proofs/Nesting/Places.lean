import CommandScript.Proofs.Nesting

/-!
# Where commands stand

A table of a program is made of places of commands: the branches of a chain, the end of a loop, the
calls of a subroutine. `places` lists those that meet a condition on the command and on what is open
around it; a command put behind the others adds its own place or nothing.
-/

namespace CommandScript

/-- The places of the commands that meet a condition, in order. -/
def places (es : List Entry) (p : Entry → List Opening → Bool) : List Nat :=
  (List.range es.length).filter fun k => es[k]?.any fun e => p e (around es k)

namespace Entry

/-- The command begins a further branch of a chain. -/
def marks (e : Entry) : Bool :=
  match e.command with
  | .elseIf _ | .else_ => true
  | _ => false

def isElse (e : Entry) : Bool :=
  match e.command with
  | .else_ => true
  | _ => false

/-- The command begins the subroutine. -/
def begins (e : Entry) (name : String) : Bool :=
  decide (e.opening?.bind Opening.sub? = some name)

/-- Where `outer` is open, the command ends the subroutine. -/
def ends (e : Entry) (outer : List Opening) (name : String) : Bool :=
  e.closes && decide (outer.head?.bind Opening.sub? = some name)

def callsSub (e : Entry) (name : String) : Bool :=
  match e.command with
  | .gosub other _ => decide (other = name)
  | _ => false

end Entry

/-- The command that closes an opening. -/
def endOf (es : List Entry) (x : Opening) : Option Nat :=
  (places es fun e outer => e.closes && decide (outer.head? = some x)).head?

/-- The `ELSEIF` and `ELSE` commands of the chain that begins at `i`. -/
def branchesOf (es : List Entry) (i : Nat) : List Nat :=
  places es fun e outer => e.marks && decide (outer.head? = some (.chain i))

def elseOf (es : List Entry) (i : Nat) : Option Nat :=
  (places es fun e outer => e.isElse && decide (outer.head? = some (.chain i))).head?

/-- The `SUB` command of a subroutine. -/
def startOf (es : List Entry) (name : String) : Option Nat :=
  (places es fun e _ => e.begins name).head?

/-- The `ENDSUB` command of a subroutine. -/
def subEndOf (es : List Entry) (name : String) : Option Nat :=
  (places es fun e outer => e.ends outer name).head?

/-- The commands that call a subroutine. -/
def callsOf (es : List Entry) (name : String) : List Nat :=
  places es fun e _ => e.callsSub name

/-- The chain that begins at `i`. -/
def chainAt (es : List Entry) (i : Nat) : Chain where
  ifIndex := i
  branches := branchesOf es i
  elseIndex := elseOf es i
  endIndex := endOf es (.chain i)
  loopLevel := (loopsOf (around es i)).length

section Places

variable {es : List Entry} {e : Entry} {k : Nat} {p : Entry → List Opening → Bool}

theorem mem_places : k ∈ places es p ↔ ∃ e, es[k]? = some e ∧ p e (around es k) = true := by
  simp only [places, List.mem_filter, List.mem_range, Option.any_eq_true]
  refine ⟨And.right, fun h => ⟨?_, h⟩⟩
  obtain ⟨e, he, -⟩ := h
  exact (List.getElem?_eq_some_iff.mp he).1

theorem places_lt_length (h : k ∈ places es p) : k < es.length := by
  obtain ⟨e, he, -⟩ := mem_places.mp h
  exact (List.getElem?_eq_some_iff.mp he).1

theorem places_pairwise (es : List Entry) (p : Entry → List Opening → Bool) :
    (places es p).Pairwise (· < ·) :=
  List.pairwise_lt_range.filter _

theorem places_concat (es : List Entry) (e : Entry) (p : Entry → List Opening → Bool) :
    places (es ++ [e]) p =
      places es p ++ if p e (around es es.length) then [es.length] else [] := by
  unfold places
  rw [List.length_append, List.length_singleton, List.range_succ, List.filter_append]
  congr 1
  · refine List.filter_congr fun k hk => ?_
    have hk := List.mem_range.mp hk
    rw [List.getElem?_append_left hk, around_append es [e] (Nat.le_of_lt hk)]
  · rw [List.filter_cons, List.getElem?_concat_length, around_append es [e] (Nat.le_refl _)]
    rfl

theorem places_concat_of_false (h : p e (around es es.length) = false) :
    places (es ++ [e]) p = places es p := by
  rw [places_concat, h, if_neg Bool.false_ne_true, List.append_nil]

theorem places_eq_nil (h : ∀ k e, es[k]? = some e → p e (around es k) = false) :
    places es p = [] := by
  refine List.eq_nil_iff_forall_not_mem.mpr fun k hk => ?_
  obtain ⟨e, he, hp⟩ := mem_places.mp hk
  rw [h k e he] at hp
  cases hp

theorem places_map {f : Entry → Entry} (hf : ∀ e outer, (f e).nest outer = e.nest outer)
    (hp : ∀ e outer, p (f e) outer = p e outer) (es : List Entry) :
    places (es.map f) p = places es p := by
  unfold places
  rw [List.length_map]
  refine List.filter_congr fun k _ => ?_
  rw [List.getElem?_map, around_map hf, Option.any_map]
  simp only [hp]

/-- The first of the places is the only one if no two of them differ. -/
theorem head?_places (h : ∀ j k, j ∈ places es p → k ∈ places es p → j = k) :
    (places es p).head? = some k ↔ k ∈ places es p := by
  constructor
  · exact List.mem_of_head?
  · intro hk
    cases hp : places es p with
    | nil =>
      rw [hp] at hk
      cases hk
    | cons j rest =>
      rw [List.head?_cons, h j k (by rw [hp]; exact List.mem_cons_self) hk]

end Places

theorem opens_concat {es : List Entry} {e : Entry} {x : Opening} :
    Opens (es ++ [e]) x ↔ Opens es x ∨ x.index = es.length ∧ e.opening? = some x := by
  simp only [Opens, getElem?_concat, or_and_right, exists_or]
  refine or_congr Iff.rfl ⟨?_, ?_⟩
  · rintro ⟨_, ⟨hi, rfl⟩, ho⟩
    exact ⟨hi, ho⟩
  · rintro ⟨hi, ho⟩
    exact ⟨e, ⟨hi, rfl⟩, ho⟩

namespace Entry

theorem marks_of_isElse {e : Entry} (h : e.isElse = true) : e.marks = true := by
  cases hc : e.command <;> simp_all [isElse, marks]

theorem marks_eq_false_of_closes {e : Entry} (h : e.closes = true) : e.marks = false := by
  cases hc : e.command <;> simp_all [closes, marks]

theorem closes_eq_false_of_marks {e : Entry} (h : e.marks = true) : e.closes = false := by
  cases hc : e.command <;> simp_all [closes, marks]

theorem marks_eq_false_of_opening {e : Entry} {x : Opening} (h : e.opening? = some x) :
    e.marks = false := by
  cases hc : e.command <;> simp_all [opening?, marks]

theorem opening?_eq_none_of_marks {e : Entry} (h : e.marks = true) : e.opening? = none := by
  cases ho : e.opening? with
  | none => rfl
  | some x => rw [marks_eq_false_of_opening ho] at h; cases h

theorem nest_of_marks {e : Entry} {outer : List Opening} (h : e.marks = true) :
    e.nest outer = outer :=
  nest_of_neither (opening?_eq_none_of_marks h) (closes_eq_false_of_marks h)

end Entry

namespace Nested

variable {es : List Entry} {x : Opening} {k i : Nat}

theorem endOf_eq_some (hn : Nested es) : endOf es x = some k ↔ Closes es x k := by
  have hmem {j : Nat} : (j ∈ places es fun e outer => e.closes && decide (outer.head? = some x)) ↔
      Closes es x j := by
    simp only [mem_places, Closes, Bool.and_eq_true, decide_eq_true_eq]
  rw [endOf, head?_places fun j l hj hl => hn.closes_unique (hmem.mp hj) (hmem.mp hl), hmem]

theorem mem_branchesOf :
    k ∈ branchesOf es i ↔
      ∃ e, es[k]? = some e ∧ e.marks = true ∧ (around es k).head? = some (.chain i) := by
  simp only [branchesOf, mem_places, Bool.and_eq_true, decide_eq_true_eq]

theorem branchesOf_pairwise (es : List Entry) (i : Nat) : (branchesOf es i).Pairwise (· < ·) :=
  places_pairwise es _

/-- No place has an opening around it that no command in front of it opens. -/
theorem places_head_eq_nil (hn : Nested es) {q : Entry → Bool} (h : es.length ≤ x.index) :
    (places es fun e outer => q e && decide (outer.head? = some x)) = [] := by
  refine places_eq_nil fun k e hk => ?_
  rw [Bool.and_eq_false_iff, decide_eq_false_iff_not]
  right
  intro hx
  have hk := (List.getElem?_eq_some_iff.mp hk).1
  have := (hn.opens_of_mem (List.mem_of_head? hx)).1
  omega

theorem endOf_eq_none (hn : Nested es) (h : x ∈ around es es.length) : endOf es x = none := by
  refine Option.eq_none_iff_forall_ne_some.mpr fun k hk => ?_
  have hc := hn.endOf_eq_some.mp hk
  have hle := (hn.mem_around.mp h).2.2 k hc
  obtain ⟨e, he, -⟩ := hc
  have := (List.getElem?_eq_some_iff.mp he).1
  omega

theorem mem_starts (hn : Nested es) {name : String} :
    (k ∈ places es fun e _ => e.begins name) ↔ Opens es (.sub k name) := by
  rw [mem_places]
  constructor
  · rintro ⟨e, he, hb⟩
    obtain ⟨x, ho, hx⟩ := Option.bind_eq_some_iff.mp (of_decide_eq_true hb)
    cases x with
    | sub i other =>
      cases hx
      obtain rfl : i = k := hn.opening_index he ho
      exact ⟨e, he, ho⟩
    | chain i => cases hx
    | loop id => cases hx
  · rintro ⟨e, he, ho⟩
    refine ⟨e, he, ?_⟩
    rw [Entry.begins, ho]
    simp [Opening.sub?]

theorem startOf_eq_none (hn : Nested es) {name : String} :
    startOf es name = none ↔ ∀ i, ¬ Opens es (.sub i name) := by
  rw [startOf, List.head?_eq_none_iff, List.eq_nil_iff_forall_not_mem]
  exact forall_congr' fun i => not_congr hn.mem_starts

theorem opens_of_startOf (hn : Nested es) {name : String} (h : startOf es name = some k) :
    Opens es (.sub k name) :=
  hn.mem_starts.mp (List.mem_of_head? h)

theorem mem_ends {name : String} :
    (k ∈ places es fun e outer => e.ends outer name) ↔ ∃ i, Closes es (.sub i name) k := by
  simp only [mem_places, Entry.ends, Bool.and_eq_true, decide_eq_true_eq, Option.bind_eq_some_iff]
  constructor
  · rintro ⟨e, he, hc, x, hx, hsub⟩
    cases x with
    | sub i other =>
      cases hsub
      exact ⟨i, e, he, hc, hx⟩
    | chain i => cases hsub
    | loop id => cases hsub
  · rintro ⟨i, e, he, hc, hx⟩
    exact ⟨e, he, hc, _, hx, rfl⟩

theorem closes_of_subEndOf {name : String} (h : subEndOf es name = some k) :
    ∃ i, Closes es (.sub i name) k :=
  mem_ends.mp (List.mem_of_head? h)

end Nested

section Concat

variable {es : List Entry} {e : Entry} {x : Opening} {i : Nat}

theorem endOf_concat_of_not (h : e.closes = false ∨ (around es es.length).head? ≠ some x) :
    endOf (es ++ [e]) x = endOf es x := by
  rw [endOf, places_concat_of_false, endOf]
  simpa only [Bool.and_eq_false_iff, decide_eq_false_iff_not] using h

theorem endOf_concat_of_closes (hn : Nested es) (hc : e.closes = true)
    (hx : (around es es.length).head? = some x) : endOf (es ++ [e]) x = some es.length := by
  have hnone : endOf es x = none := hn.endOf_eq_none (List.mem_of_head? hx)
  rw [endOf, places_concat, List.head?_append, ← endOf, hnone, hc, hx]
  simp

/-- A command that is no member of the chain leaves it as it is. -/
theorem chainAt_concat_of_not (hi : i ≤ es.length)
    (h : e.closes = false ∧ e.marks = false ∨ (around es es.length).head? ≠ some (.chain i)) :
    chainAt (es ++ [e]) i = chainAt es i := by
  have helse : e.isElse = false ∨ (around es es.length).head? ≠ some (.chain i) := by
    refine h.imp_left fun h => ?_
    cases he : e.isElse with
    | false => rfl
    | true => rw [← h.2, Entry.marks_of_isElse he]
  unfold chainAt
  rw [endOf_concat_of_not (h.imp_left And.left), around_append es [e] hi, branchesOf,
    places_concat_of_false, ← branchesOf, elseOf, places_concat_of_false, ← elseOf]
  · simpa only [Bool.and_eq_false_iff, decide_eq_false_iff_not] using helse
  · simpa only [Bool.and_eq_false_iff, decide_eq_false_iff_not] using h.imp_left And.right

theorem chainAt_concat_of_closes (hn : Nested es) (hc : e.closes = true)
    (hx : (around es es.length).head? = some (.chain i)) :
    chainAt (es ++ [e]) i = { chainAt es i with endIndex := some es.length } := by
  have hm := Entry.marks_eq_false_of_closes hc
  have helse : e.isElse = false :=
    Bool.eq_false_iff.mpr fun he => absurd (Entry.marks_of_isElse he) (by rw [hm]; decide)
  have hi : i < es.length := (hn.opens_of_mem (List.mem_of_head? hx)).1
  unfold chainAt
  rw [endOf_concat_of_closes hn hc hx, around_append es [e] (Nat.le_of_lt hi), branchesOf,
    places_concat_of_false (by rw [hm, Bool.false_and]), ← branchesOf, elseOf,
    places_concat_of_false (by rw [helse, Bool.false_and]), ← elseOf]

theorem chainAt_concat_of_marks (hn : Nested es) (hm : e.marks = true)
    (hx : (around es es.length).head? = some (.chain i)) (helse : elseOf es i = none) :
    chainAt (es ++ [e]) i =
      { chainAt es i with
        branches := branchesOf es i ++ [es.length]
        elseIndex := if e.isElse then some es.length else none } := by
  have hi : i < es.length := (hn.opens_of_mem (List.mem_of_head? hx)).1
  have hbranches : branchesOf (es ++ [e]) i = branchesOf es i ++ [es.length] := by
    rw [branchesOf, places_concat, hm, hx, ← branchesOf]
    simp
  have helse' : elseOf (es ++ [e]) i = if e.isElse then some es.length else none := by
    rw [elseOf, places_concat, List.head?_append, ← elseOf, helse, hx]
    cases e.isElse <;> simp
  unfold chainAt
  rw [endOf_concat_of_not (.inl (Entry.closes_eq_false_of_marks hm)),
    around_append es [e] (Nat.le_of_lt hi), hbranches, helse']

/-- A chain begins without members. -/
theorem chainAt_length (hn : Nested es) (ho : e.opening? = some (.chain es.length)) :
    chainAt (es ++ [e]) es.length =
      { ifIndex := es.length, loopLevel := (loopsOf (around es es.length)).length } := by
  have hle : es.length ≤ (Opening.chain es.length).index := Nat.le_refl _
  rw [chainAt_concat_of_not (Nat.le_refl _)
    (.inl ⟨closes_eq_false_of_opening ho, Entry.marks_eq_false_of_opening ho⟩)]
  unfold chainAt branchesOf elseOf endOf
  rw [hn.places_head_eq_nil hle, hn.places_head_eq_nil hle, hn.places_head_eq_nil hle]
  rfl

end Concat

end CommandScript
