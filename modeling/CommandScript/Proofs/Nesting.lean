import CommandScript.Program

/-!
# Nesting

`IF`, `FOR` and `SUB` open what `ENDIF`, `ENDFOR` and `ENDSUB` close. `around` scans the commands in
front of a place and keeps what is open there, innermost first. In a nested list of commands every
closing command meets an opening of its own kind, and the spans of two openings are nested or
disjoint.
-/

namespace CommandScript

/-- What a command opens and a later one closes. -/
inductive Opening where
  | chain (index : Nat)
  | loop (id : LoopId)
  | sub (index : Nat) (name : String)
  deriving DecidableEq

namespace Opening

/-- The command that opens it. -/
def index : Opening → Nat
  | chain i => i
  | loop id => id.index
  | sub i _ => i

def chain? : Opening → Option Nat
  | chain i => some i
  | _ => none

def loop? : Opening → Option LoopId
  | loop id => some id
  | _ => none

def sub? : Opening → Option String
  | sub _ name => some name
  | _ => none

end Opening

/-- The open chains, innermost first. -/
def chainsOf (outer : List Opening) : List Nat := outer.filterMap Opening.chain?

/-- The open loops, innermost first. -/
def loopsOf (outer : List Opening) : List LoopId := outer.filterMap Opening.loop?

/-- The open subroutine. -/
def subOf? (outer : List Opening) : Option String := outer.findSome? Opening.sub?

namespace Entry

def opening? (e : Entry) : Option Opening :=
  match e.command with
  | .if_ _ => some (.chain e.index)
  | .for_ id => some (.loop id)
  | .sub name _ => some (.sub e.index name)
  | _ => none

def closes (e : Entry) : Bool :=
  match e.command with
  | .endIf | .endFor _ | .endSub => true
  | _ => false

/-- What is open behind the command. -/
def nest (e : Entry) (outer : List Opening) : List Opening :=
  match e.opening? with
  | some x => x :: outer
  | none => if e.closes then outer.tail else outer

/-- The command may stand where `outer` is open. -/
def Fits (e : Entry) (outer : List Opening) : Prop :=
  match e.command with
  | .elseIf _ | .else_ | .endIf => ∃ i, outer.head? = some (.chain i)
  | .for_ id => id.index = e.index ∧ ∀ other ∈ loopsOf outer, other.name ≠ id.name
  | .next id | .skip id | .skipIf id _ | .break_ id | .breakIf id _ =>
    (loopsOf outer).head? = some id
  | .endFor id => outer.head? = some (.loop id)
  | .sub _ _ => outer = []
  | .endSub => ∃ i name, outer.head? = some (.sub i name)
  | .endMain => subOf? outer = none
  | _ => True

end Entry

/-- What is open around the command at `k`, innermost first. -/
def around (es : List Entry) (k : Nat) : List Opening :=
  (es.take k).foldl (fun outer e => e.nest outer) []

/-- Commands that carry their places and stand where they may. -/
structure Nested (es : List Entry) : Prop where
  index_eq : ∀ {k : Nat} {e : Entry}, es[k]? = some e → e.index = k
  fits : ∀ {k : Nat} {e : Entry}, es[k]? = some e → e.Fits (around es k)

/-- The command at the index of `x` opens it. -/
def Opens (es : List Entry) (x : Opening) : Prop :=
  ∃ e, es[x.index]? = some e ∧ e.opening? = some x

/-- The command at `k` closes `x`. -/
def Closes (es : List Entry) (x : Opening) (k : Nat) : Prop :=
  ∃ e, es[k]? = some e ∧ e.closes = true ∧ (around es k).head? = some x

section Projections

variable {outer : List Opening} {i : Nat} {id : LoopId} {name : String}

@[simp] theorem chainsOf_nil : chainsOf [] = [] := rfl

@[simp] theorem chainsOf_chain : chainsOf (.chain i :: outer) = i :: chainsOf outer := rfl

@[simp] theorem chainsOf_loop : chainsOf (.loop id :: outer) = chainsOf outer := rfl

@[simp] theorem chainsOf_sub : chainsOf (.sub i name :: outer) = chainsOf outer := rfl

@[simp] theorem chainsOf_append (inner outer : List Opening) :
    chainsOf (inner ++ outer) = chainsOf inner ++ chainsOf outer :=
  List.filterMap_append

@[simp] theorem loopsOf_nil : loopsOf [] = [] := rfl

@[simp] theorem loopsOf_chain : loopsOf (.chain i :: outer) = loopsOf outer := rfl

@[simp] theorem loopsOf_loop : loopsOf (.loop id :: outer) = id :: loopsOf outer := rfl

@[simp] theorem loopsOf_sub : loopsOf (.sub i name :: outer) = loopsOf outer := rfl

@[simp] theorem loopsOf_append (inner outer : List Opening) :
    loopsOf (inner ++ outer) = loopsOf inner ++ loopsOf outer :=
  List.filterMap_append

theorem mem_loopsOf : id ∈ loopsOf outer ↔ .loop id ∈ outer := by
  rw [loopsOf, List.mem_filterMap]
  constructor
  · rintro ⟨x, hx, hid⟩
    cases x with
    | loop other =>
      cases hid
      exact hx
    | chain i => cases hid
    | sub i name => cases hid
  · exact fun h => ⟨_, h, rfl⟩

theorem mem_chainsOf : i ∈ chainsOf outer ↔ .chain i ∈ outer := by
  rw [chainsOf, List.mem_filterMap]
  constructor
  · rintro ⟨x, hx, hi⟩
    cases x with
    | chain j =>
      cases hi
      exact hx
    | loop id => cases hi
    | sub i name => cases hi
  · exact fun h => ⟨_, h, rfl⟩

@[simp] theorem subOf?_nil : subOf? [] = none := rfl

@[simp] theorem subOf?_chain : subOf? (.chain i :: outer) = subOf? outer := rfl

@[simp] theorem subOf?_loop : subOf? (.loop id :: outer) = subOf? outer := rfl

@[simp] theorem subOf?_sub : subOf? (.sub i name :: outer) = some name := rfl

end Projections

section Scan

variable {es : List Entry} {k : Nat} {e : Entry}

theorem getElem?_concat {es : List Entry} {e e' : Entry} {k : Nat} :
    (es ++ [e])[k]? = some e' ↔ es[k]? = some e' ∨ k = es.length ∧ e = e' := by
  rcases Nat.lt_trichotomy k es.length with hlt | rfl | hgt
  · rw [List.getElem?_append_left hlt]
    exact ⟨.inl, fun h => h.elim id fun h => absurd h.1 (Nat.ne_of_lt hlt)⟩
  · rw [List.getElem?_concat_length, List.getElem?_eq_none (Nat.le_refl _)]
    simp
  · rw [List.getElem?_eq_none (by rw [List.length_append, List.length_singleton]; omega),
      List.getElem?_eq_none (Nat.le_of_lt hgt)]
    simp [Nat.ne_of_gt hgt]

@[simp] theorem around_zero (es : List Entry) : around es 0 = [] := rfl

theorem around_succ (h : es[k]? = some e) : around es (k + 1) = e.nest (around es k) := by
  rw [around, List.take_add_one, h, Option.toList_some, List.foldl_append]
  rfl

theorem around_succ_of_none (h : es[k]? = none) : around es (k + 1) = around es k := by
  rw [around, List.take_add_one, h, Option.toList_none, List.append_nil]
  rfl

theorem around_append (es fs : List Entry) (h : k ≤ es.length) :
    around (es ++ fs) k = around es k := by
  rw [around, List.take_append_of_le_length h]
  rfl

theorem closes_append {x : Opening} (fs : List Entry) (h : Closes es x k) :
    Closes (es ++ fs) x k := by
  obtain ⟨e, he, hc, hx⟩ := h
  have hk := (List.getElem?_eq_some_iff.mp he).1
  exact ⟨e, by rwa [List.getElem?_append_left hk], hc,
    by rwa [around_append es fs (Nat.le_of_lt hk)]⟩

theorem around_concat (es : List Entry) (e : Entry) :
    around (es ++ [e]) (es.length + 1) = e.nest (around es es.length) := by
  rw [around_succ (e := e) (by simp), around_append es [e] (Nat.le_refl _)]

theorem nest_of_opening {x : Opening} {outer : List Opening} (h : e.opening? = some x) :
    e.nest outer = x :: outer := by
  rw [Entry.nest, h]

theorem closes_eq_false_of_opening {x : Opening} (h : e.opening? = some x) : e.closes = false := by
  cases hc : e.command <;> simp_all [Entry.opening?, Entry.closes]

theorem nest_of_closes {outer : List Opening} (h : e.closes = true) : e.nest outer = outer.tail := by
  rw [Entry.nest]
  cases ho : e.opening? with
  | some x => rw [closes_eq_false_of_opening ho] at h; cases h
  | none => simp only [h, ↓reduceIte]

/-- The command neither opens nor closes anything. -/
theorem nest_of_neither {outer : List Opening} (ho : e.opening? = none) (hc : e.closes = false) :
    e.nest outer = outer := by
  simp only [Entry.nest, ho, hc, Bool.false_eq_true, ↓reduceIte]

end Scan

namespace Nested

variable {es : List Entry} {k : Nat} {e : Entry} {x y : Opening}

theorem opening_index (hn : Nested es) (h : es[k]? = some e) (hx : e.opening? = some x) :
    x.index = k := by
  have hi := hn.index_eq h
  have hf := hn.fits h
  unfold Entry.opening? at hx
  unfold Entry.Fits at hf
  split at hx <;> cases hx
  · exact hi
  · rename_i id hc
    rw [hc] at hf
    exact hf.1.trans hi
  · exact hi

/-- What is open at a place was opened in front of it, and around it lies what was open there. -/
theorem around_split (hn : Nested es) {before outer : List Opening}
    (h : around es k = before ++ x :: outer) :
    x.index < k ∧ Opens es x ∧ outer = around es x.index := by
  induction k generalizing before with
  | zero =>
    rw [around_zero] at h
    exact absurd h (by simp)
  | succ k ih =>
    have weaken {before : List Opening} (h : around es k = before ++ x :: outer) :=
      And.imp_left Nat.lt_succ_of_lt (ih h)
    cases hk : es[k]? with
    | none => exact weaken (around_succ_of_none hk ▸ h)
    | some e =>
      rw [around_succ hk] at h
      cases ho : e.opening? with
      | some y =>
        rw [nest_of_opening ho] at h
        cases before with
        | nil =>
          obtain ⟨rfl, rfl⟩ := List.cons.inj h
          have hy := hn.opening_index hk ho
          exact ⟨by omega, ⟨e, by rwa [hy], ho⟩, by rw [hy]⟩
        | cons b before => exact weaken (List.cons.inj h).2
      | none =>
        cases hc : e.closes with
        | false => exact weaken (nest_of_neither ho hc ▸ h)
        | true =>
          rw [nest_of_closes hc] at h
          cases ha : around es k with
          | nil =>
            rw [ha] at h
            exact absurd h (by simp)
          | cons z outer' =>
            rw [ha, List.tail_cons] at h
            have h' : around es k = (z :: before) ++ x :: outer := by rw [ha, h, List.cons_append]
            exact weaken h'

theorem around_head (hn : Nested es) (h : (around es k).head? = some x) :
    around es k = x :: around es x.index := by
  obtain ⟨outer, ho⟩ := List.head?_eq_some_iff.mp h
  have ho' : around es k = [] ++ x :: outer := ho
  rw [ho, (hn.around_split ho').2.2]

theorem opens_of_mem (hn : Nested es) (h : x ∈ around es k) : x.index < k ∧ Opens es x := by
  obtain ⟨before, outer, h⟩ := List.append_of_mem h
  exact ⟨(hn.around_split h).1, (hn.around_split h).2.1⟩

theorem not_mem_around_index (hn : Nested es) : x ∉ around es x.index :=
  fun h => Nat.lt_irrefl _ (hn.opens_of_mem h).1

theorem index_lt_of_closes (hn : Nested es) (h : Closes es x k) : x.index < k ∧ Opens es x := by
  obtain ⟨_, _, _, h⟩ := h
  exact hn.opens_of_mem (List.mem_of_head? h)

theorem around_succ_of_closes (hn : Nested es) (h : Closes es x k) :
    around es (k + 1) = around es x.index := by
  obtain ⟨e, hk, hc, hx⟩ := h
  rw [around_succ hk, nest_of_closes hc, hn.around_head hx, List.tail_cons]

theorem eq_of_opens {i : Nat} (h : es[i]? = some e) (ho : e.opening? = some y) (hx : Opens es x)
    (hi : x.index = i) : y = x := by
  obtain ⟨e', h', ho'⟩ := hx
  rw [hi, h, Option.some.injEq] at h'
  subst h'
  exact Option.some.inj (ho.symm.trans ho')

theorem nest_subset {outer : List Opening} (h : x ∈ e.nest outer) :
    e.opening? = some x ∨ x ∈ outer := by
  cases ho : e.opening? with
  | some y =>
    rw [nest_of_opening ho, List.mem_cons] at h
    exact h.imp (congrArg some ·.symm) id
  | none =>
    cases hc : e.closes with
    | false =>
      rw [nest_of_neither ho hc] at h
      exact .inr h
    | true =>
      rw [nest_of_closes hc] at h
      exact .inr (List.mem_of_mem_tail h)

/-- An opening is around every place behind it until it is closed. -/
theorem mem_around (hn : Nested es) :
    x ∈ around es k ↔ x.index < k ∧ Opens es x ∧ ∀ j, Closes es x j → k ≤ j := by
  constructor
  · intro h
    refine ⟨(hn.opens_of_mem h).1, (hn.opens_of_mem h).2, fun j hj => ?_⟩
    induction k with
    | zero => exact Nat.zero_le j
    | succ k ih =>
      have hle : k ≤ j := by
        cases hk : es[k]? with
        | none => exact ih (around_succ_of_none hk ▸ h)
        | some e =>
          rw [around_succ hk] at h
          rcases nest_subset h with ho | h
          · have := hn.opening_index hk ho
            have := (hn.index_lt_of_closes hj).1
            omega
          · exact ih h
      -- the command that closes it leaves what was around it
      have hne : k ≠ j := by
        rintro rfl
        rw [hn.around_succ_of_closes hj] at h
        exact hn.not_mem_around_index h
      omega
  · rintro ⟨hlt, hopen, hall⟩
    induction k with
    | zero => omega
    | succ k ih =>
      obtain rfl | hlt : x.index = k ∨ x.index < k := by omega
      · obtain ⟨e, hk, ho⟩ := hopen
        rw [around_succ hk, nest_of_opening ho]
        exact List.mem_cons_self
      · have hmem := ih hlt fun j hj => Nat.le_of_succ_le (hall j hj)
        cases hk : es[k]? with
        | none => rwa [around_succ_of_none hk]
        | some e =>
          rw [around_succ hk]
          cases ho : e.opening? with
          | some y => exact nest_of_opening ho ▸ List.mem_cons_of_mem y hmem
          | none =>
            cases hc : e.closes with
            | false => rwa [nest_of_neither ho hc]
            | true =>
              rw [nest_of_closes hc]
              cases ha : around es k with
              | nil =>
                rw [ha] at hmem
                cases hmem
              | cons y outer =>
                rw [ha] at hmem
                rcases List.mem_cons.mp hmem with rfl | hmem
                · have := hall k ⟨e, hk, hc, by rw [ha, List.head?_cons]⟩
                  omega
                · exact hmem

theorem mem_around_of_closes (h : Closes es x k) : x ∈ around es k := by
  obtain ⟨_, _, _, h⟩ := h
  exact List.mem_of_head? h

theorem closes_unique (hn : Nested es) {j : Nat} (hj : Closes es x j) (hk : Closes es x k) :
    j = k :=
  Nat.le_antisymm ((hn.mem_around.mp (mem_around_of_closes hj)).2.2 k hk)
    ((hn.mem_around.mp (mem_around_of_closes hk)).2.2 j hj)

/-- A command closes one opening at most. -/
theorem opening_unique (hx : Closes es x k) (hy : Closes es y k) : x = y := by
  obtain ⟨_, _, _, hx⟩ := hx
  obtain ⟨_, _, _, hy⟩ := hy
  exact Option.some.inj (hx.symm.trans hy)

theorem around_succ_of_opens (h : Opens es x) : around es (x.index + 1) = x :: around es x.index := by
  obtain ⟨e, he, ho⟩ := h
  rw [around_succ he, nest_of_opening ho]

theorem around_succ_of_neither (he : es[k]? = some e) (ho : e.opening? = none)
    (hc : e.closes = false) : around es (k + 1) = around es k := by
  rw [around_succ he, nest_of_neither ho hc]

theorem index_lt_length (h : Opens es x) : x.index < es.length := by
  obtain ⟨e, he, -⟩ := h
  exact (List.getElem?_eq_some_iff.mp he).1

/-- Where nothing is open at the end, everything was closed. -/
theorem exists_closes (hn : Nested es) (hend : around es es.length = []) (h : Opens es x) :
    ∃ k, Closes es x k := by
  apply Classical.byContradiction
  intro hnone
  have hmem : x ∈ around es es.length :=
    hn.mem_around.mpr ⟨index_lt_length h, h, fun j hj => absurd ⟨j, hj⟩ hnone⟩
  rw [hend] at hmem
  cases hmem

/-- The span of an opening goes up to and including the command that closes it. -/
theorem mem_around_iff_of_closes (hn : Nested es) {j : Nat} (h : Closes es x k) :
    x ∈ around es j ↔ x.index < j ∧ j ≤ k := by
  rw [hn.mem_around]
  constructor
  · exact fun ⟨hlt, _, hall⟩ => ⟨hlt, hall k h⟩
  · rintro ⟨hlt, hle⟩
    exact ⟨hlt, (hn.index_lt_of_closes h).2, fun i hi => hn.closes_unique h hi ▸ hle⟩

/-- The spans of two openings are nested or disjoint. -/
theorem nested_or_disjoint (hn : Nested es) {l : Nat} (hx : Closes es x k) (hy : Closes es y l)
    (hlt : x.index < y.index) : k < y.index ∨ l < k := by
  by_cases hle : y.index ≤ k
  · right
    have hmem : x ∈ around es y.index := (hn.mem_around_iff_of_closes hx).mpr ⟨hlt, hle⟩
    have hl : x ∈ around es l := by
      rw [hn.around_head hy.choose_spec.2.2]
      exact List.mem_cons_of_mem y hmem
    have hlk := ((hn.mem_around_iff_of_closes hx).mp hl).2
    have hne : l ≠ k := by
      rintro rfl
      rw [opening_unique hx hy] at hlt
      omega
    omega
  · left
    omega

/-- Subroutines are not inside anything. -/
theorem around_sub (hn : Nested es) {before outer : List Opening} {i : Nat} {name : String}
    (h : around es k = before ++ .sub i name :: outer) : outer = [] := by
  obtain ⟨-, ⟨e, he, ho⟩, rfl⟩ := hn.around_split h
  have hf := hn.fits he
  cases hc : e.command <;> simp_all [Entry.opening?, Entry.Fits]

/-- Only a subroutine lies around a subroutine's own commands. -/
theorem sub?_eq_none_of_split (hn : Nested es) {before outer : List Opening}
    (h : around es k = before ++ x :: outer) : ∀ z ∈ before, z.sub? = none := by
  intro z hz
  cases z with
  | sub i name =>
    obtain ⟨before₁, before₂, rfl⟩ := List.append_of_mem hz
    rw [List.append_assoc, List.cons_append] at h
    exact absurd (hn.around_sub h) (by simp)
  | _ => rfl

theorem eq_nil_of_projections {outer : List Opening} (hchains : chainsOf outer = [])
    (hloops : loopsOf outer = []) (hsub : ∀ z ∈ outer, z.sub? = none) : outer = [] := by
  refine List.eq_nil_iff_forall_not_mem.mpr fun z hz => ?_
  have hc := List.filterMap_eq_nil_iff.mp hchains z hz
  have hl := List.filterMap_eq_nil_iff.mp hloops z hz
  have hs := hsub z hz
  cases z with
  | chain i => cases hc
  | loop id => cases hl
  | sub i name => cases hs

/-- The innermost chain is the innermost of all openings if no loop was opened inside it. -/
theorem head_chain (hn : Nested es) {i : Nat} {outer : List Nat}
    (h : chainsOf (around es k) = i :: outer)
    (hlevel : (loopsOf (around es i)).length = (loopsOf (around es k)).length) :
    (around es k).head? = some (.chain i) := by
  obtain ⟨before, x, rest, hsplit, hnone, hx, -⟩ := List.filterMap_eq_cons_iff.mp h
  obtain rfl : x = .chain i := by
    cases x <;> simp_all [Opening.chain?]
  obtain ⟨-, -, hrest⟩ := hn.around_split hsplit
  have hloops : loopsOf before = [] := by
    rw [hsplit, hrest, loopsOf_append, loopsOf_chain, List.length_append, Opening.index] at hlevel
    exact List.eq_nil_of_length_eq_zero (by omega)
  have hbefore := eq_nil_of_projections (List.filterMap_eq_nil_iff.mpr hnone) hloops
    (hn.sub?_eq_none_of_split hsplit)
  rw [hsplit, hbefore, List.nil_append, List.head?_cons]

/-- Only chains lie between a command and its innermost loop. -/
theorem around_loop (hn : Nested es) {id : LoopId} (h : (loopsOf (around es k)).head? = some id) :
    ∃ before, around es k = before ++ .loop id :: around es id.index ∧ loopsOf before = [] ∧
      ∀ z ∈ before, z.sub? = none := by
  obtain ⟨outer, houter⟩ := List.head?_eq_some_iff.mp h
  obtain ⟨before, x, rest, hsplit, hnone, hx, -⟩ := List.filterMap_eq_cons_iff.mp houter
  obtain rfl : x = .loop id := by
    cases x <;> simp_all [Opening.loop?]
  obtain ⟨-, -, rfl⟩ := hn.around_split hsplit
  exact ⟨before, hsplit, List.filterMap_eq_nil_iff.mpr hnone, hn.sub?_eq_none_of_split hsplit⟩

theorem loopsOf_eq_cons (hn : Nested es) {id : LoopId}
    (h : (loopsOf (around es k)).head? = some id) :
    loopsOf (around es k) = id :: loopsOf (around es id.index) := by
  obtain ⟨before, hsplit, hloops, -⟩ := hn.around_loop h
  rw [hsplit, loopsOf_append, hloops, List.nil_append, loopsOf_loop]

/-- A loop and what is inside it belong to the same subroutine. -/
theorem subOf?_eq (hn : Nested es) {id : LoopId} (h : (loopsOf (around es k)).head? = some id) :
    subOf? (around es k) = subOf? (around es id.index) := by
  obtain ⟨before, hsplit, -, hsub⟩ := hn.around_loop h
  rw [hsplit, subOf?, List.findSome?_append, List.findSome?_eq_none_iff.mpr hsub, Option.none_or]
  rfl

/-- The innermost loop is the innermost of all openings if no chain was opened inside it. -/
theorem head_loop (hn : Nested es) {id : LoopId} {outer : List LoopId}
    (h : loopsOf (around es k) = id :: outer)
    (hlevel : (chainsOf (around es id.index)).length = (chainsOf (around es k)).length) :
    (around es k).head? = some (.loop id) := by
  obtain ⟨before, hsplit, hloops, hsub⟩ := hn.around_loop (by rw [h, List.head?_cons])
  have hchains : chainsOf before = [] := by
    rw [hsplit, chainsOf_append, chainsOf_loop, List.length_append] at hlevel
    exact List.eq_nil_of_length_eq_zero (by omega)
  rw [hsplit, eq_nil_of_projections hchains hloops hsub, List.nil_append, List.head?_cons]

theorem around_eq_nil (hchains : chainsOf (around es k) = []) (hloops : loopsOf (around es k) = [])
    (hsub : subOf? (around es k) = none) : around es k = [] :=
  eq_nil_of_projections hchains hloops (List.findSome?_eq_none_iff.mp hsub)

/-- Where neither a chain nor a loop is open, the subroutine is innermost. -/
theorem head_sub {name : String} (hchains : chainsOf (around es k) = [])
    (hloops : loopsOf (around es k) = []) (hsub : subOf? (around es k) = some name) :
    ∃ i, (around es k).head? = some (.sub i name) := by
  cases ha : around es k with
  | nil =>
    rw [ha] at hsub
    cases hsub
  | cons z outer =>
    rw [ha] at hchains hloops hsub
    cases z with
    | chain i => cases hchains
    | loop id => cases hloops
    | sub i other =>
      cases hsub
      exact ⟨i, rfl⟩

/-! What a closing command closes is of its own kind. -/

theorem command_of_closes_chain (hn : Nested es) {i : Nat} (h : Closes es (.chain i) k) :
    ∃ e, es[k]? = some e ∧ e.command = .endIf := by
  obtain ⟨e, he, hc, hx⟩ := h
  have hf := hn.fits he
  refine ⟨e, he, ?_⟩
  cases hcmd : e.command <;> simp_all [Entry.closes, Entry.Fits]

theorem command_of_closes_loop (hn : Nested es) {id : LoopId} (h : Closes es (.loop id) k) :
    ∃ e, es[k]? = some e ∧ e.command = .endFor id := by
  obtain ⟨e, he, hc, hx⟩ := h
  have hf := hn.fits he
  refine ⟨e, he, ?_⟩
  cases hcmd : e.command <;> simp_all [Entry.closes, Entry.Fits]

theorem command_of_closes_sub (hn : Nested es) {i : Nat} {name : String}
    (h : Closes es (.sub i name) k) : ∃ e, es[k]? = some e ∧ e.command = .endSub := by
  obtain ⟨e, he, hc, hx⟩ := h
  have hf := hn.fits he
  refine ⟨e, he, ?_⟩
  cases hcmd : e.command <;> simp_all [Entry.closes, Entry.Fits]

theorem command_of_opens_chain {i : Nat} (h : Opens es (.chain i)) :
    ∃ e c, es[i]? = some e ∧ e.command = .if_ c := by
  obtain ⟨e, he, ho⟩ := h
  cases hcmd : e.command <;> simp [Entry.opening?, hcmd] at ho
  exact ⟨e, _, he, hcmd⟩

theorem command_of_opens_loop {id : LoopId} (h : Opens es (.loop id)) :
    ∃ e, es[id.index]? = some e ∧ e.command = .for_ id := by
  obtain ⟨e, he, ho⟩ := h
  cases hcmd : e.command <;> simp [Entry.opening?, hcmd] at ho
  exact ⟨e, he, by rw [hcmd, ho]⟩

theorem command_of_opens_sub {i : Nat} {name : String} (h : Opens es (.sub i name)) :
    ∃ e last, es[i]? = some e ∧ e.command = .sub name last := by
  obtain ⟨e, he, ho⟩ := h
  cases hcmd : e.command <;> simp [Entry.opening?, hcmd] at ho
  exact ⟨e, _, he, by rw [hcmd, ho.2]⟩

theorem around_of_opens_sub (hn : Nested es) {i : Nat} {name : String}
    (h : Opens es (.sub i name)) : around es i = [] := by
  obtain ⟨e, last, he, hc⟩ := command_of_opens_sub h
  have hf := hn.fits he
  rw [Entry.Fits, hc] at hf
  exact hf

/-- An `ENDSUB` stands directly inside its subroutine. -/
theorem around_of_endSub (hn : Nested es) (he : es[k]? = some e) (hc : e.command = .endSub) :
    ∃ i name, around es k = [.sub i name] := by
  have hf := hn.fits he
  rw [Entry.Fits, hc] at hf
  obtain ⟨i, name, hx⟩ := hf
  have hopen := (hn.opens_of_mem (List.mem_of_head? hx)).2
  exact ⟨i, name, (hn.around_head hx).trans (congrArg _ (hn.around_of_opens_sub hopen))⟩

theorem opens_chain (hn : Nested es) {c : Condition} (h : es[k]? = some e)
    (hc : e.command = .if_ c) : Opens es (.chain k) :=
  ⟨e, h, by rw [Entry.opening?, hc, hn.index_eq h]⟩

theorem opens_loop (hn : Nested es) {id : LoopId} (h : es[k]? = some e)
    (hc : e.command = .for_ id) : id.index = k ∧ Opens es (.loop id) := by
  have ho : e.opening? = some (.loop id) := by rw [Entry.opening?, hc]
  have hi := hn.opening_index h ho
  exact ⟨hi, e, by rwa [hi], ho⟩

theorem opens_sub (hn : Nested es) {name : String} {last : Nat} (h : es[k]? = some e)
    (hc : e.command = .sub name last) : Opens es (.sub k name) :=
  ⟨e, h, by rw [Entry.opening?, hc, hn.index_eq h]⟩

theorem opens_of_head_loops (hn : Nested es) {id : LoopId}
    (h : (loopsOf (around es k)).head? = some id) : Opens es (.loop id) :=
  (hn.opens_of_mem (mem_loopsOf.mp (List.mem_of_head? h))).2

theorem closes_of_endIf (hn : Nested es) (h : es[k]? = some e) (hc : e.command = .endIf) :
    ∃ i, Closes es (.chain i) k := by
  have hf := hn.fits h
  rw [Entry.Fits, hc] at hf
  obtain ⟨i, hx⟩ := hf
  exact ⟨i, e, h, by rw [Entry.closes, hc], hx⟩

theorem closes_of_endFor (hn : Nested es) {id : LoopId} (h : es[k]? = some e)
    (hc : e.command = .endFor id) : Closes es (.loop id) k := by
  have hf := hn.fits h
  rw [Entry.Fits, hc] at hf
  exact ⟨e, h, by rw [Entry.closes, hc], hf⟩

theorem mem_of_subOf? {name : String} (h : subOf? (around es k) = some name) :
    ∃ i, .sub i name ∈ around es k := by
  obtain ⟨x, hx, hname⟩ := List.exists_of_findSome?_eq_some h
  cases x with
  | sub i other =>
    cases hname
    exact ⟨i, hx⟩
  | chain i => cases hname
  | loop id => cases hname

theorem subOf?_of_mem (hn : Nested es) {i : Nat} {name : String} (h : .sub i name ∈ around es k) :
    subOf? (around es k) = some name := by
  obtain ⟨before, outer, hsplit⟩ := List.append_of_mem h
  have hsub := hn.sub?_eq_none_of_split hsplit
  rw [hsplit, subOf?, List.findSome?_append, List.findSome?_eq_none_iff.mpr hsub, Option.none_or]
  rfl

/-- What is open around a place was opened one inside another. -/
theorem around_pairwise (hn : Nested es) (k : Nat) :
    (around es k).Pairwise fun x y => y.index < x.index := by
  have suffix (before outer : List Opening) (h : around es k = before ++ outer) :
      outer.Pairwise fun x y => y.index < x.index := by
    induction outer generalizing before with
    | nil => exact .nil
    | cons x outer ih =>
      refine .cons (fun y hy => ?_) (ih (before ++ [x]) (by simpa using h))
      rw [(hn.around_split h).2.2] at hy
      exact (hn.opens_of_mem hy).1
  exact suffix [] _ rfl

theorem loopsOf_pairwise (hn : Nested es) (k : Nat) :
    (loopsOf (around es k)).Pairwise fun id other => other.index < id.index := by
  refine List.Pairwise.filterMap Opening.loop? (fun x y hlt id hid other hother => ?_)
    (hn.around_pairwise k)
  cases x <;> cases hid
  cases y <;> cases hother
  exact hlt

/-- Around the innermost loop there are only loops that began before it. -/
theorem index_le_of_head_loops (hn : Nested es) {id other : LoopId}
    (h : (loopsOf (around es k)).head? = some id) (ho : .loop other ∈ around es k) :
    other.index ≤ id.index := by
  have hmem := mem_loopsOf.mpr ho
  rw [hn.loopsOf_eq_cons h] at hmem
  rcases List.mem_cons.mp hmem with rfl | hmem
  · exact Nat.le_refl _
  · exact Nat.le_of_lt (hn.opens_of_mem (mem_loopsOf.mp hmem)).1

theorem concat (hn : Nested es) (hi : e.index = es.length) (hf : e.Fits (around es es.length)) :
    Nested (es ++ [e]) where
  index_eq h := by
    rcases getElem?_concat.mp h with h | ⟨rfl, rfl⟩
    · exact hn.index_eq h
    · exact hi
  fits {k e'} h := by
    rcases getElem?_concat.mp h with h | ⟨rfl, rfl⟩
    · rw [around_append es [e] (Nat.le_of_lt (List.getElem?_eq_some_iff.mp h).1)]
      exact hn.fits h
    · rw [around_append es [e] (Nat.le_refl _)]
      exact hf

theorem nil : Nested [] where
  index_eq h := by cases h
  fits h := by cases h

end Nested

section Map

variable {f : Entry → Entry} {es : List Entry}

/-- Changing what says nothing about the nesting does not change what is open. -/
theorem around_map (hf : ∀ e outer, (f e).nest outer = e.nest outer) (es : List Entry) (k : Nat) :
    around (es.map f) k = around es k := by
  unfold around
  rw [← List.map_take, List.foldl_map]
  simp only [hf]

theorem opens_map (hf : ∀ e, (f e).opening? = e.opening?) {x : Opening} :
    Opens (es.map f) x ↔ Opens es x := by
  simp only [Opens, List.getElem?_map, Option.map_eq_some_iff]
  constructor
  · rintro ⟨_, ⟨e, he, rfl⟩, ho⟩
    exact ⟨e, he, (hf e).symm.trans ho⟩
  · rintro ⟨e, he, ho⟩
    exact ⟨f e, ⟨e, he, rfl⟩, (hf e).trans ho⟩

theorem closes_map (hf : ∀ e outer, (f e).nest outer = e.nest outer)
    (hc : ∀ e, (f e).closes = e.closes) {x : Opening} {k : Nat} :
    Closes (es.map f) x k ↔ Closes es x k := by
  simp only [Closes, List.getElem?_map, Option.map_eq_some_iff, around_map hf]
  constructor
  · rintro ⟨_, ⟨e, he, rfl⟩, hc', hx⟩
    exact ⟨e, he, (hc e).symm.trans hc', hx⟩
  · rintro ⟨e, he, hc', hx⟩
    exact ⟨f e, ⟨e, he, rfl⟩, (hc e).trans hc', hx⟩

theorem Nested.map (hn : Nested es) (hnest : ∀ e outer, (f e).nest outer = e.nest outer)
    (hindex : ∀ e, (f e).index = e.index) (hfits : ∀ e outer, e.Fits outer → (f e).Fits outer) :
    Nested (es.map f) where
  index_eq h := by
    rw [List.getElem?_map, Option.map_eq_some_iff] at h
    obtain ⟨e, he, rfl⟩ := h
    rw [hindex, hn.index_eq he]
  fits h := by
    rw [List.getElem?_map, Option.map_eq_some_iff] at h
    obtain ⟨e, he, rfl⟩ := h
    rw [around_map hnest]
    exact hfits e _ (hn.fits he)

end Map

end CommandScript
