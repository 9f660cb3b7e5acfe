import CommandScript.Engine.Viewpoint
import CommandScript.Proofs.Store.Calls
import CommandScript.Proofs.Store.Masks

/-!
# Filters one after another

A filter passed over an array without a mask marks the entries that it selects, and each further one
takes away the marks of those that it does not. So the mask after any number of them marks the entries
that all of them select (`filterAll_passed`), and neither their order nor a repetition counts.
-/

namespace CommandScript

/-- The type of the arrays that the filter is made for. -/
def Filter.kind : Filter → ValueType
  | text .. => .strings
  | number .. => .integers

instance (anchor : Anchor) (text entry : List Char) : Decidable (anchor.Finds text entry) :=
  match anchor with
  | .anywhere => decidable_of_iff (isInfix text entry = true) Filter.isInfix_iff
  | .left => decidable_of_iff (text.isPrefixOf entry = true) List.isPrefixOf_iff_prefix
  | .right => decidable_of_iff (text.isSuffixOf entry = true) List.isSuffixOf_iff_suffix

instance (f : Filter) (entry : Value) : Decidable (f.Selects entry) :=
  match f, entry with
  | .text t anchor inverted, .string e =>
    inferInstanceAs (Decidable (anchor.Finds t.toList e.toList ↔ inverted = false))
  | .number r n, .integer m => inferInstanceAs (Decidable (r.Between m.toInt n.toInt))
  | .text .., .integer _ | .text .., .unsigned _ | .text .., .boolean _ | .text .., .strings _
  | .text .., .integers _ | .number .., .string _ | .number .., .unsigned _
  | .number .., .boolean _ | .number .., .strings _ | .number .., .integers _ =>
    inferInstanceAs (Decidable False)

namespace Value

/-- The items that all of the filters select, in order. -/
def chosen (fs : List Filter) (v : Value) : List Value :=
  v.items.filter fun entry => ∀ f ∈ fs, f.Selects entry

/-- For each item whether all of the filters select it. -/
def marks (fs : List Filter) (v : Value) : List Bool :=
  v.items.map fun entry => ∀ f ∈ fs, f.Selects entry

end Value

variable {f : Filter} {fs gs : List Filter} {array : Value} {v w : Variable}

/-- A filter made for such arrays says of each item whether it selects it. -/
theorem Filter.verdicts_of_kind (h : f.kind = array.type) :
    f.verdicts? array = some (array.marks [f]) := by
  unfold Value.marks
  simp only [List.forall_mem_singleton]
  cases f with
  | text t anchor inverted =>
    cases array <;> cases h
    rename_i items
    simp only [verdicts?, Value.items, List.map_map, Option.some.injEq]
    refine List.map_congr_left fun entry _ => ?_
    change _ = decide (anchor.Finds t.toList entry.toList ↔ inverted = false)
    rw [Bool.eq_iff_iff, decide_eq_true_eq, bne_iff_ne, ← hits_iff]
    cases hits t anchor entry <;> cases inverted <;> decide
  | number r n =>
    cases array <;> cases h
    rename_i items
    simp only [verdicts?, Value.items, List.map_map, Option.some.injEq]
    refine List.map_congr_left fun m _ => ?_
    change _ = decide (r.Between m.toInt n.toInt)
    rw [Bool.eq_iff_iff, decide_eq_true_eq, Relation.holds_compare]

theorem Value.count_marks (fs : List Filter) (array : Value) :
    (array.marks fs).count true = (array.chosen fs).length := by
  unfold marks chosen
  rw [← List.countP_eq_length_filter, List.count, List.countP_map]
  refine List.countP_congr fun entry _ => ?_
  simp

/-- Only which filters there are counts. -/
theorem Value.marks_congr (h : ∀ f, f ∈ gs ↔ f ∈ fs) (array : Value) :
    array.marks gs = array.marks fs := by
  unfold marks
  refine List.map_congr_left fun entry _ => ?_
  simp only [h]

/-- The entries that a mask of such marks lets through. -/
theorem Variable.items_filtered (harray : v.value.type.isArray = true)
    (hmask : v.mask = some (v.value.marks fs)) :
    v.filtered.items = v.value.chosen fs := by
  have hselected {α : Type} (items : List α) (p : α → Bool) :
      selected (items.map p) items = items.filter p := by
    unfold selected
    induction items with
    | nil => rfl
    | cons x items ih =>
      cases hx : p x <;> simp [hx] at ih ⊢ <;> exact ih
  unfold filtered
  rw [hmask]
  cases hvalue : v.value
  case strings | integers =>
    simp only [Value.marks, Value.chosen, Value.items, List.map_map, List.filter_map]
    rw [hselected]
  all_goals
    rw [hvalue] at harray
    cases harray

/-- Marks of the filters passed before, taken together with those of one more. -/
theorem narrowed_marks (fs : List Filter) (f : Filter) (array : Value) :
    narrowed (if fs = [] then none else some (array.marks fs)) (array.marks [f]) =
      array.marks (fs ++ [f]) := by
  by_cases hfs : fs = []
  · simp [hfs, narrowed]
  · have hlength : (array.marks fs).length = (array.marks [f]).length := by simp [Value.marks]
    simp only [hfs, ↓reduceIte, narrowed, hlength]
    unfold Value.marks
    rw [List.zipWith_map, List.zipWith_self]
    refine List.map_congr_left fun entry _ => ?_
    simp only [List.forall_mem_append, List.forall_mem_singleton, Bool.decide_and]

/-- The array as filters leave it, if it was without a mask before. -/
def Variable.passed (v : Variable) (fs : List Filter) : Variable :=
  { v with mask := if fs = [] then none else some (v.value.marks fs) }

theorem Variable.passed_of_unmasked (h : v.mask = none) : v.passed [] = v := by
  unfold passed
  rw [if_pos rfl, ← h]

theorem Variable.passed_congr (h : ∀ f, f ∈ gs ↔ f ∈ fs) (v : Variable) : v.passed gs = v.passed fs := by
  have hnil : gs = [] ↔ fs = [] := by
    rw [List.eq_nil_iff_forall_not_mem, List.eq_nil_iff_forall_not_mem]
    exact forall_congr' fun f => not_congr (h f)
  unfold passed
  simp only [Value.marks_congr h, hnil]

namespace Store

variable {s : Store} {name owner : String} {slot : Slot}

/-- The store after the filters, and how many entries were selected after each of them. -/
def filterAll (s : Store) (name owner : String) : List Filter → Checked (List Nat × Store)
  | [] => .ok ([], s)
  | f :: fs => do
    let (n, s) ← s.filter name owner f
    let (ns, s) ← s.filterAll name owner fs
    return (n :: ns, s)

theorem filter_passed (hslot : s.slot? name owner = some slot)
    (hv : s.at? slot = some (v.passed fs)) (hvalue : v.value.type = v.type) (hkind : f.kind = v.type) :
    s.filter name owner f =
      .ok ((v.value.chosen (fs ++ [f])).length, s.fill slot (v.passed (fs ++ [f]))) := by
  have harray : (v.passed fs).type.isArray = true := by
    change v.type.isArray = true
    rw [← hkind]
    cases f <;> rfl
  have hverdicts : f.verdicts? (v.passed fs).value = some (v.value.marks [f]) :=
    Filter.verdicts_of_kind (hkind.trans hvalue.symm)
  rw [filter_eq, array_of_slot hslot hv harray]
  simp only [bind, Except.bind, hverdicts, replace_of_slot hslot]
  have hmask : narrowed (v.passed fs).mask (v.value.marks [f]) = v.value.marks (fs ++ [f]) :=
    narrowed_marks fs f v.value
  rw [hmask, Value.count_marks]
  simp [Variable.passed, pure, Except.pure]

/-- Filters for such arrays can be passed, whatever was passed before. -/
theorem filterAll_passed (done : List Filter) (hslot : s.slot? name owner = some slot)
    (hv : s.at? slot = some (v.passed done)) (hvalue : v.value.type = v.type)
    (hkind : ∀ f ∈ fs, f.kind = v.type) :
    s.filterAll name owner fs =
      .ok ((List.range fs.length).map fun j => (v.value.chosen (done ++ fs.take (j + 1))).length,
        s.fill slot (v.passed (done ++ fs))) := by
  induction fs generalizing s done with
  | nil =>
    rw [List.append_nil, fill_self hv]
    rfl
  | cons f fs ih =>
    obtain ⟨hf, hfs⟩ := List.forall_mem_cons.mp hkind
    unfold filterAll
    rw [filter_passed hslot hv hvalue hf]
    have hsome : (s.at? slot).isSome = true := by rw [hv]; rfl
    have hrest := ih (done ++ [f]) ((slot?_fill hsome _ name owner).trans hslot)
      (by rw [at?_fill, if_pos rfl]) hfs
    simp only [bind, Except.bind, hrest, fill_fill, pure, Except.pure, List.append_assoc,
      List.singleton_append, List.length_cons, List.range_succ_eq_map, List.map_cons, List.map_map]
    rfl

section Slot

variable (hslot : s.slot? name owner = some slot) (hv : s.at? slot = some v)

include hslot hv

/-- What a script is shown of an array under a mask. -/
theorem gives_filtered {view : Viewpoint} {m : Memory} (howner : view.owner = owner)
    (hm : m.store = s) : Gives (view.filtered name) m v.filtered m := by
  have hget : m.store.get name view.owner = .ok v := by
    rw [hm, howner, get, (find?_of_slot hslot).1, hv]
  unfold Viewpoint.filtered
  rw [unreserved_of_slot hslot]
  simp only [Option.isSome_none, Bool.false_eq_true, ↓reduceIte, gives_bind, gives_get, gives_pure]
  exact ⟨m, m, ⟨rfl, rfl⟩, v, m, gives_lift.mpr ⟨hget, rfl⟩, rfl, rfl⟩

variable (harray : v.type.isArray = true)

include harray

theorem applyFilter_of_unmasked (hmask : v.mask = none) (stamp : Stamp) :
    s.applyFilter name owner stamp = .ok (0, s) := by
  rw [applyFilter_eq, array_of_slot hslot hv harray]
  simp only [bind, Except.bind, hmask]
  rfl

theorem applyFilter_of_masked {mask : List Bool} (hmask : v.mask = some mask) (stamp : Stamp) :
    s.applyFilter name owner stamp = .ok (v.size - (v.holding v.filtered stamp).size,
      s.fill slot (v.holding v.filtered stamp)) := by
  rw [applyFilter_eq, array_of_slot hslot hv harray]
  simp only [bind, Except.bind, hmask, replace_of_slot hslot]
  rfl

theorem resetFilter_of_slot :
    s.resetFilter name owner = .ok (s.fill slot { v with mask := none }) := by
  rw [resetFilter_eq, array_of_slot hslot hv harray]
  simp only [bind, Except.bind, replace_of_slot hslot]
  rfl

end Slot

/-- Filters passed one after another over an array without a mask: the number after each of them is that
of the entries which all filters so far select; the view of the array is what all of them select, in
order; applying the filters makes the array the view and gives the number of the entries that are gone,
and applying them again does nothing; dropping them leaves everything as it was before the first one;
and passing the same filters in any other order, or some of them again, comes to the same store. -/
theorem filterAll_spec (s : Store) (name owner : String) (slot : Slot) (v : Variable)
    (fs : List Filter) (hslot : s.slot? name owner = some slot) (hv : s.at? slot = some v)
    (hvalue : v.value.type = v.type) (hmask : v.mask = none) (hfs : fs ≠ [])
    (hkind : ∀ f ∈ fs, f.kind = v.type) :
    ∃ t w, s.filterAll name owner fs =
        .ok ((List.range fs.length).map fun j => (v.value.chosen (fs.take (j + 1))).length, t) ∧
      (t.at? slot = some w ∧ w.value = v.value ∧ w.mask = some (v.value.marks fs)) ∧
      (w.filtered.type = v.type ∧ w.filtered.items = v.value.chosen fs ∧
        ∀ (view : Viewpoint) (m : Memory), view.owner = owner → m.store = t →
          Gives (view.filtered name) m w.filtered m) ∧
      (∀ stamp, ∃ removed u x, t.applyFilter name owner stamp = .ok (removed, u) ∧
        u.at? slot = some x ∧ x.value = w.filtered ∧ x.mask = none ∧ removed + x.size = v.size ∧
        ∀ stamp', u.applyFilter name owner stamp' = .ok (0, u)) ∧
      t.resetFilter name owner = .ok s ∧
      ∀ gs, (∀ g, g ∈ gs ↔ g ∈ fs) → ∃ counts, s.filterAll name owner gs = .ok (counts, t) := by
  have hstart : s.at? slot = some (v.passed []) := by rw [Variable.passed_of_unmasked hmask, hv]
  have hall (gs : List Filter) (hgs : ∀ g ∈ gs, g.kind = v.type) :=
    filterAll_passed [] hslot hstart hvalue hgs
  have harray : v.type.isArray = true := by
    obtain ⟨f, hf⟩ := List.exists_mem_of_ne_nil fs hfs
    rw [← hkind f hf]
    cases f <;> rfl
  have hmarks : (v.passed fs).mask = some (v.value.marks fs) := if_neg hfs
  have hitems : (v.passed fs).filtered.items = v.value.chosen fs :=
    Variable.items_filtered (v := v.passed fs) (hvalue ▸ harray) hmarks
  have htype : (v.passed fs).filtered.type = v.type :=
    (Variable.type_filtered (v.passed fs)).trans hvalue
  have hsize (stamp : Stamp) : ((v.passed fs).holding (v.passed fs).filtered stamp).size ≤ v.size := by
    have hnew : ((v.passed fs).holding (v.passed fs).filtered stamp).size =
        (v.passed fs).filtered.items.length :=
      Value.length_items (htype ▸ harray) ((v.passed fs).holding (v.passed fs).filtered stamp)
    have hold : v.size = v.value.items.length := Value.length_items (hvalue ▸ harray) v
    rw [hnew, hold, hitems]
    exact List.length_filter_le ..
  have hsome : (s.at? slot).isSome = true := by rw [hv]; rfl
  have hslot' (w : Variable) : (s.fill slot w).slot? name owner = some slot :=
    (slot?_fill hsome w name owner).trans hslot
  have hat (w : Variable) : (s.fill slot w).at? slot = some w := by rw [at?_fill, if_pos rfl]
  refine ⟨s.fill slot (v.passed fs), v.passed fs, hall fs hkind, ⟨hat _, rfl, hmarks⟩,
    ⟨htype, hitems, fun view m => gives_filtered (hslot' _) (hat _)⟩, fun stamp => ?_, ?_,
    fun gs hgs => ?_⟩
  · have happly := applyFilter_of_masked (hslot' _) (hat (v.passed fs)) harray hmarks stamp
    rw [fill_fill] at happly
    refine ⟨_, _, _, happly, hat _, rfl, rfl, Nat.sub_add_cancel (hsize stamp), fun stamp' => ?_⟩
    exact applyFilter_of_unmasked (v := (v.passed fs).holding (v.passed fs).filtered stamp)
      (hslot' _) (hat _) harray rfl stamp'
  · have hunmasked : { v.passed fs with mask := none } = v := by rw [← hmask]; rfl
    rw [resetFilter_of_slot (hslot' _) (hat (v.passed fs)) harray, fill_fill, hunmasked, fill_self hv]
  · have hkind' : ∀ g ∈ gs, g.kind = v.type := fun g hg => hkind g ((hgs g).mp hg)
    have hpassed := hall gs hkind'
    rw [List.nil_append, Variable.passed_congr hgs] at hpassed
    exact ⟨_, hpassed⟩

/-- Four numbers, two of them the same. -/
def scores : Value :=
  .integers [5, 7, 7, 10]

/-- A store with an array of numbers. -/
def scoreStore : Store where
  globals := [("N", { type := .integers, scope := .global, owner := mainOwner, value := scores })]
  cells := Cells.ofModulus 100

def aboveSixNotTen : List Filter :=
  [.number .gt 6, .number .ne 10]

theorem filterAll_spec_scores :
    aboveSixNotTen ≠ [] ∧ (∀ f ∈ aboveSixNotTen, f.kind = .integers) ∧
    (∃ t, scoreStore.filterAll "N" mainOwner aboveSixNotTen = .ok ([3, 2], t) ∧
      t.resetFilter "N" mainOwner = .ok scoreStore ∧ ∃ counts,
        scoreStore.filterAll "N" mainOwner (aboveSixNotTen.reverse ++ aboveSixNotTen) =
          .ok (counts, t)) ∧
    scores.chosen aboveSixNotTen = [.integer 7, .integer 7] := by
  have hfs : aboveSixNotTen ≠ [] := by decide
  have hkind : ∀ f ∈ aboveSixNotTen, f.kind = .integers := by decide
  have hchosen : scores.chosen aboveSixNotTen = [.integer 7, .integer 7] := by decide
  have hfirst : scores.chosen [.number .gt 6] = [.integer 7, .integer 7, .integer 10] := by decide
  refine ⟨hfs, hkind, ?_, hchosen⟩
  obtain ⟨t, w, hall, -, -, -, hreset, hsame⟩ :=
    filterAll_spec scoreStore "N" mainOwner (.global "N") _ aboveSixNotTen rfl rfl rfl rfl hfs hkind
  refine ⟨t, ?_, hreset, hsame _ fun g => ?_⟩
  · have hcounts : scoreStore.filterAll "N" mainOwner aboveSixNotTen =
        .ok ([(scores.chosen [.number .gt 6]).length, (scores.chosen aboveSixNotTen).length], t) :=
      hall
    rw [hcounts, hchosen, hfirst]
    rfl
  · rw [List.mem_append, List.mem_reverse, or_self]

end Store

end CommandScript
