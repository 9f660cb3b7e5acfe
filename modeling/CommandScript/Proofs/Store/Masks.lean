import CommandScript.Proofs.Relation
import CommandScript.Proofs.Store.History

/-!
# What a mask says of the entries

A mask marks the entries that were selected by every filter since there last was none. A filter looks
at the entries that it finds; an entry that is replaced afterwards keeps its mark. So the mask tells
what the filters found (`Variable.Marked`), and that is what the entries are now where none was
replaced (`Store.marked_of_calls`).
-/

namespace CommandScript

/-- The entry at a place of an array, as a value of its own. -/
def Value.itemAt? : Value → Nat → Option Value
  | strings items, i => items[i]?.map .string
  | integers items, i => items[i]?.map .integer
  | _, _ => none

/-- The text stands in the entry where the anchor wants it. -/
def Anchor.Finds (text entry : List Char) : Anchor → Prop
  | anywhere => text <:+: entry
  | left => text <+: entry
  | right => text <:+ entry

namespace Filter

/-- The filter is made for such an entry and lets it through. -/
def Selects : Filter → Value → Prop
  | text t anchor inverted, .string entry =>
    anchor.Finds t.toList entry.toList ↔ inverted = false
  | number r n, .integer m => r.Between m.toInt n.toInt
  | _, _ => False

/-- The array has an entry at the place, and the filter selects it. -/
def SelectsAt (f : Filter) (array : Value) (i : Nat) : Prop :=
  ∃ entry, array.itemAt? i = some entry ∧ f.Selects entry

variable {f : Filter} {array : Value} {verdicts : List Bool} {i : Nat}

theorem isInfix_iff {text entry : List Char} : isInfix text entry = true ↔ text <:+: entry := by
  induction entry with
  | nil => simp [isInfix]
  | cons c entry ih => simp [isInfix, ih, List.infix_cons_iff]

theorem hits_iff {text entry : String} {anchor : Anchor} :
    hits text anchor entry = true ↔ anchor.Finds text.toList entry.toList := by
  cases anchor with
  | anywhere => exact isInfix_iff
  | left => exact List.isPrefixOf_iff_prefix
  | right => exact List.isSuffixOf_iff_suffix

/-- The verdict on an entry says whether it is selected. -/
theorem getElem?_verdicts (h : f.verdicts? array = some verdicts) :
    verdicts[i]? = some true ↔ f.SelectsAt array i := by
  unfold verdicts? at h
  split at h
  · rename_i t anchor inverted items
    cases h
    cases hi : items[i]? with
    | none => simp [SelectsAt, Value.itemAt?, hi]
    | some entry =>
      simp only [List.getElem?_map, hi, Option.map_some, Option.some.injEq, bne_iff_ne, SelectsAt,
        Value.itemAt?, exists_eq_left', Selects, ← hits_iff]
      cases hits t anchor entry <;> cases inverted <;> decide
  · rename_i r n items
    cases h
    cases hi : items[i]? with
    | none => simp [SelectsAt, Value.itemAt?, hi]
    | some m => simp [SelectsAt, Value.itemAt?, hi, Selects, Relation.holds_compare]
  · cases h

end Filter

/-- Another filter keeps a mark where it selects the entry. -/
theorem getElem?_narrowed {mask : Option (List Bool)} {verdicts : List Bool} {i : Nat}
    (h : ∀ old, mask = some old → old.length = verdicts.length) :
    (narrowed mask verdicts)[i]? = some true ↔
      (∀ old, mask = some old → old[i]? = some true) ∧ verdicts[i]? = some true := by
  cases mask with
  | none => simp [narrowed]
  | some old =>
    simp only [narrowed, h old rfl, ↓reduceIte, Option.some.injEq, forall_eq']
    rw [List.getElem?_zipWith]
    cases old[i]? <;> cases verdicts[i]? <;> simp

/-- Replacing an entry leaves the others. -/
theorem Value.itemAt?_replaceItem {array item value : Value} {name : String} {index i : Nat}
    (h : array.replaceItem name index item = .ok value) (hi : index ≠ i) :
    value.itemAt? i = array.itemAt? i := by
  unfold replaceItem changeWith at h
  split at h
  · cases h
    simp [itemAt?, List.getElem?_set_ne hi]
  · simp only [Checked.bind_ok, Checked.pure_ok] at h
    obtain ⟨n, -, rfl⟩ := h
    simp [itemAt?, List.getElem?_set_ne hi]
  · cases h

theorem Filter.SelectsAt.lt {f : Filter} {v : Variable} {i : Nat} (h : f.SelectsAt v.value i) :
    i < v.size := by
  obtain ⟨entry, hentry, -⟩ := h
  unfold Value.itemAt? at hentry
  unfold Variable.size
  split at hentry
  · rename_i items hitems
    obtain ⟨s, hs, -⟩ := Option.map_eq_some_iff.mp hentry
    rw [hitems]
    exact (List.getElem?_eq_some_iff.mp hs).1
  · rename_i items hitems
    obtain ⟨n, hn, -⟩ := Option.map_eq_some_iff.mp hentry
    rw [hitems]
    exact (List.getElem?_eq_some_iff.mp hn).1
  · cases hentry

/-! ### What befalls an array at work -/

/-- What befalls an array while filters are at work on it. -/
inductive Marking where
  /-- A filter is passed, and the array is what it finds. -/
  | filtered (f : Filter) (found : Value)
  /-- The entry at a place is replaced. -/
  | replaced (index : Nat)

namespace Variable

/-- The mask marks the entries that every filter selected when it was passed, and what a filter found
is still there unless it has been replaced since; `markings` has the latest first. -/
structure Marked (v : Variable) (markings : List Marking) : Prop where
  unmasked : v.mask = none → markings = []
  marks : ∀ mask, v.mask = some mask → ∀ i, mask[i]? = some true ↔
    i < v.size ∧ ∀ f found, .filtered f found ∈ markings → f.SelectsAt found i
  current : ∀ behind before i, markings = behind ++ before → .replaced i ∉ behind →
    ∀ f found, .filtered f found ∈ behind → found.itemAt? i = v.value.itemAt? i

variable {v w : Variable} {markings : List Marking}

theorem marked_of_unmasked (h : v.mask = none) : v.Marked [] where
  unmasked _ := rfl
  marks mask hmask := by cases h.symm.trans hmask
  current behind before i hsplit _ f found hmem := by
    rw [(List.append_eq_nil_iff.mp hsplit.symm).1] at hmem
    cases hmem

/-- Only the value and the mask of a variable count. -/
theorem Marked.congr (h : v.Marked markings) (hvalue : w.value = v.value) (hmask : w.mask = v.mask) :
    w.Marked markings where
  unmasked hw := h.unmasked (hmask ▸ hw)
  marks mask hw i := by
    have hsize : w.size = v.size := by simp only [size, hvalue]
    rw [hsize]
    exact h.marks mask (hmask ▸ hw) i
  current behind before i hsplit hnot f found hmem := by
    rw [hvalue]
    exact h.current behind before i hsplit hnot f found hmem

theorem Marked.filtered {f : Filter} {verdicts : List Bool} (h : v.Marked markings) (hv : v.Sound)
    (hverdicts : f.verdicts? v.value = some verdicts) :
    { v with mask := some (narrowed v.mask verdicts) }.Marked
      (.filtered f v.value :: markings) where
  unmasked hnone := by cases hnone
  marks mask hmask i := by
    obtain rfl := Option.some.inj hmask
    have hlength := Filter.length_verdicts? hverdicts
    rw [getElem?_narrowed fun old hold => (hv.mask old hold).2.trans hlength.symm,
      Filter.getElem?_verdicts hverdicts]
    change _ ↔ i < v.size ∧ _
    have hall : (∀ g found, .filtered g found ∈ Marking.filtered f v.value :: markings →
        g.SelectsAt found i) ↔ f.SelectsAt v.value i ∧
          ∀ g found, .filtered g found ∈ markings → g.SelectsAt found i := by
      simp only [List.mem_cons, Marking.filtered.injEq, or_imp, forall_and, and_imp]
      exact and_congr_left fun _ => ⟨fun h => h f v.value rfl rfl, fun h g found hg hfound => by
        rw [hg, hfound]
        exact h⟩
    rw [hall]
    cases hmask : v.mask with
    | none =>
      rw [h.unmasked hmask]
      exact ⟨fun h => ⟨h.2.lt, h.2, nofun⟩, fun h => ⟨nofun, h.2.1⟩⟩
    | some old =>
      have hold := h.marks old hmask i
      simp only [Option.some.injEq, forall_eq', hold]
      exact and_assoc.trans (and_congr_right fun _ => and_comm)
  current behind before i hsplit hnot g found hmem := by
    cases behind with
    | nil => cases hmem
    | cons m behind =>
      obtain ⟨rfl, rfl⟩ := List.cons.inj hsplit
      rcases List.mem_cons.mp hmem with hg | hmem
      · cases hg
        rfl
      · exact h.current behind before i rfl (fun hi => hnot (List.mem_cons_of_mem _ hi)) g found hmem

/-- An entry that is replaced keeps its mark. -/
theorem Marked.replaced {item value : Value} {name : String} {index : Nat} (h : v.Marked markings)
    (hmask : v.mask ≠ none) (hvalue : v.value.replaceItem name index item = .ok value)
    (stamp : Stamp) :
    { v with value, written := some stamp }.Marked (.replaced index :: markings) where
  unmasked hnone := absurd hnone hmask
  marks mask hm i := by
    have hsize : ({ v with value, written := some stamp } : Variable).size = v.size :=
      size_replaceItem hvalue
    rw [hsize, h.marks mask hm i]
    simp
  current behind before i hsplit hnot f found hmem := by
    cases behind with
    | nil => cases hmem
    | cons m behind =>
      obtain ⟨rfl, rfl⟩ := List.cons.inj hsplit
      rw [List.mem_cons, not_or] at hnot
      obtain ⟨hi, hnot⟩ := hnot
      have hkept := Value.itemAt?_replaceItem (i := i) hvalue fun heq => hi (heq ▸ rfl)
      refine (h.current behind before i rfl hnot f found ?_).trans hkept.symm
      exact (List.mem_cons.mp hmem).resolve_left nofun

end Variable

/-- What counts of what befell an array: nothing once it has no mask. -/
def Marking.counting (v : Variable) (markings : List Marking) : List Marking :=
  if v.mask.isSome then markings else []

namespace Store

/-- What the operation is to an array at work, if it succeeds. -/
def Operation.marking? (v : Variable) : Operation → Option Marking
  | filter _ _ f => some (.filtered f v.value)
  | modify _ _ index _ _ => some (.replaced index)
  | _ => none

/-- What the call is to the array in the slot. -/
def Call.marking? (s : Store) (slot : Slot) : Call → Option Marking
  | operation op =>
    if (op.run s).isOk ∧ s.slot? op.name op.owner = some slot then
      (s.at? slot).bind fun v => op.marking? v
    else none
  | _ => none

/-- What has befallen the array in the slot behind the call, if `before` had befallen it in front. What
befell it while it had no mask does not count. -/
def Call.marked (s : Store) (slot : Slot) (call : Call) (before : List Marking) : List Marking :=
  match (call.next s).at? slot with
  | some v => Marking.counting v ((call.marking? s slot).toList ++ before)
  | none => []

/-- What the calls do to the array in the slot since it last had no mask, the latest first. -/
def markings (s : Store) (slot : Slot) (before : List Marking) : List Call → List Marking
  | [] => before
  | call :: calls => (call.next s).markings slot (call.marked s slot before) calls

end Store

namespace Variable

variable {v w : Variable} {name : String} {stamp : Stamp}

theorem mask_of_changed {change : Variable → Checked Value}
    (h : v.changed name stamp change = .ok w) : w.mask = none := by
  unfold changed at h
  simp only [Checked.bind_ok, Checked.pure_ok] at h
  obtain ⟨u, -, value, -, rfl⟩ := h
  rfl

theorem mask_of_shortened {count : Nat} {complaint : Variable → String} {first last : Variable → Nat}
    (h : v.shortened name count complaint first last stamp = .ok w) : w.mask = none ∨ w = v := by
  unfold shortened at h
  rw [Checked.bind_ok] at h
  obtain ⟨u, hu, h⟩ := h
  obtain ⟨rfl, -⟩ := asArray_ok hu
  by_cases hlt : u.size < count
  · simp only [hlt, ↓reduceIte] at h
    cases h
  simp only [hlt, ↓reduceIte] at h
  split at h
  · cases h
    exact .inr rfl
  · exact .inl (mask_of_changed h)

end Variable

namespace Store

variable {s : Store} {v w : Variable} {op : Operation} {slot : Slot} {call : Call}
  {before : List Marking}

/-- Operations other than passing a filter and replacing an entry end the work of filters, or do
nothing to the array. -/
theorem Operation.mask_of_become (h : op.marking? v = none) (hop : op.become v = .ok w) :
    w.mask = none ∨ w = v := by
  cases op with
  | allocate => exact .inr (Except.ok.inj hop).symm
  | write name owner value stamp =>
    simp only [become] at hop
    split at hop
    · cases hop
    · cases hop
      exact .inl rfl
  | clear name owner stamp =>
    cases hop
    exact .inl rfl
  | append | extend | insert | remove => exact .inl (Variable.mask_of_changed hop)
  | truncate | pop => exact Variable.mask_of_shortened hop
  | modify => cases h
  | filter => cases h
  | applyFilter name owner stamp =>
    simp only [become, Checked.bind_ok] at hop
    obtain ⟨u, hu, hop⟩ := hop
    obtain ⟨rfl, -⟩ := Variable.asArray_ok hu
    split at hop
    · cases hop
      exact .inr rfl
    · cases hop
      exact .inl rfl
  | resetFilter name owner =>
    simp only [become, Checked.bind_ok, Checked.pure_ok] at hop
    obtain ⟨u, -, rfl⟩ := hop
    exact .inl rfl

theorem marked_counting {markings : List Marking}
    (h : w.mask.isSome = true → w.Marked markings) : w.Marked (Marking.counting w markings) := by
  unfold Marking.counting
  cases hmask : w.mask with
  | none => exact Variable.marked_of_unmasked hmask
  | some mask => exact h (by rw [hmask]; rfl)

theorem Operation.marked (hv : v.Sound) (h : v.Marked before) (hop : op.become v = .ok w) :
    w.Marked (Marking.counting w ((op.marking? v).toList ++ before)) := by
  refine marked_counting fun hmask => ?_
  cases hmarking : op.marking? v with
  | none =>
    rcases op.mask_of_become hmarking hop with hnone | rfl
    · rw [hnone] at hmask
      cases hmask
    · exact h
  | some marking =>
    cases op
    case filter name owner f =>
      cases hmarking
      simp only [become, Checked.bind_ok] at hop
      obtain ⟨u, hu, hop⟩ := hop
      obtain ⟨rfl, -⟩ := Variable.asArray_ok hu
      split at hop
      · cases hop
      · rename_i verdicts hverdicts
        cases hop
        exact h.filtered hv hverdicts
    case modify name owner index item stamp =>
      cases hmarking
      simp only [become, Checked.bind_ok, Checked.pure_ok] at hop
      obtain ⟨u, hu, -, -, value, hvalue, rfl⟩ := hop
      obtain ⟨rfl, -⟩ := Variable.asArray_ok hu
      exact h.replaced (Option.isSome_iff_ne_none.mp hmask) hvalue stamp
    all_goals cases hmarking

/-! ### Calls -/

/-- The variable in the slot is sound and its mask as the markings say; where there is none, nothing
has befallen it. -/
def MarkedAt (s : Store) (slot : Slot) (markings : List Marking) : Prop :=
  match s.at? slot with
  | some v => v.Sound ∧ v.Marked markings
  | none => markings = []

theorem marking?_eq_none_of_slot (h : ∀ op, call = .operation op →
    ¬((op.run s).isOk = true ∧ s.slot? op.name op.owner = some slot)) :
    call.marking? s slot = none := by
  cases call with
  | operation op => simp only [Call.marking?, if_neg (h op rfl)]
  | read | cells => rfl

/-- What a call makes of the mask of a variable is what it is to the array. -/
theorem Call.marked_next (hv : s.at? slot = some v) (hsound : v.Sound) (hmarked : v.Marked before)
    (hw : (call.next s).at? slot = some w) :
    w.Marked (Marking.counting w ((call.marking? s slot).toList ++ before)) := by
  have same (hmarking : call.marking? s slot = none) (hvalue : w.value = v.value)
      (hmask : w.mask = v.mask) :
      w.Marked (Marking.counting w ((call.marking? s slot).toList ++ before)) := by
    rw [hmarking]
    exact marked_counting fun _ => hmarked.congr hvalue hmask
  cases call with
  | operation op =>
    cases halloc : op.isAllocation with
    | true =>
      obtain rfl : v = w := Option.some.inj ((at?_next_allocation halloc hv).symm.trans hw)
      refine same ?_ rfl rfl
      cases op
      case allocate => simp [marking?, hv, Operation.marking?]
      all_goals cases halloc
    | false =>
      by_cases hslot : s.slot? op.name op.owner = some slot
      · have hrun := run_of_slot halloc hslot hv
        cases hbecome : op.become v with
        | error f =>
          rw [hbecome] at hrun
          obtain rfl : v = w := by
            rw [next_perform, hrun] at hw
            exact Option.some.inj (hv.symm.trans hw)
          refine same (marking?_eq_none_of_slot fun op' hop => ?_) rfl rfl
          cases hop
          rw [hrun]
          exact fun h => by cases h.1
        | ok u =>
          rw [hbecome] at hrun
          have hrun : op.run s = .ok (s.fill slot u) := hrun
          obtain rfl : u = w := by simpa [next_perform, hrun] using hw
          have hmarking : (operation op).marking? s slot = op.marking? v := by
            simp [marking?, hrun, hslot, hv, Except.isOk, Except.toBool]
          rw [hmarking]
          exact op.marked hsound hmarked hbecome
      · rw [at?_next_of_ne (by rwa [slot?_operation halloc]), hv] at hw
        cases hw
        refine same (marking?_eq_none_of_slot fun op' hop => ?_) rfl rfl
        cases hop
        exact fun h => hslot h.2
  | read now name owner =>
    rw [at?_next, hv] at hw
    simp only [puts?, hv, Option.bind_some] at hw
    split at hw
    · split at hw
      · cases hw
        exact same rfl rfl rfl
      · cases hw
        exact same rfl rfl rfl
    · cases hw
      exact same rfl rfl rfl
  | cells new =>
    obtain rfl : v = w := Option.some.inj (hv.symm.trans hw)
    exact same rfl rfl rfl

theorem markedAt_next (h : s.MarkedAt slot before) (call : Call) :
    (call.next s).MarkedAt slot (call.marked s slot before) := by
  unfold MarkedAt Call.marked
  cases hv : s.at? slot with
  | none =>
    cases hw : (call.next s).at? slot with
    | none => rfl
    | some w =>
      obtain ⟨type, scope, owner, rfl⟩ := eq_fresh_of_next hv hw
      exact ⟨Variable.sound_fresh .., Variable.marked_of_unmasked rfl⟩
  | some v =>
    unfold MarkedAt at h
    rw [hv] at h
    obtain ⟨hsound, hmarked⟩ := h
    obtain ⟨isWrite, w, hw, hturns, -⟩ := exists_turns hv hsound call
    rw [hw]
    exact ⟨hturns.sound hsound, call.marked_next hv hsound hmarked hw⟩

theorem markedAt_after (h : s.MarkedAt slot before) (calls : List Call) :
    (s.after calls).MarkedAt slot (s.markings slot before calls) := by
  induction calls generalizing s before with
  | nil => exact h
  | cons call calls ih => exact ih (markedAt_next h call)

/-- Whatever has been called on a store since it was empty: a mask marks the entries that all filters
passed since there was none selected when they were passed; and an entry that none has replaced since
is marked just if it satisfies all of these filters now. -/
theorem marked_of_calls (modulus : UInt32) (calls : List Call) (slot : Slot) (v : Variable)
    (mask : List Bool) (hv : ((empty modulus).after calls).at? slot = some v)
    (hmask : v.mask = some mask) :
    let markings := (empty modulus).markings slot [] calls
    mask.length = v.size ∧
      (∀ i < v.size, mask[i]? = some true ↔
        ∀ f found, .filtered f found ∈ markings → f.SelectsAt found i) ∧
      (∀ i < v.size, .replaced i ∉ markings → (mask[i]? = some true ↔
        ∀ f found, .filtered f found ∈ markings → f.SelectsAt v.value i)) ∧
      ∀ behind before i, markings = behind ++ before → .replaced i ∉ behind →
        ∀ f found, .filtered f found ∈ behind → (f.SelectsAt found i ↔ f.SelectsAt v.value i) := by
  intro markings
  have hempty : (empty modulus).MarkedAt slot [] := by cases slot <;> rfl
  have hafter := markedAt_after hempty calls
  unfold MarkedAt at hafter
  rw [hv] at hafter
  obtain ⟨hsound, hmarked⟩ := hafter
  have hmarks (i : Nat) (hi : i < v.size) : mask[i]? = some true ↔
      ∀ f found, .filtered f found ∈ markings → f.SelectsAt found i := by
    rw [hmarked.marks mask hmask i]
    exact and_iff_right hi
  have hcurrent (behind before : List Marking) (i : Nat) (hsplit : markings = behind ++ before)
      (hnot : .replaced i ∉ behind) (f : Filter) (found : Value)
      (hmem : .filtered f found ∈ behind) : f.SelectsAt found i ↔ f.SelectsAt v.value i := by
    unfold Filter.SelectsAt
    rw [hmarked.current behind before i hsplit hnot f found hmem]
  refine ⟨(hsound.mask mask hmask).2, hmarks, fun i hi hnot => ?_, hcurrent⟩
  rw [hmarks i hi]
  exact forall_congr' fun f => forall_congr' fun found => forall_congr' fun hmem =>
    hcurrent markings [] i (List.append_nil _).symm hnot f found hmem

/-- An array of two numbers; a filter selects the second one, and then the first is replaced by one
that the filter would select. -/
def replacedBehindFilter : List Call :=
  [.operation (.allocate .global .integers "N" mainOwner),
    .operation (.append "N" mainOwner (.integer 5) ⟨2, .epoch⟩),
    .operation (.append "N" mainOwner (.integer 7) ⟨3, .epoch⟩),
    .operation (.filter "N" mainOwner (.number .gt 6)),
    .operation (.modify "N" mainOwner 0 (.integer 10) ⟨5, .epoch⟩)]

theorem markings_replacedBehindFilter :
    (empty 100).markings (.global "N") [] replacedBehindFilter =
      [.replaced 0, .filtered (.number .gt 6) (.integers [5, 7])] := rfl

/-- The entry that was not replaced is marked as the filter says. -/
theorem marked_of_calls_replaced : ∃ v,
    ((empty 100).after replacedBehindFilter).at? (.global "N") = some v ∧
      v.mask = some [false, true] ∧ v.size = 2 ∧
      (Filter.number .gt 6).SelectsAt v.value 1 := by
  obtain ⟨v, hv, hmask, hsize⟩ : ∃ v,
      ((empty 100).after replacedBehindFilter).at? (.global "N") = some v ∧
        v.mask = some [false, true] ∧ v.size = 2 := ⟨_, rfl, rfl, rfl⟩
  obtain ⟨-, -, hexact, -⟩ :=
    marked_of_calls 100 replacedBehindFilter (.global "N") v [false, true] hv hmask
  rw [markings_replacedBehindFilter] at hexact
  refine ⟨v, hv, hmask, hsize, ?_⟩
  have hnot : Marking.replaced 1 ∉
      [.replaced 0, .filtered (.number .gt 6) (.integers [5, 7])] := by simp
  exact (hexact 1 (by rw [hsize]; decide) hnot).mp rfl _ (.integers [5, 7])
    (List.mem_cons_of_mem _ List.mem_cons_self)

/-- The entry that was replaced satisfies every filter passed, and is not marked. -/
theorem unmarked_of_replaced : ∃ v,
    ((empty 100).after replacedBehindFilter).at? (.global "N") = some v ∧
      v.mask = some [false, true] ∧ v.value = .integers [10, 7] ∧
      ∀ f found, .filtered f found ∈ (empty 100).markings (.global "N") [] replacedBehindFilter →
        f.SelectsAt v.value 0 := by
  refine ⟨_, rfl, rfl, rfl, fun f found hmem => ?_⟩
  rw [markings_replacedBehindFilter] at hmem
  simp only [List.mem_cons, Marking.filtered.injEq, reduceCtorEq, List.not_mem_nil, or_false,
    false_or] at hmem
  rw [hmem.1]
  exact ⟨.integer 10, rfl, (by decide : Relation.gt.Between 10 6)⟩

end Store

end CommandScript
