import CommandScript.Proofs.Checked
import CommandScript.Proofs.Nesting.Places

/-!
# The tables of nested commands

A table describes a list of commands if it holds, for each chain, loop or subroutine in it, the
places that the list gives. Each operation on a table goes with one kind of command: if that command
is put behind the others, the changed table describes the longer list.
-/

namespace CommandScript

/-- The table holds the chains of the commands, and the members of a chain lead to it. -/
structure ChainTable.Describes (t : ChainTable) (es : List Entry) : Prop where
  chains : ∀ i c, t.chains.get? i = some c ↔ Opens es (.chain i) ∧ c = chainAt es i
  members : ∀ k i, t.members.get? k = some i ↔
    (k = i ∧ Opens es (.chain i)) ∨ k ∈ branchesOf es i ∨ endOf es (.chain i) = some k

/-- The table holds the loops of the commands. -/
structure LoopTable.Describes (t : LoopTable) (es : List Entry) : Prop where
  opens : ∀ id, (Assoc.get? id t).isSome ↔ Opens es (.loop id)
  id_eq : ∀ id l, Assoc.get? id t = some l → l.id = id
  endIndex : ∀ id l, Assoc.get? id t = some l → l.endIndex = endOf es (.loop id)
  chainLevel : ∀ id l, Assoc.get? id t = some l →
    l.chainLevel = (chainsOf (around es id.index)).length

/-- The table knows where its subroutines stand and who calls them. -/
structure SubroutineTable.Describes (t : SubroutineTable) (es : List Entry) : Prop where
  contains : ∀ i name, Opens es (.sub i name) → t.contains name = true
  unique : ∀ i j name, Opens es (.sub i name) → Opens es (.sub j name) → i = j
  startIndex : ∀ name s, t.get? name = some s → s.startIndex = startOf es name
  endIndex : ∀ name s, t.get? name = some s → s.endIndex = subEndOf es name
  calls : ∀ name s, t.get? name = some s → s.calls = callsOf es name

variable {es : List Entry} {e : Entry}

theorem opens_concat_iff_of_ne {x : Opening} (h : e.opening? ≠ some x) :
    Opens (es ++ [e]) x ↔ Opens es x := by
  rw [opens_concat]
  exact or_iff_left fun h' => h h'.2

theorem branchesOf_concat_of_not {i : Nat}
    (h : e.marks = false ∨ (around es es.length).head? ≠ some (.chain i)) :
    branchesOf (es ++ [e]) i = branchesOf es i := by
  rw [branchesOf, places_concat_of_false, branchesOf]
  simpa only [Bool.and_eq_false_iff, decide_eq_false_iff_not] using h

namespace Nested

theorem endOf_lt_length {x : Opening} {k : Nat} (h : endOf es x = some k) : k < es.length :=
  places_lt_length (List.mem_of_head? h)

end Nested

theorem ChainTable.addBranch_ok {t t' : ChainTable} {i k : Nat} {isElse : Bool}
    (h : t.addBranch i k isElse = .ok t') :
    ∃ c, t.chains.get? i = some c ∧ c.elseIndex = none ∧
      t' = ⟨t.chains.put i { c with
        branches := c.branches ++ [k]
        elseIndex := if isElse then some k else none }, t.members.put k i⟩ := by
  unfold addBranch at h
  split at h
  · exact (Checked.fail_ok.mp h).elim
  · rename_i c hc
    rcases Checked.ite_ok.mp h with ⟨-, h⟩ | ⟨helse, h⟩
    · exact (Checked.fail_ok.mp h).elim
    · cases h
      exact ⟨c, hc, Option.not_isSome_iff_eq_none.mp helse, rfl⟩

namespace ChainTable.Describes

open Nested

variable {t t' : ChainTable} {i : Nat}

/-- A command that is no member of a chain changes nothing. -/
theorem concat (h : t.Describes es) (ho : ∀ i, e.opening? ≠ some (.chain i))
    (hm : e.closes = false ∧ e.marks = false ∨
      ∀ i, (around es es.length).head? ≠ some (.chain i)) :
    t.Describes (es ++ [e]) where
  chains i c := by
    rw [opens_concat_iff_of_ne (ho i), h.chains]
    refine and_congr_right fun hi => ?_
    have hi : i < es.length := index_lt_length hi
    rw [chainAt_concat_of_not (Nat.le_of_lt hi) (hm.imp id fun h => h i)]
  members k i := by
    rw [opens_concat_iff_of_ne (ho i), h.members,
      branchesOf_concat_of_not (hm.imp And.right fun h => h i),
      endOf_concat_of_not (hm.imp And.left fun h => h i)]

theorem start (h : t.Describes es) (hn : Nested es)
    (ho : e.opening? = some (.chain es.length)) :
    (t.start es.length (loopsOf (around es es.length)).length).Describes (es ++ [e]) where
  chains i c := by
    simp only [ChainTable.start, Assoc.get?_put]
    split
    · subst i
      rw [Option.some.injEq, chainAt_length hn ho, opens_concat]
      exact ⟨fun h => ⟨.inr ⟨rfl, ho⟩, h.symm⟩, fun h => h.2.symm⟩
    · rename_i hi
      rw [h.chains, opens_concat_iff_of_ne (by rw [ho]; simpa using hi)]
      refine and_congr_right fun hi => ?_
      have hi : i < es.length := index_lt_length hi
      rw [chainAt_concat_of_not (Nat.le_of_lt hi)
        (.inl ⟨closes_eq_false_of_opening ho, Entry.marks_eq_false_of_opening ho⟩)]
  members k i := by
    simp only [ChainTable.start, Assoc.get?_put]
    rw [branchesOf_concat_of_not (.inl (Entry.marks_eq_false_of_opening ho)),
      endOf_concat_of_not (.inl (closes_eq_false_of_opening ho)), opens_concat]
    split
    · subst k
      rw [Option.some.injEq]
      constructor
      · rintro rfl
        exact .inl ⟨rfl, .inr ⟨rfl, ho⟩⟩
      · rintro (⟨rfl, -⟩ | hb | he)
        · rfl
        · exact absurd (places_lt_length hb) (Nat.lt_irrefl _)
        · exact absurd (endOf_lt_length he) (Nat.lt_irrefl _)
    · rename_i hk
      rw [h.members]
      refine or_congr (and_congr_right fun hki => ?_) Iff.rfl
      subst hki
      exact ⟨.inl, fun h => h.elim id fun h => absurd h.1.symm hk⟩

/-- A new member of the innermost chain goes behind the others. -/
theorem put_member (h : t.Describes es) (hn : Nested es) {c : Chain} (ho : e.opening? = none)
    (hx : (around es es.length).head? = some (.chain i)) (hc : chainAt (es ++ [e]) i = c)
    (hmem : ∀ k, k ∈ branchesOf (es ++ [e]) i ∨ endOf (es ++ [e]) (.chain i) = some k ↔
      (k ∈ branchesOf es i ∨ endOf es (.chain i) = some k) ∨ k = es.length) :
    ChainTable.Describes ⟨t.chains.put i c, t.members.put es.length i⟩ (es ++ [e]) where
  chains j d := by
    have hopens := (hn.opens_of_mem (List.mem_of_head? hx)).2
    rw [Assoc.get?_put, opens_concat_iff_of_ne (by rw [ho]; exact nofun)]
    split
    · subst j
      rw [Option.some.injEq, hc]
      exact ⟨fun h => ⟨hopens, h.symm⟩, fun h => h.2.symm⟩
    · rename_i hj
      rw [h.chains]
      refine and_congr_right fun hopen => ?_
      have hlt : j < es.length := index_lt_length hopen
      rw [chainAt_concat_of_not (Nat.le_of_lt hlt) (.inr (by simpa [hx] using hj))]
  members k j := by
    rw [Assoc.get?_put, opens_concat_iff_of_ne (by rw [ho]; exact nofun)]
    have hlast : ∀ i, ¬ ((es.length = i ∧ Opens es (.chain i)) ∨ es.length ∈ branchesOf es i ∨
        endOf es (.chain i) = some es.length) := by
      rintro i (⟨rfl, hi⟩ | hb | he)
      · exact absurd (index_lt_length hi) (Nat.lt_irrefl _)
      · exact absurd (places_lt_length hb) (Nat.lt_irrefl _)
      · exact absurd (endOf_lt_length he) (Nat.lt_irrefl _)
    by_cases hj : j = i
    · subst hj
      rw [hmem, ← or_assoc]
      split
      · subst k
        exact ⟨fun _ => .inr rfl, fun _ => rfl⟩
      · rename_i hk
        rw [h.members]
        exact ⟨.inl, fun h => h.elim id fun h => absurd h.symm hk⟩
    · have hx' : (around es es.length).head? ≠ some (.chain j) := by simpa [hx] using Ne.symm hj
      rw [branchesOf_concat_of_not (.inr hx'), endOf_concat_of_not (.inr hx')]
      split
      · subst k
        exact ⟨fun h => absurd (Option.some.inj h).symm hj, fun h => absurd h (hlast j)⟩
      · exact h.members k j

theorem addBranch (h : t.Describes es) (hn : Nested es) (hm : e.marks = true)
    (hx : (around es es.length).head? = some (.chain i))
    (ht : t.addBranch i es.length e.isElse = .ok t') : t'.Describes (es ++ [e]) := by
  have ho : e.opening? = none := by
    cases ho : e.opening? with
    | none => rfl
    | some x => rw [Entry.marks_eq_false_of_opening ho] at hm; cases hm
  obtain ⟨c, hc, helse, rfl⟩ := addBranch_ok ht
  obtain ⟨-, rfl⟩ := (h.chains i c).mp hc
  have hc := chainAt_concat_of_marks hn hm hx helse
  refine h.put_member hn ho hx hc fun k => ?_
  have hb : branchesOf (es ++ [e]) i = branchesOf es i ++ [es.length] := congrArg (·.branches) hc
  have he : endOf (es ++ [e]) (.chain i) = endOf es (.chain i) := congrArg (·.endIndex) hc
  rw [hb, he, List.mem_append, List.mem_singleton, or_right_comm]

theorem finish (h : t.Describes es) (hn : Nested es) (hclose : e.closes = true)
    (hx : (around es es.length).head? = some (.chain i))
    (ht : t.finish i es.length = .ok t') : t'.Describes (es ++ [e]) := by
  have ho : e.opening? = none := by
    cases ho : e.opening? with
    | none => rfl
    | some x => rw [closes_eq_false_of_opening ho] at hclose; cases hclose
  unfold ChainTable.finish at ht
  split at ht
  · exact (Checked.fail_ok.mp ht).elim
  · rename_i c hc
    obtain ⟨-, rfl⟩ := (h.chains i c).mp hc
    cases ht
    have hc := chainAt_concat_of_closes hn hclose hx
    refine h.put_member hn ho hx hc fun k => ?_
    have hb : branchesOf (es ++ [e]) i = branchesOf es i := congrArg (·.branches) hc
    have he : endOf (es ++ [e]) (.chain i) = some es.length := congrArg (·.endIndex) hc
    have hnone : endOf es (.chain i) = none := hn.endOf_eq_none (List.mem_of_head? hx)
    rw [hb, he, hnone]
    simp [eq_comm]

end ChainTable.Describes

namespace LoopTable.Describes

open Nested

variable {t t' : LoopTable} {id : LoopId}

/-- A command that neither begins nor ends a loop changes nothing. -/
theorem concat (h : t.Describes es) (ho : ∀ id, e.opening? ≠ some (.loop id))
    (hc : e.closes = false ∨ ∀ id, (around es es.length).head? ≠ some (.loop id)) :
    t.Describes (es ++ [e]) where
  opens id := by rw [opens_concat_iff_of_ne (ho id), h.opens]
  id_eq := h.id_eq
  endIndex id l hl := by rw [endOf_concat_of_not (hc.imp_right fun h => h id), h.endIndex id l hl]
  chainLevel id l hl := by
    have hid : id.index < es.length :=
      index_lt_length ((h.opens id).mp (Option.isSome_iff_exists.mpr ⟨l, hl⟩))
    rw [around_append es [e] (Nat.le_of_lt hid), h.chainLevel id l hl]

theorem add (h : t.Describes es) (hn : Nested es) {l : Loop} (ho : e.opening? = some (.loop l.id))
    (hi : l.id.index = es.length) (hend : l.endIndex = none)
    (hlevel : l.chainLevel = (chainsOf (around es es.length)).length) :
    (t.add l).Describes (es ++ [e]) where
  opens id := by
    rw [LoopTable.add, Assoc.get?_put, opens_concat, ← h.opens]
    split
    · subst id
      exact iff_of_true rfl (.inr ⟨hi, ho⟩)
    · rename_i hne
      rw [ho]
      simp [hne]
  id_eq id l' hl := by
    rw [LoopTable.add, Assoc.get?_put] at hl
    split at hl
    · cases hl
      assumption
    · exact h.id_eq id l' hl
  endIndex id l' hl := by
    rw [endOf_concat_of_not (.inl (closes_eq_false_of_opening ho))]
    rw [LoopTable.add, Assoc.get?_put] at hl
    split at hl
    · cases hl
      subst id
      rw [hend, endOf, hn.places_head_eq_nil (x := .loop l.id) (Nat.le_of_eq hi.symm)]
      rfl
    · exact h.endIndex id l' hl
  chainLevel id l' hl := by
    rw [LoopTable.add, Assoc.get?_put] at hl
    split at hl
    · cases hl
      subst id
      rw [hi, around_append es [e] (Nat.le_refl _), hlevel]
    · have hid : id.index < es.length :=
        index_lt_length ((h.opens id).mp (Option.isSome_iff_exists.mpr ⟨l', hl⟩))
      rw [around_append es [e] (Nat.le_of_lt hid), h.chainLevel id l' hl]

theorem finish (h : t.Describes es) (hn : Nested es) (hclose : e.closes = true)
    (hx : (around es es.length).head? = some (.loop id)) (ht : t.finish id es.length = .ok t') :
    t'.Describes (es ++ [e]) := by
  have ho (id : LoopId) : e.opening? ≠ some (.loop id) := by
    intro ho
    rw [closes_eq_false_of_opening ho] at hclose
    cases hclose
  unfold LoopTable.finish at ht
  split at ht
  · exact (Checked.fail_ok.mp ht).elim
  · rename_i l hl
    cases ht
    have hopens := (h.opens id).mp (Option.isSome_iff_exists.mpr ⟨l, hl⟩)
    have hid : id.index < es.length := index_lt_length hopens
    refine ⟨fun j => ?_, fun j l' hl' => ?_, fun j l' hl' => ?_, fun j l' hl' => ?_⟩
    · rw [Assoc.get?_put, opens_concat_iff_of_ne (ho j), ← h.opens]
      split
      · subst j
        rw [hl]
        exact iff_of_true rfl rfl
      · exact Iff.rfl
    all_goals
      rw [Assoc.get?_put] at hl'
      split at hl'
    · cases hl'
      subst j
      exact h.id_eq id l hl
    · exact h.id_eq j l' hl'
    · cases hl'
      subst j
      exact (endOf_concat_of_closes hn hclose hx).symm
    · rename_i hj
      rw [endOf_concat_of_not (.inr (by simpa [hx] using hj)), h.endIndex j l' hl']
    · cases hl'
      subst j
      rw [around_append es [e] (Nat.le_of_lt hid), ← h.chainLevel id l hl]
    · have hj : j.index < es.length :=
        index_lt_length ((h.opens j).mp (Option.isSome_iff_exists.mpr ⟨l', hl'⟩))
      rw [around_append es [e] (Nat.le_of_lt hj), h.chainLevel j l' hl']

end LoopTable.Describes

section Subroutines

variable {name : String}

theorem startOf_concat (es : List Entry) (e : Entry) (name : String) :
    startOf (es ++ [e]) name = (startOf es name).or (if e.begins name then some es.length else none) := by
  rw [startOf, places_concat, List.head?_append, startOf]
  cases e.begins name <;> rfl

theorem subEndOf_concat (es : List Entry) (e : Entry) (name : String) :
    subEndOf (es ++ [e]) name =
      (subEndOf es name).or (if e.ends (around es es.length) name then some es.length else none) := by
  rw [subEndOf, places_concat, List.head?_append, subEndOf]
  cases e.ends (around es es.length) name <;> rfl

theorem callsOf_concat (es : List Entry) (e : Entry) (name : String) :
    callsOf (es ++ [e]) name = callsOf es name ++ if e.callsSub name then [es.length] else [] :=
  places_concat es e _

end Subroutines

namespace SubroutineTable

theorem get?_update (t : SubroutineTable) (name other : String) {f : Subroutine → Subroutine}
    (hf : ∀ s, (f s).name = s.name) :
    (t.update name f).get? other =
      (t.get? other).map fun s => if other = name then f s else s := by
  induction t with
  | nil => rfl
  | cons s t ih =>
    have hname : (if s.name = name then f s else s).name = s.name := by
      split
      · exact hf s
      · rfl
    simp only [update, get?, List.map_cons, List.find?_cons, hname] at ih ⊢
    cases hs : s.name == other with
    | true => rw [← beq_iff_eq.mp hs, Option.map_some]
    | false => exact ih

theorem declare_ok {t t' : SubroutineTable} {name : String} {line : Nat}
    (h : t.declare name line = .ok t') :
    t.get? name = none ∧ t' = insert { name, startLine := line } t := by
  unfold declare at h
  split at h
  · exact (Checked.fail_ok.mp h).elim
  · rename_i hnone
    cases h
    exact ⟨hnone, rfl⟩

theorem mem_insert {s s' : Subroutine} {t : SubroutineTable} :
    s' ∈ t.insert s ↔ s' = s ∨ s' ∈ t := by
  induction t with
  | nil => exact List.mem_cons
  | cons u t ih =>
    unfold insert
    split
    · exact List.mem_cons
    · rw [List.mem_cons, ih, List.mem_cons, or_left_comm]

theorem mem_update {s : Subroutine} {t : SubroutineTable} {name : String}
    {f : Subroutine → Subroutine} (h : s ∈ t.update name f) : ∃ s' ∈ t, s = s' ∨ s = f s' := by
  obtain ⟨s', hs', rfl⟩ := List.mem_map.mp h
  refine ⟨s', hs', ?_⟩
  split
  · exact .inr rfl
  · exact .inl rfl

theorem contains_update (t : SubroutineTable) (name other : String) {f : Subroutine → Subroutine}
    (hf : ∀ s, (f s).name = s.name) : (t.update name f).contains other = t.contains other := by
  rw [contains, get?_update t name other hf, Option.isSome_map, contains]

namespace Describes

variable {t : SubroutineTable} {name : String} {f : Subroutine → Subroutine}

/-- A subroutine that is open has not been ended before. -/
theorem subEndOf_eq_none (h : t.Describes es) (hn : Nested es) {i : Nat}
    (hx : .sub i name ∈ around es es.length) : subEndOf es name = none := by
  refine Option.eq_none_iff_forall_ne_some.mpr fun k hk => ?_
  obtain ⟨j, hj⟩ := Nested.closes_of_subEndOf hk
  obtain rfl := h.unique i j name (hn.opens_of_mem hx).2 (hn.index_lt_of_closes hj).2
  have hend := hn.endOf_eq_none hx
  rw [hn.endOf_eq_some.mpr hj] at hend
  cases hend

/-- A command that has to do with no subroutine changes nothing. -/
theorem concat (h : t.Describes es)
    (he : ∀ name, e.begins name = false ∧ e.ends (around es es.length) name = false ∧
      e.callsSub name = false) :
    t.Describes (es ++ [e]) := by
  have ho (i : Nat) (name : String) : e.opening? ≠ some (.sub i name) := by
    intro ho
    have := (he name).1
    rw [Entry.begins, ho] at this
    simp [Opening.sub?] at this
  refine ⟨fun i name hi => ?_, fun i j name hi hj => ?_, fun name s hs => ?_, fun name s hs => ?_,
    fun name s hs => ?_⟩
  · exact h.contains i name ((opens_concat_iff_of_ne (ho i name)).mp hi)
  · exact h.unique i j name ((opens_concat_iff_of_ne (ho i name)).mp hi)
      ((opens_concat_iff_of_ne (ho j name)).mp hj)
  · rw [startOf_concat, (he name).1, h.startIndex name s hs]
    exact (Option.or_none ..).symm
  · rw [subEndOf_concat, (he name).2.1, h.endIndex name s hs]
    exact (Option.or_none ..).symm
  · rw [callsOf_concat, (he name).2.2, h.calls name s hs]
    exact (List.append_nil _).symm

/-- A command that has to do with one subroutine changes its entry. -/
theorem concat_update (h : t.Describes es) (hf : ∀ s, (f s).name = s.name)
    (ho : ∀ i other, e.opening? = some (.sub i other) →
      t.contains other = true ∧ ∀ j, ¬ Opens es (.sub j other))
    (hi : ∀ i other, e.opening? = some (.sub i other) → i = es.length)
    (hother : ∀ other, other ≠ name →
      e.begins other = false ∧ e.ends (around es es.length) other = false ∧ e.callsSub other = false)
    (hself : ∀ s, t.get? name = some s →
      (f s).startIndex = startOf (es ++ [e]) name ∧ (f s).endIndex = subEndOf (es ++ [e]) name ∧
        (f s).calls = callsOf (es ++ [e]) name) :
    (t.update name f).Describes (es ++ [e]) := by
  have hentry (other : String) (s : Subroutine) (hs : (t.update name f).get? other = some s) :
      s.startIndex = startOf (es ++ [e]) other ∧ s.endIndex = subEndOf (es ++ [e]) other ∧
        s.calls = callsOf (es ++ [e]) other := by
    rw [get?_update t name other hf, Option.map_eq_some_iff] at hs
    obtain ⟨s', hs', rfl⟩ := hs
    split
    · subst other
      exact hself s' hs'
    · rename_i hne
      obtain ⟨hb, hend, hc⟩ := hother other hne
      rw [startOf_concat, subEndOf_concat, callsOf_concat, hb, hend, hc, h.startIndex other s' hs',
        h.endIndex other s' hs', h.calls other s' hs']
      simp
  refine ⟨fun i other hopen => ?_, fun i j other hi' hj' => ?_, fun other s hs => ?_,
    fun other s hs => ?_, fun other s hs => ?_⟩
  · rw [contains_update t name other hf]
    rcases opens_concat.mp hopen with hopen | ⟨-, hopen⟩
    · exact h.contains i other hopen
    · exact (ho i other hopen).1
  · rcases opens_concat.mp hi' with hi' | ⟨-, hi'⟩ <;> rcases opens_concat.mp hj' with hj' | ⟨-, hj'⟩
    · exact h.unique i j other hi' hj'
    · exact absurd hi' ((ho j other hj').2 i)
    · exact absurd hj' ((ho i other hi').2 j)
    · rw [hi i other hi', hi j other hj']
  · exact (hentry other s hs).1
  · exact (hentry other s hs).2.1
  · exact (hentry other s hs).2.2

end Describes

end SubroutineTable

end CommandScript
