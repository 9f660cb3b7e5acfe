import CommandScript.Proofs.Nesting.Tables

/-!
# Nested programs

A program is nested if its commands are, nothing is open at its end, its tables describe it and its
calls and subroutines carry the places they mean. From this every look-up that the engine makes can
be computed.
-/

namespace CommandScript

theorem Chain.following_ok {c : Chain} {j k : Nat} (h : c.following k = .ok j) :
    j ∈ c.branches ∨ c.endIndex = some j := by
  unfold following at h
  split at h
  · rename_i i hi
    cases h
    rcases Option.or_eq_some_iff.mp hi with hi | ⟨-, hi⟩
    · exact .inl (List.mem_of_find?_eq_some hi)
    · exact .inr hi
  · exact (Checked.fail_ok.mp h).elim

theorem Chain.ending_ok {c : Chain} {j : Nat} (h : c.ending = .ok j) : c.endIndex = some j := by
  unfold ending at h
  split at h
  · rename_i i hi
    cases h
    exact hi
  · exact (Checked.fail_ok.mp h).elim

theorem Loop.exitIndex_ok {l : Loop} {j : Nat} (h : l.exitIndex = .ok j) :
    ∃ e, l.endIndex = some e ∧ e + 1 = j := by
  unfold exitIndex at h
  split at h
  · rename_i e he
    cases h
    exact ⟨e, he, rfl⟩
  · exact (Checked.fail_ok.mp h).elim

theorem LoopTable.loop_ok {t : LoopTable} {id : LoopId} {l : Loop} :
    t.loop id = .ok l ↔ Assoc.get? id t = some l := by
  unfold loop
  split
  · rename_i l' hl
    rw [hl, Except.ok.injEq, Option.some.injEq]
  · rename_i hl
    rw [hl]
    exact iff_of_false Checked.fail_ok.mp (Option.some_ne_none l).symm

namespace Program

/-- The commands of a program in order. -/
def entries (p : Program) : List Entry := p.commands.toList

/-- What is open around the command at `k`. -/
def around (p : Program) (k : Nat) : List Opening := CommandScript.around p.entries k

structure IsNested (p : Program) : Prop where
  nested : Nested p.entries
  ended : p.around p.size = []
  chains : p.chains.Describes p.entries
  loops : p.loops.Describes p.entries
  subroutines : p.subroutines.Describes p.entries
  /-- No branch stands behind the `ELSE` of its chain. -/
  elseLast : ∀ i b, elseOf p.entries i = some b → (branchesOf p.entries i).getLast? = some b
  sub : ∀ (k : Nat) (e : Entry) (name : String) (last : Nat), p.entries[k]? = some e → e.command = .sub name last →
    Closes p.entries (.sub k name) last
  gosub : ∀ (k : Nat) (e : Entry) (name : String) (target : Nat), p.entries[k]? = some e → e.command = .gosub name target →
    Opens p.entries (.sub target name)
  exit : ∃ e, p.entries.getLast? = some e ∧ e.command = .exit

theorem length_entries (p : Program) : p.entries.length = p.size := by
  rw [entries, Array.length_toList, size]

theorem getElem?_entries (p : Program) (k : Nat) : p.entries[k]? = p.commands[k]? := by
  rw [entries, Array.getElem?_toList]

/-- The command at `k` stands behind the `FOR` of the loop and not behind its `ENDFOR`. -/
def Surrounds (p : Program) (id : LoopId) (k : Nat) : Prop :=
  ∃ l j, Assoc.get? id p.loops = some l ∧ l.endIndex = some j ∧ id.index < k ∧ k ≤ j

/-- The command at `k` stands behind the `SUB` of the subroutine and not behind its `ENDSUB`. -/
def InBody (p : Program) (name : String) (k : Nat) : Prop :=
  ∃ s i j, p.subroutines.get? name = some s ∧ s.startIndex = some i ∧ s.endIndex = some j ∧
    i < k ∧ k ≤ j

/-- The command at `k` lies in the body of the subroutine; without one, in no body. -/
def LiesIn (p : Program) (k : Nat) : Option String → Prop
  | some name => p.InBody name k
  | none => ∀ name, ¬ p.InBody name k

namespace IsNested

variable {p : Program} {i j k : Nat}

theorem exists_closes (h : p.IsNested) {x : Opening} (hx : Opens p.entries x) :
    ∃ k, Closes p.entries x k :=
  h.nested.exists_closes (p.length_entries ▸ h.ended) hx

theorem endIndex_chain (h : p.IsNested) {c : Chain} (hc : p.chains.chains.get? i = some c) :
    c.endIndex = some j ↔ Closes p.entries (.chain i) j := by
  rw [((h.chains.chains i c).mp hc).2]
  exact h.nested.endOf_eq_some

theorem endIndex_loop (h : p.IsNested) {id : LoopId} {l : Loop} (hl : Assoc.get? id p.loops = some l) :
    l.endIndex = some j ↔ Closes p.entries (.loop id) j := by
  rw [h.loops.endIndex id l hl]
  exact h.nested.endOf_eq_some

theorem surrounds_iff (h : p.IsNested) {id : LoopId} :
    p.Surrounds id k ↔ .loop id ∈ p.around k := by
  constructor
  · rintro ⟨l, j, hl, hj, hlt, hle⟩
    exact (h.nested.mem_around_iff_of_closes ((h.endIndex_loop hl).mp hj)).mpr ⟨hlt, hle⟩
  · intro hmem
    obtain ⟨hlt, hopen⟩ := h.nested.opens_of_mem hmem
    obtain ⟨j, hj⟩ := h.exists_closes hopen
    obtain ⟨l, hl⟩ := Option.isSome_iff_exists.mp ((h.loops.opens id).mpr hopen)
    exact ⟨l, j, hl, (h.endIndex_loop hl).mpr hj, hlt,
      ((h.nested.mem_around_iff_of_closes hj).mp hmem).2⟩

theorem startIndex_sub (h : p.IsNested) {name : String} {s : Subroutine}
    (hs : p.subroutines.get? name = some s) :
    s.startIndex = some i ↔ Opens p.entries (.sub i name) := by
  rw [h.subroutines.startIndex name s hs]
  refine ⟨h.nested.opens_of_startOf, fun ho => ?_⟩
  cases hstart : startOf p.entries name with
  | none => exact absurd ho (h.nested.startOf_eq_none.mp hstart i)
  | some k => rw [h.subroutines.unique i k name ho (h.nested.opens_of_startOf hstart)]

theorem endIndex_sub (h : p.IsNested) {name : String} {s : Subroutine}
    (hs : p.subroutines.get? name = some s) :
    s.endIndex = some j ↔ ∃ i, Closes p.entries (.sub i name) j := by
  rw [h.subroutines.endIndex name s hs, subEndOf, head?_places, Nested.mem_ends]
  intro j k hj hk
  obtain ⟨i, hj⟩ := Nested.mem_ends.mp hj
  obtain ⟨i', hk⟩ := Nested.mem_ends.mp hk
  obtain rfl := h.subroutines.unique i i' name (h.nested.index_lt_of_closes hj).2
    (h.nested.index_lt_of_closes hk).2
  exact h.nested.closes_unique hj hk

theorem inBody_iff (h : p.IsNested) {name : String} :
    p.InBody name k ↔ subOf? (p.around k) = some name := by
  constructor
  · rintro ⟨s, i, j, hs, hi, hj, hlt, hle⟩
    have hopen := (h.startIndex_sub hs).mp hi
    obtain ⟨i', hclose⟩ := (h.endIndex_sub hs).mp hj
    obtain rfl := h.subroutines.unique i i' name hopen (h.nested.index_lt_of_closes hclose).2
    exact h.nested.subOf?_of_mem ((h.nested.mem_around_iff_of_closes hclose).mpr ⟨hlt, hle⟩)
  · intro hsub
    obtain ⟨i, hmem⟩ := Nested.mem_of_subOf? hsub
    obtain ⟨hlt, hopen⟩ := h.nested.opens_of_mem hmem
    obtain ⟨j, hclose⟩ := h.exists_closes hopen
    obtain ⟨s, hs⟩ := Option.isSome_iff_exists.mp (h.subroutines.contains i name hopen)
    exact ⟨s, i, j, hs, (h.startIndex_sub hs).mpr hopen, (h.endIndex_sub hs).mpr ⟨i, hclose⟩, hlt,
      ((h.nested.mem_around_iff_of_closes hclose).mp hmem).2⟩

theorem liesIn_iff (h : p.IsNested) {owner : Option String} :
    p.LiesIn k owner ↔ subOf? (p.around k) = owner := by
  cases owner with
  | some name => exact h.inBody_iff
  | none =>
    rw [LiesIn, Option.eq_none_iff_forall_ne_some]
    exact forall_congr' fun name => not_congr h.inBody_iff

theorem branch_index_lt (h : p.IsNested) {b : Nat} (hb : b ∈ branchesOf p.entries i) : i < b := by
  obtain ⟨e, -, -, hx⟩ := Nested.mem_branchesOf.mp hb
  exact (h.nested.opens_of_mem (List.mem_of_head? hx)).1

theorem branch_lt_end (h : p.IsNested) {b : Nat} (hb : b ∈ branchesOf p.entries i)
    (hj : Closes p.entries (.chain i) j) : b < j := by
  obtain ⟨e, he, hm, hx⟩ := Nested.mem_branchesOf.mp hb
  have hle := ((h.nested.mem_around_iff_of_closes hj).mp (List.mem_of_head? hx)).2
  obtain ⟨e', he', hc, -⟩ := hj
  refine Nat.lt_of_le_of_ne hle fun heq => ?_
  subst heq
  rw [he, Option.some.injEq] at he'
  subst he'
  rw [Entry.marks_eq_false_of_closes hc] at hm
  cases hm

/-- The first `ELSE` is the last branch, so there is only one. -/
theorem else_last (h : p.IsNested) {b : Nat} {e : Entry} (hb : b ∈ branchesOf p.entries i)
    (he : p.entries[b]? = some e) (hc : e.command = .else_) :
    elseOf p.entries i = some b ∧ (branchesOf p.entries i).getLast? = some b := by
  have hx := (Nested.mem_branchesOf.mp hb).choose_spec.2.2
  have hmem : b ∈ places p.entries fun e outer =>
      e.isElse && decide (outer.head? = some (.chain i)) :=
    mem_places.mpr ⟨e, he, by rw [hx]; simp [Entry.isElse, hc]⟩
  cases hfirst : elseOf p.entries i with
  | none =>
    rw [elseOf, List.head?_eq_none_iff] at hfirst
    rw [hfirst] at hmem
    cases hmem
  | some first =>
    have hlast := h.elseLast i first hfirst
    obtain ⟨rest, hrest⟩ := List.head?_eq_some_iff.mp hfirst
    obtain ⟨init, hinit⟩ := List.getLast?_eq_some_iff.mp hlast
    have hge : first ≤ b := by
      have hsorted := places_pairwise p.entries fun e outer =>
        e.isElse && decide (outer.head? = some (.chain i))
      rw [hrest] at hmem hsorted
      rcases List.mem_cons.mp hmem with rfl | hmem
      · exact Nat.le_refl _
      · exact Nat.le_of_lt (List.rel_of_pairwise_cons hsorted hmem)
    have hle : b ≤ first := by
      have hsorted := Nested.branchesOf_pairwise p.entries i
      rw [hinit] at hsorted
      rw [hinit] at hb
      rcases List.mem_append.mp hb with hb | hb
      · exact Nat.le_of_lt ((List.pairwise_append.mp hsorted).2.2 b hb first List.mem_cons_self)
      · exact Nat.le_of_eq (List.mem_singleton.mp hb)
    obtain rfl := Nat.le_antisymm hle hge
    exact ⟨rfl, hlast⟩

theorem chainOf_ok (h : p.IsNested) {c : Chain} :
    p.chains.chainOf k = .ok c ↔
      p.chains.chains.get? c.ifIndex = some c ∧
        (k = c.ifIndex ∨ k ∈ c.branches ∨ c.endIndex = some k) := by
  have hget {i : Nat} : p.chains.members.get? k = some i ∧ p.chains.chains.get? i = some c ↔
      c.ifIndex = i ∧ p.chains.chains.get? c.ifIndex = some c ∧
        (k = c.ifIndex ∨ k ∈ c.branches ∨ c.endIndex = some k) := by
    rw [h.chains.members]
    constructor
    · rintro ⟨hmember, hc⟩
      obtain ⟨-, rfl⟩ := (h.chains.chains i c).mp hc
      exact ⟨rfl, hc, hmember.imp_left And.left⟩
    · rintro ⟨rfl, hc, hmember⟩
      obtain ⟨hopen, heq⟩ := (h.chains.chains _ c).mp hc
      refine ⟨hmember.imp (fun hk => ⟨hk, hopen⟩) (Or.imp (fun hb => ?_) fun he => ?_), hc⟩
      · rw [heq] at hb
        exact hb
      · rw [heq] at he
        exact he
  unfold ChainTable.chainOf
  cases hbind : (p.chains.members.get? k).bind fun i => p.chains.chains.get? i with
  | some c' =>
    rw [Except.ok.injEq]
    obtain ⟨i, hi, hc⟩ := Option.bind_eq_some_iff.mp hbind
    constructor
    · rintro rfl
      exact (hget.mp ⟨hi, hc⟩).2
    · intro hc'
      have := hget.mpr ⟨rfl, hc'⟩
      rw [hi, Option.some.injEq] at this
      rw [this.1, this.2, Option.some.injEq] at hc
      exact hc.symm
  | none =>
    refine iff_of_false nofun fun hc => ?_
    obtain ⟨hi, hc⟩ := hget.mpr ⟨rfl, hc⟩
    rw [hi, Option.bind_some, hc] at hbind
    cases hbind

/-- The members of a chain lead to it. -/
theorem chainOf_eq (h : p.IsNested) (ho : Opens p.entries (.chain i))
    (hk : k = i ∨ k ∈ branchesOf p.entries i ∨ Closes p.entries (.chain i) k) :
    p.chains.chainOf k = .ok (chainAt p.entries i) := by
  refine h.chainOf_ok.mpr ⟨(h.chains.chains i _).mpr ⟨ho, rfl⟩, ?_⟩
  exact hk.imp id (Or.imp id fun hclose => h.nested.endOf_eq_some.mpr hclose)

theorem ending_eq (h : p.IsNested) (hclose : Closes p.entries (.chain i) j) :
    (chainAt p.entries i).ending = .ok j := by
  have hend : (chainAt p.entries i).endIndex = some j := h.nested.endOf_eq_some.mpr hclose
  rw [Chain.ending, hend]

/-- From every member of a chain that ends, another one follows. -/
theorem exists_following (h : p.IsNested) (hclose : Closes p.entries (.chain i) j) (k : Nat) :
    ∃ next, (chainAt p.entries i).following k = .ok next := by
  have hend : (chainAt p.entries i).endIndex = some j := h.nested.endOf_eq_some.mpr hclose
  unfold Chain.following
  rw [hend]
  cases (chainAt p.entries i).branches.find? fun b => decide (k < b) with
  | none => exact ⟨j, rfl⟩
  | some b => exact ⟨b, rfl⟩

/-- A loop that stands in a program is in its table. -/
theorem loop_eq (h : p.IsNested) {id : LoopId} (hclose : Closes p.entries (.loop id) j) :
    ∃ l, p.loops.loop id = .ok l ∧ l.id = id ∧ l.exitIndex = .ok (j + 1) := by
  have ho := (h.nested.index_lt_of_closes hclose).2
  obtain ⟨l, hl⟩ := Option.isSome_iff_exists.mp ((h.loops.opens id).mpr ho)
  refine ⟨l, LoopTable.loop_ok.mpr hl, h.loops.id_eq id l hl, ?_⟩
  rw [Loop.exitIndex, (h.endIndex_loop hl).mpr hclose]

theorem exists_loop (h : p.IsNested) {id : LoopId} (ho : Opens p.entries (.loop id)) :
    ∃ l j, p.loops.loop id = .ok l ∧ l.exitIndex = .ok j := by
  obtain ⟨j, hclose⟩ := h.exists_closes ho
  obtain ⟨l, hl, -, hexit⟩ := h.loop_eq hclose
  exact ⟨l, _, hl, hexit⟩

/-- Only the `EXIT` at the end has no command behind it. -/
theorem succ_lt (h : p.IsNested) {e : Entry} (he : p.entries[k]? = some e)
    (hc : e.command ≠ .exit) : k + 1 < p.size := by
  obtain ⟨last, hlast, hexit⟩ := h.exit
  rw [List.getLast?_eq_getElem?, p.length_entries] at hlast
  have hk := (List.getElem?_eq_some_iff.mp he).1
  rw [p.length_entries] at hk
  have hne : k ≠ p.size - 1 := by
    rintro rfl
    rw [he, Option.some.injEq] at hlast
    exact hc (hlast ▸ hexit)
  omega

/-- The members of a chain behind its `IF` stand directly inside it. -/
theorem around_member (h : p.IsNested) {c : Chain} (hc : p.chains.chains.get? i = some c)
    (hk : k ∈ c.branches ∨ c.endIndex = some k) : p.around k = .chain i :: p.around i := by
  rcases hk with hk | hk
  · rw [((h.chains.chains i c).mp hc).2] at hk
    obtain ⟨_, _, _, hx⟩ := Nested.mem_branchesOf.mp hk
    exact h.nested.around_head hx
  · obtain ⟨_, _, _, hx⟩ := (h.endIndex_chain hc).mp hk
    exact h.nested.around_head hx

theorem member_lt (h : p.IsNested) {c : Chain} (hc : p.chains.chains.get? i = some c)
    (hk : k ∈ c.branches ∨ c.endIndex = some k) : k < p.size := by
  have hlt {e : Entry} (he : p.entries[k]? = some e) : k < p.size :=
    p.length_entries ▸ (List.getElem?_eq_some_iff.mp he).1
  rcases hk with hk | hk
  · rw [((h.chains.chains i c).mp hc).2] at hk
    obtain ⟨_, he, -⟩ := Nested.mem_branchesOf.mp hk
    exact hlt he
  · obtain ⟨_, he, -⟩ := (h.endIndex_chain hc).mp hk
    exact hlt he

/-- Behind its `ENDFOR` a loop is as it was in front of its `FOR`. -/
theorem around_exit (h : p.IsNested) {id : LoopId} {l : Loop} (hl : p.loops.loop id = .ok l)
    (hj : l.exitIndex = .ok j) : p.around j = p.around id.index ∧ j < p.size := by
  obtain ⟨e, he, rfl⟩ := Loop.exitIndex_ok hj
  have hclose := (h.endIndex_loop (LoopTable.loop_ok.mp hl)).mp he
  obtain ⟨entry, hentry, hc⟩ := h.nested.command_of_closes_loop hclose
  exact ⟨h.nested.around_succ_of_closes hclose, h.succ_lt hentry (by simp [hc])⟩

/-- An `ENDIF` stands directly inside its chain, and behind it the chain is not open any more. -/
theorem around_endIf (h : p.IsNested) {e : Entry} (he : p.entries[k]? = some e)
    (hc : e.command = .endIf) :
    ∃ i, Closes p.entries (.chain i) k ∧ p.around k = .chain i :: p.around i ∧
      p.around (k + 1) = p.around i := by
  obtain ⟨i, hclose⟩ := h.nested.closes_of_endIf he hc
  obtain ⟨_, _, _, hx⟩ := id hclose
  exact ⟨i, hclose, h.nested.around_head hx, h.nested.around_succ_of_closes hclose⟩

/-- In its body a loop is open inside what is open around its `FOR`. -/
theorem around_body (h : p.IsNested) {id : LoopId} {l : Loop} (hl : p.loops.loop id = .ok l) :
    p.around l.bodyIndex = .loop id :: p.around id.index ∧ l.bodyIndex < p.size := by
  have hget := LoopTable.loop_ok.mp hl
  have hopen := (h.loops.opens id).mp (Option.isSome_iff_exists.mpr ⟨l, hget⟩)
  obtain ⟨e, he, hc⟩ := Nested.command_of_opens_loop hopen
  rw [Loop.bodyIndex, h.loops.id_eq id l hget]
  exact ⟨Nested.around_succ_of_opens hopen, h.succ_lt he (by simp [hc])⟩

/-- A call leads to where only the subroutine is open. -/
theorem around_target (h : p.IsNested) {e : Entry} {name : String} {target : Nat}
    (he : p.entries[k]? = some e) (hc : e.command = .gosub name target) :
    p.around (target + 1) = [.sub target name] ∧ target + 1 < p.size := by
  have hopen := h.gosub k e name target he hc
  obtain ⟨opening, last, hopening, hcommand⟩ := Nested.command_of_opens_sub hopen
  exact ⟨(Nested.around_succ_of_opens hopen).trans
    (congrArg _ (h.nested.around_of_opens_sub hopen)), h.succ_lt hopening (by simp [hcommand])⟩

/-- Behind a call the same is open as in front of it. -/
theorem around_behind_call (h : p.IsNested) {e : Entry} {name : String} {target : Nat}
    (he : p.entries[k]? = some e) (hc : e.command = .gosub name target) :
    p.around (k + 1) = p.around k ∧ k + 1 < p.size :=
  ⟨Nested.around_succ_of_neither he (by rw [Entry.opening?, hc]) (by rw [Entry.closes, hc]),
    h.succ_lt he (by simp [hc])⟩

/-- Behind a subroutine the same is open as in front of it. -/
theorem around_behind_sub (h : p.IsNested) {e : Entry} {name : String} {last : Nat}
    (he : p.entries[k]? = some e) (hc : e.command = .sub name last) :
    p.around (last + 1) = p.around k ∧ last + 1 < p.size := by
  have hclose := h.sub k e name last he hc
  obtain ⟨ending, hending, hcommand⟩ := h.nested.command_of_closes_sub hclose
  exact ⟨h.nested.around_succ_of_closes hclose, h.succ_lt hending (by simp [hcommand])⟩

theorem branch_owner (h : p.IsNested) {e : Entry} (he : p.entries[k]? = some e)
    (hm : e.marks = true) : ∃ i, k ∈ branchesOf p.entries i ∧ Opens p.entries (.chain i) := by
  have hf := h.nested.fits he
  have hx : ∃ i, (CommandScript.around p.entries k).head? = some (.chain i) := by
    cases hc : e.command <;> simp_all [Entry.marks, Entry.Fits]
  obtain ⟨i, hx⟩ := hx
  exact ⟨i, Nested.mem_branchesOf.mpr ⟨e, he, hm, hx⟩,
    (h.nested.opens_of_mem (List.mem_of_head? hx)).2⟩

/-- An `IF`, a branch or an `ENDIF` is a member of a chain. -/
theorem exists_member (h : p.IsNested) {e : Entry} (he : p.entries[k]? = some e)
    (hm : (∃ c, e.command = .if_ c) ∨ e.marks = true ∨ e.command = .endIf) :
    ∃ i, Opens p.entries (.chain i) ∧
      (k = i ∨ k ∈ branchesOf p.entries i ∨ Closes p.entries (.chain i) k) := by
  rcases hm with ⟨c, hc⟩ | hm | hc
  · exact ⟨k, h.nested.opens_chain he hc, .inl rfl⟩
  · obtain ⟨i, hb, ho⟩ := h.branch_owner he hm
    exact ⟨i, ho, .inr (.inl hb)⟩
  · obtain ⟨i, hclose⟩ := h.nested.closes_of_endIf he hc
    exact ⟨i, (h.nested.index_lt_of_closes hclose).2, .inr (.inr hclose)⟩

/-- A branch belongs to the innermost chain only. -/
theorem branch_unique {b : Nat} (hi : b ∈ branchesOf p.entries i) (hj : b ∈ branchesOf p.entries j) :
    i = j := by
  obtain ⟨_, _, _, hi⟩ := Nested.mem_branchesOf.mp hi
  obtain ⟨_, _, _, hj⟩ := Nested.mem_branchesOf.mp hj
  cases hi.symm.trans hj
  rfl

end IsNested

end Program

end CommandScript
