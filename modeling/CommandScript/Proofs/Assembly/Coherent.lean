import CommandScript.Proofs.Assembly.Walk
import CommandScript.Proofs.Nesting.Tables

/-!
# The invariant of the second walk

The stacks of an assembly are what the scan of its commands finds open, and its tables describe its
commands. The two stacks know nothing of each other; that the innermost chain and the innermost loop
close in the right order comes from the levels, which count the openings of the other kind.
-/

namespace CommandScript.Assembly

open Script

structure Coherent (a : Assembly) : Prop where
  nested : Nested a.commands.toList
  openChains : a.openChains = chainsOf (around a.commands.toList a.index)
  openLoops : a.openLoops = loopsOf (around a.commands.toList a.index)
  current : a.current = subOf? (around a.commands.toList a.index)
  chains : a.chains.Describes a.commands.toList
  loops : a.loops.Describes a.commands.toList
  subroutines : a.subroutines.Describes a.commands.toList
  /-- No branch stands behind the `ELSE` of its chain. -/
  elseLast : ∀ i b, elseOf a.commands.toList i = some b →
    (branchesOf a.commands.toList i).getLast? = some b

/-- The entry that a line becomes. -/
def entryOf (a : Assembly) (l : Line) (c : Command) : Entry :=
  ⟨a.index, l.number, l.text, c⟩

variable {a b : Assembly} {l : Line} {c : Command}

@[simp] theorem pushed_commands (a : Assembly) (l : Line) (c : Command) :
    (a.pushed l c).commands.toList = a.commands.toList ++ [a.entryOf l c] := by
  simp only [pushed, Array.toList_push, entryOf]

theorem index_eq_length (a : Assembly) : a.index = a.commands.toList.length := by
  rw [index, Array.length_toList]

theorem pushed_index (a : Assembly) (l : Line) (c : Command) :
    (a.pushed l c).index = a.commands.toList.length + 1 := by
  rw [index_eq_length, pushed_commands, List.length_append, List.length_singleton]

theorem elseOf_concat_of_not {es : List Entry} {e : Entry} {i : Nat}
    (h : e.isElse = false) : elseOf (es ++ [e]) i = elseOf es i := by
  rw [elseOf, places_concat_of_false (by rw [h, Bool.false_and]), elseOf]

/-- The invariant behind a command, part by part. -/
theorem Coherent.of_pushed (h : a.Coherent) (hb : b.commands = a.commands)
    (hfits : (a.entryOf l c).Fits (around a.commands.toList a.index))
    (hopenChains : b.openChains =
      chainsOf ((a.entryOf l c).nest (around a.commands.toList a.index)))
    (hopenLoops : b.openLoops =
      loopsOf ((a.entryOf l c).nest (around a.commands.toList a.index)))
    (hcurrent : b.current = subOf? ((a.entryOf l c).nest (around a.commands.toList a.index)))
    (hchains : b.chains.Describes (a.commands.toList ++ [a.entryOf l c]))
    (hloops : b.loops.Describes (a.commands.toList ++ [a.entryOf l c]))
    (hsubs : b.subroutines.Describes (a.commands.toList ++ [a.entryOf l c]))
    (helse : ∀ i j, elseOf (a.commands.toList ++ [a.entryOf l c]) i = some j →
      (branchesOf (a.commands.toList ++ [a.entryOf l c]) i).getLast? = some j) :
    (b.pushed l c).Coherent := by
  have hentry : b.entryOf l c = a.entryOf l c := by rw [entryOf, index, hb, entryOf, index]
  have hcommands : (b.pushed l c).commands.toList = a.commands.toList ++ [a.entryOf l c] := by
    rw [pushed_commands, hb, hentry]
  have hindex : (b.pushed l c).index = a.commands.toList.length + 1 := by
    rw [pushed_index, hb]
  have haround : around (b.pushed l c).commands.toList (b.pushed l c).index =
      (a.entryOf l c).nest (around a.commands.toList a.index) := by
    rw [hcommands, hindex, around_concat, index_eq_length]
  refine ⟨?_, ?_, ?_, ?_, ?_, ?_, ?_, ?_⟩
  · rw [hcommands]
    rw [index_eq_length] at hfits
    exact h.nested.concat a.index_eq_length hfits
  · rw [haround]
    exact hopenChains
  · rw [haround]
    exact hopenLoops
  · rw [haround]
    exact hcurrent
  · rw [hcommands]
    exact hchains
  · rw [hcommands]
    exact hloops
  · rw [hcommands]
    exact hsubs
  · rw [hcommands]
    exact helse

theorem Coherent.elseLast_of_not_marks (h : a.Coherent) {e : Entry} (hm : e.marks = false) :
    ∀ i j, elseOf (a.commands.toList ++ [e]) i = some j →
      (branchesOf (a.commands.toList ++ [e]) i).getLast? = some j := by
  have he : e.isElse = false :=
    Bool.eq_false_iff.mpr fun he => absurd (Entry.marks_of_isElse he) (by rw [hm]; decide)
  intro i j hj
  rw [elseOf_concat_of_not he] at hj
  rw [branchesOf_concat_of_not (.inl hm)]
  exact h.elseLast i j hj

theorem ends_of_not_closes {e : Entry} {outer : List Opening} {name : String}
    (h : e.closes = false) : e.ends outer name = false := by
  rw [Entry.ends, h, Bool.false_and]

theorem begins_of_opening_none {e : Entry} {name : String} (h : e.opening? = none) :
    e.begins name = false := by
  simp only [Entry.begins, h, Option.bind_none, reduceCtorEq, decide_false]

/-- A command that belongs to no block only has to stand where it may. -/
theorem Coherent.plain (h : a.Coherent) (m : Memory) (ho : (a.entryOf l c).opening? = none)
    (hc : (a.entryOf l c).closes = false) (hm : (a.entryOf l c).marks = false)
    (hcalls : ∀ name, (a.entryOf l c).callsSub name = false)
    (hfits : (a.entryOf l c).Fits (around a.commands.toList a.index)) :
    ({ a with memory := m }.pushed l c).Coherent := by
  have hne (x : Opening) : (a.entryOf l c).opening? ≠ some x := by rw [ho]; exact nofun
  refine h.of_pushed rfl hfits ?_ ?_ ?_ ?_ ?_ ?_ (h.elseLast_of_not_marks hm)
  · rw [nest_of_neither ho hc]
    exact h.openChains
  · rw [nest_of_neither ho hc]
    exact h.openLoops
  · rw [nest_of_neither ho hc]
    exact h.current
  · exact h.chains.concat (fun i => hne _) (.inl ⟨hc, hm⟩)
  · exact h.loops.concat (fun id => hne _) (.inl hc)
  · exact h.subroutines.concat fun name =>
      ⟨begins_of_opening_none ho, ends_of_not_closes hc, hcalls name⟩

theorem Coherent.simple (h : a.Coherent) (hk : c.keyword.isSimple = true) :
    (a.pushed l c).Coherent := by
  refine h.plain a.memory ?_ ?_ ?_ ?_ ?_
  all_goals
    cases c <;>
      first
      | rfl
      | trivial
      | intro name; rfl

/-- Inside a loop, that loop is the innermost. -/
theorem Coherent.head_loops (h : a.Coherent) {id : LoopId} {outer : List LoopId}
    (ho : a.openLoops = id :: outer) :
    (loopsOf (around a.commands.toList a.index)).head? = some id := by
  rw [← h.openLoops, ho, List.head?_cons]

theorem Coherent.chain_of_open (h : a.Coherent) {i : Nat} {outer : List Nat} {c : Chain}
    (ho : a.openChains = i :: outer) (hc : a.chains.chainOf i = .ok c)
    (hlevel : c.loopLevel = a.openLoops.length) :
    (around a.commands.toList a.commands.toList.length).head? = some (.chain i) := by
  have hchains := h.openChains.symm.trans ho
  have hmem : Opening.chain i ∈ around a.commands.toList a.index := by
    have : i ∈ chainsOf (around a.commands.toList a.index) := by rw [hchains]; exact List.mem_cons_self
    exact mem_chainsOf.mp this
  have hopen := (h.nested.opens_of_mem hmem).2
  have hmember : a.chains.members.get? i = some i := (h.chains.members i i).mpr (.inl ⟨rfl, hopen⟩)
  have hget : a.chains.chains.get? i = some (chainAt a.commands.toList i) :=
    (h.chains.chains i _).mpr ⟨hopen, rfl⟩
  simp only [ChainTable.chainOf, hmember, Option.bind_some, hget] at hc
  cases hc
  rw [← index_eq_length]
  refine h.nested.head_chain hchains ?_
  rw [← h.openLoops]
  exact hlevel

theorem Coherent.branch (h : a.Coherent) {chains : ChainTable}
    (hm : (a.entryOf l c).marks = true) (hcalls : ∀ name, (a.entryOf l c).callsSub name = false)
    (hbr : a.Branches (a.entryOf l c).isElse chains)
    (hfits : ∀ outer, (a.entryOf l c).Fits outer ↔ ∃ i, outer.head? = some (.chain i)) :
    ({ a with chains }.pushed l c).Coherent := by
  obtain ⟨i, outer, ch, hopen, hch, hlevel, hadd⟩ := hbr
  have hx := h.chain_of_open hopen hch hlevel
  rw [index_eq_length] at hadd
  have hclose := Entry.closes_eq_false_of_marks hm
  have ho : (a.entryOf l c).opening? = none := by
    cases ho : (a.entryOf l c).opening? with
    | none => rfl
    | some x => rw [Entry.marks_eq_false_of_opening ho] at hm; cases hm
  have hne (x : Opening) : (a.entryOf l c).opening? ≠ some x := by rw [ho]; exact nofun
  refine h.of_pushed rfl ((hfits _).mpr ⟨i, a.index_eq_length ▸ hx⟩) ?_ ?_ ?_
    (h.chains.addBranch h.nested hm hx hadd) ?_ ?_ fun j k hk => ?_
  · rw [nest_of_neither ho hclose]
    exact h.openChains
  · rw [nest_of_neither ho hclose]
    exact h.openLoops
  · rw [nest_of_neither ho hclose]
    exact h.current
  · exact h.loops.concat (fun id => hne _) (.inl hclose)
  · exact h.subroutines.concat fun name =>
      ⟨begins_of_opening_none ho, ends_of_not_closes hclose, hcalls name⟩
  · obtain ⟨ch', hch', helse, -⟩ := ChainTable.addBranch_ok hadd
    obtain ⟨-, rfl⟩ := (h.chains.chains i ch').mp hch'
    by_cases hj : j = i
    · subst hj
      have hchain := chainAt_concat_of_marks h.nested hm hx helse
      have helse' := (congrArg Chain.elseIndex hchain).symm.trans hk
      have hbranches : branchesOf _ j = _ := congrArg Chain.branches hchain
      rw [hbranches, List.getLast?_concat]
      dsimp only at helse'
      split at helse'
      · exact helse'
      · cases helse'
    · have hne' : (around a.commands.toList a.commands.toList.length).head? ≠ some (.chain j) := by
        rw [hx]
        simpa using Ne.symm hj
      rw [branchesOf_concat_of_not (.inr hne')]
      refine h.elseLast j k ?_
      rwa [elseOf, places_concat_of_false, ← elseOf] at hk
      rw [decide_eq_false hne', Bool.and_false]

theorem Coherent.endIf (h : a.Coherent) {i : Nat} {outer : List Nat} {ch : Chain}
    {chains : ChainTable} (hopen : a.openChains = i :: outer) (hch : a.chains.chainOf i = .ok ch)
    (hlevel : ch.loopLevel = a.openLoops.length)
    (hfinish : a.chains.finish i a.index = .ok chains) :
    ({ a with chains, openChains := outer }.pushed l .endIf).Coherent := by
  have hx := h.chain_of_open hopen hch hlevel
  have hhead := h.nested.around_head hx
  rw [index_eq_length] at hfinish
  have hc : (a.entryOf l .endIf).closes = true := rfl
  have hnest : (a.entryOf l .endIf).nest (around a.commands.toList a.index) =
      around a.commands.toList i := by
    rw [nest_of_closes hc, index_eq_length, hhead]
    rfl
  have hne (x : Opening) : (a.entryOf l .endIf).opening? ≠ some x := nofun
  refine h.of_pushed rfl ⟨i, a.index_eq_length ▸ hx⟩ ?_ ?_ ?_
    (h.chains.finish h.nested hc hx hfinish) ?_ ?_ (h.elseLast_of_not_marks rfl)
  · have := h.openChains
    rw [hopen, index_eq_length, hhead, chainsOf_chain] at this
    rw [hnest]
    exact (List.cons.inj this).2
  · have := h.openLoops
    rw [index_eq_length, hhead, loopsOf_chain] at this
    rw [hnest]
    exact this
  · have := h.current
    rw [index_eq_length, hhead, subOf?_chain] at this
    rw [hnest]
    exact this
  · exact h.loops.concat (fun id => hne _) (.inr fun id => by rw [hx]; nofun)
  · refine h.subroutines.concat fun name => ⟨rfl, ?_, rfl⟩
    rw [Entry.ends, hx]
    rfl

theorem Coherent.endFor (h : a.Coherent) {id : LoopId} {outer : List LoopId} {loop : Loop}
    {loops : LoopTable} (hopen : a.openLoops = id :: outer)
    (hfinish : a.loops.finish id a.index = .ok loops) (hloop : loops.loop id = .ok loop)
    (hlevel : loop.chainLevel = a.openChains.length) :
    ({ a with loops, openLoops := outer }.pushed l (.endFor id)).Coherent := by
  have hloops := h.openLoops.symm.trans hopen
  have hx : (around a.commands.toList a.commands.toList.length).head? = some (.loop id) := by
    rw [← index_eq_length]
    refine h.nested.head_loop hloops ?_
    rw [← h.openChains, ← hlevel]
    unfold LoopTable.finish at hfinish
    split at hfinish
    · exact (Checked.fail_ok.mp hfinish).elim
    · rename_i loop' hget
      cases hfinish
      simp only [LoopTable.loop, Assoc.get?_put, ↓reduceIte, Except.ok.injEq] at hloop
      rw [← hloop]
      exact (h.loops.chainLevel id loop' hget).symm
  have hhead := h.nested.around_head hx
  rw [index_eq_length] at hfinish
  have hc : (a.entryOf l (.endFor id)).closes = true := rfl
  have hnest : (a.entryOf l (.endFor id)).nest (around a.commands.toList a.index) =
      around a.commands.toList id.index := by
    rw [nest_of_closes hc, index_eq_length, hhead]
    rfl
  have hne (x : Opening) : (a.entryOf l (.endFor id)).opening? ≠ some x := by
    intro heq
    cases heq
  refine h.of_pushed rfl ?_ ?_ ?_ ?_ ?_
    (h.loops.finish h.nested hc hx hfinish) ?_ (h.elseLast_of_not_marks rfl)
  · rw [index_eq_length]
    exact hx
  · have := h.openChains
    rw [index_eq_length, hhead, chainsOf_loop] at this
    rw [hnest]
    exact this
  · have := h.openLoops
    rw [hopen, index_eq_length, hhead, loopsOf_loop] at this
    rw [hnest]
    exact (List.cons.inj this).2
  · have := h.current
    rw [index_eq_length, hhead, subOf?_loop] at this
    rw [hnest]
    exact this
  · exact h.chains.concat (fun i => hne _) (.inr fun i => by rw [hx]; intro heq; cases heq)
  · refine h.subroutines.concat fun name => ⟨rfl, ?_, rfl⟩
    rw [Entry.ends, hx]
    rfl

theorem Coherent.if_ (h : a.Coherent) (c : Condition) :
    ({ a with
        chains := a.chains.start a.index a.openLoops.length
        openChains := a.index :: a.openChains }.pushed l (.if_ c)).Coherent := by
  have ho : (a.entryOf l (.if_ c)).opening? = some (.chain a.index) := rfl
  have ho' : (a.entryOf l (.if_ c)).opening? = some (.chain a.commands.toList.length) := by
    rw [← index_eq_length]
    exact ho
  have hc := closes_eq_false_of_opening ho
  refine h.of_pushed rfl trivial ?_ ?_ ?_ ?_ ?_ ?_ (h.elseLast_of_not_marks rfl)
  · rw [nest_of_opening ho, chainsOf_chain, ← h.openChains]
  · rw [nest_of_opening ho, loopsOf_chain]
    exact h.openLoops
  · rw [nest_of_opening ho, subOf?_chain]
    exact h.current
  · rw [h.openLoops, index_eq_length]
    exact h.chains.start h.nested ho'
  · exact h.loops.concat (fun id => by rw [ho]; nofun) (.inl hc)
  · exact h.subroutines.concat fun name => ⟨rfl, ends_of_not_closes hc, rfl⟩

theorem Coherent.for_ (h : a.Coherent) {loop : Loop} (hindex : loop.id.index = a.index)
    (hlevel : loop.chainLevel = a.openChains.length) (hend : loop.endIndex = none)
    (hname : a.context.isLoop loop.id.name = false) :
    ({ a with
        loops := a.loops.add loop
        openLoops := loop.id :: a.openLoops }.pushed l (.for_ loop.id)).Coherent := by
  have ho : (a.entryOf l (.for_ loop.id)).opening? = some (.loop loop.id) := rfl
  have hc := closes_eq_false_of_opening ho
  refine h.of_pushed rfl ⟨hindex, fun other hother hsame => ?_⟩ ?_ ?_ ?_ ?_ ?_ ?_
    (h.elseLast_of_not_marks rfl)
  · rw [← h.openLoops] at hother
    have := List.any_eq_false.mp hname other hother
    exact this (by simp [hsame])
  · rw [nest_of_opening ho, chainsOf_loop]
    exact h.openChains
  · rw [nest_of_opening ho, loopsOf_loop, ← h.openLoops]
  · rw [nest_of_opening ho, subOf?_loop]
    exact h.current
  · exact h.chains.concat (fun i => by rw [ho]; nofun) (.inl ⟨hc, rfl⟩)
  · rw [h.openChains] at hlevel
    rw [index_eq_length] at hindex hlevel
    exact h.loops.add h.nested ho hindex hend hlevel
  · exact h.subroutines.concat fun name => ⟨rfl, ends_of_not_closes hc, rfl⟩

theorem Coherent.sub (h : a.Coherent) {name : String} {s : Subroutine} (hcurrent : a.current = none)
    (hchains : a.openChains = []) (hloops : a.openLoops = [])
    (hget : a.subroutines.get name = .ok s) (hstart : s.startIndex = none) :
    ({ a with
        subroutines := a.subroutines.update name fun s => { s with startIndex := some a.index }
        current := some name }.pushed l (.sub name 0)).Coherent := by
  have ho : (a.entryOf l (.sub name 0)).opening? = some (.sub a.index name) := rfl
  have hc := closes_eq_false_of_opening ho
  have hnil : around a.commands.toList a.index = [] :=
    Nested.around_eq_nil (h.openChains.symm.trans hchains) (h.openLoops.symm.trans hloops)
      (h.current.symm.trans hcurrent)
  have hs : a.subroutines.get? name = some s := by
    unfold SubroutineTable.get at hget
    split at hget
    · cases hget
      assumption
    · exact (Checked.fail_ok.mp hget).elim
  have hnone : startOf a.commands.toList name = none := by
    rw [← h.subroutines.startIndex name s hs, hstart]
  refine h.of_pushed rfl hnil ?_ ?_ ?_ ?_ ?_ ?_ (h.elseLast_of_not_marks rfl)
  · rw [nest_of_opening ho, chainsOf_sub]
    exact h.openChains
  · rw [nest_of_opening ho, loopsOf_sub]
    exact h.openLoops
  · rw [nest_of_opening ho, subOf?_sub]
  · exact h.chains.concat (fun i => by rw [ho]; nofun) (.inl ⟨hc, rfl⟩)
  · exact h.loops.concat (fun id => by rw [ho]; nofun) (.inl hc)
  · have hn := h.nested
    refine h.subroutines.concat_update (fun s => rfl) (fun i other hi => ?_) (fun i other hi => ?_)
      (fun other hne => ⟨?_, ends_of_not_closes hc, rfl⟩) fun s' hs' => ⟨?_, ?_, ?_⟩
    · rw [ho] at hi
      cases hi
      exact ⟨by rw [SubroutineTable.contains, hs, Option.isSome_some], hn.startOf_eq_none.mp hnone⟩
    · rw [ho] at hi
      cases hi
      exact a.index_eq_length
    · rw [Entry.begins, ho]
      simpa [Opening.sub?] using Ne.symm hne
    · rw [startOf_concat, hnone, Entry.begins, ho, index_eq_length]
      simp [Opening.sub?]
    · rw [subEndOf_concat, ends_of_not_closes hc, h.subroutines.endIndex name s' hs']
      exact (Option.or_none ..).symm
    · rw [callsOf_concat, h.subroutines.calls name s' hs']
      exact (List.append_nil _).symm

theorem Coherent.endSub (h : a.Coherent) {name : String} (hcurrent : a.current = some name)
    (hchains : a.openChains = []) (hloops : a.openLoops = []) :
    ({ a with
        subroutines := a.subroutines.update name fun s => { s with endIndex := some a.index }
        current := none }.pushed l .endSub).Coherent := by
  have ho : (a.entryOf l .endSub).opening? = none := rfl
  have hc : (a.entryOf l .endSub).closes = true := rfl
  obtain ⟨i, hx⟩ := Nested.head_sub (h.openChains.symm.trans hchains)
    (h.openLoops.symm.trans hloops) (h.current.symm.trans hcurrent)
  obtain ⟨outer, houter⟩ := List.head?_eq_some_iff.mp hx
  have houter' : around a.commands.toList a.index = [] ++ .sub i name :: outer := houter
  obtain rfl := h.nested.around_sub houter'
  have hnest : (a.entryOf l .endSub).nest (around a.commands.toList a.index) = [] := by
    rw [nest_of_closes hc, houter]
    rfl
  rw [index_eq_length] at hx
  have hne (x : Opening) : (a.entryOf l .endSub).opening? ≠ some x := nofun
  refine h.of_pushed rfl ⟨i, name, a.index_eq_length ▸ hx⟩ ?_ ?_ ?_ ?_ ?_ ?_
    (h.elseLast_of_not_marks rfl)
  · rw [hnest]
    exact hchains
  · rw [hnest]
    exact hloops
  · rw [hnest]
    rfl
  · exact h.chains.concat (fun i => hne _) (.inr fun i => by rw [hx]; nofun)
  · exact h.loops.concat (fun id => hne _) (.inr fun id => by rw [hx]; nofun)
  · have hends (other : String) :
        (a.entryOf l .endSub).ends (around a.commands.toList a.commands.toList.length) other =
          decide (name = other) := by
      rw [Entry.ends, hx, hc]
      simp [Opening.sub?]
    refine h.subroutines.concat_update (fun s => rfl) (fun i other hi => absurd hi (hne _))
      (fun i other hi => absurd hi (hne _)) (fun other hother => ⟨rfl, ?_, rfl⟩)
      fun s hs => ⟨?_, ?_, ?_⟩
    · rw [hends, decide_eq_false (Ne.symm hother)]
    · rw [startOf_concat, begins_of_opening_none ho, h.subroutines.startIndex name s hs]
      exact (Option.or_none ..).symm
    · have hnone := h.subroutines.subEndOf_eq_none h.nested (List.mem_of_head? hx)
      rw [subEndOf_concat, hnone, hends, index_eq_length]
      simp
    · rw [callsOf_concat, h.subroutines.calls name s hs]
      exact (List.append_nil _).symm

theorem Coherent.gosub (h : a.Coherent) (name : String) :
    ({ a with
        subroutines := a.subroutines.update name fun s =>
          { s with calls := s.calls ++ [a.index] } }.pushed l (.gosub name 0)).Coherent := by
  have ho : (a.entryOf l (.gosub name 0)).opening? = none := rfl
  have hc : (a.entryOf l (.gosub name 0)).closes = false := rfl
  have hne (x : Opening) : (a.entryOf l (.gosub name 0)).opening? ≠ some x := nofun
  refine h.of_pushed rfl trivial ?_ ?_ ?_ ?_ ?_ ?_ (h.elseLast_of_not_marks rfl)
  · rw [nest_of_neither ho hc]
    exact h.openChains
  · rw [nest_of_neither ho hc]
    exact h.openLoops
  · rw [nest_of_neither ho hc]
    exact h.current
  · exact h.chains.concat (fun i => hne _) (.inl ⟨hc, rfl⟩)
  · exact h.loops.concat (fun id => hne _) (.inl hc)
  · refine h.subroutines.concat_update (fun s => rfl) (fun i other hi => absurd hi (hne _))
      (fun i other hi => absurd hi (hne _))
      (fun other hother => ⟨rfl, ends_of_not_closes hc, decide_eq_false (Ne.symm hother)⟩)
      fun s hs => ⟨?_, ?_, ?_⟩
    · rw [startOf_concat, begins_of_opening_none ho, h.subroutines.startIndex name s hs]
      exact (Option.or_none ..).symm
    · rw [subEndOf_concat, ends_of_not_closes hc, h.subroutines.endIndex name s hs]
      exact (Option.or_none ..).symm
    · rw [callsOf_concat, h.subroutines.calls name s hs, index_eq_length]
      simp [Entry.callsSub, entryOf]

/-- Every change that a line makes keeps the invariant. -/
theorem Coherent.change (h : a.Coherent) {r : Option Command} {k : Keyword} {rest : String}
    (hr : Change a k rest r b) : match r with
      | some c => (b.pushed l c).Coherent
      | none => b.Coherent := by
  cases hr with
  | simple hk hread =>
    obtain ⟨cmd, heq, hcmd⟩ := Context.readCommand_keyword hk hread
    cases heq
    exact h.simple (hcmd ▸ hk)
  | allocate => exact h.plain _ rfl rfl rfl (fun _ => rfl) trivial
  | if_ => exact h.if_ _
  | elseIf _ hb => exact h.branch rfl (fun _ => rfl) hb fun _ => Iff.rfl
  | else_ hb => exact h.branch rfl (fun _ => rfl) hb fun _ => Iff.rfl
  | endIf ho hc hl hf => exact h.endIf ho hc hl hf
  | for_ hi hl he hn => exact h.for_ hi hl he hn
  | next ho => exact h.plain a.memory rfl rfl rfl (fun _ => rfl) (h.head_loops ho)
  | skip ho => exact h.plain a.memory rfl rfl rfl (fun _ => rfl) (h.head_loops ho)
  | skipIf ho => exact h.plain a.memory rfl rfl rfl (fun _ => rfl) (h.head_loops ho)
  | break_ ho => exact h.plain a.memory rfl rfl rfl (fun _ => rfl) (h.head_loops ho)
  | breakIf ho => exact h.plain a.memory rfl rfl rfl (fun _ => rfl) (h.head_loops ho)
  | endFor ho hf hl hlevel => exact h.endFor ho hf hl hlevel
  | sub _ hc hch hl hg hs => exact h.sub hc hch hl hg hs
  | endSub hc hch hl => exact h.endSub hc hch hl
  | gosub => exact h.gosub _
  | endMain hc => exact h.plain a.memory rfl rfl rfl (fun _ => rfl) (h.current.symm.trans hc)
  | startup => exact ⟨h.1, h.2, h.3, h.4, h.5, h.6, h.7, h.8⟩

theorem Coherent.takes {a' : Assembly} (h : a.Coherent) (ht : Takes a l a') : a'.Coherent := by
  cases ht with
  | silent hr =>
    cases hr with
    | inside => exact ⟨h.1, h.2, h.3, h.4, h.5, h.6, h.7, h.8⟩
    | statement _ _ hr => exact h.change (l := l) hr
  | command hr =>
    cases hr with
    | options => exact h.simple rfl
    | statement _ _ hr => exact h.change (l := l) hr

/-- The whole walk keeps the invariant. -/
theorem Coherent.walks {a' : Assembly} {lines : List Line} (h : a.Coherent)
    (hw : Walks a lines a') : a'.Coherent := by
  induction hw with
  | nil => exact h
  | cons ht _ ih => exact ih (h.takes ht)

/-- Nothing is known of the commands of the subroutines. -/
def Fresh (t : SubroutineTable) : Prop :=
  ∀ s ∈ t, s.startIndex = none ∧ s.endIndex = none ∧ s.calls = []

/-- The invariant holds before the first line. -/
theorem Coherent.start {m : Memory} {found : Findings} {t : SubroutineTable} (h : Fresh t) :
    Coherent { memory := m, findings := found, subroutines := t } where
  nested := .nil
  openChains := rfl
  openLoops := rfl
  current := rfl
  chains := {
    chains := fun i c => iff_of_false nofun fun ⟨⟨_, he, _⟩, _⟩ => by cases he
    members := fun k i => iff_of_false nofun (by
      rintro (⟨-, _, he, _⟩ | h | h)
      · cases he
      · cases h
      · cases h) }
  loops := {
    opens := fun id => iff_of_false nofun fun ⟨_, he, _⟩ => by cases he
    id_eq := nofun
    endIndex := nofun
    chainLevel := nofun }
  subroutines := {
    contains := fun i name ⟨_, he, _⟩ => by cases he
    unique := fun i j name ⟨_, he, _⟩ => by cases he
    startIndex := fun name s hs => (h s (List.mem_of_find?_eq_some hs)).1
    endIndex := fun name s hs => (h s (List.mem_of_find?_eq_some hs)).2.1
    calls := fun name s hs => (h s (List.mem_of_find?_eq_some hs)).2.2 }
  elseLast := fun i b hb => by cases hb

end CommandScript.Assembly

/-!
## The lines of the commands

The second walk passes over the lines of the startup block and makes one command of every other
line, in order.
-/

namespace CommandScript.Assembly

open Script

variable {a a' : Assembly} {l : Line} {lines : List Line}

theorem Change.keyword_eq {k : Keyword} {rest : String} {c : Command}
    (h : Change a k rest (some c) a') : c.keyword = k := by
  cases h with
  | simple hk hread =>
    obtain ⟨cmd, heq, hcmd⟩ := Context.readCommand_keyword hk hread
    cases heq
    exact hcmd
  | _ => rfl

theorem Change.kept {k : Keyword} {rest : String} {c : Command}
    (h : Change a k rest (some c) a') :
    a'.commands = a.commands ∧ a'.inStartup = a.inStartup ∧ k ≠ .startup := by
  cases h with
  | simple hk => exact ⟨rfl, rfl, fun h => by rw [h] at hk; cases hk⟩
  | _ => exact ⟨rfl, rfl, nofun⟩

/-- A line of the startup block becomes no command, any other one becomes the next command. -/
inductive Lays (a : Assembly) (l : Line) (a' : Assembly) : Prop where
  | inside : a.inStartup = true → a'.inStartup = decide (l.keyword? ≠ some .endStartup) →
      a'.commands = a.commands → Lays a l a'
  | startup : a.inStartup = false → l.keyword? = some .startup → a'.inStartup = true →
      a'.commands = a.commands → Lays a l a'
  | command {c} : a.inStartup = false → l.keyword? ≠ some .startup → a'.inStartup = false →
      l.commandKeyword? = some c.keyword → a'.commands = a.commands.push (a.entryOf l c) →
      Lays a l a'

theorem Takes.lays (h : Takes a l a') : Lays a l a' := by
  cases h with
  | silent h =>
    cases h with
    | inside hin => exact .inside hin rfl rfl
    | statement hout hs h =>
      cases h with
      | startup => exact .startup hout (Line.keyword?_of_statement? hs) rfl rfl
  | @command c b h =>
    cases h with
    | options hout hopt =>
      refine .command hout (fun hk => ?_) hout (by rw [Line.commandKeyword?, if_pos hopt]; rfl) rfl
      rw [(Line.keyword?_eq_some.mp hk).1] at hopt
      cases hopt
    | statement hout hs h =>
      obtain ⟨hcommands, hstartup, hk⟩ := h.kept
      have hkey := Line.keyword?_of_statement? hs
      have hopt := (Line.keyword?_eq_some.mp hkey).1
      refine .command (c := c) hout (by rw [hkey]; simpa using hk) (hstartup.trans hout) ?_ ?_
      · rw [Line.commandKeyword?, hopt, hkey, h.keyword_eq]
        rfl
      · rw [pushed, hcommands]
        simp only [entryOf, index, hcommands]

theorem Walks.lays (h : Walks a lines a') :
    a'.commands.toList.map (fun e => (e.line, e.text, some e.command.keyword)) =
      a.commands.toList.map (fun e => (e.line, e.text, some e.command.keyword)) ++
        (outsideStartup a.inStartup lines).map fun l => (l.number, l.text, l.commandKeyword?) := by
  induction h with
  | nil => rw [outsideStartup, List.map_nil, List.append_nil]
  | cons ht _ ih =>
    rw [ih, outsideStartup]
    cases ht.lays with
    | inside hin hin' hc => rw [if_pos hin, hin', hc]
    | startup hout hk hin' hc =>
      rw [hc, hin', hout, if_neg Bool.false_ne_true, if_pos hk]
    | command hout hk hout' hkey hc =>
      rw [hout, hout', if_neg Bool.false_ne_true, if_neg hk, hc, Array.toList_push, List.map_append,
        List.append_assoc]
      simp only [List.map_cons, hkey]
      rfl

end CommandScript.Assembly
