import CommandScript.Proofs.Script.Variables
import CommandScript.Proofs.WellFormed

/-!
# The walks agree

What the first walk says about the lines of a script fits what the second one makes of them: the
subroutines stand where they were declared, their ranges keep apart from each other and from other
blocks, calls lead to them, and the store holds the variables that the `ALLOCATE` lines name, each
where it belongs. `walksAgree_of_compile` says so of the program of every script.
-/

namespace CommandScript

namespace Program

/-- The command at `k` allocates the name, and what is local to its place belongs to `owner`. -/
structure AllocatesFor (p : Program) (k : Nat) (scope : Scope) (type : ValueType)
    (name owner : String) : Prop where
  command : ∃ (e : Entry) (names : List String), p.commands[k]? = some e ∧
    e.command = .allocate scope type names ∧ name ∈ names
  owner : ∃ body, p.LiesIn k body ∧ owner = body.getD mainOwner

/-- The program fits the subroutines that were declared and the variables that were allocated. -/
structure WalksAgree (p : Program) (declared : SubroutineTable) : Prop where
  declared : p.subroutines.map (fun s => (s.name, s.startLine, s.endLine)) =
    declared.map fun s => (s.name, s.startLine, s.endLine)
  range : ∀ s ∈ p.subroutines, ∃ i j first last, s.startIndex = some i ∧ s.endIndex = some j ∧
    i < j ∧ p.commands[i]? = some first ∧ first.command = .sub s.name j ∧
    first.line = s.startLine ∧ p.commands[j]? = some last ∧ last.command = .endSub ∧
    s.endLine = some last.line
  /-- Subroutines lie behind one another. -/
  disjoint : ∀ s ∈ p.subroutines, ∀ t ∈ p.subroutines, s.name ≠ t.name → ∀ i j i' j',
    s.startIndex = some i → s.endIndex = some j → t.startIndex = some i' → t.endIndex = some j' →
    j < i' ∨ j' < i
  /-- No chain and no loop goes over the border of a subroutine. -/
  blocks : ∀ i j (k : Nat) (e : Entry), p.Span i j → p.commands[k]? = some e →
    e.command.keyword = .sub ∨ e.command.keyword = .endSub → k < i ∨ j < k
  gosub : ∀ (k : Nat) (e : Entry) name target, p.commands[k]? = some e → e.command = .gosub name target →
    ∃ s ∈ p.subroutines, s.name = name ∧ s.startIndex = some target
  calls : ∀ s ∈ p.subroutines, s.calls.Pairwise (· < ·) ∧ ∀ k, k ∈ s.calls ↔
    ∃ (e : Entry) (target : Nat), p.commands[k]? = some e ∧ e.command = .gosub s.name target
  /-- An `ALLOCATE` command says what its line says. -/
  allocate : ∀ (k : Nat) (e : Entry) scope type names, p.commands[k]? = some e →
    e.command = .allocate scope type names →
    ∃ rest, Script.Line.statement? ⟨e.line, e.text⟩ = some (.allocate, rest) ∧
      Script.readAllocation rest = .ok (scope, type, names)
  globals : ∀ name v, p.store.globals.get? name = some v ↔
    ∃ k type owner, p.AllocatesFor k .global type name owner ∧ v = .fresh type .global owner
  locals : ∀ owner name v, p.store.locals.get? (owner, name) = some v ↔
    ∃ k type, p.AllocatesFor k .owned type name owner ∧ v = .fresh type .owned owner
  /-- No local has the name of a global or of a reserved variable. -/
  unshadowed : ∀ owner name v, p.store.locals.get? (owner, name) = some v →
    p.store.globals.get? name = none ∧ Reserved.ofName? name = none

end Program

namespace Script

open Program

variable {d d' : Declarations} {a a' : Assembly} {l : Line} {ls : List Line}

/-! ### The names and lines of the table -/

/-- What the first walk knows of the subroutines. -/
def linesOf (t : SubroutineTable) : List (String × Nat × Option Nat) :=
  t.map fun s => (s.name, s.startLine, s.endLine)

theorem linesOf_update {f : Subroutine → Subroutine}
    (hf : ∀ s, ((f s).name, (f s).startLine, (f s).endLine) = (s.name, s.startLine, s.endLine))
    (t : SubroutineTable) (name : String) : linesOf (t.update name f) = linesOf t := by
  rw [linesOf, SubroutineTable.update, List.map_map, linesOf]
  refine List.map_congr_left fun s _ => ?_
  show (fun s : Subroutine => (s.name, s.startLine, s.endLine)) (if s.name = name then f s else s) = _
  split
  · exact hf s
  · rfl

theorem get?_eq_of_linesOf {t u : SubroutineTable} (h : linesOf t = linesOf u) (name : String) :
    (t.get? name).map (fun s => (some s.startLine, s.endLine)) =
      (u.get? name).map fun s => (some s.startLine, s.endLine) := by
  have get? (t : SubroutineTable) : (t.get? name).map (fun s => (some s.startLine, s.endLine)) =
      ((linesOf t).find? fun x => x.1 == name).map fun x => (some x.2.1, x.2.2) := by
    rw [linesOf, List.find?_map, Option.map_map]
    rfl
  rw [get?, get?, h]

/-- The second walk keeps what the first one knows of the subroutines. -/
theorem linesOf_takes (h : Assembly.Takes a l a') : linesOf a'.subroutines = linesOf a.subroutines := by
  have change {k : Keyword} {rest : String} {r : Option Command} {b : Assembly}
      (h : Assembly.Change a k rest r b) : linesOf b.subroutines = linesOf a.subroutines := by
    cases h with
    | sub | endSub | gosub =>
      refine linesOf_update ?_ _ _
      exact fun _ => rfl
    | _ => rfl
  cases h with
  | silent h =>
    cases h with
    | inside => rfl
    | statement _ _ h => exact change h
  | command h =>
    cases h with
    | options => rfl
    | statement _ _ h =>
      have := change h
      exact this

/-- No name stands twice in the table. -/
def Distinct (t : SubroutineTable) : Prop := t.Pairwise fun s u => s.name ≠ u.name

theorem Distinct.insert {s : Subroutine} {t : SubroutineTable} (h : Distinct t)
    (hs : t.get? s.name = none) : Distinct (SubroutineTable.insert s t) := by
  have hne (u : Subroutine) (hu : u ∈ t) : u.name ≠ s.name := by
    have := List.find?_eq_none.mp hs u hu
    simpa using this
  clear hs
  induction t with
  | nil => exact List.pairwise_singleton _ _
  | cons u t ih =>
    obtain ⟨hu, ht⟩ := List.pairwise_cons.mp h
    unfold SubroutineTable.insert
    split
    · exact .cons (fun v hv => (hne v hv).symm) h
    · refine .cons (fun v hv => ?_) (ih ht fun v hv => hne v (List.mem_cons_of_mem u hv))
      rcases SubroutineTable.mem_insert.mp hv with rfl | hv
      · exact hne u List.mem_cons_self
      · exact hu v hv

theorem Distinct.get?_of_mem {t : SubroutineTable} (h : Distinct t) {s : Subroutine} (hs : s ∈ t) :
    t.get? s.name = some s := by
  induction t with
  | nil => cases hs
  | cons u t ih =>
    obtain ⟨hu, ht⟩ := List.pairwise_cons.mp h
    rw [SubroutineTable.get?, List.find?_cons]
    rcases List.mem_cons.mp hs with rfl | hs
    · rw [beq_self_eq_true]
    · rw [beq_eq_false_iff_ne.mpr (hu s hs)]
      exact ih ht hs

theorem distinct_iff (t : SubroutineTable) :
    Distinct t ↔ (linesOf t).Pairwise fun x y => x.1 ≠ y.1 := by
  rw [linesOf, List.pairwise_map]
  rfl

theorem Distinct.of_linesOf {t u : SubroutineTable} (h : Distinct t) (hu : linesOf u = linesOf t) :
    Distinct u := by
  rw [distinct_iff, hu, ← distinct_iff]
  exact h

theorem mem_of_get? {t : SubroutineTable} {name : String} {s : Subroutine} (h : t.get? name = some s) :
    s ∈ t ∧ s.name = name := by
  refine ⟨List.mem_of_find?_eq_some h, ?_⟩
  have := List.find?_some h
  simpa using this

/-- The first walk declares no name twice and allocates no locals. -/
theorem declares_takes (h : Declarations.Takes d l d') (hd : Distinct d.subroutines) :
    Distinct d'.subroutines ∧ d'.memory.store.locals = d.memory.store.locals := by
  cases h with
  | inside _ h =>
    rw [h.subroutines, h.store]
    exact ⟨hd, rfl⟩
  | silent => exact ⟨hd, rfl⟩
  | statement _ _ h =>
    cases h with
    | allocate _ hg => exact ⟨hd, (globals_of_allocateAll hg).1⟩
    | sub _ _ hnew =>
      obtain ⟨hnone, rfl⟩ := SubroutineTable.declare_ok hnew
      exact ⟨hd.insert hnone, rfl⟩
    | endSub =>
      refine ⟨List.pairwise_map.mpr (hd.imp fun {s t} hne => ?_), rfl⟩
      have hname (s : Subroutine) {name : String} :
          (if s.name = name then { s with endLine := some l.number } else s).name = s.name := by
        split <;> rfl
      rw [hname, hname]
      exact hne
    | _ => exact ⟨hd, rfl⟩

theorem declares_walks (h : Declarations.Walks d ls d') (hd : Distinct d.subroutines) :
    Distinct d'.subroutines ∧ d'.memory.store.locals = d.memory.store.locals := by
  induction h with
  | nil => exact ⟨hd, rfl⟩
  | cons ht _ ih =>
    obtain ⟨hd, hlocals⟩ := declares_takes ht hd
    exact ⟨(ih hd).1, (ih hd).2.trans hlocals⟩

/-! ### Both walks -/

/-- An `ALLOCATE` command says what its line says. -/
def AllocatesLine (e : Entry) : Prop :=
  ∀ scope type names, e.command = .allocate scope type names →
    ∃ rest, Line.statement? ⟨e.line, e.text⟩ = some (.allocate, rest) ∧
      readAllocation rest = .ok (scope, type, names)

theorem allocatesLine_takes (h : Assembly.Takes a l a')
    (hes : ∀ e ∈ a.commands.toList, AllocatesLine e) : ∀ e ∈ a'.commands.toList, AllocatesLine e := by
  have concat {c : Command} (hc : AllocatesLine (a.entryOf l c)) :
      ∀ e ∈ a.commands.toList ++ [a.entryOf l c], AllocatesLine e := by
    intro e he
    rcases List.mem_append.mp he with he | he
    · exact hes e he
    · rw [List.mem_singleton.mp he]
      exact hc
  cases h with
  | silent h =>
    cases h with
    | inside => exact hes
    | statement _ _ h =>
      cases h with
      | startup => exact hes
  | command h =>
    cases h with
    | options =>
      rw [Assembly.pushed_commands]
      exact concat fun _ _ _ heq => by cases heq
    | statement _ hs h =>
      rw [Change.pushed_commands h]
      refine concat fun scope type names heq => ?_
      obtain rfl : _ = Command.allocate scope type names := heq
      cases h with
      | simple hk hread =>
        obtain ⟨_, heq, hkey⟩ := Context.readCommand_keyword hk hread
        cases heq
        rw [← hkey] at hk
        cases hk
      | allocate hr => exact ⟨_, hs, hr⟩

/-- What both walks have come to fits. -/
structure Agree (d : Declarations) (a : Assembly) : Prop where
  lockstep : Lockstep d a
  coherent : a.Coherent
  ranges : RangesOf d.subroutines a.commands.toList
  allocated : Allocated d a
  lines : ∀ e ∈ a.commands.toList, AllocatesLine e

theorem Agree.takes (h : Agree d a) (hd : Declarations.Takes d l d') (ha : Assembly.Takes a l a') :
    Agree d' a' ∧ a'.memory.store.globals = a.memory.store.globals := by
  obtain ⟨ht, hl⟩ := h.lockstep.takes hd ha
  have hc := h.coherent.takes ha
  exact ⟨⟨hl, hc, h.ranges.together h.coherent hc.nested ht,
    h.allocated.together h.lockstep h.coherent ht, allocatesLine_takes ha h.lines⟩, ht.globals_eq⟩

theorem Agree.walks (h : Agree d a) (hd : Declarations.Walks d ls d') (ha : Assembly.Walks a ls a') :
    Agree d' a' ∧ a'.memory.store.globals = a.memory.store.globals ∧
      linesOf a'.subroutines = linesOf a.subroutines := by
  induction hd generalizing a with
  | nil =>
    cases ha
    exact ⟨h, rfl, rfl⟩
  | cons hd _ ih =>
    cases ha with
    | cons ha hrest =>
      obtain ⟨h, hglobals⟩ := h.takes hd ha
      obtain ⟨h', hglobals', hlines⟩ := ih h hrest
      exact ⟨h', hglobals'.trans hglobals, hlines.trans (linesOf_takes ha)⟩

variable {settings : Settings} {script : String} {log : Log} {p : Program}

/-- Before the end of the script the walks agree. -/
theorem Compiles.agree (h : Compiles settings script log p d a) :
    Agree d a ∧ Distinct d.subroutines ∧ linesOf a.subroutines = linesOf d.subroutines ∧
      a.memory.store.globals = d.memory.store.globals := by
  obtain ⟨m, found, hm, hw⟩ := h.walks
  obtain ⟨hd, hlocals⟩ := declares_walks h.declares .nil
  have hlocals : m.store.locals = [] := hm ▸ hlocals
  have start : Agree (beforeFirst settings log)
      { memory := m, findings := found, subroutines := d.subroutines } := by
    have hnone (k : Nat) (scope : Scope) (type : ValueType) (name : String) :
        ¬ Allocates [] k scope type name := fun ⟨_, _, he, _⟩ => by cases he
    refine ⟨⟨rfl, rfl⟩, .start (h.declares.fresh fun s hs => by cases hs), fun name => rfl, ⟨?_, ?_, ?_⟩,
      fun e he => by cases he⟩
    · exact fun name v => iff_of_false nofun fun ⟨k, type, hk, _⟩ => hnone _ _ _ _ hk
    · intro owner name v
      rw [hlocals]
      exact iff_of_false nofun fun ⟨k, type, hk, _⟩ => hnone _ _ _ _ hk
    · intro owner name v hv
      rw [hlocals] at hv
      cases hv
  obtain ⟨hagree, hglobals, hlines⟩ := start.walks h.declares hw
  exact ⟨hagree, hd, hlines, hglobals.trans (congrArg Store.globals hm)⟩

/-! ### The end of the script -/

section Join

open Assembly

variable {t : SubroutineTable} {es : List Entry} {k : Nat} {scope : Scope} {type : ValueType}
  {name : String}

theorem join_allocate {e : Entry} {names : List String} :
    (join t e).command = .allocate scope type names ↔ e.command = .allocate scope type names := by
  cases hc : e.command <;> simp [join, hc]

theorem rangeOf_joined : rangeOf (es.map (join t)) name = rangeOf es name := by
  have hline : lineAt (es.map (join t)) = lineAt es := by
    funext k
    rw [lineAt, List.getElem?_map, Option.map_map, lineAt]
    exact congrArg (Option.map · _) (funext fun e => join_line t e)
  rw [rangeOf, startOf_joined, subEndOf_joined, hline, rangeOf]

theorem allocates_joined :
    Allocates (es.map (join t)) k scope type name ↔ Allocates es k scope type name := by
  simp only [Allocates, List.getElem?_map, Option.map_eq_some_iff]
  constructor
  · rintro ⟨_, names, ⟨e, he, rfl⟩, hc, hname⟩
    exact ⟨e, names, he, join_allocate.mp hc, hname⟩
  · rintro ⟨e, names, he, hc, hname⟩
    exact ⟨_, names, ⟨e, he, rfl⟩, join_allocate.mpr hc, hname⟩

theorem ownerAt_joined : ownerAt (es.map (join t)) k = ownerAt es k := by
  rw [ownerAt, around_joined, ownerAt]

end Join

namespace Compiles

theorem entries_eq (h : Compiles settings script log p d a) :
    p.entries = a.commands.toList.map (Assembly.join a.subroutines) ++
      [⟨a.commands.size, Assembly.lastNumber (Script.lines script), "EXIT", .exit⟩] := by
  obtain ⟨a', hf, rfl⟩ := h.finishes
  exact hf.commands

theorem tables_eq (h : Compiles settings script log p d a) :
    p.subroutines = a.subroutines ∧ p.store = a.memory.store := by
  obtain ⟨a', hf, rfl⟩ := h.finishes
  exact ⟨hf.subroutines, hf.store⟩

theorem ranges (h : Compiles settings script log p d a) : RangesOf p.subroutines p.entries := by
  obtain ⟨hagree, -, hlines, -⟩ := h.agree
  intro name
  rw [h.tables_eq.1, get?_eq_of_linesOf hlines, hagree.ranges name, h.entries_eq,
    rangeOf_concat_of_not rfl rfl, rangeOf_joined]

theorem globals (h : Compiles settings script log p d a) : GlobalsOf p.store p.entries := by
  obtain ⟨hagree, -, -, hglobals⟩ := h.agree
  rw [h.entries_eq]
  refine GlobalsOf.concat (fun name v => ?_) fun _ _ => nofun
  simp only [allocates_joined, ownerAt_joined]
  rw [h.tables_eq.2, hglobals]
  exact hagree.allocated.globals name v

theorem locals (h : Compiles settings script log p d a) : LocalsOf p.store p.entries := by
  rw [h.entries_eq]
  refine LocalsOf.concat (fun owner name v => ?_) fun _ _ => nofun
  simp only [allocates_joined, ownerAt_joined]
  rw [h.tables_eq.2]
  exact h.agree.1.allocated.locals owner name v

theorem closed (h : Compiles settings script log p d a) : ∀ s ∈ p.subroutines, s.endLine.isSome := by
  intro s hs
  have hmem : (s.name, s.startLine, s.endLine) ∈ linesOf d.subroutines := by
    rw [← h.agree.2.2.1, ← h.tables_eq.1]
    exact List.mem_map_of_mem hs
  obtain ⟨s', hs', heq⟩ := List.mem_map.mp hmem
  have hend : s'.endLine = s.endLine := congrArg (fun x => x.2.2) heq
  rw [← hend]
  exact h.ends.closed s' hs'

theorem distinct (h : Compiles settings script log p d a) : Distinct p.subroutines := by
  obtain ⟨-, hd, hlines, -⟩ := h.agree
  exact hd.of_linesOf (h.tables_eq.1 ▸ hlines)

/-- A subroutine of the table begins and ends on the lines where it was declared. -/
theorem range (h : Compiles settings script log p d a) {s : Subroutine} (hs : s ∈ p.subroutines) :
    ∃ i j, Closes p.entries (.sub i s.name) j ∧ s.startIndex = some i ∧ s.endIndex = some j ∧
      lineAt p.entries i = some s.startLine ∧ lineAt p.entries j = s.endLine := by
  have hp := h.isNested
  have hget := h.distinct.get?_of_mem hs
  have hrange := h.ranges s.name
  rw [hget, Option.map_some, rangeOf] at hrange
  obtain ⟨i, hi, hlines⟩ := Option.map_eq_some_iff.mp hrange.symm
  obtain ⟨hfirst, hlast⟩ := Prod.mk.inj hlines
  obtain ⟨line, hline⟩ := Option.isSome_iff_exists.mp (h.closed s hs)
  obtain ⟨j, hj, hjline⟩ := Option.bind_eq_some_iff.mp (hlast.trans hline)
  have hend : s.endIndex = some j := (hp.subroutines.endIndex s.name s hget).trans hj
  obtain ⟨i', hclose⟩ := (hp.endIndex_sub hget).mp hend
  obtain rfl := hp.subroutines.unique i i' s.name (hp.nested.opens_of_startOf hi)
    (hp.nested.index_lt_of_closes hclose).2
  exact ⟨i, j, hclose, (hp.subroutines.startIndex s.name s hget).trans hi, hend, hfirst,
    hjline.trans hline.symm⟩

/-- The commands at both ends of a subroutine of the table. -/
theorem brackets (h : Compiles settings script log p d a) {s : Subroutine}
    (hs : s ∈ p.subroutines) : ∃ i j first last, s.startIndex = some i ∧ s.endIndex = some j ∧
      i < j ∧ p.entries[i]? = some first ∧ first.command = .sub s.name j ∧
      first.line = s.startLine ∧ p.entries[j]? = some last ∧ last.command = .endSub ∧
      s.endLine = some last.line := by
  have hp := h.isNested
  obtain ⟨i, j, hclose, hi, hj, hfirst, hlast⟩ := h.range hs
  obtain ⟨hlt, hopen⟩ := hp.nested.index_lt_of_closes hclose
  obtain ⟨last, hlastEntry, hend⟩ := hp.nested.command_of_closes_sub hclose
  obtain ⟨first, last', hfirstEntry, hsub⟩ := Nested.command_of_opens_sub hopen
  obtain rfl := hp.nested.closes_unique hclose (hp.sub i first s.name last' hfirstEntry hsub)
  rw [lineAt, hfirstEntry, Option.map_some, Option.some.injEq] at hfirst
  rw [lineAt, hlastEntry, Option.map_some] at hlast
  exact ⟨i, j, first, last, hi, hj, hlt, hfirstEntry, hsub, hfirst, hlastEntry, hend, hlast.symm⟩

end Compiles

section Nested

variable {i j k : Nat} {e : Entry} {name owner : String}

theorem lt_of_sub_lt (hp : p.IsNested) {other : String} (hclose : Closes p.entries (.sub i name) j)
    (hopen : Opens p.entries (.sub k other)) (hlt : i < k) : j < k := by
  have hnil := hp.nested.around_of_opens_sub hopen
  refine Nat.lt_of_not_le fun hle => ?_
  have hmem := (hp.nested.mem_around_iff_of_closes hclose).mpr ⟨hlt, hle⟩
  rw [hnil] at hmem
  cases hmem

/-- Where a subroutine begins or ends, no chain and no loop is open. -/
theorem sub_of_mem_around (hp : p.IsNested) (he : p.entries[k]? = some e)
    (hc : e.command.keyword = .sub ∨ e.command.keyword = .endSub) {x : Opening}
    (hx : x ∈ p.around k) : ∃ i name, x = .sub i name := by
  rcases hc with hc | hc <;> cases hcmd : e.command <;> rw [hcmd] at hc <;> cases hc
  · rw [Program.around, hp.nested.around_of_opens_sub (hp.nested.opens_sub he hcmd)] at hx
    cases hx
  · obtain ⟨i, name, heq⟩ := hp.nested.around_of_endSub he hcmd
    rw [Program.around, heq, List.mem_singleton] at hx
    exact ⟨i, name, hx⟩

/-- A `SUB` or an `ENDSUB` stands outside every chain and every loop. -/
theorem apart_of_span (hp : p.IsNested) (hspan : p.Span i j) (he : p.entries[k]? = some e)
    (hc : e.command.keyword = .sub ∨ e.command.keyword = .endSub) : k < i ∨ j < k := by
  obtain ⟨x, rfl, hx, hclose⟩ := hp.closes_of_span hspan
  by_cases hlt : k < x.index
  · exact .inl hlt
  · refine .inr (Nat.lt_of_not_le fun hle => ?_)
    have hne : x.index ≠ k := by
      rintro rfl
      obtain ⟨e', he', ho⟩ := (hp.nested.index_lt_of_closes hclose).2
      rw [he, Option.some.injEq] at he'
      subst he'
      rcases hc with hc | hc <;> cases hcmd : e.command <;> simp [hcmd, Command.keyword] at hc
      · simp only [Entry.opening?, hcmd, Option.some.injEq] at ho
        rw [← ho] at hx
        cases hx
      · simp [Entry.opening?, hcmd] at ho
    have hmem := (hp.nested.mem_around_iff_of_closes hclose).mpr ⟨by omega, hle⟩
    obtain ⟨i, name, rfl⟩ := sub_of_mem_around hp he hc hmem
    cases hx

theorem mem_callsOf : k ∈ callsOf p.entries name ↔
    ∃ (e : Entry) (target : Nat), p.entries[k]? = some e ∧ e.command = .gosub name target := by
  rw [callsOf, mem_places]
  constructor
  · rintro ⟨e, he, hcall⟩
    cases hc : e.command <;> simp [Entry.callsSub, hc] at hcall
    subst hcall
    exact ⟨e, _, he, hc⟩
  · rintro ⟨e, target, he, hc⟩
    exact ⟨e, he, by simp [Entry.callsSub, hc]⟩

theorem allocatesFor_iff (hp : p.IsNested) {scope : Scope} {type : ValueType} :
    p.AllocatesFor k scope type name owner ↔
      Allocates p.entries k scope type name ∧ owner = ownerAt p.entries k := by
  have hget (e : Entry) : p.entries[k]? = some e ↔ p.commands[k]? = some e := by
    rw [p.getElem?_entries]
  constructor
  · rintro ⟨⟨e, names, he, hc⟩, body, hbody, rfl⟩
    rw [hp.liesIn_iff] at hbody
    exact ⟨⟨e, names, (hget e).mpr he, hc⟩, congrArg (Option.getD · mainOwner) hbody.symm⟩
  · rintro ⟨⟨e, names, he, hc⟩, rfl⟩
    exact ⟨⟨e, names, (hget e).mp he, hc⟩, _, hp.liesIn_iff.mpr rfl, rfl⟩

end Nested

/-- Two subroutines of the table lie behind one another. -/
theorem Compiles.apart (h : Compiles settings script log p d a) {s t : Subroutine}
    (hs : s ∈ p.subroutines) (ht : t ∈ p.subroutines) (hne : s.name ≠ t.name) {i j i' j' : Nat}
    (hi : s.startIndex = some i) (hj : s.endIndex = some j) (hi' : t.startIndex = some i')
    (hj' : t.endIndex = some j') : j < i' ∨ j' < i := by
  have hp := h.isNested
  obtain ⟨_, _, hclose, hsi, hsj, -⟩ := h.range hs
  obtain ⟨_, _, hclose', hti, htj, -⟩ := h.range ht
  cases hsi.symm.trans hi
  cases hsj.symm.trans hj
  cases hti.symm.trans hi'
  cases htj.symm.trans hj'
  have hopen := (hp.nested.index_lt_of_closes hclose).2
  have hopen' := (hp.nested.index_lt_of_closes hclose').2
  rcases Nat.lt_trichotomy i i' with hlt | rfl | hlt
  · exact .inl (lt_of_sub_lt hp hclose hopen' hlt)
  · obtain ⟨e, he, ho⟩ := hopen
    exact absurd (Opening.sub.inj (Nested.eq_of_opens he ho hopen' rfl)).2 hne
  · exact .inr (lt_of_sub_lt hp hclose' hopen hlt)

/-- The walks over a script that compiles agree. -/
theorem walksAgree_of_compile (h : (compile settings script log).1 = .ok p) :
    p.WalksAgree (declaredSubs settings script log) := by
  obtain ⟨d, a, h⟩ := exists_compiles h
  have hp := h.isNested
  have hget (k : Nat) : p.entries[k]? = p.commands[k]? := p.getElem?_entries k
  refine ⟨?declared, ?range, ?disjoint, ?blocks, ?gosub, ?calls, ?allocate, ?globals, ?locals,
    ?unshadowed⟩
  case declared =>
    rw [h.declared]
    exact h.tables_eq.1 ▸ h.agree.2.2.1
  case range =>
    simp only [← hget]
    exact fun s hs => h.brackets hs
  case disjoint => exact fun s hs t ht hne i j i' j' => h.apart hs ht hne
  case blocks =>
    exact fun i j k e hspan he => apart_of_span hp hspan ((hget k).trans he)
  case gosub =>
    intro k e name target he hc
    have hopen := hp.gosub k e name target ((hget k).trans he) hc
    obtain ⟨s, hs⟩ := Option.isSome_iff_exists.mp (hp.subroutines.contains target name hopen)
    exact ⟨s, (mem_of_get? hs).1, (mem_of_get? hs).2, (hp.startIndex_sub hs).mpr hopen⟩
  case calls =>
    intro s hs
    rw [hp.subroutines.calls s.name s (h.distinct.get?_of_mem hs)]
    refine ⟨places_pairwise _ _, fun k => ?_⟩
    simp only [← hget]
    exact mem_callsOf
  case allocate =>
    intro k e scope type names he hc
    have hmem := List.mem_of_getElem? ((hget k).trans he)
    rw [h.entries_eq, List.mem_append, List.mem_map, List.mem_singleton] at hmem
    rcases hmem with ⟨e', he', rfl⟩ | rfl
    · have := h.agree.1.lines e' he' scope type names (join_allocate.mp hc)
      rwa [Assembly.join_line, Assembly.join_text]
    · cases hc
  case globals =>
    intro name v
    rw [h.globals name v]
    simp only [allocatesFor_iff hp]
    constructor
    · rintro ⟨k, type, hk, rfl⟩
      exact ⟨k, type, _, ⟨hk, rfl⟩, rfl⟩
    · rintro ⟨k, type, _, ⟨hk, rfl⟩, rfl⟩
      exact ⟨k, type, hk, rfl⟩
  case locals =>
    intro owner name v
    rw [h.locals owner name v]
    simp only [allocatesFor_iff hp, and_assoc]
  case unshadowed =>
    rw [h.tables_eq.2]
    exact h.agree.1.allocated.unshadowed

theorem walksAgree_blocks :
    ∃ p, (compile {} blocks).1 = .ok p ∧ p.WalksAgree (declaredSubs {} blocks {}) := by
  obtain ⟨p, hp⟩ := blocks_compile
  exact ⟨p, hp, walksAgree_of_compile hp⟩

end Script

end CommandScript
