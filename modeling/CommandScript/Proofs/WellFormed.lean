import CommandScript.Proofs.Assembly.Coherent
import CommandScript.Proofs.Script.Compile

/-!
# Well-formed programs

What can be said of the commands and the tables of a program without knowing how they were made: the
commands are the lines outside the startup block and an `EXIT`, every `IF` and `FOR` has its end,
every branch and end has its block, blocks are nested or disjoint, and a command that leaves a loop
or goes on with it means the innermost one. `wellFormed_of_compile` says that the program of every
script is so.
-/

namespace CommandScript

/-- The loop that the command goes on with or leaves. -/
def Command.loopLeft? : Command → Option LoopId
  | .next id | .skip id | .skipIf id _ | .break_ id | .breakIf id _ => some id
  | _ => none

namespace Program

/-- The blocks of a program, each by its first and its last command. -/
inductive Span (p : Program) : Nat → Nat → Prop where
  | chain {i j c} : p.chains.chains.get? i = some c → c.endIndex = some j → Span p i j
  | loop {id j l} : Assoc.get? id p.loops = some l → l.endIndex = some j → Span p id.index j

/-- The chain has its `IF` at `i`, its `ENDIF` at `j` and its branches in between. -/
structure HoldsChain (p : Program) (c : Chain) (i j : Nat) : Prop where
  ifIndex : c.ifIndex = i
  endIndex : c.endIndex = some j
  lt : i < j
  ending : ∃ e : Entry, p.commands[j]? = some e ∧ e.command = .endIf
  sorted : c.branches.Pairwise (· < ·)
  between : ∀ b ∈ c.branches, i < b ∧ b < j
  branch : ∀ b ∈ c.branches, ∃ e : Entry, p.commands[b]? = some e ∧
    ((∃ condition, e.command = .elseIf condition) ∨ e.command = .else_)
  /-- An `ELSE` is the only one and stands last. -/
  elseLast : ∀ (b : Nat) (e : Entry), b ∈ c.branches → p.commands[b]? = some e → e.command = .else_ →
    c.elseIndex = some b ∧ c.branches.getLast? = some b

structure WellFormed (p : Program) (script : String) : Prop where
  index_eq : ∀ k (e : Entry), p.commands[k]? = some e → e.index = k
  /-- The commands stand for the lines outside the startup block, in order. -/
  lines : p.commands.toList.dropLast.map (fun e => (e.line, e.text, some e.command.keyword)) =
    (Script.outsideStartup false (Script.lines script)).map fun l =>
      (l.number, l.text, l.commandKeyword?)
  increasing : (p.commands.toList.map (·.line)).Pairwise (· < ·)
  exit : ∃ line, p.commands.toList.getLast? = some ⟨p.size - 1, line, "EXIT", .exit⟩
  chain : ∀ k (e : Entry) condition, p.commands[k]? = some e → e.command = .if_ condition →
    ∃ c j, p.chains.chains.get? k = some c ∧ p.HoldsChain c k j
  /-- The table holds no other chains. -/
  if_ : ∀ i c, p.chains.chains.get? i = some c →
    ∃ (e : Entry) (condition : Condition), p.commands[i]? = some e ∧ e.command = .if_ condition
  loop : ∀ k (e : Entry) id, p.commands[k]? = some e → e.command = .for_ id →
    id.index = k ∧ ∃ l j, Assoc.get? id p.loops = some l ∧ l.id = id ∧ l.endIndex = some j ∧ k < j ∧
      ∃ e : Entry, p.commands[j]? = some e ∧ e.command = .endFor id
  /-- The table holds no other loops. -/
  for_ : ∀ id l, Assoc.get? id p.loops = some l →
    ∃ e : Entry, p.commands[id.index]? = some e ∧ e.command = .for_ id
  branch : ∀ k (e : Entry), p.commands[k]? = some e →
    (∃ condition, e.command = .elseIf condition) ∨ e.command = .else_ →
    ∃ i c, p.chains.chains.get? i = some c ∧ k ∈ c.branches ∧
      ∀ i' c', p.chains.chains.get? i' = some c' → k ∈ c'.branches → i' = i
  endIf : ∀ k (e : Entry), p.commands[k]? = some e → e.command = .endIf →
    ∃ i c, p.chains.chains.get? i = some c ∧ c.endIndex = some k ∧
      ∀ i' c', p.chains.chains.get? i' = some c' → c'.endIndex = some k → i' = i
  endFor : ∀ k (e : Entry) id, p.commands[k]? = some e → e.command = .endFor id →
    ∃ l, Assoc.get? id p.loops = some l ∧ l.endIndex = some k ∧
      ∀ id' l', Assoc.get? id' p.loops = some l' → l'.endIndex = some k → id' = id
  /-- The members of a chain, and only they, lead to it. -/
  member : ∀ k c, p.chains.chainOf k = .ok c ↔
    p.chains.chains.get? c.ifIndex = some c ∧
      (k = c.ifIndex ∨ k ∈ c.branches ∨ c.endIndex = some k)
  /-- Blocks are nested or disjoint. -/
  spans : ∀ i j i' j', p.Span i j → p.Span i' j' → i < i' → j < i' ∨ j' < j
  span_unique : ∀ i j j', p.Span i j → p.Span i j' → j = j'
  innermost : ∀ k (e : Entry) id, p.commands[k]? = some e → e.command.loopLeft? = some id →
    p.Surrounds id k ∧ ∀ other, p.Surrounds other k → other.index ≤ id.index
  /-- A loop is not inside another one of its name. -/
  name : ∀ k (e : Entry) id other, p.commands[k]? = some e → e.command = .for_ id → p.Surrounds other k →
    other.name ≠ id.name

namespace IsNested

variable {p : Program} {i j k : Nat}

theorem closes_of_span (h : p.IsNested) (hs : p.Span i j) :
    ∃ x : Opening, x.index = i ∧ x.sub? = none ∧ Closes p.entries x j := by
  cases hs with
  | chain hc hj => exact ⟨.chain i, rfl, rfl, (h.endIndex_chain hc).mp hj⟩
  | @loop id _ l hl hj => exact ⟨.loop id, rfl, rfl, (h.endIndex_loop hl).mp hj⟩

theorem holdsChain (h : p.IsNested) (hj : Closes p.entries (.chain i) j) :
    p.HoldsChain (chainAt p.entries i) i j where
  ifIndex := rfl
  endIndex := h.nested.endOf_eq_some.mpr hj
  lt := (h.nested.index_lt_of_closes hj).1
  ending := by
    obtain ⟨e, he, hc⟩ := h.nested.command_of_closes_chain hj
    exact ⟨e, p.getElem?_entries j ▸ he, hc⟩
  sorted := Nested.branchesOf_pairwise p.entries i
  between b hb := ⟨h.branch_index_lt hb, h.branch_lt_end hb hj⟩
  branch b hb := by
    obtain ⟨e, he, hm, -⟩ := Nested.mem_branchesOf.mp hb
    refine ⟨e, p.getElem?_entries b ▸ he, ?_⟩
    cases hc : e.command <;> simp [Entry.marks, hc] at hm ⊢
  elseLast b e hb he hc := h.else_last hb (p.getElem?_entries b ▸ he) hc

end IsNested

end Program

namespace Script

open Program

variable {settings : Settings} {script : String} {log : Log} {p : Program}

/-- The commands of a program are its lines outside the startup block and an `EXIT`. -/
theorem Compiles.commands_eq {d : Declarations} {a : Assembly}
    (h : Compiles settings script log p d a) :
    ∃ es, p.commands.toList =
        es ++ [⟨p.size - 1, Assembly.lastNumber (Script.lines script), "EXIT", .exit⟩] ∧
      es.map (fun e => (e.line, e.text, some e.command.keyword)) =
        (outsideStartup false (Script.lines script)).map fun l =>
          (l.number, l.text, l.commandKeyword?) := by
  obtain ⟨m, found, -, hw⟩ := h.walks
  obtain ⟨a', hf, rfl⟩ := h.finishes
  have hcommands : (programOf d a').commands.toList = _ := hf.commands
  have hsize : (programOf d a').size - 1 = a.commands.size := by
    rw [← length_entries, entries, hcommands, List.length_append, List.length_map,
      Array.length_toList]
    rfl
  refine ⟨_, hsize ▸ hcommands, ?_⟩
  rw [List.map_map]
  simp only [Function.comp_def, Assembly.join_line, Assembly.join_text, Assembly.join_keyword]
  exact hw.lays

theorem number_lt_lastNumber {ls : List Line} (h : ls.Pairwise fun l m => l.number < m.number)
    {l : Line} (hl : l ∈ ls) : l.number < Assembly.lastNumber ls := by
  unfold Assembly.lastNumber
  split
  · rename_i last hlast
    obtain ⟨init, rfl⟩ := List.getLast?_eq_some_iff.mp hlast
    rcases List.mem_append.mp hl with hl | hl
    · exact Nat.lt_succ_of_lt ((List.pairwise_append.mp h).2.2 l hl last List.mem_cons_self)
    · rw [List.mem_singleton.mp hl]
      exact Nat.lt_succ_self _
  · rename_i hnone
    rw [List.getLast?_eq_none_iff.mp hnone] at hl
    cases hl

theorem Compiles.increasing {d : Declarations} {a : Assembly}
    (h : Compiles settings script log p d a) :
    (p.commands.toList.map (·.line)).Pairwise (· < ·) := by
  obtain ⟨es, hes, hlines⟩ := h.commands_eq
  have hnumbers : es.map (·.line) = (outsideStartup false (Script.lines script)).map (·.number) := by
    have := congrArg (List.map Prod.fst) hlines
    simpa only [List.map_map, Function.comp_def] using this
  have hsub := outsideStartup_sublist false (Script.lines script)
  have hpair := lines_pairwise script
  rw [hes, List.map_append, hnumbers, List.map_singleton, List.pairwise_append]
  refine ⟨List.pairwise_map.mpr (hpair.sublist hsub), List.pairwise_singleton _ _, ?_⟩
  intro n hn m hm
  obtain ⟨l, hl, rfl⟩ := List.mem_map.mp hn
  rw [List.mem_singleton.mp hm]
  exact number_lt_lastNumber hpair (hsub.subset hl)

/-- The program of every script is well-formed. -/
theorem wellFormed_of_compile (h : (compile settings script log).1 = .ok p) :
    p.WellFormed script := by
  obtain ⟨d, a, h⟩ := exists_compiles h
  have hp := h.isNested
  have hn := hp.nested
  obtain ⟨es, hes, hlines⟩ := h.commands_eq
  have hget {k : Nat} {e : Entry} (he : p.commands[k]? = some e) : p.entries[k]? = some e :=
    (p.getElem?_entries k).trans he
  have hchain {i j : Nat} {c : Chain} (hc : p.chains.chains.get? i = some c)
      (hj : c.endIndex = some j) := (hp.endIndex_chain hc).mp hj
  refine {
    index_eq := fun k e he => hn.index_eq (hget he)
    lines := by rw [hes, List.dropLast_concat, hlines]
    increasing := h.increasing
    exit := ⟨_, by rw [hes, List.getLast?_concat]⟩
    chain := fun k e condition he hc => ?chain
    if_ := fun i c hi => ?if_
    loop := fun k e id he hc => ?loop
    for_ := fun id l hl => ?for_
    branch := fun k e he hc => ?branch
    endIf := fun k e he hc => ?endIf
    endFor := fun k e id he hc => ?endFor
    member := fun k c => hp.chainOf_ok
    spans := fun i j i' j' hs hs' hlt => ?spans
    span_unique := fun i j j' hs hs' => ?span_unique
    innermost := fun k e id he hc => ?innermost
    name := fun k e id other he hc hs => ?name }
  case chain =>
    have hopen := hn.opens_chain (hget he) hc
    obtain ⟨j, hj⟩ := hp.exists_closes hopen
    exact ⟨_, j, (hp.chains.chains k _).mpr ⟨hopen, rfl⟩, hp.holdsChain hj⟩
  case if_ =>
    obtain ⟨e, condition, he, hc⟩ := Nested.command_of_opens_chain ((hp.chains.chains i c).mp hi).1
    exact ⟨e, condition, p.getElem?_entries i ▸ he, hc⟩
  case loop =>
    obtain ⟨rfl, hopen⟩ := hn.opens_loop (hget he) hc
    obtain ⟨j, hj⟩ := hp.exists_closes hopen
    obtain ⟨l, hl⟩ := Option.isSome_iff_exists.mp ((hp.loops.opens id).mpr hopen)
    obtain ⟨e', he', hc'⟩ := hn.command_of_closes_loop hj
    exact ⟨rfl, l, j, hl, hp.loops.id_eq id l hl, (hp.endIndex_loop hl).mpr hj,
      (hn.index_lt_of_closes hj).1, e', p.getElem?_entries j ▸ he', hc'⟩
  case for_ =>
    have hopen := (hp.loops.opens id).mp (Option.isSome_iff_exists.mpr ⟨l, hl⟩)
    obtain ⟨e, he, hc⟩ := Nested.command_of_opens_loop hopen
    exact ⟨e, p.getElem?_entries id.index ▸ he, hc⟩
  case branch =>
    have hm : e.marks = true := by
      rcases hc with ⟨condition, hc⟩ | hc <;> simp [Entry.marks, hc]
    obtain ⟨i, hi, hopen⟩ := hp.branch_owner (hget he) hm
    refine ⟨i, _, (hp.chains.chains i _).mpr ⟨hopen, rfl⟩, hi, fun i' c' hc' hk => ?_⟩
    rw [((hp.chains.chains i' c').mp hc').2] at hk
    exact IsNested.branch_unique hk hi
  case endIf =>
    obtain ⟨i, hclose⟩ := hn.closes_of_endIf (hget he) hc
    refine ⟨i, _, (hp.chains.chains i _).mpr ⟨(hn.index_lt_of_closes hclose).2, rfl⟩,
      hn.endOf_eq_some.mpr hclose, fun i' c' hc' hk => ?_⟩
    cases Nested.opening_unique (hchain hc' hk) hclose
    rfl
  case endFor =>
    have hclose : Closes p.entries (.loop id) k := hn.closes_of_endFor (hget he) hc
    obtain ⟨l, hl⟩ := Option.isSome_iff_exists.mp
      ((hp.loops.opens id).mpr (hn.index_lt_of_closes hclose).2)
    refine ⟨l, hl, (hp.endIndex_loop hl).mpr hclose, fun id' l' hl' hk => ?_⟩
    cases Nested.opening_unique ((hp.endIndex_loop hl').mp hk) hclose
    rfl
  case spans =>
    obtain ⟨x, rfl, -, hx⟩ := hp.closes_of_span hs
    obtain ⟨y, rfl, -, hy⟩ := hp.closes_of_span hs'
    exact hn.nested_or_disjoint hx hy hlt
  case span_unique =>
    obtain ⟨x, rfl, -, hx⟩ := hp.closes_of_span hs
    obtain ⟨y, hxy, -, hy⟩ := hp.closes_of_span hs'
    obtain ⟨e, he, ho⟩ := (hn.index_lt_of_closes hy).2
    rw [hxy] at he
    rw [Nested.eq_of_opens he ho (hn.index_lt_of_closes hx).2 rfl] at hy
    exact hn.closes_unique hx hy
  case innermost =>
    have hf := hn.fits (hget he)
    have hx : (loopsOf (p.around k)).head? = some id := by
      cases hcmd : e.command <;> simp [Command.loopLeft?, hcmd] at hc <;>
        simpa [Entry.Fits, hcmd, hc, Program.around] using hf
    refine ⟨hp.surrounds_iff.mpr (mem_loopsOf.mp (List.mem_of_head? hx)), fun other ho => ?_⟩
    exact hn.index_le_of_head_loops hx (hp.surrounds_iff.mp ho)
  case name =>
    have hf := hn.fits (hget he)
    rw [Entry.Fits, hc] at hf
    exact hf.2 other (mem_loopsOf.mpr (hp.surrounds_iff.mp hs))

theorem wellFormed_blocks :
    ∃ p, (compile {} blocks).1 = .ok p ∧ p.WellFormed blocks := by
  obtain ⟨p, hp⟩ := blocks_compile
  exact ⟨p, hp, wellFormed_of_compile hp⟩

end Script

end CommandScript
