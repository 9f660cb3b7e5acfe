import CommandScript.Proofs.Assembly.Reading
import CommandScript.Proofs.Script.Agreement
import CommandScript.Proofs.Store.Fits

/-!
# The contexts in which commands were compiled

`Script.contextOf` is the context that the second walk gave the line of a command: it knows the
variables that were allocated by then. The whole program knows all variables, and at the place of a
command (`Program.contextAt`) it gives every name the type that the line had for it, so it admits the
command as well.
-/

namespace CommandScript

/-- What can be read at the command at `k`. -/
def Program.contextAt (p : Program) (k : Nat) : Context where
  store := p.store
  owner := Script.ownerAt p.entries k
  loops := loopsOf (p.around k)

namespace Script

/-- What the second walk had come to in front of the line that became the command at `k`. -/
def inFrontOf (k : Nat) : List Line → Assembly → Option Assembly
  | [], _ => none
  | l :: ls, a =>
    let after := ((Assembly.line l).run a).2
    if a.index = k ∧ after.index ≠ k then some a else inFrontOf k ls after

/-- The context in which the line of the command at `k` was compiled; the `EXIT` at the end has no
line. -/
def contextOf (settings : Settings) (script : String) (log : Log) (k : Nat) : Option Context :=
  (inFrontOf k (lines script) (beforeSecond settings script log)).map Assembly.context

end Script

namespace Assembly

open Script

variable {a a' b : Assembly} {l : Line} {ls : List Line} {c : Command} {k : Nat}

theorem Reads.commands_eq {r : Option Command} (h : Reads a l r b) : b.commands = a.commands := by
  cases h with
  | inside | options => rfl
  | statement _ _ h =>
    cases r with
    | some c => exact h.kept.1
    | none =>
      cases h
      rfl

theorem Reads.admits (h : Reads a l (some c) b) : a.context.Admits c := by
  cases h with
  | options => exact Context.admits_of_none ⟨rfl, rfl, rfl⟩ (Context.unbounded rfl) trivial
  | statement _ _ h => exact h.admits

/-- The line of a command is the one in front of which the walk knew just the commands before it. -/
theorem inFrontOf_gives {u : PUnit} (hc : a.findings.collecting = false)
    (h : Gives (forIn ls PUnit.unit fun l _ => do
      line l
      pure (ForInStep.yield PUnit.unit)) a u a')
    (hk : a.index ≤ k) (hk' : k < a'.index) :
    ∃ before l after b c d, inFrontOf k ls a = some b ∧ Walks a before b ∧ b.index = k ∧
      Reads b l (some c) d ∧ Walks (d.pushed l c) after a' := by
  induction ls generalizing a with
  | nil =>
    obtain rfl := gives_forIn_nil.mp h
    omega
  | cons l ls ih =>
    obtain ⟨m, hl, h⟩ := gives_forIn_cons.mp h
    have hafter : ((line l).run a).2 = m := by rw [hl]
    have ht := takes_of_line hc hl
    have hcm : m.findings.collecting = false := by rw [ht.findings_eq, hc]
    have later (hm : m.index ≤ k) (hnot : ¬(a.index = k ∧ m.index ≠ k)) :
        ∃ before l' after b c d, inFrontOf k (l :: ls) a = some b ∧ Walks a before b ∧ b.index = k ∧
          Reads b l' (some c) d ∧ Walks (d.pushed l' c) after a' := by
      obtain ⟨before, l', after, b, c, d, hb, hw, hrest⟩ := ih hcm h hm
      refine ⟨l :: before, l', after, b, c, d, ?_, .cons ht hw, hrest⟩
      rw [inFrontOf, hafter, if_neg hnot]
      exact hb
    cases ht with
    | silent hr =>
      have hindex : m.index = a.index := congrArg Array.size hr.commands_eq
      exact later (by omega) (by omega)
    | @command c d hr =>
      have hindex : (d.pushed l c).index = a.index + 1 := by
        rw [pushed_index, hr.commands_eq, index_eq_length]
      by_cases heq : a.index = k
      · refine ⟨[], l, ls, a, c, d, ?_, .nil a, heq, hr, walks_of_forIn hcm h⟩
        rw [inFrontOf, hafter, if_pos ⟨heq, by omega⟩]
      · exact later (by omega) (by omega)

/-! ### What later lines leave as it is -/

theorem find?_of_allocateAll {type : ValueType} {names : List String}
    (h : Gives (allocateAll type names) a () b) {name owner : String} {v : Variable}
    (hv : a.memory.store.find? name owner = some v) : b.memory.store.find? name owner = some v := by
  obtain ⟨hglobals, hnew, hget⟩ := locals_of_allocateAll h
  unfold Store.find? at hv ⊢
  rw [hget, hglobals]
  by_cases hname : owner = a.owner ∧ name ∈ names
  · obtain ⟨-, hg, hl⟩ := hnew name hname.2
    rw [hname.1, hl, hg] at hv
    cases hv
  · rw [if_neg hname]
    exact hv

/-- Variables that are allocated stay. -/
theorem Takes.find?_eq (h : Takes a l b) {name owner : String} {v : Variable}
    (hv : a.memory.store.find? name owner = some v) : b.memory.store.find? name owner = some v := by
  have change {k : Keyword} {rest : String} {r : Option Command} {b : Assembly}
      (h : Change a k rest r b) : b.memory.store.find? name owner = some v := by
    cases h with
    | @allocate _ scope _ _ _ _ howned hglobal =>
      cases scope with
      | global =>
        rw [hglobal rfl]
        exact hv
      | owned => exact find?_of_allocateAll (howned rfl) hv
    | _ => exact hv
  cases h with
  | silent h =>
    cases h with
    | inside => exact hv
    | statement _ _ h => exact change h
  | command h =>
    cases h with
    | options => exact hv
    | statement _ _ h =>
      have := change h
      exact this

theorem Walks.find?_eq (h : Walks a ls b) {name owner : String} {v : Variable}
    (hv : a.memory.store.find? name owner = some v) : b.memory.store.find? name owner = some v := by
  induction h with
  | nil => exact hv
  | cons ht _ ih => exact ih (ht.find?_eq hv)

theorem Takes.commands (h : Takes a l b) : ∃ es, b.commands.toList = a.commands.toList ++ es := by
  cases h with
  | silent h => exact ⟨[], by rw [h.commands_eq, List.append_nil]⟩
  | command h => exact ⟨_, by rw [pushed_commands, h.commands_eq]⟩

theorem Walks.commands (h : Walks a ls b) : ∃ es, b.commands.toList = a.commands.toList ++ es := by
  induction h with
  | nil => exact ⟨[], (List.append_nil _).symm⟩
  | cons ht _ ih =>
    obtain ⟨es, hes⟩ := ht.commands
    obtain ⟨es', hes'⟩ := ih
    exact ⟨es ++ es', by rw [hes', hes, List.append_assoc]⟩

theorem Takes.index_le (h : Takes a l b) : a.index ≤ b.index := by
  obtain ⟨es, hes⟩ := h.commands
  rw [index_eq_length, index_eq_length, hes, List.length_append]
  exact Nat.le_add_right _ _

/-- A loop keeps its formulas. -/
theorem Takes.loops {id : LoopId} {loop : Loop} (h : Takes a l b) (hid : id.index < a.index)
    (hloop : Assoc.get? id a.loops = some loop) :
    ∃ e, Assoc.get? id b.loops = some { loop with endIndex := e } := by
  have kept : ∃ e, Assoc.get? id a.loops = some { loop with endIndex := e } :=
    ⟨loop.endIndex, hloop⟩
  have change {k : Keyword} {rest : String} {r : Option Command} {b : Assembly}
      (h : Change a k rest r b) : ∃ e, Assoc.get? id b.loops = some { loop with endIndex := e } := by
    cases h with
    | @for_ _ other hindex =>
      refine ⟨loop.endIndex, ?_⟩
      have hne : other.id ≠ id := fun heq => by rw [heq] at hindex; omega
      simp only [LoopTable.add, Assoc.get?_put, hne, ↓reduceIte]
      exact hloop
    | @endFor _ other _ loops _ _ hfinish =>
      unfold LoopTable.finish at hfinish
      split at hfinish
      · cases hfinish
      · rename_i found hfound
        cases hfinish
        simp only [Assoc.get?_put]
        split
        · rename_i heq
          rw [heq, hloop] at hfound
          cases hfound
          exact ⟨_, rfl⟩
        · exact kept
    | _ => exact kept
  cases h with
  | silent h =>
    cases h with
    | inside => exact kept
    | statement _ _ h => exact change h
  | command h =>
    cases h with
    | options => exact kept
    | statement _ _ h =>
      have := change h
      exact this

theorem Walks.loops {id : LoopId} {loop : Loop} (h : Walks a ls b) (hid : id.index < a.index)
    (hloop : Assoc.get? id a.loops = some loop) :
    ∃ e, Assoc.get? id b.loops = some { loop with endIndex := e } := by
  induction h generalizing loop with
  | nil => exact ⟨loop.endIndex, hloop⟩
  | cons ht _ ih =>
    obtain ⟨e, he⟩ := ht.loops hid hloop
    obtain ⟨e', he'⟩ := ih (Nat.lt_of_lt_of_le hid ht.index_le) he
    exact ⟨e', he'⟩

/-- The loop that a `FOR` begins. -/
theorem Reads.admitsLoop {id : LoopId} (h : Reads a l (some (.for_ id)) b) :
    ∃ loop, Assoc.get? id b.loops = some loop ∧ id.index = a.index ∧ a.context.AdmitsLoop loop := by
  cases h with
  | statement _ _ h =>
    cases h with
    | simple hk hread =>
      obtain ⟨_, heq, hkey⟩ := Context.readCommand_keyword hk hread
      cases heq
      rw [← hkey] at hk
      cases hk
    | @for_ _ loop hindex _ _ _ _ hstart hstop hstep =>
      refine ⟨loop, ?_, hindex, hstart, hstop, hstep⟩
      simp [LoopTable.add, Assoc.get?_put]

end Assembly

namespace Script

open Assembly

variable {settings : Settings} {script : String} {log : Log} {p : Program} {k : Nat} {entry : Entry}

theorem admits_join {t : SubroutineTable} {c : Context} {e : Entry} (h : c.Admits e.command) :
    c.Admits (join t e).command := by
  unfold join
  split
  · exact Context.admits_of_none ⟨rfl, rfl, rfl⟩ (Context.unbounded rfl) trivial
  · exact Context.admits_of_none ⟨rfl, rfl, rfl⟩ (Context.unbounded rfl) trivial
  · exact h

theorem join_for {t : SubroutineTable} {e : Entry} {id : LoopId} :
    (join t e).command = .for_ id ↔ e.command = .for_ id := by
  cases hc : e.command <;> simp [join, hc]

theorem typeOf_of_find? {s t : Store} {name owner : String} {type : ValueType}
    (h : ∀ {v}, s.find? name owner = some v → t.find? name owner = some v)
    (hs : s.typeOf name owner = .ok type) : t.typeOf name owner = .ok type := by
  unfold Store.typeOf Store.get at hs ⊢
  cases hr : Reserved.ofName? name with
  | some r => rwa [hr] at hs
  | none =>
    cases hv : s.find? name owner <;> rw [hr, hv] at hs
    · cases hs
    · rw [h hv]
      exact hs

/-- The whole program extends what the second walk had come to in front of a line. -/
theorem Compiles.extends {d : Declarations} {a b : Assembly} {es : List Entry}
    (h : Compiles settings script log p d a) (hb : b.Coherent)
    (hcommands : a.commands.toList = b.commands.toList ++ es)
    (hfind : ∀ {name owner v}, b.memory.store.find? name owner = some v →
      a.memory.store.find? name owner = some v) : b.context.Extends (p.contextAt b.index) := by
  have haround : p.around b.index = around b.commands.toList b.index := by
    have hle : b.index ≤ b.commands.toList.length := Nat.le_of_eq b.index_eq_length
    have hle' : b.index ≤ (a.commands.toList.map (join a.subroutines)).length := by
      rw [List.length_map, hcommands, List.length_append]
      omega
    rw [Program.around, h.entries_eq, around_append _ _ hle', around_joined, hcommands,
      around_append _ _ hle]
  have howner : ownerAt p.entries b.index = b.owner := by
    rw [ownerAt, Assembly.owner, hb.current, ← haround, Program.around]
  refine ⟨fun name => ?_, fun {name t} ht => ?_⟩
  · rw [Context.isLoop, Program.contextAt, haround, ← hb.openLoops]
    rfl
  · show p.store.typeOf name (ownerAt p.entries b.index) = .ok t
    rw [howner, h.tables_eq.2]
    exact typeOf_of_find? hfind ht

/-- The line of a command was compiled in a context that admits the command, and the program at the
place of the command extends this context. -/
theorem exists_contextOf (hp : (compile settings script log).1 = .ok p)
    (he : p.entries[k]? = some entry) (hk : k + 1 < p.size) :
    ∃ c, contextOf settings script log k = some c ∧ c.Admits entry.command ∧
      c.Extends (p.contextAt k) ∧ ∀ {id loop}, entry.command = .for_ id →
        p.loops.loop id = .ok loop → c.AdmitsLoop loop := by
  obtain ⟨d, a, h, hcollecting, hgives⟩ := exists_compiles_gives hp
  have hsize : p.size = a.index + 1 := by
    rw [← p.length_entries, h.entries_eq, List.length_append, List.length_map, index_eq_length]
    rfl
  obtain ⟨before, l, after, b, cmd, b', hb, hw, rfl, hr, hw'⟩ :=
    inFrontOf_gives hcollecting hgives (Nat.zero_le k) (by omega)
  have hfresh : Fresh (declaredSubs settings script log) :=
    h.declared ▸ h.declares.fresh fun s hs => by cases hs
  have hcoherent : b.Coherent := (Coherent.start hfresh).walks hw
  obtain ⟨es, hes⟩ := hw'.commands
  rw [pushed_commands, hr.commands_eq, List.append_assoc] at hes
  have hentry : entry = join a.subroutines (b'.entryOf l cmd) := by
    rw [h.entries_eq, hes, index_eq_length, List.map_append, List.append_assoc,
      List.getElem?_append_right (by simp)] at he
    simpa using he.symm
  have hfind {name owner : String} {v : Variable} (hv : b.memory.store.find? name owner = some v) :
      a.memory.store.find? name owner = some v :=
    hw'.find?_eq ((Takes.command hr).find?_eq hv)
  refine ⟨b.context, by rw [contextOf, hb]; rfl, ?_, h.extends hcoherent hes hfind,
    fun {id loop} hfor hloop => ?_⟩
  · rw [hentry]
    exact admits_join hr.admits
  · rw [hentry, join_for] at hfor
    obtain rfl : cmd = .for_ id := hfor
    obtain ⟨begun, hbegun, hindex, hadmits⟩ := hr.admitsLoop
    have hlt : id.index < (b'.pushed l (.for_ id)).index := by
      rw [pushed_index, hr.commands_eq, hindex, index_eq_length]
      exact Nat.lt_succ_self _
    obtain ⟨e, hkept⟩ := hw'.loops hlt hbegun
    obtain ⟨a', hf, rfl⟩ := h.finishes
    rw [LoopTable.loop_ok] at hloop
    have hloop : Assoc.get? id a'.loops = some loop := hloop
    rw [hf.loops, hkept] at hloop
    cases hloop
    exact ⟨hadmits.start, hadmits.stop, hadmits.step⟩

/-! ### The variables at the beginning -/

theorem readAllocation_valid {rest : String} {scope : Scope} {type : ValueType}
    {names : List String} (h : readAllocation rest = .ok (scope, type, names)) :
    ∀ name ∈ names, isValidName name = true := by
  unfold readAllocation at h
  obtain ⟨words, -, h⟩ := Checked.bind_ok.mp h
  split at h
  · simp only [Checked.bind_ok] at h
    obtain ⟨_, -, _, -, h⟩ := h
    split at h
    · cases h
    · rename_i hnone
      cases h
      simpa using hnone
  · cases h

theorem Compiles.valid_of_allocates {d : Declarations} {a : Assembly}
    (h : Compiles settings script log p d a) {scope : Scope} {type : ValueType} {name : String}
    (ha : Allocates p.entries k scope type name) : isValidName name = true := by
  rw [h.entries_eq, allocates_concat, allocates_joined] at ha
  rcases ha with ⟨e, names, he, hc, hname⟩ | ⟨-, _, hc, -⟩
  · obtain ⟨rest, -, hread⟩ := h.agree.1.lines e (List.mem_of_getElem? he) scope type names hc
    exact readAllocation_valid hread name hname
  · cases hc

theorem unreserved_of_allocate {s s' : Store} {type : ValueType} {name owner : String}
    (h : s.allocate .global type name owner = .ok s') : Reserved.ofName? name = none := by
  simp only [Store.allocate_eq, Checked.bind_ok, Checked.ite_ok, Checked.fail_ok, Checked.pure_ok,
    and_false, false_or, false_and, exists_false] at h
  obtain ⟨-, hreserved, -⟩ := h
  exact Option.not_isSome_iff_eq_none.mp hreserved

theorem allocateAll_unreserved {type : ValueType} {owner : String} {names : List String}
    {d d' : Declarations} (h : Gives (Declarations.allocateAll type owner names) d () d')
    (hd : ∀ name v, d.memory.store.globals.get? name = some v → Reserved.ofName? name = none) :
    ∀ name v, d'.memory.store.globals.get? name = some v → Reserved.ofName? name = none := by
  induction names generalizing d with
  | nil =>
    simp only [Declarations.allocateAll, gives_pure] at h
    obtain ⟨-, rfl⟩ := h
    exact hd
  | cons name names ih =>
    simp only [Declarations.allocateAll, gives_bind, gives_get, gives_lift, gives_modify] at h
    obtain ⟨_, _, ⟨rfl, rfl⟩, m, _, ⟨hm, rfl⟩, _, _, rfl, h⟩ := h
    have hstore := memory_allocate_ok hm
    refine ih h fun other v hv => ?_
    rw [(allocate_global_ok hstore).2, Assoc.get?_put] at hv
    split at hv
    · rename_i heq
      exact heq ▸ unreserved_of_allocate hstore
    · exact hd other v hv

/-- No global has the name of a reserved variable. -/
theorem Declarations.Walks.unreserved {d d' : Declarations} {ls : List Line}
    (h : Declarations.Walks d ls d')
    (hd : ∀ name v, d.memory.store.globals.get? name = some v → Reserved.ofName? name = none) :
    ∀ name v, d'.memory.store.globals.get? name = some v → Reserved.ofName? name = none := by
  induction h with
  | nil => exact hd
  | cons ht _ ih =>
    refine ih ?_
    cases ht with
    | inside _ h => exact h.store.symm ▸ hd
    | silent => exact hd
    | statement _ _ h =>
      cases h with
      | allocate _ hg => exact allocateAll_unreserved hg hd
      | _ => exact hd

/-- The store of a program keeps its own types, and its variables have valid names that are not
reserved. -/
theorem fits_of_compile (hp : (compile settings script log).1 = .ok p) : p.store.Fits p.store := by
  obtain ⟨d, a, h⟩ := exists_compiles hp
  obtain ⟨hagree, -, -, hglobals⟩ := h.agree
  have fresh {name owner : String} {v : Variable} (hv : p.store.find? name owner = some v) :
      v.value.type = v.type ∧ isValidName name = true ∧ Reserved.ofName? name = none := by
    unfold Store.find? at hv
    split at hv
    · rename_i w hw
      cases hv
      obtain ⟨k, type, ha, -, rfl⟩ := (h.locals owner name v).mp hw
      refine ⟨Value.type_zero type, h.valid_of_allocates ha, ?_⟩
      rw [h.tables_eq.2] at hw
      exact (hagree.allocated.unshadowed owner name _ hw).2
    · obtain ⟨k, type, ha, rfl⟩ := (h.globals name v).mp hv
      refine ⟨Value.type_zero type, h.valid_of_allocates ha, ?_⟩
      rw [h.tables_eq.2, hglobals] at hv
      exact h.declares.unreserved (fun _ _ hv => by cases hv) name _ hv
  exact ⟨fun _ _ => rfl, fun hv => (fresh hv).1, fun hv => (fresh hv).2.1, fun hv => (fresh hv).2.2⟩

end Script

end CommandScript
