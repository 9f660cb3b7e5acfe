import CommandScript.Proofs.Assembly.Coherent
import CommandScript.Proofs.Nesting.Program
import CommandScript.Script.Compile

/-!
# The program that the second walk gives

Joining the calls to the subroutines changes nothing that the scan of openings sees, so the program
of a coherent assembly is nested.
-/

namespace CommandScript.Assembly

open Script

section Join

variable (t : SubroutineTable) (e : Entry)

@[simp] theorem join_index : (join t e).index = e.index := by
  unfold join
  split <;> rfl

@[simp] theorem join_line : (join t e).line = e.line := by
  unfold join
  split <;> rfl

@[simp] theorem join_text : (join t e).text = e.text := by
  unfold join
  split <;> rfl

@[simp] theorem join_keyword : (join t e).command.keyword = e.command.keyword := by
  cases hc : e.command <;> simp [join, Command.keyword, hc]

@[simp] theorem join_opening? : (join t e).opening? = e.opening? := by
  cases hc : e.command <;> simp [join, Entry.opening?, hc]

@[simp] theorem join_closes : (join t e).closes = e.closes := by
  cases hc : e.command <;> simp [join, Entry.closes, hc]

@[simp] theorem join_marks : (join t e).marks = e.marks := by
  cases hc : e.command <;> simp [join, Entry.marks, hc]

@[simp] theorem join_isElse : (join t e).isElse = e.isElse := by
  cases hc : e.command <;> simp [join, Entry.isElse, hc]

@[simp] theorem join_callsSub (name : String) : (join t e).callsSub name = e.callsSub name := by
  cases hc : e.command <;> simp [join, Entry.callsSub, hc]

@[simp] theorem join_begins (name : String) : (join t e).begins name = e.begins name := by
  simp only [Entry.begins, join_opening?]

@[simp] theorem join_ends (outer : List Opening) (name : String) :
    (join t e).ends outer name = e.ends outer name := by
  simp only [Entry.ends, join_closes]

@[simp] theorem join_nest (outer : List Opening) : (join t e).nest outer = e.nest outer := by
  simp only [Entry.nest, join_opening?, join_closes]

theorem join_fits {outer : List Opening} (h : e.Fits outer) : (join t e).Fits outer := by
  cases hc : e.command <;> simp_all [join, Entry.Fits]

end Join

section Map

variable {t : SubroutineTable} {es : List Entry}

theorem opens_joined {x : Opening} : Opens (es.map (join t)) x ↔ Opens es x :=
  opens_map (join_opening? t)

theorem places_joined {p : Entry → List Opening → Bool}
    (hp : ∀ e outer, p (join t e) outer = p e outer) : places (es.map (join t)) p = places es p :=
  places_map (join_nest t) hp es

theorem around_joined (k : Nat) : around (es.map (join t)) k = around es k :=
  around_map (join_nest t) es k

theorem endOf_joined (x : Opening) : endOf (es.map (join t)) x = endOf es x := by
  unfold endOf
  rw [places_joined fun e outer => by rw [join_closes]]

theorem branchesOf_joined (i : Nat) : branchesOf (es.map (join t)) i = branchesOf es i :=
  places_joined fun e outer => by rw [join_marks]

theorem elseOf_joined (i : Nat) : elseOf (es.map (join t)) i = elseOf es i := by
  unfold elseOf
  rw [places_joined fun e outer => by rw [join_isElse]]

theorem chainAt_joined (i : Nat) : chainAt (es.map (join t)) i = chainAt es i := by
  unfold chainAt
  rw [branchesOf_joined, elseOf_joined, endOf_joined, around_joined]

theorem startOf_joined (name : String) : startOf (es.map (join t)) name = startOf es name := by
  unfold startOf
  rw [places_joined fun e outer => by rw [join_begins]]

theorem subEndOf_joined (name : String) : subEndOf (es.map (join t)) name = subEndOf es name := by
  unfold subEndOf
  rw [places_joined fun e outer => by rw [join_ends]]

theorem callsOf_joined (name : String) : callsOf (es.map (join t)) name = callsOf es name :=
  places_joined fun e outer => by rw [join_callsSub]

end Map

variable {a a' : Assembly} {lines : List Line}

/-- The assembly with its calls joined to its subroutines. -/
def joinedAll (a : Assembly) : Assembly :=
  { a with commands := a.commands.map (join a.subroutines) }

@[simp] theorem joinedAll_commands (a : Assembly) :
    a.joinedAll.commands.toList = a.commands.toList.map (join a.subroutines) :=
  Array.toList_map ..

theorem joinedAll_index (a : Assembly) : a.joinedAll.index = a.index := by
  rw [index_eq_length, joinedAll_commands, List.length_map, index_eq_length]

theorem Coherent.joinedAll (h : a.Coherent) : a.joinedAll.Coherent where
  nested := by
    rw [joinedAll_commands]
    exact h.nested.map (join_nest _) (join_index _) fun e outer => join_fits _ e
  openChains := by
    rw [joinedAll_commands, joinedAll_index, around_joined]
    exact h.openChains
  openLoops := by
    rw [joinedAll_commands, joinedAll_index, around_joined]
    exact h.openLoops
  current := by
    rw [joinedAll_commands, joinedAll_index, around_joined]
    exact h.current
  chains := by
    rw [joinedAll_commands]
    refine ⟨fun i c => ?_, fun k i => ?_⟩
    · rw [opens_joined, chainAt_joined]
      exact h.chains.chains i c
    · rw [opens_joined, branchesOf_joined, endOf_joined]
      exact h.chains.members k i
  loops := by
    rw [joinedAll_commands]
    refine ⟨fun id => ?_, h.loops.id_eq, fun id l hl => ?_, fun id l hl => ?_⟩
    · rw [opens_joined]
      exact h.loops.opens id
    · rw [endOf_joined]
      exact h.loops.endIndex id l hl
    · rw [around_joined]
      exact h.loops.chainLevel id l hl
  subroutines := by
    rw [joinedAll_commands]
    refine ⟨fun i name hi => ?_, fun i j name hi hj => ?_, fun name s hs => ?_, fun name s hs => ?_,
      fun name s hs => ?_⟩
    · exact h.subroutines.contains i name (opens_joined.mp hi)
    · exact h.subroutines.unique i j name (opens_joined.mp hi) (opens_joined.mp hj)
    · rw [startOf_joined]
      exact h.subroutines.startIndex name s hs
    · rw [subEndOf_joined]
      exact h.subroutines.endIndex name s hs
    · rw [callsOf_joined]
      exact h.subroutines.calls name s hs
  elseLast := by
    intro i b hb
    rw [joinedAll_commands, elseOf_joined] at hb
    rw [joinedAll_commands, branchesOf_joined]
    exact h.elseLast i b hb

/-- Where every opening of a command was closed, nothing is open at all. -/
theorem Coherent.around_eq_nil (h : a.Coherent) (hc : Closed a) :
    around a.commands.toList a.index = [] := by
  have hlt {x : Opening} (hx : x ∈ around a.commands.toList a.index) :
      ∃ e, a.commands[x.index]? = some e := by
    obtain ⟨e, he, -⟩ := (h.nested.opens_of_mem hx).2
    exact ⟨e, by rwa [Array.getElem?_toList] at he⟩
  refine List.eq_nil_iff_forall_not_mem.mpr fun x hx => ?_
  obtain ⟨e, he⟩ := hlt hx
  cases x with
  | chain i =>
    have hi : i ∈ a.openChains := by
      rw [h.openChains]
      exact mem_chainsOf.mpr hx
    rw [Opening.index, hc.chains i hi] at he
    cases he
  | loop id =>
    have hid : id ∈ a.openLoops := by
      rw [h.openLoops]
      exact mem_loopsOf.mpr hx
    rw [Opening.index, hc.loops id hid] at he
    cases he
  | sub i name =>
    have hcurrent : ∃ other, a.current = some other := by
      rw [h.current]
      exact Option.isSome_iff_exists.mp (List.findSome?_isSome_iff.mpr ⟨_, hx, rfl⟩)
    obtain ⟨other, hother⟩ := hcurrent
    obtain ⟨y, hy, hsub⟩ := List.exists_of_findSome?_eq_some (h.current.symm.trans hother)
    cases y with
    | sub j other' =>
      cases hsub
      have := h.subroutines.contains j _ (h.nested.opens_of_mem hy).2
      rw [SubroutineTable.contains, hc.current _ hother] at this
      cases this
    | chain j => cases hsub
    | loop id => cases hsub

theorem Coherent.subEndOf_eq (h : a.Coherent) {i k : Nat} {name : String}
    (hk : Closes a.commands.toList (.sub i name) k) :
    subEndOf a.commands.toList name = some k := by
  refine (head?_places fun j l hj hl => ?_).mpr (Nested.mem_ends.mpr ⟨i, hk⟩)
  obtain ⟨i₁, h₁⟩ := Nested.mem_ends.mp hj
  obtain ⟨i₂, h₂⟩ := Nested.mem_ends.mp hl
  have := h.subroutines.unique i₁ i₂ name (h.nested.index_lt_of_closes h₁).2
    (h.nested.index_lt_of_closes h₂).2
  subst this
  exact h.nested.closes_unique h₁ h₂

theorem Finishes.sub (hf : Finishes a lines a') (h : a.Coherent) {k : Nat} {e : Entry}
    {name : String} {last : Nat} (he : (a.commands.toList.map (join a.subroutines))[k]? = some e)
    (hc : e.command = .sub name last) : Closes a.commands.toList (.sub k name) last := by
  rw [List.getElem?_map, Option.map_eq_some_iff] at he
  obtain ⟨e', he', rfl⟩ := he
  have hcmd : ∃ last', e'.command = .sub name last' := by
    cases hc' : e'.command <;> simp_all [join]
  obtain ⟨last', hcmd⟩ := hcmd
  have ho : e'.opening? = some (.sub k name) := by
    rw [Entry.opening?, hcmd, h.nested.index_eq he']
  have hopen : Opens a.commands.toList (.sub k name) := ⟨e', he', ho⟩
  obtain ⟨s, hs⟩ := Option.isSome_iff_exists.mp (h.subroutines.contains k name hopen)
  obtain ⟨j, hj⟩ := h.nested.exists_closes (a.index_eq_length ▸ h.around_eq_nil hf.closed) hopen
  have hend : s.endIndex = some j := by
    rw [h.subroutines.endIndex name s hs, h.subEndOf_eq hj]
  simp only [join, hcmd, hs, Option.bind_some, hend, Option.getD_some, Command.sub.injEq,
    true_and] at hc
  rwa [← hc]

theorem Finishes.gosub (hf : Finishes a lines a') (h : a.Coherent) {k : Nat} {e : Entry}
    {name : String} {target : Nat}
    (he : (a.commands.toList.map (join a.subroutines))[k]? = some e)
    (hc : e.command = .gosub name target) : Opens a.commands.toList (.sub target name) := by
  rw [List.getElem?_map, Option.map_eq_some_iff] at he
  obtain ⟨e', he', rfl⟩ := he
  have hcmd : ∃ target', e'.command = .gosub name target' := by
    cases hc' : e'.command <;> simp_all [join]
  obtain ⟨target', hcmd⟩ := hcmd
  have hjoin := hf.joins e' (List.mem_of_getElem? he') name target' hcmd
  obtain ⟨i, hi⟩ := Option.isSome_iff_exists.mp hjoin
  obtain ⟨s, hs, hstart⟩ := Option.bind_eq_some_iff.mp hi
  simp only [join, hcmd, hi, Option.getD_some, Command.gosub.injEq, true_and] at hc
  rw [← hc]
  rw [h.subroutines.startIndex name s hs] at hstart
  exact h.nested.opens_of_startOf hstart

/-- The program of an assembly that was coherent before its end is nested. -/
theorem Finishes.isNested (hf : Finishes a lines a') (h : a.Coherent) (d : Declarations) :
    (programOf d a').IsNested := by
  have hpushed := h.joinedAll.simple (l := ⟨lastNumber lines, "EXIT"⟩) (c := .exit) rfl
  have hlist : (programOf d a').entries =
      (a.joinedAll.pushed ⟨lastNumber lines, "EXIT"⟩ .exit).commands.toList := by
    rw [pushed_commands, joinedAll_commands, entryOf, joinedAll_index]
    exact hf.commands
  have hlength : (programOf d a').size =
      (a.joinedAll.pushed ⟨lastNumber lines, "EXIT"⟩ .exit).index := by
    rw [← Program.length_entries, hlist, index_eq_length]
  have hentries : (programOf d a').entries =
      a.commands.toList.map (join a.subroutines) ++ [_] := hf.commands
  have hnil : around a.commands.toList a.index = [] := h.around_eq_nil hf.closed
  have hold {k : Nat} {e : Entry} (he : (programOf d a').entries[k]? = some e)
      (hne : e.command ≠ .exit) :
      (a.commands.toList.map (join a.subroutines))[k]? = some e := by
    rw [hentries] at he
    rcases getElem?_concat.mp he with he | ⟨-, rfl⟩
    · exact he
    · exact absurd rfl hne
  refine ⟨?_, ?_, ?_, ?_, ?_, ?_, fun k e name last he hc => ?_, fun k e name target he hc => ?_,
    ⟨_, by rw [hentries, List.getLast?_concat], rfl⟩⟩
  · rw [hlist]
    exact hpushed.nested
  · rw [Program.around, hlist, hlength]
    rw [pushed_commands, pushed_index, around_concat, ← index_eq_length, joinedAll_commands,
      joinedAll_index, around_joined, hnil]
    rfl
  · have hchains : (programOf d a').chains = a.chains := hf.chains
    rw [hlist, hchains]
    exact hpushed.chains
  · have hloops : (programOf d a').loops = a.loops := hf.loops
    rw [hlist, hloops]
    exact hpushed.loops
  · have hsubs : (programOf d a').subroutines = a.subroutines := hf.subroutines
    rw [hlist, hsubs]
    exact hpushed.subroutines
  · rw [hlist]
    exact hpushed.elseLast
  · have := hf.sub h (hold he (by rw [hc]; intro heq; cases heq)) hc
    rw [hentries]
    exact closes_append _ ((closes_map (join_nest _) (join_closes _)).mpr this)
  · have := hf.gosub h (hold he (by rw [hc]; intro heq; cases heq)) hc
    rw [hentries]
    exact opens_concat.mpr (.inl (opens_joined.mpr this))

end CommandScript.Assembly
