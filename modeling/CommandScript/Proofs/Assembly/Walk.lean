import CommandScript.Proofs.Assembly.Change
import CommandScript.Proofs.Assembly.Recording

/-!
# The second walk that succeeds

While nothing is collected, recording a fault ends the walk, so a walk that succeeds met no fault:
each line was read by `Reads` and its command was put behind the others.
-/

namespace CommandScript.Assembly

open Script Text
open Script.Recorder (record_gives)

variable {a a' : Assembly}

/-- What reading a line does: inside the startup block nothing but to look for its end, outside it
the line is one of options, or it has a keyword and does what `Change` lists. -/
inductive Reads (a : Assembly) (l : Line) : Option Command → Assembly → Prop where
  | inside : a.inStartup = true →
      Reads a l none { a with inStartup := l.keyword? ≠ some .endStartup }
  | options {options} : a.inStartup = false → Line.isOption l.text.toList = true →
      Reads a l (some (.run options)) a
  | statement {k rest r a'} : a.inStartup = false → l.statement? = some (k, rest) →
      Change a k rest r a' → Reads a l r a'

theorem reads_of_readLine {l : Line} {r : Option Command} (h : Gives (readLine l.text) a r a') :
    Reads a l r a' := by
  simp only [readLine, gives_bind, gives_get, gives_ite] at h
  obtain ⟨_, _, ⟨rfl, rfl⟩, ⟨hin, h⟩ | ⟨hin, ⟨hopt, h⟩ | ⟨hopt, h⟩⟩⟩ := h
  · have hword := Line.keyword?_eq_endStartup (l := l)
    simp only [gives_modify, gives_pure] at h
    obtain ⟨hend, _, _, rfl, rfl, rfl⟩ | ⟨hend, rfl, rfl⟩ := h
    · have h := Reads.inside (l := l) hin
      simpa [hword.mpr hend] using h
    · have h := Reads.inside (l := l) hin
      have hne := mt hword.mp hend
      simpa [hne, ← hin] using h
  · simp only [gives_lift, gives_pure, Context.readOptions, Checked.bind_ok,
      Checked.pure_ok] at h
    obtain ⟨_, _, ⟨⟨_, _, _, _, rfl⟩, rfl⟩, rfl, rfl⟩ := h
    exact .options (Bool.eq_false_iff.mpr hin) hopt
  · split at h
    · rename_i k hk
      exact .statement (Bool.eq_false_iff.mpr hin)
        (Line.statement?_eq_some.mpr ⟨Bool.eq_false_iff.mpr hopt, hk, rfl⟩) (change_of_readKeyword h)
    · exact (gives_throw.mp h).elim

/-- The assembly with the command of a line behind the others. -/
def pushed (a : Assembly) (l : Line) (command : Command) : Assembly :=
  let entry : Entry := ⟨a.index, l.number, l.text, command⟩
  { a with
    memory := a.memory.report .compile entry.toText
    commands := a.commands.push entry }

/-- What taking in a line that has no fault does. -/
inductive Takes (a : Assembly) (l : Line) : Assembly → Prop where
  | silent {b} : Reads a l none b → Takes a l b
  | command {c b} : Reads a l (some c) b → Takes a l (b.pushed l c)

/-- Taking in lines one after the other. -/
inductive Walks : Assembly → List Line → Assembly → Prop where
  | nil (a : Assembly) : Walks a [] a
  | cons {b c d : Assembly} {l : Line} {ls : List Line} : Takes b l c → Walks c ls d →
      Walks b (l :: ls) d

theorem takes_of_line {l : Line} (hc : a.findings.collecting = false)
    (h : Gives (line l) a () a') : Takes a l a' := by
  obtain ⟨r, b, hr, h⟩ := gives_bind.mp ((takeIn_quiet l).gives_of_tryCatch hc h)
  have hr := reads_of_readLine hr
  cases r with
  | none =>
    obtain ⟨-, rfl⟩ := gives_pure.mp h
    exact .silent hr
  | some c =>
    obtain rfl := gives_modify.mp h
    exact .command hr

theorem Change.findings_eq {k : Keyword} {rest : String} {r : Option Command}
    (h : Change a k rest r a') : a'.findings = a.findings := by
  cases h <;> rfl

theorem Reads.findings_eq {l : Line} {r : Option Command} (h : Reads a l r a') :
    a'.findings = a.findings := by
  cases h with
  | inside => rfl
  | options => rfl
  | statement _ _ h => exact h.findings_eq

theorem Takes.findings_eq {l : Line} (h : Takes a l a') : a'.findings = a.findings := by
  cases h with
  | silent h => exact h.findings_eq
  | command h => exact h.findings_eq

theorem walks_of_forIn {lines : List Line} {u : PUnit} (hc : a.findings.collecting = false)
    (h : Gives (forIn lines PUnit.unit fun l _ => do
      line l
      pure (ForInStep.yield PUnit.unit)) a u a') :
    Walks a lines a' := by
  induction lines generalizing a with
  | nil =>
    obtain rfl := gives_forIn_nil.mp h
    exact .nil a
  | cons l ls ih =>
    obtain ⟨b, hl, h⟩ := gives_forIn_cons.mp h
    have ht := takes_of_line hc hl
    exact .cons ht (ih (by rw [ht.findings_eq, hc]) h)

/-! ### The end of the script -/

/-- The command with the indices of the subroutine that it begins or calls. -/
def join (t : SubroutineTable) (e : Entry) : Entry :=
  match e.command with
  | .sub name last =>
    { e with command := .sub name (((t.get? name).bind (·.endIndex)).getD last) }
  | .gosub name target =>
    { e with command := .gosub name (((t.get? name).bind (·.startIndex)).getD target) }
  | _ => e

/-- A call names a subroutine that has a first command. -/
def Joins (t : SubroutineTable) (e : Entry) : Prop :=
  ∀ name target, e.command = .gosub name target → ((t.get? name).bind (·.startIndex)).isSome

theorem join_eq_self {t : SubroutineTable} {e : Entry}
    (hsub : ∀ name last, e.command ≠ .sub name last)
    (hgosub : ∀ name target, e.command ≠ .gosub name target) : join t e = e := by
  unfold join
  split
  case h_1 name last hcmd => exact absurd hcmd (hsub name last)
  case h_2 name target hcmd => exact absurd hcmd (hgosub name target)
  case h_3 => rfl

theorem joined_gives {e e' : Entry} (hc : a.findings.collecting = false)
    (h : Gives (joined e) a e' a') : a = a' ∧ e' = join a.subroutines e ∧ Joins a.subroutines e := by
  simp only [joined, gives_bind, gives_get] at h
  obtain ⟨_, _, ⟨rfl, rfl⟩, h⟩ := h
  split at h
  case h_1 name last hcmd =>
    obtain ⟨rfl, rfl⟩ := gives_pure.mp h
    exact ⟨rfl, by simp only [join, hcmd], fun n t hn => by simp [hcmd] at hn⟩
  case h_2 name last hcmd =>
    split at h
    · rename_i target htarget
      obtain ⟨rfl, rfl⟩ := gives_pure.mp h
      refine ⟨rfl, by simp only [join, hcmd, htarget, Option.getD_some], fun n t hn => ?_⟩
      rw [hcmd] at hn
      cases hn
      simp [htarget]
    · obtain ⟨_, _, h, -⟩ := gives_bind.mp h
      exact (record_gives hc h).elim
  case h_3 hsub hgosub =>
    obtain ⟨rfl, rfl⟩ := gives_pure.mp h
    exact ⟨rfl, (join_eq_self hsub hgosub).symm, fun n t hn => absurd hn (hgosub n t)⟩

theorem mapM_joined_gives {es es' : List Entry} (hc : a.findings.collecting = false)
    (h : Gives (es.mapM joined) a es' a') :
    a = a' ∧ es' = es.map (join a.subroutines) ∧ ∀ e ∈ es, Joins a.subroutines e := by
  induction es generalizing es' a' with
  | nil =>
    rw [List.mapM_nil] at h
    obtain ⟨rfl, rfl⟩ := gives_pure.mp h
    exact ⟨rfl, rfl, fun _ he => absurd he List.not_mem_nil⟩
  | cons e es ih =>
    simp only [List.mapM_cons, gives_bind, gives_pure] at h
    obtain ⟨e₁, a₁, he, es₁, a₂, hes, rfl, rfl⟩ := h
    obtain ⟨rfl, rfl, hj⟩ := joined_gives hc he
    obtain ⟨rfl, rfl, hjs⟩ := ih hes
    refine ⟨rfl, rfl, fun e' he' => ?_⟩
    rcases List.mem_cons.mp he' with rfl | he'
    · exact hj
    · exact hjs e' he'

/-- No block is open that a command of the assembly opened. -/
structure Closed (a : Assembly) : Prop where
  chains : ∀ i ∈ a.openChains, a.commands[i]? = none
  loops : ∀ id ∈ a.openLoops, a.commands[id.index]? = none
  current : ∀ name, a.current = some name → a.subroutines.get? name = none

theorem recordAt_gives {i : Nat} {f : Fault} (hc : a.findings.collecting = false)
    (h : Gives (recordAt i f) a () a') : a = a' ∧ a.commands[i]? = none := by
  simp only [recordAt, gives_bind, gives_get] at h
  obtain ⟨_, _, ⟨rfl, rfl⟩, h⟩ := h
  split at h
  · exact (record_gives hc h).elim
  · rename_i hnone
    obtain ⟨-, rfl⟩ := gives_pure.mp h
    exact ⟨rfl, Option.eq_none_iff_forall_ne_some.mpr hnone⟩

theorem forIn_recordAt_gives {γ : Type} {l : List γ} {i : γ → Nat} {f : γ → Fault} {u : PUnit}
    (hc : a.findings.collecting = false)
    (h : Gives (forIn l PUnit.unit fun c _ => do
      recordAt (i c) (f c)
      pure (ForInStep.yield PUnit.unit)) a u a') :
    a = a' ∧ ∀ c ∈ l, a.commands[i c]? = none := by
  induction l generalizing a with
  | nil =>
    obtain rfl := gives_forIn_nil.mp h
    exact ⟨rfl, fun _ hc => absurd hc List.not_mem_nil⟩
  | cons c l ih =>
    obtain ⟨b, hb, hrest⟩ := gives_forIn_cons.mp h
    obtain ⟨rfl, hnone⟩ := recordAt_gives hc hb
    obtain ⟨rfl, hl⟩ := ih hc hrest
    refine ⟨rfl, fun c' hc' => ?_⟩
    rcases List.mem_cons.mp hc' with rfl | hc'
    · exact hnone
    · exact hl c' hc'

theorem recordOpen_gives {lines : List Line} (hc : a.findings.collecting = false)
    (h : Gives (recordOpen lines) a () a') : a = a' ∧ Closed a := by
  simp only [recordOpen, gives_bind, gives_get] at h
  obtain ⟨_, _, ⟨rfl, rfl⟩, _, _, h₁, _, _, h₂, h⟩ := h
  obtain ⟨rfl, hchains⟩ := forIn_recordAt_gives hc h₁
  obtain ⟨rfl, hloops⟩ := forIn_recordAt_gives hc h₂
  have hcurrent : a = a' ∧ ∀ name, a.current = some name → a.subroutines.get? name = none := by
    split at h
    · rename_i name hname
      split at h
      · exact (record_gives hc h).elim
      · rename_i hnone
        obtain ⟨-, rfl⟩ := gives_pure.mp h
        refine ⟨rfl, fun n hn => ?_⟩
        rw [hname] at hn
        cases hn
        exact Option.eq_none_iff_forall_ne_some.mpr hnone
    · rename_i hnone
      obtain ⟨-, rfl⟩ := gives_pure.mp h
      exact ⟨rfl, fun n hn => absurd hn (hnone n)⟩
  exact ⟨hcurrent.1, fun i hi => hchains i (List.mem_reverse.mpr hi),
    fun id hid => hloops id (List.mem_reverse.mpr hid), hcurrent.2⟩

/-- The number of the line behind the last one. -/
def lastNumber (lines : List Line) : Nat :=
  match lines.getLast? with
  | some l => l.number + 1
  | none => 1

/-- What the end of the script makes of an assembly: nothing is open in it, its calls are joined to
the subroutines, and an `EXIT` stands at the end. -/
structure Finishes (a : Assembly) (lines : List Line) (a' : Assembly) : Prop where
  closed : Closed a
  joins : ∀ e ∈ a.commands.toList, Joins a.subroutines e
  commands : a'.commands.toList =
    a.commands.toList.map (join a.subroutines) ++
      [⟨a.commands.size, lastNumber lines, "EXIT", .exit⟩]
  chains : a'.chains = a.chains
  loops : a'.loops = a.loops
  subroutines : a'.subroutines = a.subroutines
  store : a'.memory.store = a.memory.store

theorem Walks.findings_eq {lines : List Line} (h : Walks a lines a') :
    a'.findings = a.findings := by
  induction h with
  | nil => rfl
  | cons ht _ ih => rw [ih, ht.findings_eq]

/-- A walk that succeeds takes in every line and finishes. -/
theorem walk_gives {lines : List Line} (hc : a.findings.collecting = false)
    (h : Gives (walk lines) a () a') :
    ∃ b, (Gives (forIn lines PUnit.unit fun l _ => do
        line l
        pure (ForInStep.yield PUnit.unit)) a PUnit.unit b) ∧
      Walks a lines b ∧ Finishes b lines a' := by
  simp only [walk, finish, gives_bind, gives_get, gives_modify] at h
  obtain ⟨_, b, h₁, _, _, ⟨_, b', h₂, _, _, ⟨rfl, rfl⟩, es, b'', h₃, rfl⟩, rfl⟩ := h
  have hw := walks_of_forIn hc h₁
  have hcb : b.findings.collecting = false := by rw [hw.findings_eq, hc]
  obtain ⟨rfl, hclosed⟩ := recordOpen_gives hcb h₂
  rw [Array.mapM_eq_mapM_toList] at h₃
  obtain ⟨es', hes, rfl⟩ := gives_map.mp h₃
  obtain ⟨rfl, rfl, hjoins⟩ := mapM_joined_gives hcb hes
  refine ⟨b, h₁, hw, hclosed, hjoins, ?_, rfl, rfl, rfl, rfl⟩
  simp only [List.size_toArray, List.length_map, Array.length_toList, Array.toList_push]
  rfl

end CommandScript.Assembly
