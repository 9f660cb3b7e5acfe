import CommandScript.Proofs.Declarations.Recording
import CommandScript.Proofs.Script.Statement

/-!
# The first walk that succeeds

`Change` lists what a keyword declares, with every check that its line passed. While nothing is
collected, a walk that succeeds met no fault, so each line did what `Declares` says; the end of the
script found no block open and every call declared.
-/

namespace CommandScript.Script.Declarations

open Recorder (record_gives)

/-- Declaring what stands behind the keyword leads from one state of the walk to another. -/
inductive Change (d : Declarations) (number : Nat) : Keyword → String → Declarations → Prop where
  | allocate {rest type names m} : readAllocation rest = .ok (.global, type, names) →
      Gives (allocateAll type d.owner names) d () { d with memory := m } →
      Change d number .allocate rest { d with memory := m }
  | allocateOwned {rest type names} : readAllocation rest = .ok (.owned, type, names) →
      Change d number .allocate rest d
  | endMain {rest} : d.current = none → d.endMainLine = none →
      Change d number .endMain rest { d with endMainLine := some number }
  | sub {rest subroutines} : isValidName rest = true → d.current = none →
      d.subroutines.declare rest number = .ok subroutines →
      Change d number .sub rest { d with subroutines, current := some rest }
  | endSub {rest name} : d.current = some name →
      Change d number .endSub rest
        { d with
          subroutines := d.subroutines.update name fun s => { s with endLine := some number }
          current := none }
  | gosub {rest} : isValidName rest = true →
      Change d number .gosub rest
        { d with calls := if d.calls.contains rest then d.calls else d.calls.put rest number }
  | startup {rest} : d.current = none → d.startupSeen = false →
      Change d number .startup rest { d with startupSeen := true, startupLine := some number }
  | other {k rest} : k ∉ [.allocate, .endMain, .sub, .endSub, .gosub, .startup, .endStartup] →
      Change d number k rest d

variable {d d' : Declarations} {number : Nat} {rest : String}

/-- Allocating touches the memory only. -/
theorem exists_of_allocateAll {type : ValueType} {owner : String} {names : List String}
    (h : Gives (allocateAll type owner names) d () d') : ∃ m, d' = { d with memory := m } := by
  induction names generalizing d with
  | nil =>
    simp only [allocateAll, gives_pure] at h
    obtain ⟨-, rfl⟩ := h
    exact ⟨d.memory, rfl⟩
  | cons name names ih =>
    simp only [allocateAll, gives_bind, gives_get, gives_lift, gives_modify] at h
    obtain ⟨_, _, ⟨rfl, rfl⟩, m, _, ⟨-, rfl⟩, _, _, rfl, h⟩ := h
    obtain ⟨m', rfl⟩ := ih h
    exact ⟨m', rfl⟩

theorem change_of_declare {k : Keyword} (h : Gives (declare number k rest) d () d') :
    Change d number k rest d' := by
  unfold declare at h
  simp only [gives_bind, gives_get] at h
  obtain ⟨_, _, ⟨rfl, rfl⟩, h⟩ := h
  cases k <;> dsimp only at h
  case allocate =>
    simp only [gives_bind, gives_lift, gives_ite, gives_pure] at h
    obtain ⟨⟨scope, type, names⟩, _, ⟨hr, rfl⟩, ⟨rfl, h⟩ | ⟨hs, -, rfl⟩⟩ := h
    · obtain ⟨m, rfl⟩ := exists_of_allocateAll h
      exact .allocate hr h
    · cases scope with
      | global => exact absurd rfl hs
      | owned => exact .allocateOwned hr
  case endMain =>
    split at h
    · simp only [gives_bind, gives_throw, false_and, exists_false] at h
    · rename_i hcurrent
      split at h
      · simp only [gives_bind, gives_throw, false_and, exists_false] at h
      · rename_i hline
        obtain rfl := gives_set.mp h
        exact .endMain (Option.eq_none_iff_forall_ne_some.mpr hcurrent)
          (Option.eq_none_iff_forall_ne_some.mpr hline)
  case sub =>
    simp only [gives_bind, gives_lift] at h
    obtain ⟨name, _, ⟨hname, rfl⟩, h⟩ := h
    obtain ⟨rfl, hvalid⟩ := readSubName_ok hname
    split at h
    · simp only [gives_bind, gives_throw, false_and, exists_false] at h
    · rename_i hcurrent
      simp only [gives_bind, gives_lift, gives_set] at h
      obtain ⟨t, _, ⟨ht, rfl⟩, rfl⟩ := h
      exact .sub hvalid (Option.eq_none_iff_forall_ne_some.mpr hcurrent) ht
  case endSub =>
    split at h
    · exact (gives_throw.mp h).elim
    · rename_i name hname
      obtain rfl := gives_set.mp h
      exact .endSub hname
  case gosub =>
    simp only [gives_bind, gives_lift, gives_ite, gives_set, gives_pure] at h
    obtain ⟨name, _, ⟨hname, rfl⟩, h⟩ := h
    obtain ⟨rfl, hvalid⟩ := readSubName_ok hname
    have hg : Change d number .gosub name _ := .gosub hvalid
    obtain ⟨hnew, rfl⟩ | ⟨hold, -, rfl⟩ := h
    · rwa [if_neg (by simpa using hnew)] at hg
    · rwa [if_pos (by simpa using hold)] at hg
  case startup =>
    simp only [gives_bind, gives_ite, gives_throw, gives_set, false_and, exists_false, and_false,
      false_or, Bool.not_eq_true] at h
    obtain ⟨hcurrent, hseen, rfl⟩ := h
    exact .startup (by simpa using hcurrent) hseen
  case endStartup => exact (gives_throw.mp h).elim
  all_goals
    obtain ⟨-, rfl⟩ := gives_pure.mp h
    exact .other (by decide)

/-- What a line of the startup block does: it may end the block, and else it gives options. -/
structure Inside (d : Declarations) (l : Line) (d' : Declarations) : Prop where
  startupLine : d'.startupLine =
    if l.keyword? = some .endStartup then none else d.startupLine
  findings : d'.findings = d.findings
  store : d'.memory.store = d.memory.store
  subroutines : d'.subroutines = d.subroutines
  current : d'.current = d.current
  calls : d'.calls = d.calls

/-- What taking in a line that has no fault does. -/
inductive Takes (d : Declarations) (l : Line) : Declarations → Prop where
  | inside {d' : Declarations} : d.startupLine.isSome → Inside d l d' → Takes d l d'
  | silent : d.startupLine = none → l.statement? = none → Takes d l d
  | statement {k rest} {d' : Declarations} : d.startupLine = none → l.statement? = some (k, rest) →
      Change d l.number k rest d' → Takes d l d'

/-- Taking in lines one after the other. -/
inductive Walks : Declarations → List Line → Declarations → Prop where
  | nil (d : Declarations) : Walks d [] d
  | cons {b c d : Declarations} {l : Line} {ls : List Line} : Takes b l c → Walks c ls d →
      Walks b (l :: ls) d

theorem inside_of_startupOptions {l : Line} (h : Gives (startupOptions l.text.toList) d () d') :
    Inside d l d' := by
  have options (hne : l.keyword? ≠ some .endStartup) {arguments : List Char}
      (h : Gives (do
        let options ← ScriptOption.read (← Text.splitArguments (String.ofList arguments))
        modify fun d => options.foldl addOption d : DeclarationM Unit) d () d') : Inside d l d' := by
    simp only [gives_bind, gives_lift, gives_modify] at h
    obtain ⟨_, _, ⟨-, rfl⟩, options, _, ⟨-, rfl⟩, rfl⟩ := h
    obtain ⟨log, startup, hfold⟩ := foldl_addOption options d
    rw [hfold]
    exact ⟨(if_neg hne).symm, rfl, rfl, rfl, rfl, rfl⟩
  simp only [startupOptions] at h
  rcases gives_ite.mp h with ⟨hopt, h⟩ | ⟨hopt, h⟩
  · refine options (fun hk => ?_) h
    rw [(Line.keyword?_eq_some.mp hk).1] at hopt
    cases hopt
  · have hopt := Bool.eq_false_iff.mpr hopt
    split at h
    · rename_i hk
      obtain rfl := gives_modify.mp h
      have hend := Line.keyword?_eq_some.mpr ⟨hopt, hk⟩
      exact ⟨(if_pos hend).symm, rfl, rfl, rfl, rfl, rfl⟩
    · rename_i hk
      refine options (fun hend => ?_) h
      rw [(Line.keyword?_eq_some.mp hend).2] at hk
      cases hk
    · exact (gives_throw.mp h).elim

theorem takes_of_line {l : Line} (h : Gives (line l) d () d') : Takes d l d' := by
  simp only [line, gives_bind, gives_get, gives_ite] at h
  obtain ⟨_, _, ⟨rfl, rfl⟩, ⟨hin, h⟩ | ⟨hin, ⟨hopt, h⟩ | ⟨hopt, h⟩⟩⟩ := h
  · exact .inside hin (inside_of_startupOptions h)
  · obtain ⟨-, rfl⟩ := gives_pure.mp h
    refine .silent (Option.not_isSome_iff_eq_none.mp hin) ?_
    rw [Line.statement?, if_pos hopt]
  · have hin := Option.not_isSome_iff_eq_none.mp hin
    split at h
    · rename_i k hk
      exact .statement hin
        (Line.statement?_eq_some.mpr ⟨Bool.eq_false_iff.mpr hopt, hk, rfl⟩) (change_of_declare h)
    · rename_i hk
      obtain ⟨-, rfl⟩ := gives_pure.mp h
      refine .silent hin ?_
      rw [Line.statement?, if_neg hopt, hk, Option.map_none]

/-! ### Faults end the walk -/

theorem takes_of_lineOrFault {l : Line} (hc : d.findings.collecting = false)
    (h : Gives (lineOrFault l) d () d') : Takes d l d' :=
  takes_of_line ((line_quiet l).gives_of_tryCatch hc h)

theorem Takes.findings_eq {l : Line} (h : Takes d l d') : d'.findings = d.findings := by
  cases h with
  | inside _ h => exact h.findings
  | silent => rfl
  | statement _ _ h => cases h <;> rfl

theorem walks_of_forIn {lines : List Line} {u : PUnit} (hc : d.findings.collecting = false)
    (h : Gives (forIn lines PUnit.unit fun l _ => do
      lineOrFault l
      pure (ForInStep.yield PUnit.unit)) d u d') :
    Walks d lines d' := by
  induction lines generalizing d with
  | nil =>
    obtain rfl := gives_forIn_nil.mp h
    exact .nil d
  | cons l ls ih =>
    obtain ⟨b, hl, h⟩ := gives_forIn_cons.mp h
    have ht := takes_of_lineOrFault hc hl
    exact .cons ht (ih (by rw [ht.findings_eq, hc]) h)

theorem Walks.findings_eq {lines : List Line} (h : Walks d lines d') :
    d'.findings = d.findings := by
  induction h with
  | nil => rfl
  | cons ht _ ih => rw [ih, ht.findings_eq]

/-! ### The end of the script -/

/-- Nothing is open at the end of the script. -/
structure Ends (d : Declarations) : Prop where
  startupLine : d.startupLine = none
  closed : ∀ s ∈ d.subroutines, s.endLine.isSome

theorem Ends.of_unclosed (hstartup : d.startupLine = none)
    (hclosed : d.subroutines.unclosed = []) : Ends d where
  startupLine := hstartup
  closed s hs := by
    have := List.filter_eq_nil_iff.mp hclosed s hs
    simpa [Option.isSome_iff_ne_none] using this

theorem gives_recordAll {γ : Type} {l : List γ} {f : γ → Fault} {u : PUnit}
    (hc : d.findings.collecting = false) :
    Gives (forIn l PUnit.unit fun c _ => do
      record (f c)
      pure (ForInStep.yield PUnit.unit)) d u d' ↔ d = d' ∧ l = [] := by
  cases l with
  | nil => exact gives_forIn_nil.trans (and_iff_left rfl).symm
  | cons c l =>
    rw [gives_forIn_cons]
    exact ⟨fun ⟨b, hb, _⟩ => (record_gives hc hb).elim, fun h => nomatch h.2⟩

theorem gives_recordCalls {lines : List Line} {calls : List (String × Nat)} {u : PUnit}
    (hc : d.findings.collecting = false) :
    Gives (forIn calls PUnit.unit fun c _ => do
      if !(← get).subroutines.contains c.1 then
        record (onNumber lines c.2 (undefinedSub c.1))
      pure (ForInStep.yield PUnit.unit)) d u d' ↔
    d = d' ∧ ∀ c ∈ calls, d.subroutines.contains c.1 = true := by
  induction calls with
  | nil =>
    rw [List.forIn_nil, gives_pure]
    simp
  | cons c calls ih =>
    simp only [List.forIn_cons, gives_bind, gives_get, gives_ite, gives_pure, List.forall_mem_cons]
    constructor
    · rintro ⟨_, _, ⟨_, _, ⟨rfl, rfl⟩, ⟨-, _, _, hr, -⟩ | ⟨hdeclared, rfl, rfl⟩⟩, h⟩
      · exact (record_gives hc hr).elim
      · obtain ⟨rfl, hcalls⟩ := ih.mp h
        exact ⟨rfl, by simpa using hdeclared, hcalls⟩
    · rintro ⟨rfl, hdeclared, hcalls⟩
      refine ⟨_, d, ⟨d, d, ⟨rfl, rfl⟩, .inr ⟨by simpa using hdeclared, rfl, rfl⟩⟩, ?_⟩
      exact ih.mpr ⟨rfl, hcalls⟩

/-- The walk comes past the end of the script where nothing is open and every call is declared. -/
theorem gives_atEnd {lines : List Line} (hc : d.findings.collecting = false) :
    Gives (atEnd lines) d () d' ↔ d = d' ∧ d.startupLine = none ∧ d.subroutines.unclosed = [] ∧
      ∀ c ∈ d.calls.mergeSort fun a b => decide (a.1 ≤ b.1),
        d.subroutines.contains c.1 = true := by
  simp only [atEnd, gives_bind, gives_get]
  constructor
  · rintro ⟨_, _, ⟨rfl, rfl⟩, h⟩
    split at h
    · obtain ⟨_, _, h, -⟩ := gives_bind.mp h
      exact (record_gives hc h).elim
    · rename_i hnone
      simp only [gives_bind, gives_get, gives_pure] at h
      obtain ⟨_, _, ⟨rfl, rfl⟩, _, _, h₁, _, _, ⟨rfl, rfl⟩, _, _, h₂, -, rfl⟩ := h
      obtain ⟨rfl, hclosed⟩ := (gives_recordAll hc).mp h₁
      obtain ⟨rfl, hcalls⟩ := (gives_recordCalls hc).mp h₂
      exact ⟨rfl, Option.eq_none_iff_forall_ne_some.mpr hnone, hclosed, hcalls⟩
  · rintro ⟨rfl, hstartup, hclosed, hcalls⟩
    refine ⟨d, d, ⟨rfl, rfl⟩, ?_⟩
    rw [hstartup]
    simp only [gives_bind, gives_get, gives_pure]
    exact ⟨d, d, ⟨rfl, rfl⟩, ⟨⟩, d, (gives_recordAll hc).mpr ⟨rfl, hclosed⟩, d, d, ⟨rfl, rfl⟩, ⟨⟩,
      d, (gives_recordCalls hc).mpr ⟨rfl, hcalls⟩, trivial, rfl⟩

/-- A walk that succeeds takes in every line, and nothing is open at its end. -/
theorem walk_gives {lines : List Line} (hc : d.findings.collecting = false)
    (h : Gives (walk lines) d () d') :
    ∃ b m, Walks d lines b ∧ Ends b ∧ m.store = b.memory.store ∧ d' = { b with memory := m } := by
  simp only [walk, gives_bind, gives_modify] at h
  obtain ⟨_, b, h₁, _, _, h₂, rfl⟩ := h
  have hw := walks_of_forIn hc h₁
  obtain ⟨rfl, hstartup, hclosed, -⟩ := (gives_atEnd (by rw [hw.findings_eq, hc])).mp h₂
  exact ⟨b, b.memory.report .compile _, hw, .of_unclosed hstartup hclosed, rfl, rfl⟩

end CommandScript.Script.Declarations
