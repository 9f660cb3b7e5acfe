import CommandScript.Proofs.Script.Recording
import CommandScript.Script.Declarations

/-!
# The first walk, stopping and going on

Taking in a line is quiet. Hence the walk that goes on is the one that stops, up to its fault, and
it never fails.
-/

namespace CommandScript

/-- Allocating is reported, but not as an error. -/
theorem Memory.messages_error_allocate {m m' : Memory} {scope : Scope} {type : ValueType}
    {name owner : String} (h : m.allocate scope type name owner = .ok m') :
    m'.log.messages .error = m.log.messages .error := by
  simp only [Memory.allocate_eq, Checked.bind_ok, Checked.pure_ok] at h
  obtain ⟨_, -, rfl⟩ := h
  exact Script.Recorder.messages_add_of_ne _ (by decide) _

namespace Script.Declarations

open Recorder

instance : Recorder Declarations where
  findings d := d.findings
  log d := d.memory.log
  noted d findings log := { d with findings, memory := { d.memory with log } }
  findings_noted _ _ _ := rfl
  log_noted _ _ _ := rfl
  noted_self _ := rfl

/-! ### Lines -/

theorem allocateAll_quiet (type : ValueType) (owner : String) (names : List String) :
    Quiet (allocateAll type owner names) := by
  intro found found' errors
  induction names with
  | nil => exact couples_pure
  | cons name names ih =>
    refine couples_get_bind fun s _ ⟨_, heq, herrors⟩ => ?_
    subst heq
    refine couples_lift_bind fun m hm => Couples.bind (couples_modify ?_) fun _ => ih
    rintro s' _ ⟨hf, rfl, -⟩
    exact ⟨hf, rfl, (Memory.messages_error_allocate hm).trans herrors⟩

theorem declare_quiet (number : Nat) (k : Keyword) (rest : String) :
    Quiet (declare number k rest) := by
  intro found found' errors
  refine couples_get_bind ?_
  rintro s _ ⟨rfl, rfl, rfl⟩
  have hset (d : Declarations) (hf : d.findings = s.findings) (hm : d.memory = s.memory) :
      Couples (Blind s.findings found' (s.memory.log.messages .error))
        (set d : DeclarationM PUnit) (set { d with findings := found' }) :=
    couples_set ⟨hf, rfl, by rw [← hm]; rfl⟩
  cases k <;> dsimp only [noted]
  case allocate =>
    exact couples_lift.bind fun ⟨scope, type, names⟩ =>
      couples_ite (fun _ => allocateAll_quiet type _ names _ _ _) fun _ => couples_pure
  case endMain =>
    cases s.current with
    | some name => exact couples_throw_bind
    | none =>
      cases s.endMainLine with
      | some line => exact couples_throw_bind
      | none => exact hset _ rfl rfl
  case sub =>
    refine couples_lift.bind fun name => ?_
    cases s.current with
    | some outer => exact couples_throw_bind
    | none => exact couples_lift.bind fun t => hset _ rfl rfl
  case endSub =>
    cases s.current with
    | none => exact couples_throw
    | some name => exact hset _ rfl rfl
  case gosub =>
    exact couples_lift.bind fun name =>
      couples_ite (fun _ => hset _ rfl rfl) fun _ => couples_pure
  case startup =>
    refine couples_ite (fun _ => couples_throw_bind) fun _ => ?_
    refine couples_ite (fun _ => couples_throw_bind) fun _ => ?_
    exact hset _ rfl rfl
  all_goals first | exact couples_throw | exact couples_pure

theorem foldl_addOption (options : List ScriptOption) (d : Declarations) :
    ∃ log startup, options.foldl addOption d =
      { d with memory := { d.memory with log }, startup } := by
  induction options generalizing d with
  | nil => exact ⟨d.memory.log, d.startup, rfl⟩
  | cons o options ih =>
    obtain ⟨log, startup, h⟩ := ih (d.addOption o)
    exact ⟨log, startup, h⟩

theorem addOption_noted (options : List ScriptOption) (d : Declarations) (found : Findings) :
    options.foldl addOption (noted d found (log d)) =
      noted (options.foldl addOption d) found (log (options.foldl addOption d)) := by
  induction options generalizing d with
  | nil => rfl
  | cons o options ih => exact ih (d.addOption o)

theorem messages_addOption (options : List ScriptOption) (d : Declarations) :
    (log (options.foldl addOption d)).messages .error = (log d).messages .error := by
  induction options generalizing d with
  | nil => rfl
  | cons o options ih =>
    refine (ih _).trans ((messages_add_of_ne _ (by decide) _).trans ?_)
    cases o <;> rfl

theorem startupOptions_quiet (text : List Char) : Quiet (startupOptions text) := by
  intro found found' errors
  have take (arguments : List Char) : Couples (Blind found found' errors)
      (do
        let options ← ScriptOption.read (← Text.splitArguments (String.ofList arguments))
        modify fun d => options.foldl addOption d : DeclarationM Unit)
      (do
        let options ← ScriptOption.read (← Text.splitArguments (String.ofList arguments))
        modify fun d => options.foldl addOption d : DeclarationM Unit) := by
    refine couples_lift.bind fun _ => couples_lift.bind fun options => couples_modify ?_
    rintro s _ ⟨rfl, rfl, rfl⟩
    refine ⟨?_, addOption_noted options s found', messages_addOption options s⟩
    obtain ⟨_, _, heq⟩ := foldl_addOption options s
    rw [heq]
    rfl
  simp only [startupOptions]
  refine couples_ite (fun _ => take _) fun _ => ?_
  split
  · refine couples_modify ?_
    rintro s _ ⟨rfl, rfl, rfl⟩
    exact ⟨rfl, rfl, rfl⟩
  · exact take _
  · exact couples_throw

theorem line_quiet (l : Line) : Quiet (line l) := by
  intro found found' errors
  refine couples_get_bind ?_
  rintro s _ ⟨-, rfl, -⟩
  refine couples_ite (fun _ => startupOptions_quiet _ _ _ _) fun _ => ?_
  refine couples_ite (fun _ => couples_pure) fun _ => ?_
  dsimp only
  split
  · exact declare_quiet _ _ _ _ _ _
  · exact couples_pure

/-! ### The walk -/

variable {base : List String}

theorem lineOrFault_tracks (l : Line) : Tracks base (lineOrFault l) (lineOrFault l) :=
  (line_quiet l).tracks_tryCatch fun _ => tracks_record _

/-- What the end of the script records behind an open startup block. -/
def recordMissing (lines : List Line) : DeclarationM Unit := do
  for s in (← get).subroutines.unclosed do
    record (onNumber lines s.startLine (unclosedSub s.name))
  let calls := (← get).calls.mergeSort fun a b => decide (a.1 ≤ b.1)
  for (name, n) in calls do
    if !(← get).subroutines.contains name then
      record (onNumber lines n (undefinedSub name))

theorem recordMissing_tracks (lines : List Line) :
    Tracks base (recordMissing lines) (recordMissing lines) := by
  refine tracks_get_bind fun s _ => (tracks_forIn fun s => ?_).bind fun _ => ?_
  · exact (tracks_record _).bind fun _ => tracks_pure
  · refine tracks_get_bind fun s _ => (tracks_forIn fun call => ?_).bind fun _ => tracks_pure
    refine tracks_get_bind fun s _ => tracks_ite (fun _ => ?_) fun _ => tracks_pure
    exact (tracks_record _).bind fun _ => tracks_pure

theorem atEnd_tracks (lines : List Line) : Tracks base (atEnd lines) (atEnd lines) := by
  refine tracks_get_bind fun s _ => ?_
  dsimp only [noted]
  cases s.startupLine with
  | none => exact recordMissing_tracks lines
  | some n => exact (tracks_record _).bind fun _ => recordMissing_tracks lines

/-- The first walk that goes on is the one that stops, up to its fault, and it never fails. -/
theorem walk_tracks (lines : List Line) : Tracks base (walk lines) (walk lines) := by
  refine (tracks_forIn fun l => (lineOrFault_tracks l).bind fun _ => tracks_pure).bind fun _ => ?_
  refine (atEnd_tracks lines).bind fun _ =>
    Quiet.tracks (fun _ _ _ => couples_modify ?_) fun _ => ⟨(), rfl⟩
  rintro s _ ⟨rfl, rfl, rfl⟩
  exact ⟨rfl, rfl, messages_add_of_ne _ (by decide) _⟩

end Script.Declarations

end CommandScript
