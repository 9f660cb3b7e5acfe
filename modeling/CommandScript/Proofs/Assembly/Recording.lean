import CommandScript.Assembly
import CommandScript.Proofs.Declarations.Recording

/-!
# The second walk, stopping and going on

Reading a line and pushing its command are quiet, and only the end of the script records besides the
lines. Hence this walk, too, is the same up to the fault at which it may stop.
-/

namespace CommandScript.Assembly

open Script Script.Recorder

instance : Recorder Assembly where
  findings a := a.findings
  log a := a.memory.log
  noted a findings log := { a with findings, memory := { a.memory with log } }
  findings_noted _ _ _ := rfl
  log_noted _ _ _ := rfl
  noted_self _ := rfl

section Lines

variable {s : Assembly} {found : Findings}

/-- The state that differs in its findings from another one, which is set. -/
theorem couples_setNoted {a : Assembly} (hf : a.findings = s.findings) (hm : a.memory = s.memory) :
    Couples (Blind s.findings found (s.memory.log.messages .error))
      (set a : AssemblyM PUnit) (set { a with findings := found }) :=
  couples_set ⟨hf, rfl, by rw [← hm]; rfl⟩

theorem allocateAll_quiet (type : ValueType) (names : List String) :
    Quiet (allocateAll type names) := by
  intro found found' errors
  induction names with
  | nil => exact couples_pure
  | cons name names ih =>
    refine couples_get_bind ?_
    rintro s _ ⟨hf, rfl, herrors⟩
    refine couples_ite (fun _ => couples_throw_bind) fun _ => couples_lift_bind fun m hm => ?_
    refine Couples.bind (couples_set ⟨hf, rfl, ?_⟩) fun _ => ih
    exact (Memory.messages_error_allocate hm).trans herrors

theorem readAllocate_quiet (rest : String) : Quiet (readAllocate rest) := by
  intro found found' errors
  refine couples_lift.bind fun ⟨scope, type, names⟩ => couples_ite (fun _ => ?_) fun _ => couples_pure
  exact (allocateAll_quiet type names _ _ _).bind fun _ => couples_pure

theorem innermostChain_quiet (k : Keyword) : Quiet (innermostChain k) := by
  intro found found' errors
  refine couples_get_bind ?_
  rintro s _ ⟨-, rfl, -⟩
  dsimp only [noted]
  cases s.openChains with
  | nil => exact couples_throw
  | cons i outer => exact couples_pure

theorem innermostLoop_quiet (k : Keyword) : Quiet (innermostLoop k) := by
  intro found found' errors
  refine couples_get_bind ?_
  rintro s _ ⟨-, rfl, -⟩
  dsimp only [noted]
  cases s.openLoops with
  | nil => exact couples_throw
  | cons id outer => exact couples_pure

theorem beginChain_quiet : Quiet beginChain := by
  intro found found' errors
  refine couples_modify ?_
  rintro s _ ⟨rfl, rfl, rfl⟩
  exact ⟨rfl, rfl, rfl⟩

theorem addBranch_quiet (k : Keyword) (isElse : Bool) : Quiet (addBranch k isElse) := by
  intro found found' errors
  refine (innermostChain_quiet k _ _ _).bind fun i => couples_get_bind ?_
  rintro s _ ⟨rfl, rfl, rfl⟩
  exact couples_lift.bind fun _ => couples_lift.bind fun chains => couples_setNoted rfl rfl

theorem endChain_quiet : Quiet endChain := by
  intro found found' errors
  refine (innermostChain_quiet .endIf _ _ _).bind fun i => couples_get_bind ?_
  rintro s _ ⟨rfl, rfl, rfl⟩
  dsimp only [noted]
  refine Couples.bind (couples_setNoted rfl rfl) fun _ => couples_lift.bind fun chains => ?_
  refine Couples.bind (couples_modify ?_) fun _ => couples_lift
  rintro s' _ ⟨hf, rfl, he⟩
  exact ⟨hf, rfl, he⟩

theorem beginLoop_quiet (rest : String) : Quiet (beginLoop rest) := by
  intro found found' errors
  refine couples_lift.bind fun parts => couples_get_bind ?_
  rintro s _ ⟨rfl, rfl, rfl⟩
  refine couples_ite (fun _ => couples_throw_bind) fun _ => ?_
  refine couples_ite (fun _ => couples_throw_bind) fun _ => ?_
  refine couples_lift.bind fun start => couples_lift.bind fun stop => ?_
  dsimp only [noted]
  cases parts.step with
  | some text =>
    exact couples_lift.bind fun _ => Couples.bind (couples_setNoted rfl rfl) fun _ => couples_pure
  | none =>
    exact couples_pure.bind fun _ => Couples.bind (couples_setNoted rfl rfl) fun _ => couples_pure

theorem endLoop_quiet : Quiet endLoop := by
  intro found found' errors
  refine couples_get_bind ?_
  rintro s _ ⟨rfl, rfl, rfl⟩
  dsimp only [noted]
  cases s.openLoops with
  | nil => exact couples_throw
  | cons id outer =>
    refine Couples.bind (couples_setNoted rfl rfl) fun _ => couples_lift.bind fun loops => ?_
    refine Couples.bind (couples_modify ?_) fun _ => couples_lift.bind fun l => ?_
    · rintro s' _ ⟨hf, rfl, he⟩
      exact ⟨hf, rfl, he⟩
    · exact couples_ite (fun _ => couples_throw_bind) fun _ => couples_pure

theorem beginSub_quiet (rest : String) : Quiet (beginSub rest) := by
  intro found found' errors
  refine couples_lift.bind fun name => couples_get_bind ?_
  rintro s _ ⟨rfl, rfl, rfl⟩
  dsimp only [noted]
  cases s.current with
  | some outer => exact couples_throw_bind
  | none =>
    refine couples_ite (fun _ => couples_throw_bind) fun _ => couples_lift.bind fun sub => ?_
    refine couples_ite (fun _ => couples_throw_bind) fun _ => ?_
    exact Couples.bind (couples_setNoted rfl rfl) fun _ => couples_pure

theorem endSub_quiet : Quiet endSub := by
  intro found found' errors
  refine couples_get_bind ?_
  rintro s _ ⟨rfl, rfl, rfl⟩
  dsimp only [noted]
  cases s.current with
  | none => exact couples_throw
  | some name =>
    refine Couples.bind (couples_setNoted rfl rfl) fun _ => ?_
    exact couples_ite (fun _ => couples_throw_bind) fun _ => couples_pure

theorem readGosub_quiet (rest : String) : Quiet (readGosub rest) := by
  intro found found' errors
  refine couples_lift.bind fun name => couples_get_bind ?_
  rintro s _ ⟨rfl, rfl, rfl⟩
  refine couples_ite (fun _ => couples_throw_bind) fun _ => ?_
  exact Couples.bind (couples_setNoted rfl rfl) fun _ => couples_pure

theorem readKeyword_quiet (k : Keyword) (rest : String) : Quiet (readKeyword k rest) := by
  intro found found' errors
  refine couples_get_bind ?_
  rintro s _ ⟨-, rfl, -⟩
  cases k
  case allocate => exact (readAllocate_quiet rest _ _ _).map
  case if_ =>
    exact couples_lift.bind fun _ => (beginChain_quiet _ _ _).bind fun _ => couples_pure
  case elseIf =>
    exact couples_lift.bind fun _ => (addBranch_quiet _ _ _ _ _).bind fun _ => couples_pure
  case else_ =>
    exact couples_lift.bind fun _ => (addBranch_quiet _ _ _ _ _).bind fun _ => couples_pure
  case endIf =>
    exact couples_lift.bind fun _ => (endChain_quiet _ _ _).bind fun _ => couples_pure
  case for_ => exact (beginLoop_quiet rest _ _ _).map
  case next =>
    exact couples_lift.bind fun _ => (innermostLoop_quiet _ _ _ _).bind fun _ => couples_pure
  case skip =>
    exact couples_lift.bind fun _ => (innermostLoop_quiet _ _ _ _).bind fun _ => couples_pure
  case skipIf =>
    exact (innermostLoop_quiet _ _ _ _).bind fun _ => couples_lift.bind fun _ => couples_pure
  case break_ =>
    exact couples_lift.bind fun _ => (innermostLoop_quiet _ _ _ _).bind fun _ => couples_pure
  case breakIf =>
    exact (innermostLoop_quiet _ _ _ _).bind fun _ => couples_lift.bind fun _ => couples_pure
  case endFor => exact couples_lift.bind fun _ => (endLoop_quiet _ _ _).map
  case sub => exact (beginSub_quiet rest _ _ _).map
  case endSub => exact couples_lift.bind fun _ => (endSub_quiet _ _ _).map
  case gosub => exact (readGosub_quiet rest _ _ _).map
  case endMain =>
    refine couples_lift.bind fun _ => couples_get_bind ?_
    rintro s _ ⟨-, rfl, -⟩
    dsimp only [noted]
    cases s.current with
    | some name => exact couples_throw
    | none => exact couples_pure
  case startup =>
    refine couples_lift.bind fun _ => Couples.bind (couples_modify ?_) fun _ => couples_pure
    rintro s' _ ⟨hf, rfl, he⟩
    exact ⟨hf, rfl, he⟩
  case endStartup => exact couples_throw
  -- every other keyword only reads
  all_goals exact couples_lift

theorem readLine_quiet (text : String) : Quiet (readLine text) := by
  intro found found' errors
  refine couples_get_bind ?_
  rintro s _ ⟨-, rfl, -⟩
  refine couples_ite (fun _ => couples_ite (fun _ => ?_) fun _ => couples_pure) fun _ => ?_
  · refine Couples.bind (couples_modify ?_) fun _ => couples_pure
    rintro s' _ ⟨hf, rfl, he⟩
    exact ⟨hf, rfl, he⟩
  · refine couples_ite (fun _ => couples_lift.bind fun _ => couples_pure) fun _ => ?_
    split
    · exact readKeyword_quiet _ _ _ _ _
    · exact couples_throw

theorem push_quiet (l : Line) (command : Command) : Quiet (push l command) := by
  intro found found' errors
  refine couples_modify ?_
  rintro s _ ⟨hf, rfl, he⟩
  exact ⟨hf, rfl, (messages_add_of_ne _ (by decide) _).trans he⟩

/-- What is tried on a line. -/
theorem takeIn_quiet (l : Line) : Quiet (do
    if let some command ← readLine l.text then
      push l command : AssemblyM Unit) := by
  intro found found' errors
  refine (readLine_quiet l.text _ _ _).bind fun command => ?_
  cases command with
  | none => exact couples_pure
  | some command => exact push_quiet l command _ _ _

end Lines

/-! ### The walk -/

variable {base : List String}

theorem line_tracks (l : Line) : Tracks base (line l) (line l) :=
  (takeIn_quiet l).tracks_tryCatch fun _ => tracks_record _

theorem recordAt_tracks (i : Nat) (f : Fault) : Tracks base (recordAt i f) (recordAt i f) := by
  refine tracks_get_bind fun a _ => ?_
  dsimp only [noted]
  cases a.commands[i]? with
  | none => exact tracks_pure
  | some e => exact tracks_record _

theorem recordOpen_tracks (lines : List Line) :
    Tracks base (recordOpen lines) (recordOpen lines) := by
  refine tracks_get_bind fun a _ => (tracks_forIn fun i => ?_).bind fun _ => ?_
  · exact (recordAt_tracks _ _).bind fun _ => tracks_pure
  · refine (tracks_forIn fun id => (recordAt_tracks _ _).bind fun _ => tracks_pure).bind fun _ => ?_
    dsimp only [noted]
    cases a.current with
    | none => exact tracks_pure
    | some name =>
      dsimp only
      cases a.subroutines.get? name with
      | none => exact tracks_pure
      | some sub => exact tracks_record _

theorem joined_tracks (e : Entry) : Tracks base (joined e) (joined e) := by
  refine tracks_get_bind fun a _ => ?_
  dsimp only [noted]
  split
  · exact tracks_pure
  · rename_i name _ _
    cases (a.subroutines.get? name).bind (·.startIndex) with
    | some target => exact tracks_pure
    | none => exact (tracks_record _).bind fun _ => tracks_pure
  · exact tracks_pure

theorem finish_tracks (lines : List Line) : Tracks base (finish lines) (finish lines) := by
  refine (recordOpen_tracks lines).bind fun _ => tracks_get_bind fun a _ => ?_
  simp only [Array.mapM_eq_mapM_toList, map_eq_pure_bind]
  refine Tracks.bind ((tracks_mapM joined_tracks).bind fun _ => tracks_pure) fun commands => ?_
  refine Quiet.tracks (fun _ _ _ => couples_modify ?_) fun _ => ⟨(), rfl⟩
  rintro s _ ⟨hf, rfl, he⟩
  exact ⟨hf, rfl, he⟩

/-- The second walk that goes on is the one that stops, up to its fault, and it never fails. -/
theorem walk_tracks (lines : List Line) : Tracks base (walk lines) (walk lines) := by
  refine (tracks_forIn fun l => (line_tracks l).bind fun _ => tracks_pure).bind fun _ => ?_
  refine (finish_tracks lines).bind fun _ =>
    Quiet.tracks (fun _ _ _ => couples_modify ?_) fun _ => ⟨(), rfl⟩
  rintro s _ ⟨rfl, rfl, rfl⟩
  exact ⟨rfl, rfl, messages_add_of_ne _ (by decide) _⟩

end CommandScript.Assembly
