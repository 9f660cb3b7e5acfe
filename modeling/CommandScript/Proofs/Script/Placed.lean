import CommandScript.Proofs.Assembly.Recording
import CommandScript.Proofs.Declarations.Recording
import CommandScript.Proofs.Nesting.Tables
import CommandScript.Proofs.Script.Recording
import CommandScript.Proofs.Unplaced

/-!
# Faults on lines of the script

A fault that a walk records is `Placed`: it has a line of the script attached, by number and text, and
nothing below has one. That every fault found so far is placed is kept with whatever invariant places
the numbers that the walk will attach later on (`Holding`). A part that records nothing stays there,
and where its fault is taken in with a line of the script, the walk stays there, too.
-/

namespace CommandScript.Script

/-- With the blanks around it cut off, line `n` of the script is this text, and it counts as a
command. -/
def Reads (script : String) (n : Nat) (text : String) : Prop :=
  1 ≤ n ∧ ∃ raw, (Text.lines script)[n - 1]? = some raw ∧
    text.toList = Text.trim raw.toList ∧ Line.counts text.toList = true

theorem of_mem_linesFrom {l : Line} {first : Nat} {raws : List String}
    (h : l ∈ linesFrom first raws) : first ≤ l.number ∧ ∃ raw, raws[l.number - first]? = some raw ∧
      l.text.toList = Text.trim raw.toList ∧ Line.counts l.text.toList = true := by
  induction raws generalizing first with
  | nil => cases h
  | cons raw raws ih =>
    have later (h : l ∈ linesFrom (first + 1) raws) : first ≤ l.number ∧
        ∃ r, (raw :: raws)[l.number - first]? = some r ∧
          l.text.toList = Text.trim r.toList ∧ Line.counts l.text.toList = true := by
      obtain ⟨hle, r, hr, h⟩ := ih h
      refine ⟨Nat.le_of_succ_le hle, r, ?_, h⟩
      rw [show l.number - first = l.number - (first + 1) + 1 by omega, List.getElem?_cons_succ]
      exact hr
    rw [linesFrom] at h
    split at h
    · rename_i hcounts
      rcases List.mem_cons.mp h with rfl | h
      · refine ⟨Nat.le_refl _, raw, ?_, String.toList_ofList, ?_⟩
        · rw [Nat.sub_self, List.getElem?_cons_zero]
        · rwa [String.toList_ofList]
      · exact later h
    · exact later h

/-- The lines of a script stand in it under their numbers. -/
theorem reads_of_mem {script : String} {l : Line} (h : l ∈ lines script) :
    Reads script l.number l.text :=
  of_mem_linesFrom h

/-- There is a line of this number. -/
def Numbered (lines : List Line) (n : Nat) : Prop :=
  ∃ l ∈ lines, l.number = n

/-- The fault has a line attached, and nothing below has one. -/
def Placed (lines : List Line) (f : Fault) : Prop :=
  ∃ l ∈ lines, ∃ g, f = .onLine l.number l.text g ∧ g.line? = none

section Attaching

variable {lines : List Line} {l : Line} {n : Nat} {g : Fault}

theorem atLine_of_line?_eq (hg : g.line? = none) (n : Nat) (text : String) :
    g.atLine n text = .onLine n text g := by
  rw [Fault.atLine, hg]

theorem placed_atLine (hl : l ∈ lines) (hg : g.line? = none) :
    Placed lines (g.atLine l.number l.text) :=
  ⟨l, hl, g, atLine_of_line?_eq hg _ _, hg⟩

/-- The text that a number finds is the text of a line with that number. -/
theorem placed_onNumber (hn : Numbered lines n) (hg : g.line? = none) :
    Placed lines (onNumber lines n g) := by
  have hsome : (lines.find? fun l => l.number == n).isSome := by
    obtain ⟨l, hl, hnumber⟩ := hn
    exact List.find?_isSome.mpr ⟨l, hl, by simpa using hnumber⟩
  obtain ⟨l, hfound⟩ := Option.isSome_iff_exists.mp hsome
  have hnumber : l.number = n := by simpa using List.find?_some hfound
  have hattach := placed_atLine (List.mem_of_find?_eq_some hfound) hg
  unfold onNumber textOf
  rwa [hfound, ← hnumber]

end Attaching

/-! ### Walks -/

namespace Recorder

variable {σ α : Type} [Recorder σ] {lines : List Line} {K : σ → Prop}
  {x : ExceptT Fault (StateM σ) α}

/-- All faults found so far are placed, and the state is one of `K`. -/
structure Holding (lines : List Line) (K : σ → Prop) (s : σ) : Prop where
  placed : ∀ f ∈ (findings s).faults, Placed lines f
  rest : K s

/-- Findings and log do not matter. -/
def Aside (K : σ → Prop) : Prop :=
  ∀ s found l, K s → K (noted s found l)

theorem stays_record (hK : Aside K) {f : Fault} (hf : Placed lines f) :
    Stays (Holding lines K) (record f) (fun _ => True) (Placed lines) := by
  intro s hs
  rw [run_record, Findings.record]
  cases (findings s).collecting with
  | false => exact ⟨hs, hf⟩
  | true =>
    rw [if_neg (by decide)]
    by_cases hold : ((findings s).faults.any fun g => g.message == f.message) = true
    · rw [if_pos hold]
      exact ⟨⟨by rw [findings_noted]; exact hs.placed, hK _ _ _ hs.rest⟩, trivial⟩
    · rw [if_neg hold]
      refine ⟨⟨fun g hg => ?_, hK _ _ _ hs.rest⟩, trivial⟩
      rw [findings_noted, List.mem_append, List.mem_singleton] at hg
      rcases hg with hg | rfl
      · exact hs.placed g hg
      · exact hf

/-- A part that records nothing keeps the faults as they are. -/
theorem Quiet.holding (hquiet : Quiet x) (hplain : Unplaced x)
    (hK : Preserves K x) :
    Stays (Holding lines K) x (fun _ => True) fun f => f.line? = none := by
  intro s hs
  have hrest := hK s hs.rest
  rcases hx : x.run s with ⟨f | a, t⟩ <;> rw [hx] at hrest
  · exact ⟨⟨hquiet.findings_eq hx ▸ hs.placed, hrest.1⟩, hplain.line?_eq hx⟩
  · exact ⟨⟨hquiet.findings_eq hx ▸ hs.placed, hrest.1⟩, trivial⟩

/-- A line of the script is taken in, and the fault that it has is recorded on it. -/
theorem Quiet.stays_tryCatch {x : ExceptT Fault (StateM σ) Unit} {l : Line} (hquiet : Quiet x)
    (hplain : Unplaced x) (hK : Preserves K x) (haside : Aside K)
    (hl : l ∈ lines) : Stays (Holding lines K)
      (tryCatch x fun f => record (f.atLine l.number l.text)) (fun _ => True) (Placed lines) :=
  CommandScript.stays_tryCatch (hquiet.holding hplain hK) fun _ hf =>
    stays_record haside (placed_atLine hl hf)

end Recorder

end CommandScript.Script

/-!
## The first walk records faults on lines

What the end of a script records stands on a line that a declaration noted by its number: the line of
an open `STARTUP`, of a subroutine or of the first call of a name. These numbers are `Anchored` in the
script from the beginning to the end, whatever faults are found on the way.
-/

namespace CommandScript

theorem Assoc.mem_put {κ α : Type} [DecidableEq κ] {k : κ} {a : α} {m : Assoc κ α} {e : κ × α}
    (h : e ∈ m.put k a) : e ∈ m ∨ e = (k, a) := by
  induction m with
  | nil => exact .inr (List.mem_singleton.mp h)
  | cons e' m ih =>
    unfold put at h
    split at h
    · rcases List.mem_cons.mp h with heq | h
      · exact .inr heq
      · exact .inl (.tail _ h)
    · rcases List.mem_cons.mp h with heq | h
      · exact .inl (heq ▸ List.mem_cons_self)
      · exact (ih h).imp_left (.tail _)

namespace Script.Declarations

open Recorder

/-- The numbers that are kept are those of lines. -/
structure Anchored (lines : List Line) (d : Declarations) : Prop where
  startup : ∀ n, d.startupLine = some n → Numbered lines n
  subroutines : ∀ s ∈ d.subroutines, Numbered lines s.startLine
  calls : ∀ c ∈ d.calls, Numbered lines c.2

variable {lines : List Line} {d : Declarations} {number : Nat} {name : String}

theorem aside_anchored : Aside (Anchored lines) :=
  fun _ _ _ h => ⟨h.startup, h.subroutines, h.calls⟩

namespace Anchored

theorem declare (h : Anchored lines d) (hn : Numbered lines number) {t : SubroutineTable}
    (ht : d.subroutines.declare name number = .ok t) :
    Anchored lines { d with subroutines := t, current := some name } := by
  refine ⟨h.startup, fun s hs => ?_, h.calls⟩
  obtain ⟨-, rfl⟩ := SubroutineTable.declare_ok ht
  rcases SubroutineTable.mem_insert.mp hs with rfl | hs
  · exact hn
  · exact h.subroutines s hs

theorem endSub (h : Anchored lines d) : Anchored lines { d with
    subroutines := d.subroutines.update name fun s => { s with endLine := some number }
    current := none } := by
  refine ⟨h.startup, fun s hs => ?_, h.calls⟩
  obtain ⟨s', hs', rfl | rfl⟩ := SubroutineTable.mem_update hs
  · exact h.subroutines s hs'
  · exact h.subroutines s' hs'

theorem call (h : Anchored lines d) (hn : Numbered lines number) :
    Anchored lines { d with calls := d.calls.put name number } := by
  refine ⟨h.startup, h.subroutines, fun c hc => ?_⟩
  rcases Assoc.mem_put hc with hc | rfl
  · exact h.calls c hc
  · exact hn

end Anchored

/-! ### Lines -/

theorem allocateAll_anchored (type : ValueType) (owner : String) (names : List String) :
    Preserves (Anchored lines) (allocateAll type owner names) := by
  induction names with
  | nil => exact stays_pure trivial
  | cons name names ih =>
    refine stays_get_bind fun d _ => (preserves_lift _).bind fun m _ => ?_
    refine (preserves_modify fun d h => ?_).bind fun _ _ => ih
    exact ⟨h.startup, h.subroutines, h.calls⟩

theorem declare_anchored (hn : Numbered lines number) (k : Keyword) (rest : String) :
    Preserves (Anchored lines) (declare number k rest) := by
  refine stays_get_bind fun d hd => ?_
  cases k <;> dsimp only
  case allocate =>
    exact (preserves_lift _).bind fun ⟨scope, type, names⟩ _ =>
      stays_ite (fun _ => allocateAll_anchored type _ names) fun _ => stays_pure trivial
  case endMain =>
    cases d.current with
    | some name => exact stays_throw_bind trivial
    | none =>
      cases d.endMainLine with
      | some line => exact stays_throw_bind trivial
      | none => exact preserves_set ⟨hd.startup, hd.subroutines, hd.calls⟩
  case sub =>
    refine (preserves_lift _).bind fun name _ => ?_
    cases d.current with
    | some outer => exact stays_throw_bind trivial
    | none =>
      refine (stays_lift (Checked.yields_of (fun t ht => ht) fun _ _ => trivial)).bind fun t ht => ?_
      exact preserves_set (hd.declare hn ht)
  case endSub =>
    cases d.current with
    | none => exact stays_throw trivial
    | some name => exact preserves_set hd.endSub
  case gosub =>
    exact (preserves_lift _).bind fun name _ =>
      stays_ite (fun _ => preserves_set (hd.call hn)) fun _ => stays_pure trivial
  case startup =>
    refine stays_ite (fun _ => stays_throw_bind trivial) fun _ => ?_
    refine stays_ite (fun _ => stays_throw_bind trivial) fun _ => ?_
    exact preserves_set ⟨fun n h => Option.some.inj h ▸ hn, hd.subroutines, hd.calls⟩
  all_goals first | exact stays_throw trivial | exact stays_pure trivial

theorem startupOptions_anchored (text : List Char) :
    Preserves (Anchored lines) (startupOptions text) := by
  have take (arguments : List Char) : Preserves (Anchored lines)
      (do
        let options ← ScriptOption.read (← Text.splitArguments (String.ofList arguments))
        modify fun d => options.foldl addOption d : DeclarationM Unit) := by
    refine (preserves_lift _).bind fun _ _ => ?_
    refine (preserves_lift _).bind fun options _ => ?_
    refine preserves_modify fun d h => ?_
    obtain ⟨_, _, heq⟩ := foldl_addOption options d
    rw [heq]
    exact ⟨h.startup, h.subroutines, h.calls⟩
  simp only [startupOptions]
  refine stays_ite (fun _ => take _) fun _ => ?_
  split
  · exact preserves_modify fun d h => ⟨nofun, h.subroutines, h.calls⟩
  · exact take _
  · exact stays_throw trivial

theorem line_anchored {l : Line} (hl : l ∈ lines) :
    Preserves (Anchored lines) (line l) := by
  refine stays_get_bind fun d hd => stays_ite (fun _ => startupOptions_anchored _) fun _ => ?_
  refine stays_ite (fun _ => stays_pure trivial) fun _ => ?_
  dsimp only
  split
  · exact declare_anchored ⟨l, hl, rfl⟩ _ _
  · exact stays_pure trivial

/-! ### The walk -/

theorem lineOrFault_placed {l : Line} (hl : l ∈ lines) :
    Stays (Holding lines (Anchored lines)) (lineOrFault l) (fun _ => True) (Placed lines) :=
  (line_quiet l).stays_tryCatch (unplaced_line l) (line_anchored hl) aside_anchored hl

theorem recordMissing_placed :
    Stays (Holding lines (Anchored lines)) (recordMissing lines) (fun _ => True) (Placed lines) := by
  refine stays_get_bind fun d hd => (stays_forIn fun s hs => ?_).bind fun _ _ => ?_
  · have hstart := hd.rest.subroutines s (List.mem_filter.mp hs).1
    exact (stays_record aside_anchored (placed_onNumber hstart rfl)).bind fun _ _ =>
      stays_pure trivial
  · refine stays_get_bind fun d hd => (stays_forIn fun c hc => ?_).bind fun _ _ => stays_pure trivial
    have hcall := hd.rest.calls c (List.mem_mergeSort.mp hc)
    refine stays_get_bind fun _ _ => stays_ite (fun _ => ?_) fun _ => stays_pure trivial
    exact (stays_record aside_anchored (placed_onNumber hcall rfl)).bind fun _ _ =>
      stays_pure trivial

theorem atEnd_placed :
    Stays (Holding lines (Anchored lines)) (atEnd lines) (fun _ => True) (Placed lines) := by
  refine stays_get_bind fun d hd => ?_
  cases hstartup : d.startupLine with
  | none => exact recordMissing_placed
  | some n =>
    have hplaced := placed_onNumber (hd.rest.startup n hstartup)
      (g := .cause .compile "STARTUP has no ENDSTARTUP") rfl
    exact (stays_record aside_anchored hplaced).bind fun _ _ => recordMissing_placed

/-- Every fault that the first walk finds or stops at is on a line of the script. -/
theorem walk_placed :
    Stays (Holding lines (Anchored lines)) (walk lines) (fun _ => True) (Placed lines) := by
  refine (stays_forIn fun l hl => (lineOrFault_placed hl).bind fun _ _ => stays_pure trivial).bind
    fun _ _ => atEnd_placed.bind fun _ _ => ?_
  refine stays_modify (fun d h => ⟨h.placed, ?_⟩) trivial
  exact ⟨h.rest.startup, h.rest.subroutines, h.rest.calls⟩

end Script.Declarations

end CommandScript

/-!
## The second walk records faults on lines

The commands of an assembly bring their lines along, and its subroutines the numbers that the first
walk noted. Both stay `Anchored` in the script, so that what is recorded at the end by the index of a
command or by the number of a line stands on a line, too. The commands of the program keep their lines,
up to the `EXIT` behind the last one.
-/

namespace CommandScript.Assembly

open Script Script.Recorder

/-- The command stands on a line. -/
def Stands (lines : List Line) (e : Entry) : Prop :=
  (⟨e.line, e.text⟩ : Line) ∈ lines

/-- The commands stand on lines, and the numbers that are kept are those of lines. -/
structure Anchored (lines : List Line) (a : Assembly) : Prop where
  entries : ∀ e ∈ a.commands, Stands lines e
  subroutines : ∀ s ∈ a.subroutines, Numbered lines s.startLine

variable {lines : List Line} {a : Assembly}

theorem aside_anchored : Aside (Anchored lines) :=
  fun _ _ _ h => ⟨h.entries, h.subroutines⟩

/-- A change of a subroutine that leaves its line. -/
theorem Anchored.update (h : Anchored lines a) (name : String) {f : Subroutine → Subroutine}
    (hf : ∀ s, (f s).startLine = s.startLine) :
    ∀ s ∈ a.subroutines.update name f, Numbered lines s.startLine := by
  intro s hs
  obtain ⟨s', hs', rfl | rfl⟩ := SubroutineTable.mem_update hs
  · exact h.subroutines s hs'
  · exact (hf s').symm ▸ h.subroutines s' hs'

/-! ### Lines -/

theorem allocateAll_anchored (type : ValueType) (names : List String) :
    Preserves (Anchored lines) (allocateAll type names) := by
  induction names with
  | nil => exact stays_pure trivial
  | cons name names ih =>
    refine stays_get_bind fun a h => stays_ite (fun _ => stays_throw_bind trivial) fun _ => ?_
    exact (preserves_lift _).bind fun _ _ =>
      (preserves_set ⟨h.entries, h.subroutines⟩).bind fun _ _ => ih

theorem readAllocate_anchored (rest : String) :
    Preserves (Anchored lines) (readAllocate rest) := by
  refine (preserves_lift _).bind fun ⟨scope, type, names⟩ _ => stays_ite (fun _ => ?_) fun _ =>
    stays_pure trivial
  exact (allocateAll_anchored type names).bind fun _ _ => stays_pure trivial

theorem innermostChain_anchored (k : Keyword) : Preserves (Anchored lines) (innermostChain k) := by
  refine stays_get_bind fun a _ => ?_
  cases a.openChains with
  | nil => exact stays_throw trivial
  | cons i outer => exact stays_pure trivial

theorem innermostLoop_anchored (k : Keyword) : Preserves (Anchored lines) (innermostLoop k) := by
  refine stays_get_bind fun a _ => ?_
  cases a.openLoops with
  | nil => exact stays_throw trivial
  | cons id outer => exact stays_pure trivial

theorem beginChain_anchored : Preserves (Anchored lines) beginChain :=
  preserves_modify fun _ h => ⟨h.entries, h.subroutines⟩

theorem addBranch_anchored (k : Keyword) (isElse : Bool) :
    Preserves (Anchored lines) (addBranch k isElse) := by
  refine (innermostChain_anchored k).bind fun i _ => stays_get_bind fun a h => ?_
  exact (preserves_lift _).bind fun _ _ => (preserves_lift _).bind fun chains _ =>
    preserves_set ⟨h.entries, h.subroutines⟩

theorem endChain_anchored : Preserves (Anchored lines) endChain := by
  refine (innermostChain_anchored .endIf).bind fun i _ => stays_get_bind fun a h => ?_
  refine (preserves_set ⟨h.entries, h.subroutines⟩).bind fun _ _ =>
    (preserves_lift _).bind fun chains _ => ?_
  exact (preserves_modify fun _ h => ⟨h.entries, h.subroutines⟩).bind fun _ _ => preserves_lift _

theorem beginLoop_anchored (rest : String) : Preserves (Anchored lines) (beginLoop rest) := by
  refine (preserves_lift _).bind fun parts _ => stays_get_bind fun a h => ?_
  refine stays_ite (fun _ => stays_throw_bind trivial) fun _ => ?_
  refine stays_ite (fun _ => stays_throw_bind trivial) fun _ => ?_
  refine (preserves_lift _).bind fun start _ => (preserves_lift _).bind fun stop _ => ?_
  have opened (loop : Loop) (id : LoopId) : Preserves (Anchored lines) (do
      set { a with loops := a.loops.add loop, openLoops := id :: a.openLoops }
      return .for_ id : AssemblyM Command) :=
    (preserves_set ⟨h.entries, h.subroutines⟩).bind fun _ _ => stays_pure trivial
  cases parts.step with
  | some text => exact (preserves_lift _).bind fun _ _ => opened _ _
  | none => exact opened _ _

theorem endLoop_anchored : Preserves (Anchored lines) endLoop := by
  refine stays_get_bind fun a h => ?_
  cases a.openLoops with
  | nil => exact stays_throw trivial
  | cons id outer =>
    refine (preserves_set ⟨h.entries, h.subroutines⟩).bind fun _ _ =>
      (preserves_lift _).bind fun loops _ => ?_
    refine (preserves_modify fun _ h => ⟨h.entries, h.subroutines⟩).bind fun _ _ =>
      (preserves_lift _).bind fun l _ => ?_
    exact stays_ite (fun _ => stays_throw_bind trivial) fun _ => stays_pure trivial

theorem beginSub_anchored (rest : String) : Preserves (Anchored lines) (beginSub rest) := by
  refine (preserves_lift _).bind fun name _ => stays_get_bind fun a h => ?_
  cases a.current with
  | some outer => exact stays_throw_bind trivial
  | none =>
    refine stays_ite (fun _ => stays_throw_bind trivial) fun _ => ?_
    refine (preserves_lift _).bind fun sub _ => ?_
    refine stays_ite (fun _ => stays_throw_bind trivial) fun _ => ?_
    exact (preserves_set ⟨h.entries, h.update name fun _ => rfl⟩).bind fun _ _ => stays_pure trivial

theorem endSub_anchored : Preserves (Anchored lines) endSub := by
  refine stays_get_bind fun a h => ?_
  cases a.current with
  | none => exact stays_throw trivial
  | some name =>
    refine (preserves_set ⟨h.entries, h.update name fun _ => rfl⟩).bind fun _ _ => ?_
    exact stays_ite (fun _ => stays_throw_bind trivial) fun _ => stays_pure trivial

theorem readGosub_anchored (rest : String) : Preserves (Anchored lines) (readGosub rest) := by
  refine (preserves_lift _).bind fun name _ => stays_get_bind fun a h => ?_
  refine stays_ite (fun _ => stays_throw_bind trivial) fun _ => ?_
  exact (preserves_set ⟨h.entries, h.update name fun _ => rfl⟩).bind fun _ _ => stays_pure trivial

theorem readKeyword_anchored (k : Keyword) (rest : String) :
    Preserves (Anchored lines) (readKeyword k rest) := by
  have noted {α : Type} {x : AssemblyM α} (command : α → Option Command)
      (hx : Preserves (Anchored lines) x) :
      Preserves (Anchored lines) (do return command (← x) : AssemblyM (Option Command)) :=
    hx.bind fun _ _ => stays_pure trivial
  refine stays_get_bind fun a _ => ?_
  cases k
  case allocate => exact (readAllocate_anchored rest).map fun _ _ => trivial
  case if_ => exact (preserves_lift _).bind fun c _ => noted _ beginChain_anchored
  case elseIf => exact (preserves_lift _).bind fun c _ => noted _ (addBranch_anchored _ _)
  case else_ => exact (preserves_lift _).bind fun _ _ => noted _ (addBranch_anchored _ _)
  case endIf => exact (preserves_lift _).bind fun _ _ => noted _ endChain_anchored
  case for_ => exact (beginLoop_anchored rest).map fun _ _ => trivial
  case next => exact (preserves_lift _).bind fun _ _ => noted _ (innermostLoop_anchored _)
  case skip => exact (preserves_lift _).bind fun _ _ => noted _ (innermostLoop_anchored _)
  case skipIf => exact (innermostLoop_anchored _).bind fun _ _ => noted _ (preserves_lift _)
  case break_ => exact (preserves_lift _).bind fun _ _ => noted _ (innermostLoop_anchored _)
  case breakIf => exact (innermostLoop_anchored _).bind fun _ _ => noted _ (preserves_lift _)
  case endFor => exact (preserves_lift _).bind fun _ _ => endLoop_anchored.map fun _ _ => trivial
  case sub => exact (beginSub_anchored rest).map fun _ _ => trivial
  case endSub => exact (preserves_lift _).bind fun _ _ => endSub_anchored.map fun _ _ => trivial
  case gosub => exact (readGosub_anchored rest).map fun _ _ => trivial
  case endMain =>
    refine (preserves_lift _).bind fun _ _ => stays_get_bind fun a _ => ?_
    cases a.current with
    | some name => exact stays_throw trivial
    | none => exact stays_pure trivial
  case startup =>
    exact (preserves_lift _).bind fun _ _ =>
      (preserves_modify fun _ h => ⟨h.entries, h.subroutines⟩).bind fun _ _ => stays_pure trivial
  case endStartup => exact stays_throw trivial
  -- every other keyword only reads
  all_goals exact preserves_lift _

theorem readLine_anchored (text : String) : Preserves (Anchored lines) (readLine text) := by
  refine stays_get_bind fun a _ => stays_ite (fun _ => stays_ite (fun _ => ?_) fun _ =>
    stays_pure trivial) fun _ => ?_
  · exact (preserves_modify fun _ h => ⟨h.entries, h.subroutines⟩).bind fun _ _ => stays_pure trivial
  · refine stays_ite (fun _ => (preserves_lift _).bind fun _ _ => stays_pure trivial) fun _ => ?_
    split
    · exact readKeyword_anchored _ _
    · exact stays_throw trivial

theorem push_anchored {l : Line} (hl : l ∈ lines) (command : Command) :
    Preserves (Anchored lines) (push l command) := by
  refine preserves_modify fun a h => ⟨fun e he => ?_, h.subroutines⟩
  rcases Array.mem_push.mp he with he | rfl
  · exact h.entries e he
  · exact hl

/-- A line is taken in, and a fault of it is recorded on it. -/
theorem line_placed {l : Line} (hl : l ∈ lines) :
    Stays (Holding lines (Anchored lines)) (line l) (fun _ => True) (Placed lines) := by
  refine (takeIn_quiet l).stays_tryCatch ?_ ?_ aside_anchored hl
  · refine .bind (unplaced_readLine l.text) fun command => ?_
    cases command with
    | none => exact .pure
    | some command => exact unplaced_push l command
  · refine (readLine_anchored l.text).bind fun command _ => ?_
    cases command with
    | none => exact stays_pure trivial
    | some command => exact push_anchored hl command

/-! ### The end of the script -/

theorem Stands.placed {e : Entry} {f : Fault} (h : Stands lines e) (hf : f.line? = none) :
    Placed lines (f.atLine e.line e.text) :=
  placed_atLine (l := ⟨e.line, e.text⟩) h hf

theorem recordAt_placed (i : Nat) {f : Fault} (hf : f.line? = none) :
    Stays (Holding lines (Anchored lines)) (recordAt i f) (fun _ => True) (Placed lines) := by
  refine stays_get_bind fun a h => ?_
  cases hentry : a.commands[i]? with
  | none => exact stays_pure trivial
  | some e =>
    have hmem := Array.mem_of_getElem? hentry
    exact stays_record aside_anchored ((h.rest.entries e hmem).placed hf)

theorem recordOpen_placed :
    Stays (Holding lines (Anchored lines)) (recordOpen lines) (fun _ => True) (Placed lines) := by
  refine stays_get_bind fun a h => (stays_forIn fun i _ => ?_).bind fun _ _ => ?_
  · exact (recordAt_placed i rfl).bind fun _ _ => stays_pure trivial
  · refine (stays_forIn fun id _ => (recordAt_placed id.index rfl).bind fun _ _ =>
      stays_pure trivial).bind fun _ _ => ?_
    cases a.current with
    | none => exact stays_pure trivial
    | some name =>
      dsimp only
      cases hsub : a.subroutines.get? name with
      | none => exact stays_pure trivial
      | some sub =>
        have hstart := h.rest.subroutines sub (List.mem_of_find?_eq_some hsub)
        exact stays_record aside_anchored (placed_onNumber hstart rfl)

/-- Joining calls leaves the lines of the commands. -/
theorem joined_placed {e : Entry} (he : Stands lines e) :
    Stays (Holding lines (Anchored lines)) (joined e) (Stands lines) (Placed lines) := by
  refine stays_get_bind fun a _ => ?_
  dsimp only
  split
  · exact stays_pure he
  · rename_i name _ _
    cases (a.subroutines.get? name).bind (·.startIndex) with
    | some target => exact stays_pure he
    | none =>
      exact (stays_record aside_anchored (he.placed rfl)).bind fun _ _ => stays_pure he
  · exact stays_pure he

/-- The commands stand on lines, up to the `EXIT` at the end. -/
def Finished (lines : List Line) (a : Assembly) : Prop :=
  ∀ e ∈ a.commands, Stands lines e ∨ e.command = .exit

theorem joinedAll_placed (commands : Array Entry) (h : ∀ e ∈ commands, Stands lines e) :
    Stays (Holding lines (Anchored lines)) (commands.mapM joined)
      (fun es => ∀ e ∈ es, Stands lines e) (Placed lines) := by
  rw [Array.mapM_eq_mapM_toList]
  refine (stays_mapM fun e he => joined_placed (h e (Array.mem_def.mpr he))).map fun es hes e he => ?_
  exact hes e (List.mem_toArray.mp he)

theorem finish_placed : Ensures (Holding lines (Anchored lines)) (finish lines)
    (fun _ => Holding lines (Finished lines))
    fun f a => Holding lines (Anchored lines) a ∧ Placed lines f := by
  refine recordOpen_placed.bind_ensures fun _ _ => ensures_read_bind fun a h => ?_
  refine (joinedAll_placed a.commands h.rest.entries).bind_ensures fun commands hstands => ?_
  refine ensures_modify fun a h => ⟨h.placed, fun e he => ?_⟩
  rcases Array.mem_push.mp he with he | rfl
  · exact .inl (hstands e he)
  · exact .inr rfl

/-- Every fault that the second walk finds or stops at is on a line of the script. -/
theorem walk_placed : Ensures (Holding lines (Anchored lines)) (walk lines)
    (fun _ => Holding lines (Finished lines))
    fun f a => Holding lines (Anchored lines) a ∧ Placed lines f := by
  refine (stays_forIn fun l hl => (line_placed hl).bind fun _ _ => stays_pure trivial).bind_ensures
    fun _ _ => finish_placed.bind fun _ => ?_
  exact ensures_modify fun a h => ⟨h.placed, h.rest⟩

end CommandScript.Assembly
