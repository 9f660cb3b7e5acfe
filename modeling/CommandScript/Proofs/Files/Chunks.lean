import CommandScript.Proofs.Engine.Pairing
import CommandScript.Proofs.Files.Requests
import Mathlib.Data.ENat.Lattice

/-!
# Reading a file in chunks

While a file is open for reading, what is asked for is either some of its lines or refused. A request moves
the position by as many lines as it answers (`answers_step`), and so the lines that a run answers are those
in front of the position that it reaches (`answers_run`).
-/

namespace CommandScript.Files

/-- Behind such a request a file that is open for reading still is. -/
inductive Request.ReadsOn : Request → Prop
  | read (count : Option Nat) : ReadsOn (.read count)
  | write (text : String) : ReadsOn (.write text)
  | openFile (path : String) (mode : Mode) : ReadsOn (.openFile path mode)
  | create (path : String) : ReadsOn (.create path)

/-- How many lines are asked for; without a number it is all of them. -/
def Request.wanted : Request → ℕ∞
  | read none => ⊤
  | read (some n) => n
  | _ => 0

/-- How many lines are answered when some are left. -/
def Request.taken (left : Nat) : Request → Nat
  | read none => left
  | read (some n) => min n left
  | _ => 0

namespace Desk

/-- The lines that a request is answered with; a fault comes with none. -/
def answer (d : Desk) (r : Request) : List String :=
  match (r.perform.run d).1 with
  | .ok lines => lines
  | .error _ => []

/-- The lines that requests are answered with one after the other. -/
def answers (d : Desk) : List Request → List String
  | [] => []
  | r :: requests => d.answer r ++ (d.behind r).answers requests

/-- The desk with a file open for reading, of which some lines were read. -/
def readingAt (d : Desk) (path : String) (lines : List String) (position : Nat) : Desk :=
  { d with opened := some ⟨path, .reading lines position⟩ }

variable {d : Desk} {path : String} {lines : List String} {position : Nat} {r : Request}
  {requests : List Request} {count : Option Nat}

theorem taken_le (left : Nat) (r : Request) : r.taken left ≤ left := by
  unfold Request.taken
  split
  · exact le_rfl
  · exact Nat.min_le_right _ _
  · exact Nat.zero_le _

theorem cast_taken (left : Nat) (r : Request) : (r.taken left : ℕ∞) = min r.wanted left := by
  unfold Request.taken Request.wanted
  split
  · exact (min_eq_right le_top).symm
  · exact Nat.mono_cast.map_min
  · exact (min_eq_left zero_le).symm

theorem run_read_readingAt :
    let n := (Request.read count).taken (lines.length - position)
    (readLines count).run (d.readingAt path lines position) =
      (.ok ((lines.drop position).take n), d.readingAt path lines (position + n)) := by
  cases count <;> rfl

/-- A chunk begins at the position and has as many lines as are asked for and left. -/
theorem chunk_readingAt (d : Desk) (path : String) (lines : List String) (position : Nat) (count : Option Nat) :
    ∃ chunk, (readLines count).run (d.readingAt path lines position) =
        (.ok chunk, d.readingAt path lines (position + chunk.length)) ∧
      chunk <+: lines.drop position ∧
      (∀ n, count = some n → chunk.length = min n (lines.length - position)) ∧
      (count = none → chunk = lines.drop position) ∧ (position = lines.length → chunk = []) := by
  have hlength : ((lines.drop position).take
      ((Request.read count).taken (lines.length - position))).length =
        (Request.read count).taken (lines.length - position) := by
    rw [List.length_take, List.length_drop, Nat.min_eq_left (taken_le _ _)]
  refine ⟨_, by rw [run_read_readingAt, hlength], List.take_prefix _ _, ?_, ?_, ?_⟩
  · rintro n rfl
    exact hlength
  · rintro rfl
    exact List.take_of_length_le (List.length_drop ▸ le_rfl)
  · rintro rfl
    rw [List.drop_length, List.take_nil]

/-- Whatever else is asked for is refused, and nothing changes. -/
theorem run_readingAt_of_ne_read (d : Desk) (path : String) (lines : List String) (position : Nat)
    (h : r.ReadsOn) (hr : ∀ count, r ≠ .read count) :
    ∃ detail, r.perform.run (d.readingAt path lines position) =
      (.error (.cause .io detail), d.readingAt path lines position) := by
  cases h with
  | read count => exact absurd rfl (hr count)
  | write text => exact ⟨_, by rw [Request.perform, run_bind, run_writeLine_of_reading rfl]⟩
  | openFile path mode => exact ⟨_, by rw [Request.perform, run_bind, run_openFile_of_open rfl]⟩
  | create path => exact ⟨_, by rw [Request.perform, run_bind, run_create_of_open rfl]⟩

/-- One request moves the position behind the lines that it answers. -/
theorem answer_readingAt (d : Desk) (path : String) (lines : List String) (position : Nat) (h : r.ReadsOn) :
    let n := r.taken (lines.length - position)
    (d.readingAt path lines position).answer r = (lines.drop position).take n ∧
      (d.readingAt path lines position).behind r = d.readingAt path lines (position + n) := by
  unfold answer behind
  by_cases hread : ∃ count, r = .read count
  · obtain ⟨count, rfl⟩ := hread
    rw [Request.perform, run_read_readingAt]
    exact ⟨rfl, rfl⟩
  · have hne (count : Option Nat) : r ≠ .read count := fun hr => hread ⟨count, hr⟩
    obtain ⟨detail, hrun⟩ := run_readingAt_of_ne_read d path lines position h hne
    have htaken : r.taken (lines.length - position) = 0 := by
      unfold Request.taken
      split
      · exact absurd rfl (hne _)
      · exact absurd rfl (hne _)
      · rfl
    rw [hrun, htaken]
    exact ⟨rfl, rfl⟩

/-- What two requests take of the lines that are left, the second one behind the first. -/
theorem cast_add_eq_min {a b : ℕ∞} {left n m : Nat} (hn : (n : ℕ∞) = min a left)
    (hm : (m : ℕ∞) = min b (left - n : Nat)) : ((n + m : Nat) : ℕ∞) = min (a + b) left := by
  cases a using ENat.recTopCoe with
  | top =>
    rw [min_eq_right le_top, Nat.cast_inj] at hn
    rw [hn, Nat.sub_self, Nat.cast_zero, min_eq_right zero_le, Nat.cast_eq_zero] at hm
    rw [top_add, min_eq_right le_top, hn, hm, Nat.add_zero]
  | coe a =>
    rw [← Nat.mono_cast.map_min, Nat.cast_inj] at hn
    cases b using ENat.recTopCoe with
    | top =>
      rw [min_eq_right le_top, Nat.cast_inj] at hm
      rw [add_top, min_eq_right le_top, Nat.cast_inj]
      omega
    | coe b =>
      rw [← Nat.mono_cast.map_min, Nat.cast_inj] at hm
      rw [← Nat.cast_add, ← Nat.mono_cast.map_min, Nat.cast_inj]
      omega

/-- Requests move the position behind the lines that they answer, which are as many as are asked for and
left. -/
theorem answers_readingAt (d : Desk) (path : String) (h : ∀ r ∈ requests, r.ReadsOn)
    (hposition : position ≤ lines.length) :
    ∃ n, position + n ≤ lines.length ∧
      (d.readingAt path lines position).answers requests = (lines.drop position).take n ∧
      (d.readingAt path lines position).after requests = d.readingAt path lines (position + n) ∧
      (n : ℕ∞) = min (requests.map Request.wanted).sum (lines.length - position : Nat) := by
  induction requests generalizing position with
  | nil => exact ⟨0, hposition, rfl, rfl, (min_eq_left zero_le).symm⟩
  | cons r requests ih =>
    rw [List.forall_mem_cons] at h
    obtain ⟨hanswer, hbehind⟩ := answer_readingAt d path lines position h.1
    have htaken := cast_taken (lines.length - position) r
    have hle := taken_le (lines.length - position) r
    generalize r.taken (lines.length - position) = n at hanswer hbehind htaken hle
    have hnext : position + n ≤ lines.length := by omega
    obtain ⟨m, hm, hrest, hafter, hwanted⟩ := ih h.2 hnext
    refine ⟨n + m, by omega, ?_, ?_, ?_⟩
    · rw [answers, hanswer, hbehind, hrest, List.take_add, List.drop_drop]
    · rw [← Nat.add_assoc, ← hafter, ← hbehind]
      rfl
    · rw [List.map_cons, List.sum_cons]
      exact cast_add_eq_min htaken (by rwa [Nat.sub_sub])

end Desk

end CommandScript.Files

namespace CommandScript.Engine

variable {e e' : Engine} {f : Option Formula} {α : Type} {a : α}

theorem desk_of_onMemory {action : MemoryM α} (h : Gives (onMemory action) e a e') : e'.desk = e.desk := by
  have hbehind : e' = ((onMemory action).run e).2 := by rw [h]
  rw [hbehind]
  rfl

theorem desk_of_counted {g : Formula} {n : Nat} (h : Gives (counted g) e n e') : e'.desk = e.desk := by
  obtain ⟨k, t, hnumber, hcount⟩ := gives_bind.mp h
  obtain ⟨-, rfl⟩ := gives_lift.mp hcount
  obtain ⟨u, v, hget, haction⟩ := gives_bind.mp hnumber
  obtain ⟨rfl, rfl⟩ := gives_get.mp hget
  exact desk_of_onMemory haction

theorem gives_onDesk {action : Files.DeskM α} (h : Gives (onDesk action) e a e') :
    action.run e.desk = (.ok a, e'.desk) ∧ e' = { e with desk := e'.desk } := by
  have hrun : (onDesk action).run e =
      ((action.run e.desk).1, { e with desk := (action.run e.desk).2 }) := rfl
  obtain ⟨hanswer, rfl⟩ := Prod.mk.inj (hrun.symm.trans h)
  exact ⟨Prod.ext hanswer rfl, rfl⟩

/-- The command for reading keeps the lines that the desk answers, and says whether there are any. -/
theorem cells_of_fileRead {u : Unit} (h : Gives (fileCommand (.fileRead f)) e u e') :
    let cells := e'.memory.store.cells
    (cells.status = true ↔ cells.response ≠ []) ∧ ∃ count,
      (Files.Desk.readLines count).run e.desk = (.ok cells.response, e'.desk) ∧
      (f = none → count = none) ∧
      ∀ g, f = some g → ∃ n t, Gives (counted g) e n t ∧ count = some n := by
  have hread {count : Option Nat} {t : Engine} (hdesk : t.desk = e.desk)
      (h : Gives (do
        let lines ← onDesk (Files.Desk.readLines count)
        onCells fun cells => { cells with status := !lines.isEmpty, response := lines }) t u e') :
      (e'.memory.store.cells.status = true ↔ e'.memory.store.cells.response ≠ []) ∧
      (Files.Desk.readLines count).run e.desk = (.ok e'.memory.store.cells.response, e'.desk) := by
    obtain ⟨lines, v, hread, hcells⟩ := gives_bind.mp h
    obtain ⟨hread, -⟩ := gives_onDesk hread
    obtain rfl := gives_modify.mp hcells
    refine ⟨?_, hdesk ▸ hread⟩
    cases lines <;> simp
  unfold fileCommand at h
  cases f with
  | none =>
    obtain ⟨count, t, hcount, h⟩ := gives_bind.mp h
    obtain ⟨rfl, rfl⟩ := gives_pure.mp hcount
    obtain ⟨hstatus, hread⟩ := hread rfl h
    exact ⟨hstatus, none, hread, fun _ => rfl, nofun⟩
  | some g =>
    obtain ⟨count, t, hcount, h⟩ := gives_bind.mp h
    obtain ⟨n, hcounted, rfl⟩ := gives_map.mp hcount
    obtain ⟨hstatus, hread⟩ := hread (desk_of_counted hcounted) h
    refine ⟨hstatus, some n, hread, nofun, ?_⟩
    rintro _ ⟨⟩
    exact ⟨n, t, hcounted, rfl⟩

/-- The same of a step that executes the command. -/
theorem cells_of_step {entry : Entry} (hrunning : e.finished = false)
    (hentry : e.program.commands[e.next]? = some entry) (hcommand : entry.command = .fileRead f)
    (hdone : e.step.1 = .ok ()) :
    let cells := e.step.2.memory.store.cells
    (cells.status = true ↔ cells.response ≠ []) ∧ ∃ count,
      (Files.Desk.readLines count).run e.desk = (.ok cells.response, e.step.2.desk) ∧
      (f = none → count = none) ∧
      ∀ g, f = some g → ∃ n t, Gives (counted g) { e with skipBreakpoint := false } n t ∧ count = some n := by
  have hexecute : execute entry = andNext (fileCommand (.fileRead f)) := by
    unfold execute
    rw [hcommand]
  rw [step_eq_settle hrunning hentry, hexecute] at hdone ⊢
  cases hrun : (andNext (fileCommand (.fileRead f))).run { e with skipBreakpoint := false } with
  | mk answer e' =>
    rw [hrun] at hdone
    cases answer with
    | error _ => cases hdone
    | ok move =>
      obtain ⟨u, t, hread, hmove⟩ := gives_bind.mp hrun
      obtain ⟨rfl, rfl⟩ := gives_pure.mp hmove
      exact cells_of_fileRead hread

end CommandScript.Engine

namespace CommandScript.Files.Desk

/-- However a file is read, and whatever is refused in between, the lines that were answered are the first
ones of the file, as many as were asked for and are there. The next request is answered from there on. -/
theorem chunks_of_file {d : Desk} {path text : String} {place : Place} {id : Nat} {requests : List Request}
    (hclosed : d.opened = none) (hfile : d.tree.locate (d.resolve path) = .ok (place, .file id))
    (htext : decode? (d.tree.bytesOf id) = some text) (hrequests : ∀ r ∈ requests, r.ReadsOn) :
    let lines := Text.lines text
    let start := d.readingAt (d.resolve path) lines 0
    let position := (start.answers requests).length
    let e := start.after requests
    (openFile path .read).run d = (.ok (), start) ∧
    start.answers requests <+: lines ∧
    (position : ℕ∞) = min (requests.map Request.wanted).sum lines.length ∧
    position ≤ lines.length ∧ e = d.readingAt (d.resolve path) lines position ∧
    (∀ count, ∃ chunk, (readLines count).run e =
        (.ok chunk, d.readingAt (d.resolve path) lines (position + chunk.length)) ∧
      chunk <+: lines.drop position ∧
      (∀ n, count = some n → chunk.length = min n (lines.length - position)) ∧
      (count = none → chunk = lines.drop position) ∧ (position = lines.length → chunk = [])) ∧
    (∀ r : Request, r.ReadsOn → (∀ count, r ≠ .read count) →
      ∃ detail, r.perform.run e = (.error (.cause .io detail), e)) ∧
    (∀ q place', e.tree.locate (e.resolve q) = .ok (place', .file id) →
      (lineCount q).run e = (.ok lines.length, e)) ∧
    ∀ (engine : Engine) (entry : Entry) (f : Option Formula), engine.finished = false →
      engine.program.commands[engine.next]? = some entry → entry.command = .fileRead f →
      engine.step.1 = .ok () →
      let cells := engine.step.2.memory.store.cells
      (cells.status = true ↔ cells.response ≠ []) ∧ ∃ count,
        (readLines count).run engine.desk = (.ok cells.response, engine.step.2.desk) ∧
        (f = none → count = none) ∧
        ∀ g, f = some g → ∃ n t,
          Gives (Engine.counted g) { engine with skipBreakpoint := false } n t ∧ count = some n := by
  intro lines start position e
  obtain ⟨n, hle, hanswers, hafter, hwanted⟩ := answers_readingAt d (d.resolve path) hrequests
    (Nat.zero_le lines.length)
  have hposition : position = n := by
    show (start.answers requests).length = n
    rw [hanswers, List.drop_zero, List.length_take]
    omega
  rw [Nat.zero_add] at hle hafter
  have he : e = d.readingAt (d.resolve path) lines position := by rw [hposition, ← hafter]
  refine ⟨?_, ?_, ?_, ?_, he, ?_, fun r hr hne => ?_, fun q place' hq => ?_, ?_⟩
  · rw [run_openFile_read hclosed hfile, htext]
    rfl
  · rw [hanswers, List.drop_zero]
    exact List.take_prefix _ _
  · rw [hposition, hwanted, Nat.sub_zero]
  · rw [hposition]
    exact hle
  · rw [he]
    exact chunk_readingAt d (d.resolve path) lines position
  · rw [he]
    exact run_readingAt_of_ne_read d (d.resolve path) lines position hr hne
  · rw [he] at hq ⊢
    exact run_lineCount hq htext
  · intro engine entry f hrunning hentry hcommand hdone
    exact Engine.cells_of_step hrunning hentry hcommand hdone

/-- Two lines are read, something is refused, and the one that is left is read. -/
theorem chunks_of_file_threeLines :
    let d := withText "a\r\nb\nc"
    let start := d.readingAt "./a.txt" ["a", "b", "c"] 0
    (openFile "a.txt" .read).run d = (.ok (), start) ∧
      start.answers [.read (some 2), .write "x", .read none] = ["a", "b", "c"] := by
  intro d start
  have hreads (r : Request) (hr : r ∈ [.read (some 2), .write "x", .read none]) : r.ReadsOn := by
    simp only [List.mem_cons, List.not_mem_nil, or_false] at hr
    obtain rfl | rfl | rfl := hr <;> constructor
  have hlines : Text.lines "a\r\nb\nc" = ["a", "b", "c"] := by decide +kernel
  obtain ⟨hopen, hprefix, hlength, -⟩ :=
    chunks_of_file (d := d) rfl (locate_withText _) (decode?_withText _) hreads
  have hpath : d.resolve "a.txt" = "./a.txt" := by decide +kernel
  rw [hlines, hpath] at hopen hprefix hlength
  have hsum : ([.read (some 2), .write "x", .read none].map Request.wanted).sum = ⊤ := by
    simp [Request.wanted]
  rw [hsum, min_eq_right le_top, Nat.cast_inj] at hlength
  exact ⟨hopen, hprefix.eq_of_length hlength⟩

end CommandScript.Files.Desk
