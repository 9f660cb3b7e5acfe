import CommandScript.Proofs.Files.Desk
import CommandScript.Proofs.Files.Location

/-!
# Requests at the desk

What each file command comes to, told from the desk it is asked at: the fault and the desk as it was, or
the answer and the changed desk. A command that needs the file closed or open, for reading or for writing,
is refused at every other desk and changes nothing. `Turns` has a constructor for each change of the desk,
with what has to hold for it, and `turns_behind` says that there are no others.
-/

namespace CommandScript.Files

/-- What may be asked for at a desk. -/
inductive Request where
  | openFile (path : String) (mode : Mode)
  | create (path : String)
  | close
  | read (count : Option Nat)
  | write (text : String)
  | delete (path : String)
  | changeDirectory (path : String)
  | makeDirectory (path : String)
  | removeDirectory (path : String)

/-- Only lines that are read are answered. -/
def Request.perform : Request → DeskM (List String)
  | openFile path mode => do
    Desk.openFile path mode
    return []
  | create path => do
    Desk.create path
    return []
  | close => do
    Desk.close
    return []
  | read count => Desk.readLines count
  | write text => do
    Desk.writeLine text
    return []
  | delete path => do
    Desk.delete path
    return []
  | changeDirectory path => do
    Desk.changeDirectory path
    return []
  | makeDirectory path => do
    Desk.makeDirectory path
    return []
  | removeDirectory path => do
    Desk.removeDirectory path
    return []

/-- What is open for writing goes to the file with the number. -/
def Access.Uses : Access → Nat → Prop
  | .reading .., _ => True
  | .writing handle, id => handle.id = id

namespace Desk

/-- The desk behind a request, whatever was answered. -/
def behind (d : Desk) (r : Request) : Desk :=
  (r.perform.run d).2

/-- The desk behind one request after the other. -/
def after (d : Desk) (requests : List Request) : Desk :=
  requests.foldl behind d

variable {d e : Desk} {f : OpenFile} {path text : String} {mode : Mode} {count : Option Nat}

/-- An operation without an answer of its own answers no lines. -/
theorem run_noLines (x : DeskM Unit) (d : Desk) :
    ((do
      x
      return [] : DeskM (List String)).run d).2 = (x.run d).2 := by
  rw [run_bind]
  rcases x.run d with ⟨_ | _, _⟩ <;> rfl

theorem after_append (d : Desk) (before later : List Request) :
    d.after (before ++ later) = (d.after before).after later :=
  List.foldl_append

section Bind

variable {α : Type}

theorem run_get (k : Desk → DeskM α) (d : Desk) : (get >>= k).run d = (k d).run d := rfl

theorem run_atBase (k : String → DeskM α) (d : Desk) (path : String) :
    (atBase path >>= k).run d = (k (d.resolve path)).run d := rfl

theorem run_orFail (k : α → DeskM Unit) (d : Desk) (path : String) (answer : Except Refusal α) :
    (orFail path answer >>= k).run d = match answer with
      | .ok a => (k a).run d
      | .error r => (.error (.cause .io s!"{path}: {r.message}"), d) := by
  cases answer <;> rfl

theorem run_orRefused {σ : Type} (answer : Except Refusal α) (s : σ) :
    (orRefused answer : ExceptT Fault (StateM σ) α).run s =
      (answer.mapError fun r => .cause .io r.message, s) := by
  cases answer <;> rfl

theorem run_ensureClosed (h : d.opened = none) (k : Unit → DeskM α) :
    (ensureClosed >>= k).run d = (k ()).run d := by
  unfold ensureClosed
  rw [run_bind, run_get, h]
  rfl

end Bind

/-! ### With a file open -/

theorem run_ensureClosed_of_open (h : d.opened = some f) :
    ensureClosed.run d = (.error (.cause .io s!"file already open: {f.path}"), d) := by
  unfold ensureClosed
  rw [run_get, h]
  rfl

theorem run_openFile_of_open (h : d.opened = some f) :
    (openFile path mode).run d = (.error (.cause .io s!"file already open: {f.path}"), d) := by
  unfold openFile
  rw [run_bind, run_ensureClosed_of_open h]

theorem run_create_of_open (h : d.opened = some f) :
    (create path).run d = (.error (.cause .io s!"file already open: {f.path}"), d) := by
  unfold create
  rw [run_bind, run_ensureClosed_of_open h]

theorem run_readLines {lines : List String} {position : Nat}
    (h : d.opened = some ⟨path, .reading lines position⟩) :
    (readLines count).run d =
      let remaining := lines.length - position
      let n := count.elim remaining fun n => min n remaining
      (.ok ((lines.drop position).take n),
        { d with opened := some ⟨path, .reading lines (position + n)⟩ }) := by
  unfold readLines
  rw [run_get, h]
  rfl

theorem run_readLines_of_writing {handle : Handle} (h : d.opened = some ⟨path, .writing handle⟩) :
    (readLines count).run d = (.error (.cause .io s!"{path} is not open for reading"), d) := by
  unfold readLines
  rw [run_get, h]
  rfl

theorem run_writeLine_of_reading {lines : List String} {position : Nat}
    (h : d.opened = some ⟨path, .reading lines position⟩) :
    (writeLine text).run d = (.error (.cause .io s!"{path} is not open for writing"), d) := by
  unfold writeLine
  rw [run_get, h]
  rfl

/-- The desk with the open file as it is behind a line. -/
theorem run_writeLine {handle : Handle} (h : d.opened = some ⟨path, .writing handle⟩) :
    (writeLine text).run d =
      let (answer, handle, tree) := handle.writeLine text d.tree
      (answer.mapError fun r => .cause .io r.message,
        { d with tree, opened := some ⟨path, .writing handle⟩ }) := by
  unfold writeLine
  rw [run_get, h]
  dsimp only
  rw [run_get]
  rcases handle.writeLine text d.tree with ⟨answer, handle, tree⟩
  exact run_orRefused answer _

theorem run_close_of_reading {lines : List String} {position : Nat}
    (h : d.opened = some ⟨path, .reading lines position⟩) :
    close.run d = (.ok (), { d with opened := none }) := by
  unfold close
  rw [run_get, h]
  rfl

theorem run_close_of_writing {handle : Handle} (h : d.opened = some ⟨path, .writing handle⟩) :
    close.run d = match handle.flush d.tree with
      | .ok (_, tree) => (.ok (), { d with opened := none, tree })
      | .error r => (.error (.cause .io r.message), { d with opened := none }) := by
  unfold close
  rw [run_get, h]
  change (orRefused (handle.flush d.tree) >>= fun made => setTree made.2 : DeskM Unit).run
    { d with opened := none } = _
  rw [run_bind, run_orRefused]
  rcases handle.flush d.tree with r | ⟨handle', tree⟩ <;> rfl

/-! ### With no file open -/

theorem run_readLines_of_closed (h : d.opened = none) :
    (readLines count).run d = (.error (.cause .io "no file open"), d) := by
  unfold readLines
  rw [run_get, h]
  rfl

theorem run_writeLine_of_closed (h : d.opened = none) :
    (writeLine text).run d = (.error (.cause .io "no file open"), d) := by
  unfold writeLine
  rw [run_get, h]
  rfl

theorem run_close_of_closed (h : d.opened = none) :
    close.run d = (.error (.cause .io "no file open"), d) := by
  unfold close
  rw [run_get, h]
  rfl

/-- A desk that is closed has the tree that the flush leaves, if there is one. -/
theorem exists_closed (d : Desk) : ∃ tree, d.closed = { d with opened := none, tree } := by
  unfold closed
  cases h : d.opened with
  | none =>
    rw [run_close_of_closed h]
    exact ⟨d.tree, by rw [← h]⟩
  | some f =>
    obtain ⟨path, ⟨lines, position⟩ | handle⟩ := f
    · rw [run_close_of_reading h]
      exact ⟨d.tree, rfl⟩
    · rw [run_close_of_writing h]
      rcases handle.flush d.tree with r | ⟨handle', tree⟩
      · exact ⟨d.tree, rfl⟩
      · exact ⟨tree, rfl⟩

@[simp] theorem opened_closed (d : Desk) : d.closed.opened = none := by
  obtain ⟨tree, h⟩ := d.exists_closed
  rw [h]

@[simp] theorem base_closed (d : Desk) : d.closed.base = d.base := by
  obtain ⟨tree, h⟩ := d.exists_closed
  rw [h]

variable {place : Place} {id : Nat}

theorem run_openFile_write (hclosed : d.opened = none)
    (hfile : d.tree.locate (d.resolve path) = .ok (place, .file id)) :
    (openFile path .write).run d = (.ok (),
      { d with opened := some ⟨d.resolve path, .writing { id, offset := none }⟩ }) := by
  unfold openFile
  rw [run_ensureClosed hclosed, run_atBase, run_get]
  dsimp only
  rw [hfile]
  rfl

theorem decode?_eq_some {bytes : ByteArray} : decode? bytes = some text ↔ bytes = text.toUTF8 := by
  unfold decode? String.fromUTF8?
  constructor
  · intro h
    split at h
    · cases h
      rfl
    · cases h
  · rintro rfl
    exact dif_pos text.isValidUTF8

theorem textOf_of_locate {t : Tree} (hfile : t.locate path = .ok (place, .file id)) :
    textOf t path = match decode? (t.bytesOf id) with
      | some text => .ok text
      | none => .error notText := by
  unfold textOf Tree.read
  rw [hfile]
  rfl

theorem run_openFile_read (hclosed : d.opened = none)
    (hfile : d.tree.locate (d.resolve path) = .ok (place, .file id)) :
    (openFile path .read).run d = match decode? (d.tree.bytesOf id) with
      | some text => (.ok (),
        { d with opened := some ⟨d.resolve path, .reading (Text.lines text) 0⟩ })
      | none => (.error (.cause .io notText), d) := by
  unfold openFile
  rw [run_ensureClosed hclosed, run_atBase, run_get]
  dsimp only
  rw [hfile]
  dsimp only
  rw [textOf_of_locate hfile]
  cases decode? (d.tree.bytesOf id) <;> rfl

/-- Only a file is opened. -/
theorem run_openFile_of_isFile_eq_false (hclosed : d.opened = none)
    (hfile : d.tree.isFile (d.resolve path) = false) :
    (openFile path mode).run d =
      (.error (.cause .io s!"file not found: {d.resolve path}"), d) := by
  unfold openFile
  rw [run_ensureClosed hclosed, run_atBase, run_get]
  dsimp only
  rcases hlocate : d.tree.locate (d.resolve path) with r | ⟨place, directory | id | device⟩
  · rfl
  · rfl
  · rw [Tree.isFile_iff.mpr ⟨place, id, hlocate⟩] at hfile
    cases hfile
  · rfl

theorem run_create (hclosed : d.opened = none) :
    (create path).run d = match d.tree.createNew (d.resolve path) with
      | .error r => (.error (.cause .io s!"cannot create {d.resolve path}: {r.message}"), d)
      | .ok (id, tree) => (.ok (),
        { d with tree, opened := some ⟨d.resolve path, .writing { id, offset := some 0 }⟩ }) := by
  unfold create
  rw [run_ensureClosed hclosed, run_atBase, run_get]
  cases d.tree.createNew (d.resolve path) <;> rfl

/-! ### Whatever is open -/

theorem run_delete_of_same (hopen : d.opened = some f) (hsame : Path.same f.path (d.resolve path) = true) :
    (delete path).run d = (.error (.cause .io s!"cannot delete open file {d.resolve path}"), d) := by
  unfold delete
  rw [run_atBase, run_get, hopen]
  dsimp only
  rw [if_pos hsame]
  rfl

theorem run_delete (h : ∀ f, d.opened = some f → Path.same f.path (d.resolve path) = false) :
    (delete path).run d = match d.tree.removeFile (d.resolve path) with
      | .error r => (.error (.cause .io s!"{d.resolve path}: {r.message}"), d)
      | .ok tree => (.ok (), { d with tree }) := by
  have remove : (do setTree (← orFail (d.resolve path) ((← get).tree.removeFile (d.resolve path))) :
      DeskM Unit).run d = match d.tree.removeFile (d.resolve path) with
      | .error r => (.error (.cause .io s!"{d.resolve path}: {r.message}"), d)
      | .ok tree => (.ok (), { d with tree }) := by
    rw [run_get, run_orFail]
    cases d.tree.removeFile (d.resolve path) <;> rfl
  unfold delete
  rw [run_atBase, run_get]
  cases hopen : d.opened with
  | none =>
    rw [hopen] at remove
    exact remove
  | some f =>
    rw [hopen] at remove
    dsimp only
    rw [if_neg (Bool.eq_false_iff.mp (h f hopen))]
    exact remove

/-- The lines of a file are counted as they are read. -/
theorem run_lineCount (hfile : d.tree.locate (d.resolve path) = .ok (place, .file id))
    (htext : decode? (d.tree.bytesOf id) = some text) :
    (lineCount path).run d = (.ok (Text.lines text).length, d) := by
  unfold lineCount
  rw [run_atBase, run_get, textOf_of_locate hfile, htext]
  rfl

theorem run_changeDirectory (path : String) (d : Desk) :
    (changeDirectory path).run d =
      if d.tree.isDirectory (d.resolve path) then (.ok (), { d with base := d.resolve path })
      else (.error (.cause .io s!"not a directory: {d.resolve path}"), d) := by
  unfold changeDirectory
  rw [run_atBase, run_get]
  cases d.tree.isDirectory (d.resolve path) <;> rfl

theorem run_makeDirectory (path : String) (d : Desk) :
    ((makeDirectory path).run d).2 = { d with tree := (d.tree.makeAll (d.resolve path)).2 } := by
  unfold makeDirectory
  rw [run_atBase, run_get]
  generalize d.tree.makeAll (d.resolve path) = made
  obtain ⟨_ | _, tree⟩ := made <;> rfl

theorem run_removeDirectory (path : String) (d : Desk) :
    (removeDirectory path).run d = match d.tree.removeDirectory (d.resolve path) with
      | .error r => (.error (.cause .io s!"{d.resolve path}: {r.message}"), d)
      | .ok tree => (.ok (), { d with tree }) := by
  unfold removeDirectory
  rw [run_atBase, run_get, run_orFail]
  cases d.tree.removeDirectory (d.resolve path) <;> rfl

/-! ### What a request does -/

/-- What the desk may be turned into by a request. -/
inductive Turns (d : Desk) : Request → Desk → Prop
  | unchanged {r : Request} : Turns d r d
  | opened {path : String} {mode : Mode} {place : Place} {id : Nat} {access : Access}
      (hclosed : d.opened = none) (hfile : d.tree.locate (d.resolve path) = .ok (place, .file id))
      (huses : access.Uses id) :
      Turns d (.openFile path mode) { d with opened := some ⟨d.resolve path, access⟩ }
  | created {path : String} {id : Nat} {tree : Tree} (hclosed : d.opened = none)
      (hnew : d.tree.createNew (d.resolve path) = .ok (id, tree)) :
      Turns d (.create path)
        { d with tree, opened := some ⟨d.resolve path, .writing { id, offset := some 0 }⟩ }
  | closed : Turns d .close d.closed
  | read {path : String} {count : Option Nat} {lines : List String} {position next : Nat}
      (hopen : d.opened = some ⟨path, .reading lines position⟩) :
      Turns d (.read count) { d with opened := some ⟨path, .reading lines next⟩ }
  | wrote {path text : String} {handle handle' : Handle} {tree : Tree} {answer : Except Refusal Unit}
      (hopen : d.opened = some ⟨path, .writing handle⟩)
      (hwrote : handle.writeLine text d.tree = (answer, handle', tree)) :
      Turns d (.write text) { d with tree, opened := some ⟨path, .writing handle'⟩ }
  | removed {path : String} {tree : Tree}
      (hother : ∀ f, d.opened = some f → Path.same f.path (d.resolve path) = false)
      (hremoved : d.tree.removeFile (d.resolve path) = .ok tree) : Turns d (.delete path) { d with tree }
  | moved {path : String} (hdirectory : d.tree.isDirectory (d.resolve path) = true) :
      Turns d (.changeDirectory path) { d with base := d.resolve path }
  | made {path : String} :
      Turns d (.makeDirectory path) { d with tree := (d.tree.makeAll (d.resolve path)).2 }
  | cleared {path : String} {tree : Tree} (hcleared : d.tree.removeDirectory (d.resolve path) = .ok tree) :
      Turns d (.removeDirectory path) { d with tree }

variable {d : Desk} {r : Request}

theorem turns_openFile (d : Desk) (path : String) (mode : Mode) :
    Turns d (.openFile path mode) ((openFile path mode).run d).2 := by
  cases hopen : d.opened with
  | some f =>
    rw [run_openFile_of_open hopen]
    exact .unchanged
  | none =>
    cases hfile : d.tree.isFile (d.resolve path) with
    | false =>
      rw [run_openFile_of_isFile_eq_false hopen hfile]
      exact .unchanged
    | true =>
      obtain ⟨place, id, hlocate⟩ := Tree.isFile_iff.mp hfile
      cases mode with
      | write =>
        rw [run_openFile_write hopen hlocate]
        exact .opened hopen hlocate rfl
      | read =>
        rw [run_openFile_read hopen hlocate]
        cases decode? (d.tree.bytesOf id) with
        | none => exact .unchanged
        | some text => exact .opened hopen hlocate trivial

theorem turns_create (d : Desk) (path : String) : Turns d (.create path) ((create path).run d).2 := by
  cases hopen : d.opened with
  | some f =>
    rw [run_create_of_open hopen]
    exact .unchanged
  | none =>
    rw [run_create hopen]
    cases hnew : d.tree.createNew (d.resolve path) with
    | error _ => exact .unchanged
    | ok made => exact .created hopen hnew

theorem turns_close (d : Desk) : Turns d .close (close.run d).2 :=
  .closed

theorem turns_readLines (d : Desk) (count : Option Nat) :
    Turns d (.read count) ((readLines count).run d).2 := by
  cases hopen : d.opened with
  | none =>
    rw [run_readLines_of_closed hopen]
    exact .unchanged
  | some f =>
    obtain ⟨path, ⟨lines, position⟩ | handle⟩ := f
    · rw [run_readLines hopen]
      exact .read hopen
    · rw [run_readLines_of_writing hopen]
      exact .unchanged

theorem turns_writeLine (d : Desk) (text : String) :
    Turns d (.write text) ((writeLine text).run d).2 := by
  cases hopen : d.opened with
  | none =>
    rw [run_writeLine_of_closed hopen]
    exact .unchanged
  | some f =>
    obtain ⟨path, ⟨lines, position⟩ | handle⟩ := f
    · rw [run_writeLine_of_reading hopen]
      exact .unchanged
    · rw [run_writeLine hopen]
      exact .wrote hopen rfl

theorem turns_delete (d : Desk) (path : String) : Turns d (.delete path) ((delete path).run d).2 := by
  by_cases hsame : ∃ f, d.opened = some f ∧ Path.same f.path (d.resolve path) = true
  · obtain ⟨f, hopen, hsame⟩ := hsame
    rw [run_delete_of_same hopen hsame]
    exact .unchanged
  · have hother (f : OpenFile) (hopen : d.opened = some f) :
        Path.same f.path (d.resolve path) = false :=
      Bool.eq_false_iff.mpr fun h => hsame ⟨f, hopen, h⟩
    rw [run_delete hother]
    cases hremoved : d.tree.removeFile (d.resolve path) with
    | error _ => exact .unchanged
    | ok tree => exact .removed hother hremoved

theorem turns_changeDirectory (d : Desk) (path : String) :
    Turns d (.changeDirectory path) ((changeDirectory path).run d).2 := by
  rw [run_changeDirectory]
  split
  · exact .moved ‹_›
  · exact .unchanged

theorem turns_removeDirectory (d : Desk) (path : String) :
    Turns d (.removeDirectory path) ((removeDirectory path).run d).2 := by
  rw [run_removeDirectory]
  cases hcleared : d.tree.removeDirectory (d.resolve path) with
  | error _ => exact .unchanged
  | ok tree => exact .cleared hcleared

/-- A request does what its operation does. -/
theorem Turns.of_run {x : DeskM Unit} (h : Turns d r (x.run d).2)
    (hr : r.perform = do
      x
      return []) : Turns d r (d.behind r) := by
  rwa [behind, hr, run_noLines]

theorem turns_behind (d : Desk) (r : Request) : Turns d r (d.behind r) := by
  cases r with
  | openFile path mode => exact (turns_openFile d path mode).of_run rfl
  | create path => exact (turns_create d path).of_run rfl
  | close => exact (turns_close d).of_run rfl
  | read count => exact turns_readLines d count
  | write text => exact (turns_writeLine d text).of_run rfl
  | delete path => exact (turns_delete d path).of_run rfl
  | changeDirectory path => exact (turns_changeDirectory d path).of_run rfl
  | makeDirectory path =>
    have hmade : Turns d (.makeDirectory path) ((makeDirectory path).run d).2 :=
      run_makeDirectory path d ▸ .made
    exact hmade.of_run rfl
  | removeDirectory path => exact (turns_removeDirectory d path).of_run rfl

/-! ### A desk with one file -/

/-- The desk at a directory that holds nothing but a file with the text. -/
def withText (text : String) : Desk where
  base := "."
  tree := { nodes := [(["a.txt"], .file 0)], contents := [(0, text.toUTF8)], nextId := 1 }

theorem locate_withText (text : String) :
    (withText text).tree.locate ((withText text).resolve "a.txt") = .ok (["a.txt"], .file 0) := by
  have hempty : ({ nodes := [(["a.txt"], .file 0)] } : Tree).locate (Path.join "." "a.txt") =
      .ok (["a.txt"], .file 0) :=
    rfl
  have hextends : Tree.Extends { nodes := [(["a.txt"], .file 0)] } (withText text).tree :=
    ⟨rfl, fun _ _ hnode => hnode⟩
  exact hextends.locate hempty

theorem decode?_withText (text : String) : decode? ((withText text).tree.bytesOf 0) = some text :=
  decode?_eq_some.mpr rfl

end Desk

end CommandScript.Files
