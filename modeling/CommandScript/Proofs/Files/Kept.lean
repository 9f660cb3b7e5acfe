import CommandScript.Files.Snapshot
import CommandScript.Proofs.Files.Changes
import CommandScript.Proofs.Files.Requests

/-!
# The open file is kept

No request takes the open file from its place, as long as no file is removed by a path that leads to it
under other steps than those it was opened by (`Evades`). Such a path needs a `..`, or a start of its own:
what only goes down from the base is guarded (`Below.guarded`).
-/

namespace CommandScript.Files

/-- The path that leads to a file or to a new base. -/
def Request.path? : Request → Option String
  | openFile path _ | create path | delete path | changeDirectory path => some path
  | _ => none

/-- The path goes down, from the base or else from the root that the base goes down from as well. -/
def Request.Descends (base : String) (r : Request) : Prop :=
  ∀ path, r.path? = some path → ".." ∉ Path.parts path ∧
    (Path.isAbsolute path = true → Path.isAbsolute base = true ∧ ".." ∉ Path.parts base)

/-- The steps that all paths share which go down from a base. -/
def Path.firstSteps (base : String) : List Step :=
  if isAbsolute base = true ∧ ".." ∉ parts base then [.root] else steps base

theorem Path.descendsFrom_firstSteps (base : String) : DescendsFrom (firstSteps base) base := by
  unfold firstSteps
  split
  · rename_i h
    exact descendsFrom_of_isAbsolute h.1 h.2
  · exact descendsFrom_self base

namespace Desk

/-- The file is open, and it is in the place that its path leads to. -/
structure InPlace (d : Desk) (f : OpenFile) (id : Nat) : Prop where
  opened : d.opened = some f
  node : d.tree.nodeAt (d.tree.aim f.path) = some (.file id)
  access : f.access.Uses id

/-- The path leads to the open file by other steps than those it was opened by. -/
def Evades (d : Desk) (path : String) : Prop :=
  ∃ f node, d.opened = some f ∧ d.tree.locate (d.resolve path) = .ok (d.tree.aim f.path, node) ∧
    Path.same f.path (d.resolve path) = false

variable {d e : Desk} {f : OpenFile} {r : Request} {path : String} {id : Nat} {tree : Tree}

/-! ### The file in its place -/

theorem InPlace.rebuilt (h : d.InPlace f id) (hkeeps : d.tree.KeepsFiles tree) :
    ({ d with tree } : Desk).InPlace f id where
  opened := h.opened
  node := by
    rw [Tree.aim_of_home hkeeps.home]
    exact hkeeps.file _ _ h.node
  access := h.access

/-- A file that is removed by a path that does not get round the open one is another file. -/
theorem InPlace.removed (h : d.InPlace f id) (hevades : ¬ d.Evades path)
    (hother : Path.same f.path (d.resolve path) = false)
    (hremoved : d.tree.removeFile (d.resolve path) = .ok tree) :
    ({ d with tree } : Desk).InPlace f id := by
  obtain ⟨place, part, id', hlocate, rfl⟩ := Tree.removeFile_cases hremoved
  have hplace : part :: place ≠ d.tree.aim f.path := fun hplace =>
    hevades ⟨f, _, h.opened, by rw [hlocate, hplace], hother⟩
  refine ⟨h.opened, ?_, h.access⟩
  rw [Tree.nodeAt_erase]
  exact (if_neg hplace).trans h.node

/-- Until it is closed, the open file is the same one in the same place. -/
theorem InPlace.turns (h : d.InPlace f id) (hturns : d.Turns r e) (hclose : r ≠ .close)
    (hevades : ∀ path, r = .delete path → ¬ d.Evades path) :
    ∃ access, e.InPlace ⟨f.path, access⟩ id := by
  cases hturns with
  | unchanged => exact ⟨f.access, h⟩
  | opened hclosed _ _ | created hclosed _ =>
    rw [h.opened] at hclosed
    cases hclosed
  | closed => exact (hclose rfl).elim
  | read hopen =>
    obtain rfl := Option.some.inj (h.opened.symm.trans hopen)
    exact ⟨_, rfl, h.node, h.access⟩
  | @wrote path text handle _ _ _ hopen hwrote =>
    obtain rfl := Option.some.inj (h.opened.symm.trans hopen)
    obtain ⟨hid, hextends⟩ := Handle.kept_writeLine d.tree text handle
    rw [hwrote] at hid hextends
    have hplace := h.rebuilt hextends.keepsFiles
    exact ⟨_, rfl, hplace.node, hid.trans h.access⟩
  | removed hother hremoved =>
    exact ⟨f.access, h.removed (hevades _ rfl) (hother f h.opened) hremoved⟩
  | moved _ => exact ⟨f.access, h.opened, h.node, h.access⟩
  | made => exact ⟨f.access, h.rebuilt (Tree.keepsFiles_makeAll _ _)⟩
  | cleared hcleared => exact ⟨f.access, h.rebuilt (Tree.keepsFiles_removeDirectory hcleared)⟩

/-- Whatever file is open, it is in its place. -/
def Holds (d : Desk) : Prop :=
  ∀ f, d.opened = some f → ∃ id, d.InPlace f id

/-- A file that is opened is put in its place, be it found or made. -/
theorem Holds.turns_of_closed (hclosed : d.opened = none) (hturns : d.Turns r e) : e.Holds := by
  intro g hopen
  cases hturns with
  | opened _ hfile huses =>
    obtain rfl := Option.some.inj hopen
    refine ⟨_, rfl, ?_, huses⟩
    rw [← Tree.aim_of_locate hfile]
    exact Tree.nodeAt_of_locate hfile
  | created _ hnew =>
    obtain rfl := Option.some.inj hopen
    obtain ⟨place, hlocate⟩ := Tree.locate_of_createNew hnew
    refine ⟨_, rfl, ?_, rfl⟩
    rw [← Tree.aim_of_locate hlocate]
    exact Tree.nodeAt_of_locate hlocate
  | closed => cases (opened_closed d).symm.trans hopen
  | read hother | wrote hother => cases hclosed.symm.trans hother
  | unchanged | removed _ _ | moved _ | made | cleared _ => cases hclosed.symm.trans hopen

theorem Holds.turns (h : d.Holds) (hturns : d.Turns r e)
    (hevades : ∀ path, r = .delete path → ¬ d.Evades path) : e.Holds := by
  cases hfile : d.opened with
  | none => exact Holds.turns_of_closed hfile hturns
  | some f =>
    obtain ⟨id, hplace⟩ := h f hfile
    by_cases hclose : r = .close
    · subst hclose
      cases hturns with
      | unchanged => exact h
      | closed => exact fun g hopen => by cases (opened_closed d).symm.trans hopen
    · obtain ⟨access, hkept⟩ := hplace.turns hturns hclose hevades
      exact fun g hopen => ⟨id, Option.some.inj (hkept.opened.symm.trans hopen) ▸ hkept⟩

/-! ### Runs -/

/-- On the way no file is removed by a path that gets round the open one. -/
def Guarded (d : Desk) (requests : List Request) : Prop :=
  ∀ before path later, requests = before ++ .delete path :: later → ¬ (d.after before).Evades path

variable {requests before later : List Request}

theorem Guarded.head (h : d.Guarded (r :: requests)) (path : String) (hr : r = .delete path) :
    ¬ d.Evades path :=
  h [] path requests (by rw [hr]; rfl)

theorem Guarded.tail (h : d.Guarded (r :: requests)) : (d.behind r).Guarded requests := by
  rintro before path rest rfl
  exact h (r :: before) path rest rfl

theorem Guarded.left (h : d.Guarded (before ++ later)) : d.Guarded before := by
  rintro earlier path rest rfl
  exact h earlier path (rest ++ later) (by rw [List.append_assoc]; rfl)

theorem Guarded.right (h : d.Guarded (before ++ later)) : (d.after before).Guarded later := by
  induction before generalizing d with
  | nil => exact h
  | cons r before ih => exact ih h.tail

theorem Holds.after (h : d.Holds) (hguarded : d.Guarded requests) : (d.after requests).Holds := by
  induction requests generalizing d with
  | nil => exact h
  | cons r requests ih =>
    exact ih (h.turns (turns_behind d r) hguarded.head) hguarded.tail

/-- The file that is open in a run was opened as the same one and has been in its place ever since. -/
theorem InPlace.after (h : d.InPlace f id) (hguarded : d.Guarded requests) (hclose : .close ∉ requests) :
    ∃ access, (d.after requests).InPlace ⟨f.path, access⟩ id := by
  induction requests generalizing d f with
  | nil => exact ⟨f.access, h⟩
  | cons r requests ih =>
    rw [List.mem_cons, not_or] at hclose
    obtain ⟨access, hnext⟩ := h.turns (turns_behind d r) (Ne.symm hclose.1) hguarded.head
    obtain ⟨last, hlast⟩ := ih hnext hguarded.tail hclose.2
    exact ⟨last, hlast⟩

/-! ### Paths that go down -/

/-- The base and the open file are below the place that the first steps lead to. -/
structure Below (first : List Step) (d : Desk) : Prop where
  base : Path.DescendsFrom first d.base
  named : d.base ≠ ""
  opened : ∀ f, d.opened = some f → Path.DescendsFrom first f.path

variable {base : String}

theorem below_start (h : base ≠ "") (tree : Tree) :
    Below (Path.firstSteps base) { base, tree } :=
  ⟨Path.descendsFrom_firstSteps base, h, nofun⟩

theorem Below.resolve (h : d.Below (Path.firstSteps base)) (hr : r.Descends base) (hpath : r.path? = some path) :
    Path.DescendsFrom (Path.firstSteps base) (d.resolve path) ∧ d.resolve path ≠ "" := by
  obtain ⟨hup, habsolute⟩ := hr path hpath
  unfold Desk.resolve
  cases hroot : Path.isAbsolute path with
  | false => exact ⟨h.base.join h.named hroot hup, Path.join_ne_empty h.named hroot⟩
  | true =>
    have hjoin : Path.join d.base path = path := if_pos hroot
    rw [hjoin, Path.firstSteps, if_pos (habsolute hroot)]
    refine ⟨Path.descendsFrom_of_isAbsolute hroot hup, ?_⟩
    rintro rfl
    cases hroot

theorem Below.turns (h : d.Below (Path.firstSteps base)) (hr : r.Descends base) (hturns : d.Turns r e) :
    e.Below (Path.firstSteps base) := by
  cases hturns with
  | unchanged => exact h
  | opened _ _ _ | created _ _ =>
    refine ⟨h.base, h.named, ?_⟩
    rintro _ ⟨⟩
    exact (h.resolve hr rfl).1
  | closed =>
    refine ⟨d.base_closed ▸ h.base, d.base_closed ▸ h.named, fun f hopen => ?_⟩
    rw [opened_closed] at hopen
    cases hopen
  | read hopen | wrote hopen =>
    refine ⟨h.base, h.named, ?_⟩
    rintro _ ⟨⟩
    have hbelow := h.opened _ hopen
    exact hbelow
  | moved _ => exact ⟨(h.resolve hr rfl).1, (h.resolve hr rfl).2, h.opened⟩
  | removed _ _ | made | cleared _ => exact ⟨h.base, h.named, h.opened⟩

theorem Below.after (h : d.Below (Path.firstSteps base)) (hrequests : ∀ r ∈ requests, r.Descends base) :
    (d.after requests).Below (Path.firstSteps base) := by
  induction requests generalizing d with
  | nil => exact h
  | cons r requests ih =>
    rw [List.forall_mem_cons] at hrequests
    exact ih (h.turns hrequests.1 (turns_behind d r)) hrequests.2

/-- A path that goes down as the open file's did gets round no guard. -/
theorem Below.not_evades (h : d.Below (Path.firstSteps base)) (hr : (Request.delete path).Descends base) :
    ¬ d.Evades path := by
  rintro ⟨f, node, hopen, hlocate, hother⟩
  have hparts := (h.opened f hopen).partsDown (h.resolve hr rfl).1
  rw [Tree.same_of_aim hparts (Tree.aim_of_locate hlocate)] at hother
  cases hother

theorem Below.guarded (h : d.Below (Path.firstSteps base)) (hrequests : ∀ r ∈ requests, r.Descends base) :
    d.Guarded requests := by
  rintro before path later rfl
  rw [List.forall_mem_append, List.forall_mem_cons] at hrequests
  exact (h.after hrequests.1).not_evades hrequests.2.1

/-! ### Requests for removing a file -/

/-- A request for removing a file leaves the open one in its place, with its bytes. -/
theorem InPlace.turns_delete (h : d.InPlace f id) (hturns : d.Turns (.delete path) e)
    (hevades : ¬ d.Evades path) : e.InPlace f id ∧ e.tree.bytesOf id = d.tree.bytesOf id := by
  cases hturns with
  | unchanged => exact ⟨h, rfl⟩
  | removed hother hremoved =>
    refine ⟨h.removed hevades (hother f h.opened) hremoved, ?_⟩
    obtain ⟨place, part, id', -, rfl⟩ := Tree.removeFile_cases hremoved
    rfl

/-- A file that is removed by a path that gets round the open one is the open one. -/
theorem Evades.removed (h : d.Evades path) (hopen : d.opened = some f)
    (hremoved : d.tree.removeFile (d.resolve path) = .ok tree) :
    d.behind (.delete path) = { d with tree } ∧ tree.nodeAt (d.tree.aim f.path) = none := by
  obtain ⟨f', node, hopen', hlocate, hother⟩ := h
  obtain rfl : f = f' := Option.some.inj (hopen.symm.trans hopen')
  constructor
  · have hrun : d.behind (.delete path) = ((delete path).run d).2 := run_noLines _ d
    rw [hrun, run_delete, hremoved]
    rintro g hg
    obtain rfl : f = g := Option.some.inj (hopen.symm.trans hg)
    exact hother
  · obtain ⟨place, part, id, hplace, rfl⟩ := Tree.removeFile_cases hremoved
    obtain ⟨haim, -⟩ := Prod.mk.inj (Except.ok.inj (hplace.symm.trans hlocate))
    rw [← haim, Tree.nodeAt_erase, if_pos rfl]

/-- Behind any run that went round no guard, the open file is in its place, and no request for removing a
file takes it from there: one that leads to it fails and changes nothing. Only a path that gets round the
guard removes it. In a run whose paths all go down from the base there is none. -/
theorem kept_of_after (hopen : (({ base, tree } : Desk).after requests).opened = some f) :
    let start : Desk := { base, tree }
    let d := start.after requests
    (start.Guarded requests → ∃ id, d.InPlace f id ∧
      (∀ before later g, requests = before ++ later → .close ∉ later →
        (start.after before).opened = some g → g.path = f.path ∧ (start.after before).InPlace g id) ∧
      ∀ path,
      (¬ d.Evades path →
        (d.behind (.delete path)).InPlace f id ∧
        (d.behind (.delete path)).tree.bytesOf id = d.tree.bytesOf id ∧
        ∀ node, d.tree.locate (d.resolve path) = .ok (d.tree.aim f.path, node) →
          (delete path).run d =
            (.error (.cause .io s!"cannot delete open file {d.resolve path}"), d)) ∧
      (d.Evades path → ∀ tree, d.tree.removeFile (d.resolve path) = .ok tree →
        d.behind (.delete path) = { d with tree } ∧ tree.nodeAt (d.tree.aim f.path) = none)) ∧
    (base ≠ "" → (∀ r ∈ requests, r.Descends base) → start.Guarded requests ∧
      ∀ path, (Request.delete path).Descends base → ¬ d.Evades path) := by
  intro start d
  constructor
  · intro hguarded
    have hstart : start.Holds := nofun
    obtain ⟨id, hplace⟩ := hstart.after hguarded f hopen
    refine ⟨id, hplace, ?_, fun path => ⟨?_, fun hevades tree => hevades.removed hopen⟩⟩
    · rintro before later g rfl hclose hg
      obtain ⟨id', hg'⟩ := hstart.after hguarded.left g hg
      obtain ⟨access, hend⟩ := hg'.after hguarded.right hclose
      rw [← after_append] at hend
      obtain rfl := Option.some.inj (hend.opened.symm.trans hopen)
      obtain ⟨rfl⟩ := Node.file.inj (Option.some.inj (hend.node.symm.trans hplace.node))
      exact ⟨rfl, hg'⟩
    · intro hevades
      obtain ⟨hkept, hbytes⟩ := hplace.turns_delete (turns_behind d (.delete path)) hevades
      refine ⟨hkept, hbytes, fun node hlocate => run_delete_of_same hopen ?_⟩
      cases hsame : Path.same f.path (d.resolve path) with
      | true => rfl
      | false => exact absurd ⟨f, node, hopen, hlocate, hsame⟩ hevades
  · intro hbase hrequests
    have hstart := below_start hbase tree
    exact ⟨hstart.guarded hrequests, fun path hpath => (hstart.after hrequests).not_evades hpath⟩

/-- A file beside an empty directory. -/
def besideDirectory : Desk where
  base := "."
  tree := .ofSnapshot [] [("a.txt", some "x\n".toUTF8), ("sub", none)]

/-- While the file is written to, it is not removed by its name. -/
theorem kept_of_after_besideDirectory :
    let f : OpenFile := ⟨"./a.txt", .writing { id := 0, offset := none }⟩
    let d := besideDirectory.after [.openFile "a.txt" .write]
    ∃ id, d.InPlace f id ∧ (d.behind (.delete ".//a.txt")).InPlace f id ∧
      (delete ".//a.txt").run d = (.error (.cause .io "cannot delete open file ././/a.txt"), d) := by
  intro f d
  have hdescends (r : Request) (path : String) (hr : r.path? = some path)
      (hpath : path = "a.txt" ∨ path = ".//a.txt") : r.Descends "." := by
    intro path' hpath'
    obtain rfl : path = path' := Option.some.inj (hr.symm.trans hpath')
    obtain rfl | rfl := hpath <;> exact ⟨by decide +kernel, nofun⟩
  obtain ⟨hkept, hplain⟩ := kept_of_after (show d.opened = some f from rfl)
  obtain ⟨hguarded, hevades⟩ := hplain (by decide +kernel)
    (List.forall_mem_singleton.mpr (hdescends _ _ rfl (.inl rfl)))
  obtain ⟨id, hplace, -, hdelete⟩ := hkept hguarded
  obtain ⟨hstays, -, hrefused⟩ := (hdelete ".//a.txt").1 (hevades _ (hdescends _ _ rfl (.inr rfl)))
  have haim : d.tree.aim f.path = ["a.txt"] := by decide +kernel
  have hplaced : besideDirectory.tree.locate (besideDirectory.resolve ".//a.txt") = .ok (["a.txt"], .file 0) :=
    rfl
  have hlocate : d.tree.locate (d.resolve ".//a.txt") = .ok (d.tree.aim f.path, .file 0) := by
    rw [haim]
    exact hplaced
  exact ⟨id, hplace, hstays, hrefused _ hlocate⟩

/-- The open file is removed by a path through the directory beside it, and stays open. -/
theorem removed_of_detour :
    ¬ ∀ (base : String) (tree : Tree) (requests : List Request) (f : OpenFile) (path : String) (place : Place)
      (id : Nat), let d := ({ base, tree } : Desk).after requests
      d.opened = some f → d.tree.locate f.path = .ok (place, .file id) →
        (d.behind (.delete path)).tree.locate f.path = .ok (place, .file id) := by
  intro h
  have hkept := h "." besideDirectory.tree [.openFile "a.txt" .write] _ "sub/../a.txt" ["a.txt"] 0 rfl rfl
  have hgone : (besideDirectory.after [.openFile "a.txt" .write, .delete "sub/../a.txt"]).tree.locate
      "./a.txt" = .error .notFound := rfl
  cases hkept.symm.trans hgone

end Desk

end CommandScript.Files
