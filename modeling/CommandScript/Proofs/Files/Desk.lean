import CommandScript.Files.Desk
import CommandScript.Proofs.Ensures

/-!
# Faults at the desk

Whatever a file command meets, a closed file, a path that leads nowhere or bytes that are no text, it
says so with a fault of the kind for input and output. So does whoever copies the output, and both leave the
base directory alone while files are closed and lines are copied (`Papers.Tidy`). Where no file is open and the
copy is not on a full device, lines are copied without any fault (`Papers.Smooth`).
-/

namespace CommandScript.Files

namespace Desk

variable {α β : Type}

/-- The operation has only faults of the kind for input and output. -/
abbrev FailsByIo (x : DeskM α) : Prop :=
  Stays (fun _ => True) x (fun _ => True) fun f => f.kind = .io

theorem failsByIo_fail (detail : String) : FailsByIo (fail detail : DeskM α) :=
  stays_throw rfl

theorem FailsByIo.bind {x : DeskM α} {k : α → DeskM β} (hx : FailsByIo x)
    (hk : ∀ a, FailsByIo (k a)) : FailsByIo (x >>= k) :=
  Stays.bind hx fun a _ => hk a

theorem failsByIo_pure (a : α) : FailsByIo (pure a) :=
  stays_pure trivial

theorem failsByIo_get_bind {k : Desk → DeskM β} (hk : ∀ d, FailsByIo (k d)) :
    FailsByIo (get >>= k) :=
  stays_get_bind fun d _ => hk d

theorem failsByIo_modify (g : Desk → Desk) : FailsByIo (modify g : DeskM PUnit) :=
  stays_modify (fun _ _ => trivial) trivial

theorem failsByIo_atBase (path : String) : FailsByIo (atBase path) :=
  failsByIo_get_bind fun _ => failsByIo_pure _

theorem failsByIo_orFail (path : String) (answer : Except Refusal α) :
    FailsByIo (orFail path answer) := by
  cases answer with
  | ok a => exact failsByIo_pure a
  | error r => exact failsByIo_fail _

theorem failsByIo_orRefused (answer : Except Refusal α) :
    FailsByIo (orRefused answer : DeskM α) := by
  cases answer with
  | ok a => exact failsByIo_pure a
  | error r => exact stays_throw rfl

theorem failsByIo_ensureClosed : FailsByIo ensureClosed := by
  refine failsByIo_get_bind fun d => ?_
  split
  · exact failsByIo_fail _
  · exact failsByIo_pure _

theorem failsByIo_openFile (path : String) (mode : Mode) : FailsByIo (openFile path mode) := by
  have place (path : String) (access : Access) : FailsByIo (do
      let access ← pure access
      modify fun d => { d with opened := some { path, access } } : DeskM PUnit) :=
    (failsByIo_pure access).bind fun _ => failsByIo_modify _
  refine failsByIo_ensureClosed.bind fun _ => (failsByIo_atBase path).bind fun path =>
    failsByIo_get_bind fun d => ?_
  cases mode with
  | read =>
    dsimp only
    split
    · split
      · exact place _ _
      · exact (failsByIo_fail _).bind fun _ => failsByIo_modify _
    · exact failsByIo_fail _
  | write =>
    dsimp only
    split
    · exact place _ _
    · exact failsByIo_fail _

theorem failsByIo_create (path : String) : FailsByIo (create path) := by
  refine failsByIo_ensureClosed.bind fun _ => (failsByIo_atBase path).bind fun path =>
    failsByIo_get_bind fun d => ?_
  split
  · exact failsByIo_fail _
  · exact failsByIo_modify _

theorem failsByIo_close : FailsByIo close := by
  refine failsByIo_get_bind fun d => ?_
  split
  · exact failsByIo_fail _
  · exact failsByIo_modify _
  · exact (failsByIo_modify _).bind fun _ => failsByIo_get_bind fun _ =>
      (failsByIo_orRefused _).bind fun _ => failsByIo_modify _

theorem failsByIo_readLines (count : Option Nat) : FailsByIo (readLines count) := by
  refine failsByIo_get_bind fun d => ?_
  split
  · exact failsByIo_fail _
  · exact failsByIo_fail _
  · exact (failsByIo_modify _).bind fun _ => failsByIo_pure _

theorem failsByIo_writeLine (text : String) : FailsByIo (writeLine text) := by
  refine failsByIo_get_bind fun d => ?_
  split
  · exact failsByIo_fail _
  · exact failsByIo_fail _
  · exact failsByIo_get_bind fun _ => (failsByIo_modify _).bind fun _ => failsByIo_orRefused _

theorem failsByIo_size (path : String) : FailsByIo (size path) :=
  (failsByIo_atBase path).bind fun _ => failsByIo_get_bind fun _ => failsByIo_orFail _ _

theorem failsByIo_lineCount (path : String) : FailsByIo (lineCount path) := by
  refine (failsByIo_atBase path).bind fun path => failsByIo_get_bind fun d => ?_
  split
  · exact failsByIo_pure _
  · exact failsByIo_fail _

theorem failsByIo_delete (path : String) : FailsByIo (delete path) := by
  have remove (path : String) : FailsByIo (do
      setTree (← orFail path ((← get).tree.removeFile path)) : DeskM Unit) :=
    failsByIo_get_bind fun _ => (failsByIo_orFail _ _).bind fun _ => failsByIo_modify _
  refine (failsByIo_atBase path).bind fun path => failsByIo_get_bind fun d => ?_
  split
  · exact stays_ite (fun _ => (failsByIo_fail _).bind fun _ => remove path) fun _ => remove path
  · exact remove path

theorem failsByIo_changeDirectory (path : String) : FailsByIo (changeDirectory path) :=
  (failsByIo_atBase path).bind fun _ => failsByIo_get_bind fun _ => stays_ite
    (fun _ => (failsByIo_fail _).bind fun _ => failsByIo_modify _) fun _ => failsByIo_modify _

theorem failsByIo_makeDirectory (path : String) : FailsByIo (makeDirectory path) :=
  (failsByIo_atBase path).bind fun path => failsByIo_get_bind fun d =>
    (failsByIo_modify _).bind fun _ => failsByIo_orFail path (d.tree.makeAll path).1

theorem failsByIo_removeDirectory (path : String) : FailsByIo (removeDirectory path) :=
  (failsByIo_atBase path).bind fun _ => failsByIo_get_bind fun _ =>
    (failsByIo_orFail _ _).bind fun _ => failsByIo_modify _

theorem failsByIo_list (path : String) (wanted : Selection) : FailsByIo (list path wanted) :=
  (failsByIo_atBase path).bind fun _ => failsByIo_get_bind fun _ =>
    (failsByIo_orFail _ _).bind fun _ => failsByIo_pure _

/-- Without an open file there is nothing to close. -/
theorem closed_of_none {d : Desk} (h : d.opened = none) : d.closed = d := by
  obtain ⟨base, tree, _⟩ := d
  cases h
  rfl

/-- Closing a file leaves the base where it is. -/
theorem stays_close (base : String) :
    Stays (fun d => d.base = base) close (fun _ => True) fun f => f.kind = .io := by
  refine stays_get_bind fun d _ => ?_
  split
  · exact stays_throw rfl
  · exact stays_modify (fun _ h => h) trivial
  · refine Stays.bind (stays_modify (Q := fun _ => True) (fun _ h => h) trivial) fun _ _ =>
      stays_get_bind fun d _ => Stays.bind (Q := fun _ => True) ?_ fun _ _ =>
        stays_modify (fun _ h => h) trivial
    cases Handle.flush _ d.tree with
    | ok made => exact stays_pure trivial
    | error r => exact stays_throw rfl

end Desk

namespace Papers

/-- The invariant looks at neither the tree nor the copy. -/
def Overlooks (I : Papers → Prop) : Prop :=
  ∀ (p : Papers) (tree : Tree) (copy : Option Handle), I p → I { desk := { p.desk with tree }, copy }

/-- The operation has to do with the tree and the copy alone, and has only faults of the kind for input and
output. -/
def Copying {α : Type} (x : PapersM α) : Prop :=
  ∀ I, Overlooks I → Stays I x (fun _ => True) fun f => f.kind = .io

/-- The operation leaves the base where it is, and has only faults of the kind for input and output. -/
def Tidy {α : Type} (x : PapersM α) : Prop :=
  ∀ base, Stays (fun p => p.desk.base = base) x (fun _ => True) fun f => f.kind = .io

variable {I : Papers → Prop}

theorem Copying.tidy {α : Type} {x : PapersM α} (h : Copying x) : Tidy x :=
  fun _ => h _ fun _ _ _ => id

theorem stays_orRefused {α : Type} (answer : Except Refusal α) :
    Stays I (orRefused answer) (fun _ => True) fun f => f.kind = .io := by
  cases answer with
  | ok a => exact stays_pure trivial
  | error r => exact stays_throw rfl

/-- Whatever is put in the place of tree and copy. -/
theorem stays_set (hI : Overlooks I) {p : Papers} (hp : I p) (copy : Option Handle) (tree : Tree) :
    Stays I (set { desk := { p.desk with tree }, copy : Papers } : PapersM Unit) (fun _ => True)
      fun f => f.kind = .io :=
  fun _ _ => ⟨hI p tree copy hp, trivial⟩

theorem copying_copyLine (line : String) : Copying (copyLine line) := fun I hI => by
  refine stays_get_bind fun p hp => ?_
  split
  · exact (stays_set hI hp _ _).bind fun _ _ => stays_orRefused _
  · exact stays_pure trivial

theorem copying_flushCopy : Copying flushCopy := fun I hI => by
  refine stays_get_bind fun p hp => ?_
  split
  · exact (stays_orRefused _).bind fun made _ => stays_set hI hp _ _
  · exact stays_pure trivial

theorem copying_copyTo (path : String) : Copying (copyTo path) := fun I hI => by
  refine stays_get_bind fun p hp => ?_
  have hflush := copying_flushCopy I hI p hp
  rcases hrun : flushCopy.run p with ⟨answer, q⟩
  rw [hrun] at hflush
  have hq : I q := by cases answer <;> exact hflush.1
  refine (stays_set hI hq none q.desk.tree).bind fun _ _ =>
    Stays.bind (Q := fun _ => True) ?_ fun _ _ => stays_ite
      (fun _ => (stays_orRefused _).bind fun _ _ => stays_set hI hq _ _) fun _ => stays_pure trivial
  cases answer with
  | error g => exact stays_throw hflush.2
  | ok u => exact stays_pure trivial

theorem run_closeFile (p : Papers) :
    closeFile.run p = if p.desk.isOpen then ((Desk.close.run p.desk).1, { p with desk := p.desk.closed })
      else (.ok (), p) :=
  rfl

theorem state_closeFile (p : Papers) : (closeFile.run p).2 = { p with desk := p.desk.closed } := by
  rw [run_closeFile]
  cases hopen : p.desk.opened with
  | none => rw [if_neg (by simp [Desk.isOpen, hopen]), Desk.closed_of_none hopen]
  | some f => rw [if_pos (by simp [Desk.isOpen, hopen])]

theorem tidy_closeFile : Tidy closeFile := fun base p hp => by
  rw [run_closeFile]
  by_cases hopen : p.desk.isOpen = true
  · rw [if_pos hopen, Desk.closed]
    have hclose := Desk.stays_close base p.desk hp
    rcases hrun : Desk.close.run p.desk with ⟨g | u, d⟩ <;> rw [hrun] at hclose
    · exact hclose
    · exact hclose
  · rw [if_neg hopen]
    exact ⟨hp, trivial⟩

theorem tidy_settle : Tidy settle := fun base =>
  (tidy_closeFile base).bind fun _ _ => copying_flushCopy.tidy base

end Papers

/-! ### Handles that take what is written -/

namespace Handle

variable {h : Handle}

/-- Only a full device refuses bytes. -/
theorem takes_put (hfull : h.full = false) (bytes : ByteArray) (t : Tree) :
    ∃ h' t', h.put bytes t = .ok (h', t') ∧ h'.full = false := by
  unfold put
  dsimp only
  rw [hfull, if_neg Bool.false_ne_true]
  split
  · exact ⟨h, t, rfl, hfull⟩
  · split
    · exact ⟨h, _, rfl, hfull⟩
    · exact ⟨_, _, rfl, rfl⟩

theorem takes_flush (hfull : h.full = false) (t : Tree) :
    ∃ h' t', h.flush t = .ok (h', t') ∧ h'.full = false := by
  obtain ⟨h', t', hput, hfull'⟩ := takes_put hfull h.pending t
  refine ⟨{ h' with pending := ByteArray.empty }, t', ?_, hfull'⟩
  rw [flush, hput]
  rfl

theorem takes_write (hfull : h.full = false) (bytes : ByteArray) (t : Tree) :
    ∃ h' t', h.write bytes t = .ok (h', t') ∧ h'.full = false := by
  obtain ⟨h₁, t₁, hmade, hfull₁⟩ :
      ∃ h₁ t₁, h.makeRoom bytes.size t = .ok (h₁, t₁) ∧ h₁.full = false := by
    unfold makeRoom
    split
    · exact takes_flush hfull t
    · exact ⟨h, t, rfl, hfull⟩
  unfold write
  rw [hmade]
  change ∃ h' t', (if room ≤ bytes.size then h₁.put bytes t₁ else _) = _ ∧ _
  split
  · exact takes_put hfull₁ bytes t₁
  · exact ⟨_, t₁, rfl, hfull₁⟩

theorem takes_writeLine (hfull : h.full = false) (text : String) (t : Tree) :
    ∃ h' t', h.writeLine text t = (.ok (), h', t') ∧ h'.full = false := by
  obtain ⟨h₁, t₁, hfirst, hfull₁⟩ := takes_write hfull text.toUTF8 t
  obtain ⟨h₂, t₂, hsecond, hfull₂⟩ := takes_write hfull₁ "\n".toUTF8 t₁
  refine ⟨h₂, t₂, ?_, hfull₂⟩
  unfold writeLine
  rw [hfirst]
  dsimp only
  rw [hsecond]

end Handle

namespace Papers

/-- No file is open, and the copy is not on a full device. -/
structure Takes (p : Papers) : Prop where
  closed : p.desk.opened = none
  takes : ∀ handle, p.copy = some handle → handle.full = false

/-- The operation meets no fault as long as the papers take what is written. -/
def Smooth (x : PapersM Unit) : Prop :=
  Stays Takes x (fun _ => True) fun _ => False

theorem Smooth.run {x : PapersM Unit} (h : Smooth x) {p : Papers} (hp : p.Takes) :
    ∃ q, x.run p = (.ok (), q) ∧ q.Takes := by
  have hx := h p hp
  rcases hrun : x.run p with ⟨f | u, q⟩ <;> rw [hrun] at hx
  · exact hx.2.elim
  · exact ⟨q, rfl, hx.1⟩

theorem smooth_copyLine (line : String) : Smooth (copyLine line) := by
  refine stays_get_bind fun p hp => ?_
  split
  · rename_i handle hcopy
    obtain ⟨handle', tree, hwrite, hfull⟩ := Handle.takes_writeLine (hp.takes handle hcopy) line p.desk.tree
    rw [hwrite]
    exact fun _ _ => ⟨⟨hp.closed, fun _ heq => Option.some_inj.mp heq ▸ hfull⟩, trivial⟩
  · exact stays_pure trivial

theorem smooth_flushCopy : Smooth flushCopy := by
  refine stays_get_bind fun p hp => ?_
  split
  · rename_i handle hcopy
    obtain ⟨handle', tree, hflush, hfull⟩ := Handle.takes_flush (hp.takes handle hcopy) p.desk.tree
    rw [hflush]
    exact fun _ _ => ⟨⟨hp.closed, fun _ heq => Option.some_inj.mp heq ▸ hfull⟩, trivial⟩
  · exact stays_pure trivial

/-- There is nothing to close. -/
theorem Takes.run_closeFile {p : Papers} (h : p.Takes) : closeFile.run p = (.ok (), p) := by
  rw [Papers.run_closeFile, if_neg (by simp [Desk.isOpen, h.closed])]

theorem smooth_closeFile : Smooth closeFile := fun p hp => by
  rw [hp.run_closeFile]
  exact ⟨hp, trivial⟩

theorem smooth_settle : Smooth settle :=
  smooth_closeFile.bind fun _ _ => smooth_flushCopy

end Papers

end CommandScript.Files
