import CommandScript.Proofs.Files.Location

/-!
# What changes of a tree keep

A file or directory is made where nothing was, and a directory is removed only as one (`createNew_cases`,
`keepsFiles_makeAll`, `keepsFiles_removeDirectory`), so files stay in their places with their numbers
through all of this. A file is removed from the one place that the path leads to (`removeFile_cases`).
-/

namespace CommandScript.Files

namespace Tree

variable {t u v : Tree} {path part : String} {above place : Place} {node : Node} {id : Nat}

theorem nodeAt_put (t : Tree) (part : String) (above : Place) (node : Node) (place : Place) :
    ({ t with nodes := t.nodes.put (part :: above) node } : Tree).nodeAt place =
      if part :: above = place then some node else t.nodeAt place := by
  cases place with
  | nil => rfl
  | cons name rest => exact Assoc.get?_put _ _ _ _

theorem nodeAt_erase (t : Tree) (part : String) (above place : Place) :
    ({ t with nodes := t.nodes.erase (part :: above) } : Tree).nodeAt place =
      if part :: above = place then none else t.nodeAt place := by
  cases place with
  | nil => rfl
  | cons name rest => exact Assoc.get?_erase _ _ _

/-- A node that is put where nothing was leaves all others as they are. -/
theorem extends_put (h : t.nodeAt (part :: above) = none) :
    t.Extends { t with nodes := t.nodes.put (part :: above) node } where
  home := rfl
  node place node' hnode := by
    rw [nodeAt_put, if_neg, hnode]
    rintro rfl
    rw [h] at hnode
    cases hnode

theorem Extends.refl (t : Tree) : t.Extends t :=
  ⟨rfl, fun _ _ h => h⟩

theorem Extends.trans (h : t.Extends u) (h' : u.Extends v) : t.Extends v :=
  ⟨h'.home.trans h.home, fun place node hnode => h'.node place node (h.node place node hnode)⟩

/-- A new file is put where nothing was, under a number of its own. -/
theorem createNew_cases (h : t.createNew path = .ok (id, u)) :
    ∃ place part, t.locateParent path = .ok (place, some part) ∧ isNamePart part = true ∧
      endsWithSlash path = false ∧ t.child place part = .ok none ∧
      id = t.nextId ∧ u = (t.addFile (part :: place)).2 := by
  unfold createNew at h
  obtain ⟨⟨place, last⟩, hparent, h⟩ := bind_eq_ok.mp h
  cases last with
  | none => cases h
  | some part =>
    dsimp only at h
    split at h
    · cases h
    · rename_i hname
      split at h
      · cases h
      · rename_i hslash
        obtain ⟨found, hchild, h⟩ := bind_eq_ok.mp h
        cases found with
        | some node => cases h
        | none =>
          cases h
          refine ⟨place, part, hparent, ?_, Bool.eq_false_iff.mpr hslash, hchild, rfl, rfl⟩
          simpa using hname

theorem extends_addFile (h : t.nodeAt (part :: above) = none) :
    t.Extends (t.addFile (part :: above)).2 where
  home := rfl
  node := (extends_put h).node

theorem nodeAt_addFile (t : Tree) (part : String) (above : Place) :
    (t.addFile (part :: above)).2.nodeAt (part :: above) = some (.file t.nextId) :=
  (nodeAt_put t part above _ _).trans (if_pos rfl)

/-- The path that a file was made by leads to it. -/
theorem locate_of_createNew (h : t.createNew path = .ok (id, u)) :
    ∃ place, u.locate path = .ok (place, .file id) := by
  obtain ⟨place, part, hparent, hname, hslash, hchild, rfl, rfl⟩ := createNew_cases h
  obtain ⟨hshort, hnone⟩ := child_eq_ok.mp hchild
  have hmade : (t.addFile (part :: place)).2.child place part = .ok (some (.file t.nextId)) :=
    child_eq_ok.mpr ⟨hshort, nodeAt_addFile t part place⟩
  exact ⟨part :: place,
    locate_of_parent ((extends_addFile hnone).locateParent hparent) hname hmade fun _ => hslash⟩

theorem bytesOf_put (t : Tree) (id : Nat) (bytes : ByteArray) :
    ({ t with contents := t.contents.put id bytes } : Tree).bytesOf id = bytes := by
  unfold bytesOf
  rw [Assoc.get?_put, if_pos rfl]
  rfl

theorem bytesOf_of_createNew (h : t.createNew path = .ok (id, u)) : u.bytesOf id = ByteArray.empty := by
  obtain ⟨place, part, -, -, -, -, rfl, rfl⟩ := createNew_cases h
  exact bytesOf_put _ _ _

/-- A file or a device is removed from the place that the path leads to. -/
theorem removeFile_cases (h : t.removeFile path = .ok u) :
    ∃ place part node, t.locate path = .ok (part :: place, node) ∧
      u = { t with nodes := t.nodes.erase (part :: place) } := by
  unfold removeFile at h
  obtain ⟨⟨place, last⟩, hparent, h⟩ := bind_eq_ok.mp h
  cases last with
  | none => cases h
  | some part =>
    dsimp only at h
    split at h
    · cases h
    · rename_i hname
      obtain ⟨found, hchild, h⟩ := bind_eq_ok.mp h
      split at h
      · cases h
      · cases h
      all_goals
        split at h
        · cases h
        · rename_i hslash
          cases h
          refine ⟨place, part, _, locate_of_parent hparent ?_ hchild fun _ => ?_, rfl⟩
          · simpa using hname
          · exact Bool.eq_false_iff.mpr hslash

/-- The files of the one tree are in their places in the other. -/
structure KeepsFiles (t u : Tree) : Prop where
  home : u.home = t.home
  file : ∀ place id, t.nodeAt place = some (.file id) → u.nodeAt place = some (.file id)

theorem Extends.keepsFiles (h : t.Extends u) : t.KeepsFiles u :=
  ⟨h.home, fun place _ => h.node place _⟩

theorem extends_makeDirectory (h : t.makeDirectory path = .ok u) : t.Extends u := by
  unfold makeDirectory at h
  obtain ⟨⟨place, last⟩, -, h⟩ := bind_eq_ok.mp h
  cases last with
  | none => cases h
  | some part =>
    dsimp only at h
    split at h
    · cases h
    · obtain ⟨found, hchild, h⟩ := bind_eq_ok.mp h
      cases found with
      | some node => cases h
      | none =>
        cases h
        exact extends_put (child_eq_ok.mp hchild).2

/-- Directories that are made one after the other leave all nodes as they are. -/
theorem extends_makeAllFrom (steps : List Step) (t : Tree) (path : String) :
    t.Extends (t.makeAllFrom path steps).2 := by
  induction steps generalizing t path with
  | nil => exact .refl t
  | cons _ above ih =>
    unfold makeAllFrom
    split
    · exact extends_makeDirectory ‹_›
    · have habove := ih t (Path.ofSteps above.reverse)
      split
      · rename_i hrest
        rwa [hrest] at habove
      · rename_i hrest
        rw [hrest] at habove
        split
        · exact habove.trans (extends_makeDirectory ‹_›)
        · exact habove
    · exact .refl t

theorem keepsFiles_makeAll (t : Tree) (path : String) : t.KeepsFiles (t.makeAll path).2 :=
  (extends_makeAllFrom _ t path).keepsFiles

/-- What is removed as a directory is no file. -/
theorem keepsFiles_removeDirectory (h : t.removeDirectory path = .ok u) : t.KeepsFiles u := by
  unfold removeDirectory at h
  obtain ⟨⟨place, last⟩, -, h⟩ := bind_eq_ok.mp h
  cases last with
  | none => cases h
  | some part =>
    dsimp only at h
    split at h
    · cases h
    split at h
    · cases h
    obtain ⟨found, hchild, h⟩ := bind_eq_ok.mp h
    split at h
    · cases h
    · cases h
    · cases h
    · split at h
      · cases h
        refine ⟨rfl, fun place' id hfile => ?_⟩
        rw [nodeAt_erase, if_neg, hfile]
        rintro rfl
        rw [(child_eq_ok.mp hchild).2] at hfile
        cases hfile
      · cases h

/-! ### Writing -/

theorem extends_withContents (t : Tree) (contents : Assoc Nat ByteArray) :
    t.Extends { t with contents } :=
  ⟨rfl, fun _ _ h => h⟩

theorem aim_of_home (h : u.home = t.home) (path : String) : u.aim path = t.aim path := by
  unfold aim
  rw [h]

end Tree

namespace Handle

variable {h h' : Handle} {t u : Tree} {bytes : ByteArray} {text : String}

/-- What is done at a handle is done to its file: the nodes of the tree stay as they are. -/
theorem kept_put (hput : h.put bytes t = .ok (h', u)) : h'.id = h.id ∧ t.Extends u := by
  unfold put at hput
  split at hput
  · cases hput
    exact ⟨rfl, .refl t⟩
  · split at hput
    · cases hput
    · split at hput <;> cases hput <;> exact ⟨rfl, t.extends_withContents _⟩

theorem kept_flush (hflush : h.flush t = .ok (h', u)) : h'.id = h.id ∧ t.Extends u := by
  unfold flush at hflush
  obtain ⟨⟨h₁, u₁⟩, hput, heq⟩ := Tree.bind_eq_ok.mp hflush
  cases heq
  exact (kept_put hput : h₁.id = h.id ∧ t.Extends u)

theorem kept_makeRoom {size : Nat} (hmade : h.makeRoom size t = .ok (h', u)) :
    h'.id = h.id ∧ t.Extends u := by
  unfold makeRoom at hmade
  split at hmade
  · exact kept_flush hmade
  · cases hmade
    exact ⟨rfl, .refl t⟩

theorem kept_write (hwrite : h.write bytes t = .ok (h', u)) : h'.id = h.id ∧ t.Extends u := by
  unfold write at hwrite
  obtain ⟨⟨h₁, u₁⟩, hmade, hwrite⟩ := Tree.bind_eq_ok.mp hwrite
  have hfirst := kept_makeRoom hmade
  dsimp only at hwrite
  split at hwrite
  · obtain ⟨hid, hextends⟩ := kept_put hwrite
    exact ⟨hid.trans hfirst.1, hfirst.2.trans hextends⟩
  · cases hwrite
    exact hfirst

theorem kept_writeLine (t : Tree) (text : String) (h : Handle) :
    (h.writeLine text t).2.1.id = h.id ∧ t.Extends (h.writeLine text t).2.2 := by
  unfold writeLine
  split
  · exact ⟨rfl, .refl t⟩
  · rename_i hfirst
    have hfirst := kept_write hfirst
    split
    · exact hfirst
    · rename_i hsecond
      have hsecond := kept_write hsecond
      exact ⟨hsecond.1.trans hfirst.1, hfirst.2.trans hsecond.2⟩

end Handle

end CommandScript.Files
