import CommandScript.Files.Tree
import CommandScript.Proofs.Text.Lines

/-!
# Where paths lead

Each step of a path moves to another place whatever the tree holds (`Tree.aim`); the tree decides only
whether the path leads there (`locate_eq_ok`). So a path whose steps are those of another one never leads
elsewhere, and two paths that part and then only go down lead to different places (`same_of_aim`). The
steps of a joined path are those of the base and then those of the path (`steps_join`), so paths without
`..` that are joined to one base only go down from it.
-/

namespace CommandScript.Files

/-- The place that a step leads to. -/
def Step.lead (place : Place) : Step → Place
  | .root => []
  | .here => place
  | .up => place.tail
  | .down name => name :: place

section Steps

variable {place next : Place} {part : String}

theorem lead_stepOf (place : Place) (part : String) : Step.lead place (Path.stepOf part) =
    if part = "." then place else if part = ".." then place.tail else part :: place := by
  unfold Path.stepOf
  split
  · rfl
  split <;> rfl

/-- Points inside a path lead nowhere else. -/
theorem foldl_lead_filter (steps : List Step) (place : Place) :
    (steps.filter (· ≠ .here)).foldl Step.lead place = steps.foldl Step.lead place := by
  induction steps generalizing place with
  | nil => rfl
  | cons s steps ih =>
    cases s with
    | here => exact ih place
    | root | up | down => exact ih _

/-- Names are put in front of the place they are looked up in. -/
theorem foldl_lead_down (names : List String) (place : Place) :
    (names.map Step.down).foldl Step.lead place = names.reverse ++ place := by
  induction names generalizing place with
  | nil => rfl
  | cons name names ih =>
    rw [List.map_cons, List.foldl_cons, ih, List.reverse_cons, List.append_assoc]
    rfl

end Steps

namespace Path

variable {p q : String}

/-- Two paths take the same steps up to where they part, and from there on both only go down. -/
def PartsDown (p q : String) : Prop :=
  ∃ (steps : List Step) (left right : List String), Path.steps p = steps ++ left.map Step.down ∧
    Path.steps q = steps ++ right.map Step.down

theorem same_iff : same p q = true ↔ steps p = steps q :=
  beq_iff_eq

end Path

namespace Tree

variable {t u : Tree} {path : String} {place next : Place} {node : Node} {part : String}

/-- The place at the end of a path, if the path leads anywhere. -/
def aim (t : Tree) (path : String) : Place :=
  (Path.steps path).foldl Step.lead t.home

theorem aim_eq (t : Tree) (path : String) :
    t.aim path = ((Path.parts path).map Path.stepOf).foldl Step.lead (t.start path) := by
  unfold aim Path.steps start
  dsimp only
  split
  · exact foldl_lead_filter _ _
  · cases (Path.parts path).map Path.stepOf with
    | nil => rfl
    | cons first rest => exact foldl_lead_filter _ _

/-- Paths that part downwards and lead to one place are the same. -/
theorem same_of_aim {p q : String} (h : Path.PartsDown p q) (haim : t.aim p = t.aim q) :
    Path.same p q = true := by
  obtain ⟨steps, left, right, hp, hq⟩ := h
  unfold aim at haim
  rw [hp, hq, List.foldl_append, List.foldl_append, foldl_lead_down, foldl_lead_down] at haim
  have hnames : left = right := List.reverse_inj.mp (List.append_cancel_right haim)
  rw [Path.same_iff, hp, hq, hnames]

/-! ### Following a path in the tree -/

theorem bind_eq_ok {α β : Type} {x : Except Refusal α} {f : α → Except Refusal β} {b : β} :
    x >>= f = .ok b ↔ ∃ a, x = .ok a ∧ f a = .ok b := by
  cases x with
  | error r => simp [bind, Except.bind]
  | ok a => simp [bind, Except.bind]

theorem child_eq_ok {found : Option Node} : t.child place part = .ok found ↔
    isLongName part = false ∧ t.nodeAt (part :: place) = found := by
  unfold child
  cases isLongName part <;> simp

/-- A part is entered from a directory, and a name only if there is a node with it. -/
theorem enter_eq_ok : t.enter place part = .ok next ↔
    t.nodeAt place = some .directory ∧ next = Step.lead place (Path.stepOf part) ∧
      (isNamePart part = true → isLongName part = false ∧ ∃ node, t.nodeAt (part :: place) = some node) := by
  unfold enter isNamePart
  rw [lead_stepOf]
  cases t.nodeAt place with
  | none => simp
  | some node =>
    cases node with
    | file id | device id => simp
    | directory =>
      by_cases hhere : part = "."
      · subst hhere
        simp [eq_comm (a := next)]
      by_cases hup : part = ".."
      · subst hup
        simp [eq_comm (a := next)]
      unfold child
      cases isLongName part <;> cases t.nodeAt (part :: place) <;>
        simp [hhere, hup, eq_comm (a := next)]

theorem aim_of_foldlM {parts : List String} (h : parts.foldlM t.enter place = .ok next) :
    next = (parts.map Path.stepOf).foldl Step.lead place := by
  induction parts generalizing place with
  | nil =>
    cases h
    rfl
  | cons part parts ih =>
    rw [List.foldlM_cons] at h
    obtain ⟨between, henter, hrest⟩ := bind_eq_ok.mp h
    obtain ⟨-, rfl, -⟩ := enter_eq_ok.mp henter
    exact ih hrest

theorem locate_eq_ok : t.locate path = .ok (place, node) ↔
    checkPath path = .ok () ∧ (Path.parts path).foldlM t.enter (t.start path) = .ok place ∧
      t.nodeAt place = some node ∧ (node ≠ .directory → endsWithSlash path = false) := by
  unfold locate
  simp only [bind_eq_ok]
  constructor
  · rintro ⟨⟨⟩, hcheck, found, hfound, hnode⟩
    split at hnode
    · cases hnode
    · rename_i hdirectory
      cases hnode
      exact ⟨hcheck, hfound, hdirectory, fun hne => (hne rfl).elim⟩
    · rename_i other _ hother
      split at hnode
      · cases hnode
      · rename_i hslash
        cases hnode
        exact ⟨hcheck, hfound, hother, fun _ => Bool.eq_false_iff.mpr hslash⟩
  · rintro ⟨hcheck, hfound, hnode, hslash⟩
    refine ⟨(), hcheck, place, hfound, ?_⟩
    rw [hnode]
    cases node with
    | directory => rfl
    | file id | device id =>
      dsimp only
      rw [hslash nofun]
      rfl

theorem isFile_iff : t.isFile path = true ↔ ∃ place id, t.locate path = .ok (place, .file id) := by
  unfold isFile
  split
  · exact ⟨fun _ => ⟨_, _, ‹_›⟩, fun _ => rfl⟩
  · rename_i hother
    exact ⟨nofun, fun ⟨place, id, h⟩ => (hother place id h).elim⟩

/-- A path leads to where it aims, if it leads anywhere. -/
theorem aim_of_locate (h : t.locate path = .ok (place, node)) : place = t.aim path := by
  obtain ⟨-, hfound, -, -⟩ := locate_eq_ok.mp h
  rw [aim_eq]
  exact aim_of_foldlM hfound

theorem nodeAt_of_locate (h : t.locate path = .ok (place, node)) : t.nodeAt place = some node :=
  (locate_eq_ok.mp h).2.2.1

/-- The path has a last part, and what is before it leads to a directory. -/
theorem locateParent_eq_ok : t.locateParent path = .ok (place, some part) ↔
    checkPath path = .ok () ∧ t.nodeAt place = some .directory ∧
      ∃ before, Path.parts path = before ++ [part] ∧
        before.foldlM t.enter (t.start path) = .ok place := by
  unfold locateParent
  simp only [bind_eq_ok]
  constructor
  · rintro ⟨⟨⟩, hcheck, hparent⟩
    split at hparent
    · cases hparent
    · rename_i last before hparts
      obtain ⟨found, hfound, hnode⟩ := bind_eq_ok.mp hparent
      split at hnode
      · rename_i hdirectory
        cases hnode
        refine ⟨hcheck, hdirectory, before.reverse, ?_, hfound⟩
        rw [← List.reverse_cons, ← hparts, List.reverse_reverse]
      all_goals cases hnode
  · rintro ⟨hcheck, hdirectory, before, hparts, hfound⟩
    refine ⟨(), hcheck, ?_⟩
    rw [hparts, List.reverse_append, List.reverse_singleton, List.singleton_append]
    refine bind_eq_ok.mpr ⟨place, ?_, ?_⟩
    · rwa [List.reverse_reverse]
    · rw [hdirectory]
      rfl

/-- A path whose last part is the name of a node in the directory before it leads to this node. -/
theorem locate_of_parent (h : t.locateParent path = .ok (place, some part)) (hname : isNamePart part = true)
    (hchild : t.child place part = .ok (some node))
    (hslash : node ≠ .directory → endsWithSlash path = false) :
    t.locate path = .ok (part :: place, node) := by
  obtain ⟨hcheck, hdirectory, before, hparts, hfound⟩ := locateParent_eq_ok.mp h
  obtain ⟨hshort, hnode⟩ := child_eq_ok.mp hchild
  refine locate_eq_ok.mpr ⟨hcheck, ?_, hnode, hslash⟩
  rw [hparts, List.foldlM_append]
  refine bind_eq_ok.mpr ⟨place, hfound, ?_⟩
  rw [List.foldlM_cons]
  refine bind_eq_ok.mpr ⟨part :: place, enter_eq_ok.mpr ⟨hdirectory, ?_, fun _ => ⟨hshort, node, hnode⟩⟩, rfl⟩
  simp only [isNamePart, Bool.and_eq_true, decide_eq_true_eq] at hname
  rw [lead_stepOf, if_neg hname.1, if_neg hname.2]

/-- Whatever is in the one tree is in the other. -/
structure Extends (t u : Tree) : Prop where
  home : u.home = t.home
  node : ∀ place node, t.nodeAt place = some node → u.nodeAt place = some node

theorem Extends.enter (h : t.Extends u) (henter : t.enter place part = .ok next) :
    u.enter place part = .ok next := by
  obtain ⟨hdirectory, hnext, hname⟩ := enter_eq_ok.mp henter
  refine enter_eq_ok.mpr ⟨h.node _ _ hdirectory, hnext, fun hpart => ?_⟩
  obtain ⟨hshort, node, hnode⟩ := hname hpart
  exact ⟨hshort, node, h.node _ _ hnode⟩

theorem Extends.foldlM {parts : List String} (h : t.Extends u)
    (hparts : parts.foldlM t.enter place = .ok next) : parts.foldlM u.enter place = .ok next := by
  induction parts generalizing place with
  | nil => exact hparts
  | cons part parts ih =>
    rw [List.foldlM_cons] at hparts ⊢
    obtain ⟨between, henter, hrest⟩ := bind_eq_ok.mp hparts
    exact bind_eq_ok.mpr ⟨between, h.enter henter, ih hrest⟩

theorem Extends.start (h : t.Extends u) (path : String) : u.start path = t.start path := by
  unfold Tree.start
  rw [h.home]

theorem Extends.locate (h : t.Extends u) (hlocate : t.locate path = .ok (place, node)) :
    u.locate path = .ok (place, node) := by
  obtain ⟨hcheck, hfound, hnode, hslash⟩ := locate_eq_ok.mp hlocate
  refine locate_eq_ok.mpr ⟨hcheck, ?_, h.node _ _ hnode, hslash⟩
  rw [h.start]
  exact h.foldlM hfound

theorem Extends.locateParent (h : t.Extends u) (hparent : t.locateParent path = .ok (place, some part)) :
    u.locateParent path = .ok (place, some part) := by
  obtain ⟨hcheck, hdirectory, before, hparts, hfound⟩ := locateParent_eq_ok.mp hparent
  refine locateParent_eq_ok.mpr ⟨hcheck, h.node _ _ hdirectory, before, hparts, ?_⟩
  rw [h.start]
  exact h.foldlM hfound

end Tree

/-! ### How joined paths are spelled -/

namespace Path

variable {base path p q : String} {first : List Step}

theorem parts_eq (path : String) :
    parts path = ((Text.splitAtMark '/' path.toList).filter fun p => !p.isEmpty).map String.ofList :=
  rfl

theorem join_of_relative (base : String) (h : isAbsolute path = false) : join base path =
    if base.isEmpty || base.toList.getLast? == some '/' then base ++ path else base ++ "/" ++ path := by
  rw [join, if_neg (Bool.eq_false_iff.mp h)]

/-- A relative path adds its own parts to those of the base. -/
theorem parts_join (h : isAbsolute path = false) : parts (join base path) = parts base ++ parts path := by
  rw [join_of_relative base h]
  split
  · rename_i hend
    obtain hempty | hslash := Bool.or_eq_true _ _ |>.mp hend
    · rw [String.isEmpty_iff.mp hempty, String.empty_append]
      rfl
    · obtain ⟨u, hu⟩ := List.getLast?_eq_some_iff.mp (beq_iff_eq.mp hslash)
      simp only [parts_eq, String.toList_append, hu, List.append_assoc, List.singleton_append,
        Text.splitAtMark_append_mark, List.filter_append, List.map_append]
      simp [Text.splitAtMark]
  · simp only [parts_eq, String.toList_append, List.append_assoc]
    rw [show "/".toList = ['/'] from rfl, List.singleton_append, Text.splitAtMark_append_mark,
      List.filter_append, List.map_append]

theorem isAbsolute_join (hbase : base ≠ "") (h : isAbsolute path = false) :
    isAbsolute (join base path) = isAbsolute base := by
  obtain ⟨c, rest, hcs⟩ := List.exists_cons_of_ne_nil (mt String.toList_eq_nil_iff.mp hbase)
  rw [join_of_relative base h]
  unfold isAbsolute
  split <;> simp [String.toList_append, hcs]

theorem join_ne_empty (hbase : base ≠ "") (h : isAbsolute path = false) : join base path ≠ "" := by
  rw [join_of_relative base h]
  split <;> simp [hbase]

/-- A relative path that is not empty begins with a part. -/
theorem parts_ne_nil (hbase : base ≠ "") (h : isAbsolute base = false) : parts base ≠ [] := by
  obtain ⟨c, rest, hcs⟩ := List.exists_cons_of_ne_nil (mt String.toList_eq_nil_iff.mp hbase)
  have hc : c ≠ '/' := by
    rintro rfl
    simp [isAbsolute, hcs] at h
  rw [parts_eq, hcs, Text.splitAtMark, if_neg hc]
  split <;> simp

/-- The steps of a path are behind those of its base, but for the points in it. -/
theorem steps_join (hbase : base ≠ "") (h : isAbsolute path = false) :
    steps (join base path) = steps base ++ ((parts path).map stepOf).filter (· ≠ .here) := by
  unfold steps
  rw [isAbsolute_join hbase h, parts_join h, List.map_append]
  dsimp only
  split
  · rw [List.filter_append, List.cons_append]
  · rename_i hrelative
    obtain ⟨part, more, hparts⟩ := List.exists_cons_of_ne_nil
      (parts_ne_nil hbase (Bool.eq_false_iff.mpr hrelative))
    rw [hparts, List.map_cons, List.cons_append]
    dsimp only
    rw [List.filter_append, List.cons_append]

/-! ### Paths that go down -/

/-- Behind the first steps a path only goes down. -/
def DescendsFrom (first : List Step) (path : String) : Prop :=
  ∃ names : List String, steps path = first ++ names.map Step.down

theorem filter_stepOf (h : ".." ∉ parts path) :
    ∃ names : List String, ((parts path).map stepOf).filter (· ≠ .here) = names.map Step.down := by
  generalize parts path = all at h
  induction all with
  | nil => exact ⟨[], rfl⟩
  | cons part all ih =>
    rw [List.mem_cons, not_or] at h
    obtain ⟨names, hnames⟩ := ih h.2
    by_cases hhere : part = "."
    · exact ⟨names, by rw [List.map_cons, stepOf, if_pos hhere, List.filter_cons_of_neg (by simp), hnames]⟩
    · refine ⟨part :: names, ?_⟩
      rw [List.map_cons, stepOf, if_neg hhere, if_neg (Ne.symm h.1), List.filter_cons_of_pos (by simp),
        hnames, List.map_cons]

theorem descendsFrom_self (path : String) : DescendsFrom (steps path) path :=
  ⟨[], by rw [List.map_nil, List.append_nil]⟩

theorem descendsFrom_of_isAbsolute (h : isAbsolute path = true) (hup : ".." ∉ parts path) :
    DescendsFrom [.root] path := by
  obtain ⟨names, hnames⟩ := filter_stepOf hup
  exact ⟨names, by unfold steps; rw [if_pos h, hnames]; rfl⟩

theorem DescendsFrom.join (hbase : DescendsFrom first base) (hne : base ≠ "")
    (h : isAbsolute path = false) (hup : ".." ∉ parts path) : DescendsFrom first (join base path) := by
  obtain ⟨above, habove⟩ := hbase
  obtain ⟨names, hnames⟩ := filter_stepOf hup
  exact ⟨above ++ names, by rw [steps_join hne h, habove, hnames, List.append_assoc, List.map_append]⟩

theorem DescendsFrom.partsDown (hp : DescendsFrom first p) (hq : DescendsFrom first q) : PartsDown p q := by
  obtain ⟨left, hleft⟩ := hp
  obtain ⟨right, hright⟩ := hq
  exact ⟨first, left, right, hleft, hright⟩

end Path

end CommandScript.Files
