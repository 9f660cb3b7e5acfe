import CommandScript.Proofs.Script.Swapped
import CommandScript.Proofs.Store.Kindred

/-!
# Scripts that differ in the order of two subroutines

A script compiles if and only if the one compiles in which two neighbouring subroutines have changed
places (`Reordered.compiles_iff`). The program of the one is then that of the other with the commands
of the subroutines in other places, and both begin with kindred stores (`Reordered.exists_swapped`).
-/

namespace CommandScript.Script

/-- The scripts are the same but for two neighbouring subroutines, which stand in the other order in the
second one. -/
inductive Reordered (script script' : String) : Prop
  | mk {pre first second post : List String} {x y : String} :
      Text.lines script = pre ++ ((first ++ second) ++ post) →
      Text.lines script' = pre ++ ((second ++ first) ++ post) →
      IsBlock x (linesFrom 1 first) → IsBlock y (linesFrom 1 second) → Reordered script script'

variable {settings : Settings} {script script' : String} {log : Log} {p q : Program}
  {d d' : Declarations} {a a' s t : Assembly} {x y : String} {ls : List Line} {type : ValueType}
  {owner : String} {names : List String}

/-! ### Lines -/

theorem linesFrom_append (n : Nat) (raws raws' : List String) :
    linesFrom n (raws ++ raws') = linesFrom n raws ++ linesFrom (n + raws.length) raws' := by
  induction raws generalizing n with
  | nil => rfl
  | cons raw raws ih =>
    have hnumber : n + 1 + raws.length = n + (raw :: raws).length := by
      rw [List.length_cons]
      omega
    rw [List.cons_append, linesFrom, linesFrom, ih, hnumber]
    split <;> rfl

/-- What the lines say does not depend on where they stand. -/
theorem texts_linesFrom (n m : Nat) (raws : List String) :
    (linesFrom n raws).map (·.text) = (linesFrom m raws).map (·.text) := by
  induction raws generalizing n m with
  | nil => rfl
  | cons raw raws ih =>
    rw [linesFrom, linesFrom]
    split
    · rw [List.map_cons, List.map_cons, ih]
    · exact ih _ _

namespace Reordered

theorem symm (h : Reordered script script') : Reordered script' script := by
  obtain ⟨hscript, hscript', hx, hy⟩ := h
  exact ⟨hscript', hscript, hy, hx⟩

/-- If both walks get through the one script, they get through the other. -/
theorem exchange (h : Reordered script script') (hpass : Passing settings script log d s) :
    ∃ x y e t c, Passing settings script' log e t ∧ Declarations.Level d e ∧ Exchanged c x y s t := by
  obtain @⟨pre, first, second, post, x, y, hscript, hscript', hx, hy⟩ := h
  have hlines : lines script = linesFrom 1 pre ++ ((linesFrom (1 + pre.length) first ++
      linesFrom (1 + pre.length + first.length) second) ++
      linesFrom (1 + pre.length + (first ++ second).length) post) := by
    rw [lines, hscript, linesFrom_append, linesFrom_append, linesFrom_append]
  have hlines' : lines script' = linesFrom 1 pre ++ ((linesFrom (1 + pre.length) second ++
      linesFrom (1 + pre.length + second.length) first) ++
      linesFrom (1 + pre.length + (second ++ first).length) post) := by
    rw [lines, hscript', linesFrom_append, linesFrom_append, linesFrom_append]
  obtain ⟨e, t, c, hpass', hlevel, hexchanged⟩ := hpass.exchange hlines hlines'
    (hx.congr (texts_linesFrom ..)) (hy.congr (texts_linesFrom ..)) (texts_linesFrom ..)
    (texts_linesFrom ..) (texts_linesFrom ..)
  exact ⟨x, y, e, t, c, hpass', hlevel, hexchanged⟩

theorem exists_compile (h : Reordered script script')
    (hp : (compile settings script log).1 = .ok p) : ∃ q, (compile settings script' log).1 = .ok q := by
  obtain ⟨d, s, hpass, -⟩ := exists_passing hp
  obtain ⟨x, y, e, t, c, hpass', -⟩ := h.exchange hpass
  exact hpass'.exists_compile

/-- The order of the subroutines makes no difference to whether a script compiles. -/
theorem compiles_iff (h : Reordered script script') : (∃ p, (compile settings script log).1 = .ok p) ↔
    ∃ q, (compile settings script' log).1 = .ok q := by
  constructor
  · rintro ⟨p, hp⟩
    exact h.exists_compile hp
  · rintro ⟨q, hq⟩
    exact h.symm.exists_compile hq

end Reordered

/-! ### Variables and cells -/

theorem cells_of_declared (h : Gives (Declarations.allocateAll type owner names) d () d') :
    d'.memory.store.cells = d.memory.store.cells := by
  induction names generalizing d with
  | nil =>
    simp only [Declarations.allocateAll, gives_pure] at h
    rw [h.2]
  | cons name names ih =>
    simp only [Declarations.allocateAll, gives_bind, gives_get, gives_lift, gives_modify] at h
    obtain ⟨_, _, ⟨rfl, rfl⟩, m, _, ⟨hm, rfl⟩, _, _, rfl, h⟩ := h
    obtain ⟨-, hstore⟩ := allocate_global_ok (memory_allocate_ok hm)
    rw [ih h, hstore]

theorem cells_of_allocateAll (h : Gives (Assembly.allocateAll type names) a () a') :
    a'.memory.store.cells = a.memory.store.cells := by
  induction names generalizing a with
  | nil =>
    simp only [Assembly.allocateAll, gives_pure] at h
    rw [h.2]
  | cons name names ih =>
    simp only [Assembly.allocateAll, gives_bind, gives_get, gives_ite, gives_throw, gives_lift,
      gives_set, false_and, exists_false, and_false, false_or] at h
    obtain ⟨_, _, ⟨rfl, rfl⟩, -, m, _, ⟨hm, rfl⟩, _, _, rfl, h⟩ := h
    obtain ⟨-, -, -, hstore⟩ := allocate_owned_ok (memory_allocate_ok hm)
    rw [ih h, hstore]

theorem Declarations.Walks.cells_eq (h : Declarations.Walks d ls d') :
    d'.memory.store.cells = d.memory.store.cells := by
  induction h with
  | nil => rfl
  | cons ht _ ih =>
    rw [ih]
    cases ht with
    | inside _ h => rw [h.store]
    | silent => rfl
    | statement _ _ h =>
      cases h with
      | allocate _ hg => exact cells_of_declared hg
      | _ => rfl

theorem cells_of_change {k : Keyword} {rest : String} {r : Option Command}
    (h : Assembly.Change a k rest r a') : a'.memory.store.cells = a.memory.store.cells := by
  cases h with
  | @allocate _ scope _ _ _ _ hg hm =>
    cases scope with
    | global => rw [hm rfl]
    | owned => exact cells_of_allocateAll (hg rfl)
  | _ => rfl

theorem cells_of_walks (h : Assembly.Walks a ls a') :
    a'.memory.store.cells = a.memory.store.cells := by
  induction h with
  | nil => rfl
  | cons ht _ ih =>
    rw [ih]
    cases ht with
    | silent h =>
      cases h with
      | inside => rfl
      | statement _ _ h => exact cells_of_change h
    | command h =>
      cases h with
      | options => rfl
      | statement _ _ h =>
        have hcells := cells_of_change h
        exact hcells

/-- Compiling draws no number and leaves no result. -/
theorem cells_of_compile (hp : (compile settings script log).1 = .ok p) :
    p.store.cells = Cells.ofModulus settings.randomMax := by
  obtain ⟨d, a, h⟩ := exists_compiles hp
  obtain ⟨m, found, hm, hw⟩ := h.walks
  rw [h.tables_eq.2, cells_of_walks hw, hm, h.declares.cells_eq]
  rfl

/-- The programs of two such scripts begin with kindred stores. -/
theorem Exchanged.kindred {c : Cut} (h : Exchanged c x y s t)
    (hp : (compile settings script log).1 = .ok p) (hq : (compile settings script' log).1 = .ok q)
    (hs : p.store = s.memory.store) (ht : q.store = t.memory.store) : p.store.Kindred q.store := by
  have hagree := walksAgree_of_compile hp
  refine ⟨fun name => ?_, fun key => ?_, (cells_of_compile hp).trans (cells_of_compile hq).symm⟩
  · have hsame : q.store.globals.get? name = p.store.globals.get? name := by
      rw [hs, ht, h.mirror.globals]
    rw [hsame]
    cases hv : p.store.globals.get? name with
    | none => exact .none
    | some v =>
      obtain ⟨k, type, owner, -, rfl⟩ := (hagree.globals name v).mp hv
      exact .some ⟨rfl, .none⟩
  · obtain ⟨owner, name⟩ := key
    have hsame : q.store.locals.get? (owner, name) = p.store.locals.get? (owner, name) := by
      rw [hs, ht, h.mirror.locals_eq trivial]
    rw [hsame]
    cases hv : p.store.locals.get? (owner, name) with
    | none => exact .none
    | some v =>
      obtain ⟨k, type, -, rfl⟩ := (hagree.locals owner name v).mp hv
      exact .some ⟨rfl, .none⟩

theorem Passing.coherent (h : Passing settings script log d s) : s.Coherent :=
  (Assembly.Coherent.start h.fresh).walks (Assembly.walks_of_passesOver h.collecting h.assembles)

/-- The programs of the scripts are the same but for the places of the subroutines. -/
theorem Reordered.exists_swapped (h : Reordered script script')
    (hp : (compile settings script log).1 = .ok p) (hq : (compile settings script' log).1 = .ok q) :
    ∃ c x y, Program.Swapped c x y p q ∧ p.store.Kindred q.store ∧ q.startup = p.startup := by
  obtain ⟨d, s, hpass, s', hf, hs⟩ := exists_passing hp
  obtain ⟨d', t, hpass', t', hf', ht⟩ := exists_passing hq
  obtain ⟨x, y, e, u, c, hpassing, hlevel, hexchanged⟩ := h.exchange hpass
  obtain rfl := hpass'.declares.unique hpassing.declares
  obtain rfl := hpass'.assembles.unique hpassing.assembles
  have hkindred := hexchanged.kindred hp hq (hs ▸ hf.store) (ht ▸ hf'.store)
  subst hs ht
  exact ⟨c, x, y, hexchanged.swapped hpass.coherent hpass'.coherent hf hf' d d', hkindred,
    hlevel.startup⟩

end CommandScript.Script
