import CommandScript.Proofs.Engine.Iteration
import CommandScript.Proofs.Engine.Steering

/-!
# How often a loop goes through its body

While start, end and step of a loop keep their values `s`, `t` and `k`, the loop variable is `s + i * k`
in the `i`-th pass, and a pass follows as long as that number lies in the range and passes the test
(`Goes`). There is a first `i` where it does not, since a step other than zero leaves the range at last;
so a loop whose passes end comes to its end itself (`counts_of_reachable`). That they do is not for the
loop to say: a body may call a subroutine that calls itself for ever (`endless_of_delving`).
-/

namespace CommandScript.Engine

/-- The number is a signed 64-bit one. -/
def InRange (n : Int) : Prop :=
  Int64.minValue.toInt ≤ n ∧ n ≤ Int64.maxValue.toInt

instance (n : Int) : Decidable (InRange n) := inferInstanceAs (Decidable (_ ∧ _))

/-- The loop variable after `i` steps of `k` from `s`. -/
def valueAt (s k : Int64) (i : Nat) : Int :=
  s.toInt + i * k.toInt

/-- After `i` steps the loop goes on. -/
def Goes (test : Relation) (s t k : Int64) (i : Nat) : Prop :=
  InRange (valueAt s k i) ∧ test.Between (valueAt s k i) t.toInt

instance (test : Relation) (s t k : Int64) (i : Nat) : Decidable (Goes test s t k i) :=
  inferInstanceAs (Decidable (_ ∧ _))

/-- The engine stands behind the `ENDFOR` of the loop, which is not in progress. -/
structure IsBehind (depth : Nat) (id : LoopId) (z : Engine) : Prop where
  depth_eq : z.depth = depth
  left : ∀ v, ¬z.HoldsLoop depth id v
  next_eq : ∃ (j : Nat) (ending : Entry), z.program.commands[j]? = some ending ∧
    ending.command = .endFor id ∧ z.next = j + 1

/-! ### Values of a loop variable -/

section Values

variable {s k : Int64} {i : Nat}

theorem valueAt_zero : valueAt s k 0 = s.toInt := by
  simp [valueAt]

theorem valueAt_succ : valueAt s k (i + 1) = valueAt s k i + k.toInt := by
  simp only [valueAt, Int.natCast_add, Int.add_mul]
  omega

theorem exists_int64 {n : Int} (h : InRange n) : ∃ v : Int64, v.toInt = n :=
  ⟨Int64.ofInt n, int64?_eq_some.mp (if_pos h)⟩

theorem int64?_eq_none {n : Int} (h : ¬InRange n) : int64? n = none :=
  if_neg h

/-- Steps other than zero leave the range. -/
theorem exists_not_inRange (hzero : k ≠ 0) : ∃ i, 1 ≤ i ∧ ¬InRange (valueAt s k i) := by
  have hk : k.toInt ≠ 0 := fun h => hzero (Int64.toInt_inj.mp h)
  have hmin := s.minValue_le_toInt
  have hmax := s.toInt_le
  refine ⟨2 ^ 64, by decide, ?_⟩
  rw [InRange, valueAt]
  rw [Int64.toInt_minValue] at hmin ⊢
  rw [Int64.toInt_maxValue] at hmax ⊢
  omega

/-- What fails somewhere behind zero fails there for a first time. -/
theorem exists_first {P : Nat → Prop} {i : Nat} (hi : 1 ≤ i) (h : ¬P i) :
    ∃ n, 1 ≤ n ∧ ¬P n ∧ ∀ j, 1 ≤ j → j < n → P j := by
  induction i using Nat.strongRecOn with
  | ind i ih =>
    by_cases hbefore : ∃ j, (1 ≤ j ∧ j < i) ∧ ¬P j
    · obtain ⟨j, ⟨hj, hlt⟩, hnot⟩ := hbefore
      exact ih j hlt hj hnot
    · refine ⟨i, hi, h, fun j hj hlt => Classical.byContradiction fun hnot => ?_⟩
      exact hbefore ⟨j, ⟨hj, hlt⟩, hnot⟩

end Values

/-! ### The loop variable -/

section Names

variable {p : Program} {z : Engine} {id id' : LoopId} {k : Nat} {v : Int64}

/-- Loops around one place are told apart by their names. -/
theorem eq_of_name (hn : p.IsNested) (hid : id ∈ loopsOf (p.around k))
    (hid' : id' ∈ loopsOf (p.around k)) (hname : id.name = id'.name) : id = id' := by
  have name_ne {id id' : LoopId} (hid : id ∈ loopsOf (p.around k))
      (hid' : id' ∈ loopsOf (p.around k)) (hlt : id.index < id'.index) : id.name ≠ id'.name := by
    obtain ⟨l, j, hl, hj, -, hle⟩ := hn.surrounds_iff.mpr (mem_loopsOf.mp hid)
    obtain ⟨hbefore, hopens⟩ := hn.nested.opens_of_mem (mem_loopsOf.mp hid')
    obtain ⟨entry, hentry, hfor⟩ := Nested.command_of_opens_loop hopens
    have hbefore : id'.index < k := hbefore
    have hfits := hn.nested.fits hentry
    rw [Entry.Fits, hfor] at hfits
    refine hfits.2 id (mem_loopsOf.mpr (hn.surrounds_iff.mp ⟨l, j, hl, hj, hlt, ?_⟩))
    omega
  rcases Nat.lt_trichotomy id.index id'.index with hlt | heq | hlt
  · exact absurd hname (name_ne hid hid' hlt)
  · obtain ⟨-, entry, hentry, hopen⟩ := hn.nested.opens_of_mem (mem_loopsOf.mp hid)
    have hopens' := (hn.nested.opens_of_mem (mem_loopsOf.mp hid')).2
    exact Opening.loop.inj (Nested.eq_of_opens hentry hopen hopens' heq.symm)
  · exact absurd hname.symm (name_ne hid' hid hlt)

/-- In the subroutine that a loop runs in, its name stands for its variable. -/
theorem HoldsLoop.loopValue? (h : Sound p z) (hn : p.IsNested) (hv : z.HoldsLoop z.depth id v) :
    z.viewpoint.loopValue? id.name = some v := by
  cases hfind : z.loops.find? fun l => l.depth == z.depth && l.id.name == id.name with
  | none =>
    have hnot := List.find?_eq_none.mp hfind _ hv
    simp at hnot
  | some l =>
    have hl := List.mem_of_find?_eq_some hfind
    have hfound := List.find?_some hfind
    simp only [Bool.and_eq_true, beq_iff_eq] at hfound
    obtain ⟨depth, other, w⟩ := l
    obtain ⟨rfl, hname⟩ := hfound
    obtain rfl := eq_of_name hn (HoldsLoop.mem_around h hl) (hv.mem_around h) hname
    have hw : w = v := HoldsLoop.unique h hn hl hv
    rw [Viewpoint.loopValue?, show z.viewpoint.loops = z.loops from rfl,
      show z.viewpoint.depth = z.depth from rfl, hfind, hw]
    rfl

end Names

/-- A loop has an `ENDFOR` behind its `FOR`. -/
theorem exists_exitIndex {p : Program} {loop : Loop} (hn : p.IsNested)
    (hloop : p.loops.loop loop.id = .ok loop) :
    ∃ (j : Nat) (ending : Entry), loop.exitIndex = .ok (j + 1) ∧ loop.id.index < j ∧
      p.commands[j]? = some ending ∧ ending.command = .endFor loop.id := by
  have hget := LoopTable.loop_ok.mp hloop
  have hopens := (hn.loops.opens loop.id).mp (by rw [hget]; rfl)
  obtain ⟨j, hclose⟩ := hn.exists_closes hopens
  obtain ⟨ending, hending, hc⟩ := hn.nested.command_of_closes_loop hclose
  refine ⟨j, ending, ?_, (hn.nested.index_lt_of_closes hclose).1, p.getElem?_entries j ▸ hending, hc⟩
  rw [Loop.exitIndex, (hn.endIndex_loop hget).mpr hclose]

/-! ### Pass by pass -/

/-- The `FOR` of a loop comes next, and the loop keeps its values. -/
structure AtFor (p : Program) (e : Engine) (loop : Loop) (s t k : Int64) : Prop where
  nested : p.IsNested
  reachable : Reachable p e
  going : e.finished = false
  command : ∃ entry : Entry, p.commands[e.next]? = some entry ∧ entry.command = .for_ loop.id
  table : p.loops.loop loop.id = .ok loop
  keeps : e.Keeps loop s t k

namespace AtFor

variable {p : Program} {e x y y' z : Engine} {loop : Loop} {s t k v : Int64} {i : Nat}

theorem index_eq (h : AtFor p e loop s t k) : loop.id.index = e.next := by
  obtain ⟨entry, hentry, hfor⟩ := h.command
  exact h.nested.nested.opening_index (x := .loop loop.id) (p.getElem?_entries e.next ▸ hentry)
    (by rw [Entry.opening?, hfor])

theorem enters (h : AtFor p e loop s t k) (htest : loop.test.Between s.toInt t.toInt) :
    ∃ x, e.step = (.ok (), x) ∧ x.next = loop.bodyIndex ∧ x.HoldsLoop e.depth loop.id s := by
  obtain ⟨entry, hentry, hfor⟩ := h.command
  obtain ⟨x, hstep, hflow⟩ := step_for_enters (h.reachable.sound h.nested) h.nested h.going hentry
    hfor h.table h.keeps htest
  have hloops : x.loops = ⟨e.depth, loop.id, s⟩ :: e.loops := congrArg Flow.loops hflow
  refine ⟨x, hstep, ?_, ?_⟩
  · rw [Loop.bodyIndex, h.index_eq]
    exact congrArg Flow.next hflow
  · rw [HoldsLoop, hloops]
    exact List.mem_cons_self

/-- A loop whose test fails at once is passed over. -/
theorem passes (h : AtFor p e loop s t k) (htest : ¬loop.test.Between s.toInt t.toInt) :
    ∃ x, e.step = (.ok (), x) ∧ x.next ≠ loop.bodyIndex ∧ IsBehind e.depth loop.id x := by
  obtain ⟨entry, hentry, hfor⟩ := h.command
  obtain ⟨j, ending, hexit, hlt, hending, hc⟩ := exists_exitIndex h.nested h.table
  have hsound := h.reachable.sound h.nested
  obtain ⟨x, hstep, hflow⟩ := step_for_passes hsound h.nested h.going hentry hfor h.table h.keeps
    htest hexit
  have hnext : x.next = j + 1 := congrArg Flow.next hflow
  have hprogram : x.program = e.program := congrArg Flow.program hflow
  refine ⟨x, hstep, ?_, congrArg Flow.depth hflow, fun v hv => ?_,
    j, ending, ?_, hc, hnext⟩
  · rw [hnext, Loop.bodyIndex]
    omega
  · have hloops : x.loops = e.loops := congrArg Flow.loops hflow
    rw [HoldsLoop, hloops] at hv
    have hmem := HoldsLoop.mem_around hsound hv
    rw [← h.index_eq] at hmem
    exact h.nested.nested.not_mem_around_index (mem_loopsOf.mp hmem)
  · rw [hprogram, hsound.program]
    exact hending

/-- The loop variable where the body is entered for the first time. -/
theorem of_iterates_zero (h : AtFor p e loop s t k) (hx : Iterates e loop 0 v x) :
    Reachable p x ∧ x.HoldsLoop e.depth loop.id v ∧ v = s ∧ loop.test.Between s.toInt t.toInt := by
  cases hx with
  | first hstep hnext hv =>
    have hx := h.reachable.step hstep
    by_cases htest : loop.test.Between s.toInt t.toInt
    · obtain ⟨x', hstep', -, hs⟩ := h.enters htest
      rw [hstep] at hstep'
      cases hstep'
      exact ⟨hx, hv, hv.unique (hx.sound h.nested) h.nested hs, htest⟩
    · obtain ⟨x', hstep', hne, -⟩ := h.passes htest
      rw [hstep] at hstep'
      cases hstep'
      exact absurd hnext hne

/-! ### From one pass to the next -/

section Next

variable (h : AtFor p e loop s t k) (hi : Iterates e loop i v x) (hx : Reachable p x)
  (hv : x.HoldsLoop e.depth loop.id v) (hvalue : v.toInt = valueAt s k i)
  (hy : PassEnds e.depth loop.id x y y')

include h hi hx hv hy

theorem ends_zero (hzero : k = 0) :
    ∃ g z, y.step = (.error g, z) ∧ g.kind = .runtime ∧ z.state = .stopped := by
  subst hzero
  exact hy.zero ((hy.inPass.reachable hx).sound h.nested) h.nested h.table
    (hy.inPass.holds hx h.nested hv) (h.keeps.step i v x y y' hi hy)

include hvalue

theorem ends_overflows (hzero : k ≠ 0) (hrange : ¬InRange (valueAt s k (i + 1))) :
    ∃ g z, y.step = (.error g, z) ∧ g.kind = .range ∧ z.state = .stopped := by
  refine hy.overflows ((hy.inPass.reachable hx).sound h.nested) h.nested h.table
    (hy.inPass.holds hx h.nested hv) (h.keeps.step i v x y y' hi hy) hzero ?_
  rw [hvalue, ← valueAt_succ]
  exact int64?_eq_none hrange

theorem ends_again (hzero : k ≠ 0) (hgoes : Goes loop.test s t k (i + 1)) :
    ∃ v' z, v'.toInt = valueAt s k (i + 1) ∧ y.step = (.ok (), z) ∧ z.next = loop.bodyIndex ∧
      z.HoldsLoop e.depth loop.id v' := by
  obtain ⟨v', hv'⟩ := exists_int64 hgoes.1
  have hnext : v'.toInt = v.toInt + k.toInt := by rw [hv', valueAt_succ, hvalue]
  obtain ⟨y₁, hstep⟩ := h.keeps.step i v x y y' hi hy
  have hstop := h.keeps.stopAgain i v x y y' y₁ v' hi hy hstep hnext
  obtain ⟨z, hz, hflow⟩ := hy.again ((hy.inPass.reachable hx).sound h.nested) h.nested h.table
    (hy.inPass.holds hx h.nested hv) hstep hzero hnext hstop (hv' ▸ hgoes.2)
  have hloops : z.loops = ⟨y.depth, loop.id, v'⟩ :: y.loops.tail := congrArg Flow.loops hflow
  refine ⟨v', z, hv', hz, congrArg Flow.next hflow, ?_⟩
  rw [HoldsLoop, hloops, hy.depth_eq]
  exact List.mem_cons_self

theorem ends_leaves (hzero : k ≠ 0) (hrange : InRange (valueAt s k (i + 1)))
    (htest : ¬loop.test.Between (valueAt s k (i + 1)) t.toInt) :
    ∃ z, y.step = (.ok (), z) ∧ z.next ≠ loop.bodyIndex ∧ IsBehind e.depth loop.id z := by
  obtain ⟨v', hv'⟩ := exists_int64 hrange
  have hnext : v'.toInt = v.toInt + k.toInt := by rw [hv', valueAt_succ, hvalue]
  obtain ⟨y₁, hstep⟩ := h.keeps.step i v x y y' hi hy
  have hstop := h.keeps.stopAgain i v x y y' y₁ v' hi hy hstep hnext
  obtain ⟨j, ending, hexit, hlt, hending, hc⟩ := exists_exitIndex h.nested h.table
  have hsound := (hy.inPass.reachable hx).sound h.nested
  have hholds := hy.inPass.holds hx h.nested hv
  obtain ⟨-, before, -, hrun, hbefore, -⟩ := hy.step_eq hsound h.nested h.table hholds
  obtain ⟨z, hz, hflow⟩ := hy.leaves hsound h.nested h.table hholds hstep hzero hnext hstop
    (hv' ▸ htest) hexit
  have hloops : z.loops = y.loops.tail := congrArg Flow.loops hflow
  have hnext : z.next = j + 1 := congrArg Flow.next hflow
  have hprogram : z.program = y.program := congrArg Flow.program hflow
  refine ⟨z, hz, ?_, (congrArg Flow.depth hflow).trans hy.depth_eq, fun w hw => ?_,
    j, ending, ?_, hc, hnext⟩
  · rw [hnext, Loop.bodyIndex]
    omega
  · rw [HoldsLoop, hloops, hrun, List.tail_cons] at hw
    have hnot := hbefore _ hw
    rw [isRun_iff.mpr (show _ = _ by rw [hy.depth_eq]; rfl)] at hnot
    cases hnot
  · rw [hprogram, hsound.program]
    exact hending

end Next

/-! ### The whole loop -/

/-- Where the body is entered for the `i`-th time, the loop variable is `s + i * k` and the loop went on
after each of the steps before. -/
theorem of_iterates (h : AtFor p e loop s t k) (hx : Iterates e loop i v x) :
    Reachable p x ∧ x.HoldsLoop e.depth loop.id v ∧ v.toInt = valueAt s k i ∧
      loop.test.Between s.toInt t.toInt ∧
      ∀ j, 1 ≤ j → j ≤ i → k ≠ 0 ∧ Goes loop.test s t k j := by
  induction hx with
  | first hstep hnext hv =>
    obtain ⟨hx, hv, rfl, htest⟩ := h.of_iterates_zero (.first hstep hnext hv)
    exact ⟨hx, hv, valueAt_zero.symm, htest, fun j hj hle => by omega⟩
  | @again i v v' x y y' x' hi hy hstep hnext hv' ih =>
    obtain ⟨hx, hv, hvalue, htest, hbefore⟩ := ih
    have hx' : Reachable p x' := (hy.inPass.reachable hx).step hstep
    by_cases hzero : k = 0
    · obtain ⟨g, z, hz, -⟩ := h.ends_zero hi hx hv hy hzero
      rw [hstep] at hz
      cases hz
    by_cases hrange : InRange (valueAt s k (i + 1))
    case neg =>
      obtain ⟨g, z, hz, -⟩ := h.ends_overflows hi hx hv hvalue hy hzero hrange
      rw [hstep] at hz
      cases hz
    by_cases hholds : loop.test.Between (valueAt s k (i + 1)) t.toInt
    case neg =>
      obtain ⟨z, hz, hne, -⟩ := h.ends_leaves hi hx hv hvalue hy hzero hrange hholds
      rw [hstep] at hz
      cases hz
      exact absurd hnext hne
    obtain ⟨w, z, hw, hz, -, hholdsLoop⟩ := h.ends_again hi hx hv hvalue hy hzero ⟨hrange, hholds⟩
    rw [hstep] at hz
    cases hz
    obtain rfl := hv'.unique (hx'.sound h.nested) h.nested hholdsLoop
    refine ⟨hx', hv', hw, htest, fun j hj hle => ?_⟩
    rcases Nat.lt_or_eq_of_le hle with hlt | rfl
    · exact hbefore j hj (Nat.le_of_lt_succ hlt)
    · exact ⟨hzero, hrange, hholds⟩

/-- As long as the passes end, the body is entered again while the loop goes on. -/
theorem exists_iterates (h : AtFor p e loop s t k)
    (hbody : ∀ i v x, Iterates e loop i v x → ∃ y y', PassEnds e.depth loop.id x y y')
    (htest : loop.test.Between s.toInt t.toInt) (hzero : k ≠ 0)
    (hgoes : ∀ j, 1 ≤ j → j ≤ i → Goes loop.test s t k j) : ∃ v x, Iterates e loop i v x := by
  induction i with
  | zero =>
    obtain ⟨x, hstep, hnext, hv⟩ := h.enters htest
    exact ⟨s, x, .first hstep hnext hv⟩
  | succ i ih =>
    obtain ⟨v, x, hi⟩ := ih fun j hj hle => hgoes j hj (Nat.le_succ_of_le hle)
    obtain ⟨y, y', hy⟩ := hbody i v x hi
    obtain ⟨hx, hv, hvalue, -⟩ := h.of_iterates hi
    obtain ⟨v', z, -, hstep, hnext, hv'⟩ := h.ends_again hi hx hv hvalue hy hzero
      (hgoes (i + 1) (Nat.le_add_left 1 i) (Nat.le_refl _))
    exact ⟨v', z, .again hi hy hstep hnext hv'⟩

end AtFor

/-- While its start, end and step keep the values `s`, `t` and `k`, and each pass through its body comes
to an end, a loop counts: its body is entered with `s`, `s + k`, `s + 2 * k` and so on until the number
leaves the range, which is an error, or fails the test, which leads behind the loop; a step of zero is
an error at the end of the first pass, and a test that fails at once leads behind the loop. -/
theorem counts_of_reachable {settings : Settings} {script : String} {log : Log} {p : Program}
    {e : Engine} {entry : Entry} {loop : Loop} {s t k : Int64}
    (hp : (Script.compile settings script log).1 = .ok p) (he : Reachable p e)
    (hgoing : e.finished = false) (hentry : p.commands[e.next]? = some entry)
    (hfor : entry.command = .for_ loop.id) (hloop : p.loops.loop loop.id = .ok loop)
    (hkeeps : e.Keeps loop s t k)
    (hbody : ∀ i v x, Iterates e loop i v x → ∃ y y', PassEnds e.depth loop.id x y y') :
    (∀ i v x, Iterates e loop i v x → v.toInt = valueAt s k i ∧
      ∀ z, InPass e.depth loop.id x z → z.HoldsLoop e.depth loop.id v ∧
        (z.depth = e.depth → z.viewpoint.loopValue? loop.id.name = some v)) ∧
    (¬loop.test.Between s.toInt t.toInt → (∀ i v x, ¬Iterates e loop i v x) ∧
      ∃ x, e.step = (.ok (), x) ∧ IsBehind e.depth loop.id x) ∧
    (loop.test.Between s.toInt t.toInt → k = 0 → (∃ v x, Iterates e loop 0 v x) ∧
      ∀ i v x, Iterates e loop i v x → i = 0 ∧ ∀ y y', PassEnds e.depth loop.id x y y' →
        ∃ g z, y.step = (.error g, z) ∧ g.kind = .runtime ∧ z.state = .stopped) ∧
    (loop.test.Between s.toInt t.toInt → k ≠ 0 → ∃ n, 1 ≤ n ∧
      (∀ i, 1 ≤ i → i < n → Goes loop.test s t k i) ∧ ¬Goes loop.test s t k n ∧
      (∀ i, (∃ v x, Iterates e loop i v x) ↔ i < n) ∧
      ∀ v x y y', Iterates e loop (n - 1) v x → PassEnds e.depth loop.id x y y' →
        (InRange (valueAt s k n) → ∃ z, y.step = (.ok (), z) ∧ IsBehind e.depth loop.id z) ∧
        (¬InRange (valueAt s k n) →
          ∃ g z, y.step = (.error g, z) ∧ g.kind = .range ∧ z.state = .stopped)) := by
  have hn : p.IsNested := Script.isNested_of_compile hp
  have h : AtFor p e loop s t k := ⟨hn, he, hgoing, ⟨entry, hentry, hfor⟩, hloop, hkeeps⟩
  refine ⟨fun i v x hi => ?_, fun htest => ⟨fun i v x hi => ?_, ?_⟩,
    fun htest hzero => ⟨?_, fun i v x hi => ⟨?_, fun y y' hy => ?_⟩⟩, fun htest hzero => ?_⟩
  · obtain ⟨hx, hv, hvalue, -⟩ := h.of_iterates hi
    refine ⟨hvalue, fun z hz => ?_⟩
    have hholds := hz.holds hx hn hv
    refine ⟨hholds, fun hdepth => ?_⟩
    rw [← hdepth] at hholds
    exact hholds.loopValue? ((hz.reachable hx).sound hn) hn
  · exact htest (h.of_iterates hi).2.2.2.1
  · obtain ⟨x, hstep, -, hbehind⟩ := h.passes htest
    exact ⟨x, hstep, hbehind⟩
  · obtain ⟨x, hstep, hnext, hv⟩ := h.enters htest
    exact ⟨s, x, .first hstep hnext hv⟩
  · obtain ⟨-, -, -, -, hbefore⟩ := h.of_iterates hi
    cases i with
    | zero => rfl
    | succ i => exact absurd hzero (hbefore 1 (Nat.le_refl 1) (Nat.le_add_left 1 i)).1
  · obtain ⟨hx, hv, -⟩ := h.of_iterates hi
    exact h.ends_zero hi hx hv hy hzero
  · obtain ⟨j, hj, hout⟩ := exists_not_inRange (s := s) hzero
    obtain ⟨n, hpos, hnot, hgoes⟩ := exists_first (P := Goes loop.test s t k) hj fun hg => hout hg.1
    obtain ⟨n, rfl⟩ : ∃ m, n = m + 1 := ⟨n - 1, by omega⟩
    refine ⟨n + 1, hpos, hgoes, hnot, fun i => ⟨?_, fun hlt => ?_⟩,
      fun v x y y' hi hy => ⟨fun hrange => ?_, fun hrange => ?_⟩⟩
    · rintro ⟨v, x, hi⟩
      obtain ⟨-, -, -, -, hbefore⟩ := h.of_iterates hi
      exact Nat.lt_of_not_le fun hle => hnot (hbefore (n + 1) hpos hle).2
    · exact h.exists_iterates hbody htest hzero
        fun j hj hle => hgoes j hj (Nat.lt_of_le_of_lt hle hlt)
    · obtain ⟨hx, hv, hvalue, -⟩ := h.of_iterates hi
      obtain ⟨z, hz, -, hbehind⟩ := h.ends_leaves hi hx hv hvalue hy hzero hrange
        fun htest => hnot ⟨hrange, htest⟩
      exact ⟨z, hz, hbehind⟩
    · obtain ⟨hx, hv, hvalue, -⟩ := h.of_iterates hi
      exact h.ends_overflows hi hx hv hvalue hy hzero hrange

/-- A formula that is one number has it for its value everywhere. -/
theorem yields_literal (n : Int64) (e : Engine) : Yields (.literal n) n e :=
  ⟨e, rfl⟩

/-- Numbers for start, end and step are kept. -/
theorem keeps_of_literals {loop : Loop} {s t k : Int64} (hstart : loop.start = .literal s)
    (hstop : loop.stop = .literal t) (hstep : loop.step = .literal k) (e : Engine) :
    Keeps e loop s t k where
  start := hstart ▸ yields_literal s _
  stop _ _ := hstop ▸ yields_literal t _
  step _ _ _ _ _ _ _ := hstep ▸ yields_literal k _
  stopAgain _ _ _ _ _ _ _ _ _ _ _ := hstop ▸ yields_literal t _

/-- A pass of two commands, the second of which moves the loop on, gets to no other engine. -/
theorem InPass.eq_or_eq {id : LoopId} {depth : Nat} {x y y' z : Engine} (hstep : x.step = (.ok (), y))
    (hdepth : y.depth = depth) (hy : Advances id y y') (hz : InPass depth id x z) : z = x ∨ z = y := by
  induction hz with
  | start => exact .inl rfl
  | step _ hnot hnext _ ih =>
    rcases ih with rfl | rfl
    · rw [hstep] at hnext
      cases hnext
      exact .inr rfl
    · exact absurd hy (hnot y' hdepth)

/-- A loop that adds up what it counts to. -/
def summing : String := "ALLOCATE GLOBAL Integer n\nFOR i = 0 ; < 2\nSET n += $i\nENDFOR\n"

/-- What the compiler makes of the loop. -/
def counter : Loop where
  id := ⟨"i", 1⟩
  start := .literal 0
  stop := .literal 2
  step := .literal 1
  test := .lt
  endIndex := some 3
  chainLevel := 0

/-- Only a command that goes on with a loop moves one on. -/
theorem not_advances_of_goesOnWith {x : Engine} {entry : Entry}
    (hentry : x.program.commands[x.next]? = some entry) (hc : goesOnWith? entry.command = none)
    (id : LoopId) (y : Engine) : ¬Advances id x y := by
  intro h
  cases h with
  | always _ hother hmoves =>
    cases hentry.symm.trans hother
    rcases hmoves with hmoves | hmoves | hmoves <;> rw [hmoves] at hc <;> cases hc
  | chosen _ hother hskips =>
    cases hentry.symm.trans hother
    rw [hskips] at hc
    cases hc

theorem step_of_isOk {e : Engine} (h : e.step.1.isOk = true) : e.step = (.ok (), e.step.2) := by
  rcases hstep : e.step with ⟨g | u, y⟩
  · rw [hstep] at h
    cases h
  · rfl

/-- The engine stands at the `SET`, which moves no loop on, and its step leads to the `ENDFOR`. -/
def adding (x : Engine) : Bool :=
  x.program.commands[x.next]?.any (goesOnWith? ·.command == none) && x.step.1.isOk &&
    !x.step.2.finished && x.step.2.depth == 0 &&
    x.step.2.program.commands[x.step.2.next]?.any (·.command == .endFor counter.id) &&
    x.step.2.loops.any fun l => l.depth == 0 && l.id == counter.id

/-- There is one pass that begins at the `SET`, and it does not end there. -/
theorem passEnds_of_adding {x : Engine} (h : x.adding = true) :
    PassEnds 0 counter.id x x.step.2 x.step.2.takenUp ∧ x.step.2 ≠ x ∧
      ∀ y y', PassEnds 0 counter.id x y y' → y = x.step.2 := by
  simp only [adding, Bool.and_eq_true, Bool.not_eq_true', beq_iff_eq, Option.any_eq_true,
    List.any_eq_true] at h
  obtain ⟨⟨⟨⟨⟨⟨entry, hentry, hset⟩, hok⟩, hgoing⟩, hdepth⟩, ending, hending, hc⟩, l, hl, hd, hid⟩ := h
  have hstep := step_of_isOk hok
  have hholds : x.step.2.HoldsLoop 0 counter.id l.value := by
    rw [HoldsLoop, ← hd, ← hid]
    exact hl
  have hadvances : Advances counter.id x.step.2 x.step.2.takenUp :=
    .always hgoing hending (.inr (.inr hc))
  have hnot (y : Engine) : ¬Advances counter.id x y := not_advances_of_goesOnWith hentry hset _ y
  refine ⟨⟨.step .start (fun y _ => hnot y) hstep hholds, hdepth, hadvances⟩, fun heq => ?_,
    fun y y' hy => ?_⟩
  · rw [heq, hentry] at hending
    cases hending
    rw [hc] at hset
    cases hset
  rcases hy.inPass.eq_or_eq hstep hdepth hadvances with rfl | heq
  · exact absurd hy.advances (hnot _)
  · exact heq

/-- Where the body is entered twice, and both times at the `SET`, it is never entered elsewhere. -/
theorem adding_of_iterates {e x : Engine} {i : Nat} {v : Int64} (hdepth : e.depth = 0)
    (hone : e.step.2.adding = true) (htwo : e.step.2.step.2.step.2.adding = true)
    (hthree : e.step.2.step.2.step.2.step.2.step.2.next ≠ counter.bodyIndex)
    (hi : Iterates e counter i v x) : x.adding = true := by
  -- the first pass and the second, by name, so that a third would have to follow the second
  have hpass : x = e.step.2 ∨ x = e.step.2.step.2.step.2 := by
    induction hi with
    | first hstep => exact .inl (by rw [hstep])
    | again _ hy hstep hnext _ ih =>
      rw [hdepth] at hy
      rcases ih with rfl | rfl
      · rw [(passEnds_of_adding hone).2.2 _ _ hy] at hstep
        exact .inr (by rw [hstep])
      · rw [(passEnds_of_adding htwo).2.2 _ _ hy] at hstep
        rw [hstep] at hthree
        exact absurd hnext hthree
  rcases hpass with rfl | rfl
  · exact hone
  · exact htwo

/-- The loop variable is 0 in the first pass and 1 in the second, and there is no third. -/
theorem counts_of_summing :
    ∃ p e, (Script.compile {} summing).1 = .ok p ∧ Reachable p e ∧ Keeps e counter 0 2 1 ∧
      (∀ i v x, Iterates e counter i v x →
        v.toInt = i ∧ ∃ y y', PassEnds e.depth counter.id x y y' ∧ y ≠ x) ∧
      ∀ i, (∃ v x, Iterates e counter i v x) ↔ i < 2 := by
  obtain ⟨p, e₀, hp, hready, h⟩ := exists_of_tried summing
    (fun p e₀ =>
      let e := e₀.step.2
      let x := e.step.2
      let x' := x.step.2.step.2
      e₀.step.1.isOk && !e.finished && e.depth == 0 &&
        p.commands[e.next]?.any (·.command == .for_ counter.id) &&
        Assoc.get? counter.id p.loops == some counter && x.adding && x'.adding &&
        x'.step.2.step.2.next != counter.bodyIndex)
    (by decide +kernel)
  simp only [Bool.and_eq_true, Bool.not_eq_true', beq_iff_eq, bne_iff_ne, Option.any_eq_true] at h
  obtain ⟨⟨⟨⟨⟨⟨⟨hok, hgoing⟩, hdepth⟩, entry, hentry, hfor⟩, hloop⟩, hone⟩, htwo⟩, hthree⟩ := h
  have hreach : Reachable p e₀.step.2 := (Reachable.start hready).step (step_of_isOk hok)
  generalize e₀.step.2 = e at *
  have hkeeps : Keeps e counter 0 2 1 := keeps_of_literals rfl rfl rfl e
  have hends (i : Nat) (v : Int64) (x : Engine) (hi : Iterates e counter i v x) :
      ∃ y y', PassEnds e.depth counter.id x y y' ∧ y ≠ x := by
    obtain ⟨hpass, hne, -⟩ := passEnds_of_adding (adding_of_iterates hdepth hone htwo hthree hi)
    exact ⟨_, _, hdepth ▸ hpass, hne⟩
  obtain ⟨hvalues, -, -, hcounts⟩ := counts_of_reachable hp hreach hgoing hentry hfor
    (LoopTable.loop_ok.mpr hloop) hkeeps fun i v x hi => by
      obtain ⟨y, y', hy, -⟩ := hends i v x hi
      exact ⟨y, y', hy⟩
  obtain ⟨n, hpos, hgoes, hnot, hiff, -⟩ := hcounts (by decide) (by decide)
  obtain rfl : n = 2 := by
    rcases Nat.lt_trichotomy n 2 with hlt | heq | hlt
    · obtain rfl : n = 1 := by omega
      exact absurd (by decide) hnot
    · exact heq
    · exact absurd (hgoes 2 (by decide) hlt).2 (by decide)
  refine ⟨p, e, hp, hreach, hkeeps, fun i v x hi => ⟨?_, hends i v x hi⟩, hiff⟩
  rw [(hvalues i v x hi).1, valueAt]
  change (0 : Int) + i * 1 = i
  omega

/-! ### A pass that does not end -/

/-- A call is made by one step. -/
theorem step_gosub {e : Engine} {entry : Entry} {name : String} {target : Nat}
    (hgoing : e.finished = false) (hentry : e.program.commands[e.next]? = some entry)
    (hc : entry.command = .gosub name target) : ∃ log, e.step = (.ok (), { e with
      skipBreakpoint := false
      next := target + 1
      calls := ⟨entry.index, name⟩ :: e.calls
      memory := { e.memory with log } }) := by
  rw [step_eq_settle hgoing hentry]
  unfold execute
  rw [hc]
  exact ⟨_, rfl⟩

/-- An engine that runs undisturbed takes a step in its turn. -/
theorem turn_of_undisturbed {e : Engine} (hundisturbed : e.Undisturbed) (hrunning : e.state = .running)
    (hok : e.step.1 = .ok ()) : e.turn = (none, e.step.2) := by
  have hturn : e.turn = e.executeTurn := by
    unfold Engine.turn
    dsimp only
    rw [hundisturbed.drained_eq, hrunning, hundisturbed.breakpointLine?_eq]
  rw [hturn]
  unfold executeTurn
  rw [hrunning]
  rcases hstep : e.step with ⟨g | u, e'⟩ <;> rw [hstep] at hok
  · cases hok
  · rfl

/-- A loop whose body calls a subroutine that does nothing but call itself. -/
def delving : String := "FOR i = 0 ; < 2\nGOSUB a\nENDFOR\nENDMAIN\nSUB a\nGOSUB a\nENDSUB\n"

/-- What the compiler makes of the loop. -/
def delver : Loop where
  id := ⟨"i", 0⟩
  start := .literal 0
  stop := .literal 2
  step := .literal 1
  test := .lt
  endIndex := some 2
  chainLevel := 0

/-- The engine runs undisturbed in the loop and stands at a call of the subroutine. -/
structure Delves (p : Program) (z : Engine) : Prop where
  program : z.program = p
  going : z.finished = false
  running : z.state = .running
  undisturbed : z.Undisturbed
  holds : z.HoldsLoop 0 delver.id 0
  call : ∃ entry : Entry, p.commands[z.next]? = some entry ∧ entry.command = .gosub "a" 4

namespace Delves

variable {p : Program} {x z : Engine}

/-- Behind the call the engine stands at a call again. -/
theorem step (h : Delves p z)
    (hsub : ∃ entry : Entry, p.commands[5]? = some entry ∧ entry.command = .gosub "a" 4) :
    z.step.1 = .ok () ∧ Delves p z.step.2 := by
  obtain ⟨entry, hentry, hc⟩ := h.call
  obtain ⟨log, hstep⟩ := step_gosub h.going (h.program.symm ▸ hentry) hc
  rw [hstep]
  exact ⟨rfl, h.program, h.going, h.running,
    ⟨h.undisturbed.mailbox, h.undisturbed.breakpoints⟩, h.holds, hsub⟩

theorem turn (h : Delves p z)
    (hsub : ∃ entry : Entry, p.commands[5]? = some entry ∧ entry.command = .gosub "a" 4) :
    z.turn.1 = none ∧ Delves p z.turn.2 := by
  obtain ⟨hanswer, hafter⟩ := h.step hsub
  rw [turn_of_undisturbed h.undisturbed h.running hanswer]
  exact ⟨rfl, hafter⟩

theorem runFor (h : Delves p z)
    (hsub : ∃ entry : Entry, p.commands[5]? = some entry ∧ entry.command = .gosub "a" 4) (turns : Nat) :
    (z.runFor turns).1 = none ∧ Delves p (z.runFor turns).2 := by
  induction turns generalizing z with
  | zero => exact ⟨rfl, h⟩
  | succ turns ih =>
    obtain ⟨hnone, hafter⟩ := h.turn hsub
    rw [runFor_succ hnone]
    exact ih hafter

theorem not_advances (h : Delves p z) (id : LoopId) (y : Engine) : ¬Advances id z y := by
  obtain ⟨entry, hentry, hc⟩ := h.call
  exact not_advances_of_goesOnWith (h.program.symm ▸ hentry) (by rw [hc]; rfl) id y

/-- On a pass that begins at a call there are nothing but calls. -/
theorem inPass (h : Delves p x)
    (hsub : ∃ entry : Entry, p.commands[5]? = some entry ∧ entry.command = .gosub "a" 4)
    {depth : Nat} {id : LoopId} (hz : InPass depth id x z) : Delves p z := by
  induction hz with
  | start => exact h
  | step _ _ hstep _ ih =>
    have hafter := (ih.step hsub).2
    rwa [hstep] at hafter

end Delves

/-- All that the loop asks for is constant, no command fails or leaves the loop, and yet its first pass
does not end, nor does the run. -/
theorem endless_of_delving :
    ∃ p e, (Script.compile {} delving).1 = .ok p ∧ Reachable p e ∧ e.finished = false ∧
      (∃ entry : Entry, p.commands[e.next]? = some entry ∧ entry.command = .for_ delver.id) ∧
      p.loops.loop delver.id = .ok delver ∧ Keeps e delver 0 2 1 ∧
      (∀ turns, (e.runFor turns).1 = none ∧ (e.runFor turns).2.step.1 = .ok () ∧
        (0 < turns → (e.runFor turns).2.HoldsLoop 0 delver.id 0)) ∧
      ∀ v x, ¬Iterates e delver 1 v x := by
  obtain ⟨p, e, hp, hready, h⟩ := exists_of_tried delving
    (fun p e =>
      let x := e.step.2
      !e.finished && e.state == .running && e.depth == 0 && e.mailbox == none && e.breakpoints == [] &&
        p.commands[e.next]?.any (·.command == .for_ delver.id) &&
        Assoc.get? delver.id p.loops == some delver && e.step.1.isOk && !x.finished &&
        x.state == .running && x.mailbox == none && x.breakpoints == [] &&
        x.loops == [⟨0, delver.id, 0⟩] && p.commands[x.next]?.any (·.command == .gosub "a" 4) &&
        p.commands[5]?.any (·.command == .gosub "a" 4))
    (by decide +kernel)
  simp only [Bool.and_eq_true, Bool.not_eq_true', beq_iff_eq, Option.any_eq_true] at h
  obtain ⟨⟨⟨⟨⟨⟨⟨⟨⟨⟨⟨⟨⟨⟨hgoing, hrunning⟩, hdepth⟩, hmailbox⟩, hlines⟩, hfor⟩, hloop⟩, hok⟩, hgoing'⟩,
    hrunning'⟩, hmailbox'⟩, hlines'⟩, hloops⟩, hcall⟩, hsub⟩ := h
  have hreach : Reachable p e := .start hready
  have hstep := step_of_isOk hok
  have hkeeps : Keeps e delver 0 2 1 := keeps_of_literals rfl rfl rfl e
  have hdelves : Delves p e.step.2 :=
    ⟨((hreach.step hstep).sound (Script.isNested_of_compile hp)).program, hgoing', hrunning',
      ⟨by rw [hmailbox']; rfl, hlines'⟩, by rw [HoldsLoop, hloops]; exact List.mem_cons_self, hcall⟩
  have hturn : e.turn = (none, e.step.2) :=
    turn_of_undisturbed ⟨by rw [hmailbox]; rfl, hlines⟩ hrunning (congrArg Prod.fst hstep)
  refine ⟨p, e, hp, hreach, hgoing, hfor, LoopTable.loop_ok.mpr hloop, hkeeps, fun turns => ?_,
    fun v x hx => ?_⟩
  · cases turns with
    | zero => exact ⟨rfl, congrArg Prod.fst hstep, fun h => absurd h (lt_irrefl 0)⟩
    | succ turns =>
      have hrun : e.runFor (turns + 1) = e.step.2.runFor turns := by
        rw [runFor_succ (congrArg Prod.fst hturn), hturn]
      obtain ⟨hnone, hafter⟩ := hdelves.runFor hsub turns
      rw [hrun]
      exact ⟨hnone, (hafter.step hsub).1, fun _ => hafter.holds⟩
  · cases hx with
    | again hbegins hends =>
      cases hbegins with
      | first hfirst =>
        obtain rfl := (congrArg Prod.snd (hstep.symm.trans hfirst) :)
        exact (hdelves.inPass hsub hends.inPass).not_advances _ _ hends.advances

end CommandScript.Engine
