import CommandScript.Proofs.Engine.Clock
import CommandScript.Proofs.Numeral
import CommandScript.Proofs.Store.Kindred

/-!
# Looking up in kindred memories

Kindred memories have kindred stores, one clock and one source of random numbers. A reference comes to
the same in both unless it is a `WRITER`, which shows the line of a write. A flag may follow a text to a
`WRITER`, but all it shows is whether the variable was written, since lines are numbered from one.
-/

namespace CommandScript

/-- The reference shows the line of a write. -/
def Reference.showsWriter (r : Reference) : Bool :=
  r.trait == some .writer

/-- The command names no reference that shows the line of a write. -/
def Command.ignoresWriter (c : Command) : Bool :=
  c.references.all fun r => !r.showsWriter

def Program.ignoresWriter (p : Program) : Bool :=
  (p.commands.all fun entry => entry.command.ignoresWriter) &&
    p.loops.all fun e => e.2.references.all fun r => !r.showsWriter

theorem Program.ignoresWriter_iff {p : Program} : p.ignoresWriter = true ↔
    (∀ entry ∈ p.commands, ∀ r ∈ entry.command.references, r.showsWriter = false) ∧
      ∀ e ∈ p.loops, ∀ r ∈ e.2.references, r.showsWriter = false := by
  simp only [ignoresWriter, Command.ignoresWriter, Bool.and_eq_true, Array.all_eq_true',
    List.all_eq_true, Bool.not_eq_true']

structure Memory.Kindred (m n : Memory) : Prop where
  store : m.store.Kindred n.store
  clock : m.clock = n.clock
  draw : m.draw = n.draw

namespace Memory.Kindred

variable {m n : Memory}

theorem sources (h : m.Kindred n) : m.sources = n.sources := by
  rw [Memory.sources, Memory.sources, h.clock, h.draw]

theorem read (h : m.Kindred n) (name owner : String) :
    Checked.Both (fun a b => a.1 = b.1 ∧ a.2.Kindred b.2) (m.read name owner)
      (n.read name owner) := by
  rw [read_eq, read_eq, h.sources]
  refine (h.store.read n.sources name owner).bind ?_
  rintro ⟨⟨value, warning⟩, s⟩ ⟨_, t⟩ ⟨rfl, hst⟩
  cases warning with
  | none => exact ⟨rfl, hst, h.clock, h.draw⟩
  | some warning => exact ⟨rfl, hst, h.clock, h.draw⟩

end Memory.Kindred

namespace Viewpoint

variable (v : Viewpoint)

/-- From kindred memories the look-up comes to the same and leaves kindred memories. -/
abbrev Settled {α : Type} (x : MemoryM α) : Prop :=
  Couples Memory.Kindred x x

theorem settled_read (name : String) : Settled (v.read name) :=
  couples_atomic (x := MemoryM.read name v.owner) (y := MemoryM.read name v.owner)
    fun _ _ hmn => hmn.read name v.owner

theorem settled_position (b : Bound) : Settled (v.position b) :=
  v.couples_position_of_read fun name _ => v.settled_read name

theorem settled_positions (i : Index) : Settled (v.positions i) :=
  v.couples_positions_of_read fun name _ => v.settled_read name

theorem settled_lookPlain (r : Reference) : Settled (v.lookPlain r) :=
  v.couples_lookPlain_of_read (v.settled_read r.name) fun _ _ name _ => v.settled_read name

/-- When a variable was written is the same in kindred memories. -/
theorem settled_metadata (name : String) {t : Trait} (h : t ≠ .writer) :
    Settled (v.metadata name t) := by
  refine couples_get_bind fun m n hmn => couples_both_bind (hmn.store.get name v.owner) ?_
  rintro found found' ⟨-, hwritten⟩
  generalize found.written = x at *
  generalize found'.written = y at *
  cases hwritten with
  | none =>
    cases t <;> exact couples_pure
  | some hstamps =>
    cases t
    case writer => exact absurd rfl h
    all_goals
      dsimp only
      rw [hstamps.moment]
      exact couples_pure

theorem settled_filtered (name : String) : Settled (v.filtered name) := by
  refine couples_ite (fun _ => v.settled_read name) fun _ => couples_get_bind fun m n hmn => ?_
  refine couples_both_bind (hmn.store.get name v.owner) fun found found' hfound => ?_
  rw [hfound.filtered_eq]
  exact couples_pure

theorem settled_look {r : Reference} (h : r.showsWriter = false) : Settled (v.look r) := by
  refine v.couples_look_of (v.settled_lookPlain r) (fun t ht _ => v.settled_metadata r.name ?_)
    (fun _ _ _ _ _ hmn => hmn.clock) (v.settled_filtered r.name)
  intro hw
  rw [Reference.showsWriter, ht, hw] at h
  cases h

/-! ### Flags -/

/-- A line of a script is numbered from one. -/
theorem ofLine_ne_zero {line : Nat} (h : 0 < line) : ofLine line ≠ 0 := by
  unfold ofLine
  cases hn : int64? line with
  | none => decide
  | some n =>
    rintro rfl
    have hzero : (0 : Int64).toInt = line := int64?_eq_some.mp hn
    change (0 : Int) = line at hzero
    omega

/-- The truth value of what a reference stands for. -/
def lookTruth (r : Reference) : MemoryM Bool := do
  let w ← v.look r
  let w ← w.convert .boolean
  w.toBoolean

/-- Whether a `WRITER` is true depends on whether the variable was written. -/
theorem lookTruth_writer {r : Reference} (hr : r.trait = some .writer)
    (hnone : v.loopValue? r.name = none) : v.lookTruth r = (do
      let m ← get
      let found ← m.store.get r.name v.owner
      let line := match found.written with
        | some stamp => ofLine stamp.line
        | none => 0
      return line != 0 : MemoryM Bool) := by
  have hlook : v.look r = v.metadata r.name .writer := by
    unfold look
    rw [hnone, hr]
    rfl
  unfold lookTruth
  rw [hlook]
  unfold metadata
  simp only [bind_assoc]
  refine bind_congr fun m => bind_congr fun found => ?_
  cases found.written <;> rfl

/-- Followed to a `WRITER`, a flag shows no more than whether the variable was written. -/
theorem settled_lookTruth (r : Reference) : Settled (v.lookTruth r) := by
  cases hw : r.showsWriter with
  | false =>
    exact (v.settled_look hw).bind fun _ => CommandScript.couples_lift.bind fun _ =>
      CommandScript.couples_lift
  | true =>
    have hr : r.trait = some .writer := eq_of_beq hw
    cases hloop : v.loopValue? r.name with
    | some n =>
      unfold lookTruth look
      rw [hloop]
      exact CommandScript.couples_lift.bind fun _ => CommandScript.couples_lift.bind fun _ =>
        CommandScript.couples_lift
    | none =>
      rw [v.lookTruth_writer hr hloop]
      refine couples_get_bind fun m n hmn => couples_both_bind (hmn.store.get r.name v.owner) ?_
      rintro found found' ⟨-, hwritten⟩
      generalize found.written = x at *
      generalize found'.written = y at *
      cases hwritten with
      | none => exact couples_pure
      | some hstamps =>
        have hleft := bne_iff_ne.mpr (ofLine_ne_zero hstamps.left)
        have hright := bne_iff_ne.mpr (ofLine_ne_zero hstamps.right)
        dsimp only
        rw [hleft, hright]
        exact couples_pure

/-! ### Working out -/

variable {v}

theorem settled_formula {f : Formula} (h : ∀ r ∈ f.references, r.showsWriter = false) :
    Settled (f.evaluate (lookInteger v.look)) :=
  CommandScript.couples_formula fun r hr => v.settled_look (h r hr)

theorem settled_argument {a : Argument} (h : ∀ r ∈ a.references, r.showsWriter = false) :
    Settled (a.evaluate v.look) :=
  CommandScript.couples_argument fun r hr => v.settled_look (h r hr)

theorem settled_text {a : Argument} (h : ∀ r ∈ a.references, r.showsWriter = false) :
    Settled (a.evaluateText v.look) :=
  couples_evaluateText fun r hr => v.settled_look (h r hr)

/-- What a flag holds, as a truth value. -/
theorem settled_truthOf (w : Value) : Settled (do
    let w ← followed v.look w
    let w ← w.convert .boolean
    w.toBoolean : MemoryM Bool) := by
  have plain (w : Value) : Settled (do
      let w ← w.convert .boolean
      w.toBoolean : MemoryM Bool) :=
    CommandScript.couples_lift.bind fun _ => CommandScript.couples_lift
  cases w with
  | string s =>
    unfold followed
    dsimp only
    split
    · cases Reference.read s with
      | ok r => exact v.settled_lookTruth r
      | error f => exact plain _
    · exact plain _
  | _ => exact Couples.bind couples_pure plain

theorem settled_condition {c : Condition} (h : ∀ r ∈ c.references, r.showsWriter = false) :
    Settled (c.evaluate v.look) := by
  have operand (o : Operand) (ho : o ∈ c.operands) : Settled (o.evaluate v.look) :=
    couples_operand fun r hr => v.settled_look (h r (List.mem_flatMap.mpr ⟨o, ho, hr⟩))
  cases c with
  | relation left r right =>
    refine (operand left (by simp [Condition.operands])).bind fun a => ?_
    exact (operand right (by simp [Condition.operands])).bind fun b => CommandScript.couples_lift
  | flag o negated =>
    have hflag := ((operand o List.mem_cons_self).bind (settled_truthOf (v := v))).bind fun b =>
      couples_pure (a := b != negated)
    simpa [Condition.evaluate, Operand.evaluateAs, coerced] using hflag

theorem settled_indexed (index : Bound) {item : Argument}
    (h : ∀ r ∈ item.references, r.showsWriter = false) : Settled (do
      let n ← v.position index
      let item ← item.evaluate v.look
      return (n, item)) :=
  (v.settled_position index).bind fun _ => (settled_argument h).bind fun _ => couples_pure

end Viewpoint

end CommandScript
