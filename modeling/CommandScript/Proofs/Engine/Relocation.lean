import CommandScript.Proofs.Engine.Plain
import CommandScript.Proofs.Nesting.Program

/-!
# Programs with commands in other places

A program may hold the commands of another one in another order (`Program.Relocates`). Two maps say
where they are: a command at `k` stands at `place k` there, and where the one program comes to `k` the
other has come to `next k`. The maps differ only at a `SUB`, which either program passes over.
-/

namespace CommandScript

section Moved

variable (place : Nat → Nat)

def LoopId.moved (id : LoopId) : LoopId := { id with index := place id.index }

def ActiveLoop.moved (l : ActiveLoop) : ActiveLoop := { l with id := l.id.moved place }

def Frame.moved (f : Frame) : Frame := { f with callIndex := place f.callIndex }

def Chain.moved (c : Chain) : Chain where
  ifIndex := place c.ifIndex
  branches := c.branches.map place
  elseIndex := c.elseIndex.map place
  endIndex := c.endIndex.map place
  loopLevel := c.loopLevel

def Loop.moved (l : Loop) : Loop :=
  { l with id := l.id.moved place, endIndex := l.endIndex.map place }

/-- The command with its loop in another place. -/
def Command.moved : Command → Command
  | for_ id => for_ (id.moved place)
  | next id => next (id.moved place)
  | skip id => skip (id.moved place)
  | skipIf id c => skipIf (id.moved place) c
  | break_ id => break_ (id.moved place)
  | breakIf id c => breakIf (id.moved place) c
  | endFor id => endFor (id.moved place)
  | c => c

theorem Command.moved_of_plain {c : Command} (h : c.steers = false) : c.moved place = c := by
  cases c <;> first | rfl | cases h

/-- A branch that was taken, at a depth of calls. -/
def takenMoved (entry : (Nat × Nat) × Bool) : (Nat × Nat) × Bool :=
  ((entry.1.1, place entry.1.2), entry.2)

end Moved

/-- The commands do the same in their programs: a loop keeps its name, and a jump goes to where the
other one goes. -/
inductive Command.Follows (place next : Nat → Nat) : Command → Command → Prop
  | sub {name name' : String} {last last' : Nat} : last' + 1 = next (last + 1) →
      Follows place next (.sub name last) (.sub name' last')
  | gosub {name : String} {target target' : Nat} : target' + 1 = next (target + 1) →
      Follows place next (.gosub name target) (.gosub name target')
  | other {c : Command} : c.keyword ≠ .sub → c.keyword ≠ .gosub → Follows place next c (c.moved place)

structure Entry.Follows (place next : Nat → Nat) (e e' : Entry) : Prop where
  index : e.command.keyword ≠ .sub → e'.index = place e.index
  left : 0 < e.line
  right : 0 < e'.line
  command : e.command.Follows place next e'.command

/-- The program `q` does what `p` does, with its commands in other places. -/
structure Program.Relocates (p q : Program) (place next : Nat → Nat) : Prop where
  nested : p.IsNested
  injective : ∀ {i j}, place i = place j → i = j
  start : next 0 = 0
  commands : ∀ k, Option.Rel (Entry.Follows place next) p.commands[k]? q.commands[next k]?
  onward : ∀ {k entry}, p.commands[k]? = some entry → entry.command.keyword ≠ .sub →
    next k = place k ∧ (entry.command.keyword ≠ .endSub → next (k + 1) = place k + 1)
  chains : ∀ {k chain}, p.chains.chainOf k = .ok chain →
    q.chains.chainOf (place k) = .ok (chain.moved place)
  /-- The members of a chain stay in order. -/
  ordered : ∀ {k chain b}, p.chains.chainOf k = .ok chain → b ∈ chain.branches →
    (place k < place b ↔ k < b)
  loops : ∀ {id loop}, p.loops.loop id = .ok loop →
    q.loops.loop (id.moved place) = .ok (loop.moved place)

/-! ### Looking up -/

namespace Program.Relocates

variable {p q : Program} {place next : Nat → Nat} {i j k : Nat}

theorem id_inj (h : p.Relocates q place next) {id other : LoopId} :
    id.moved place = other.moved place ↔ id = other := by
  refine ⟨fun heq => ?_, congrArg _⟩
  obtain ⟨name, index⟩ := id
  obtain ⟨name', index'⟩ := other
  simp only [LoopId.moved, LoopId.mk.injEq] at heq ⊢
  exact ⟨heq.1, h.injective heq.2⟩

/-- The member that follows in a chain. -/
theorem following (h : p.Relocates q place next) {chain : Chain}
    (hchain : p.chains.chainOf k = .ok chain) (hj : chain.following k = .ok j) :
    (chain.moved place).following (place k) = .ok (place j) := by
  have find (bs : List Nat) (hbs : ∀ b ∈ bs, (place k < place b ↔ k < b)) :
      ((bs.map place).find? fun b => decide (place k < b)) =
        (bs.find? fun b => decide (k < b)).map place := by
    induction bs with
    | nil => rfl
    | cons b bs ih =>
      simp only [List.map_cons, List.find?_cons, hbs b List.mem_cons_self]
      split
      · rfl
      · exact ih fun b hb => hbs b (List.mem_cons_of_mem _ hb)
  have hmoved : ((chain.branches.map place).find? fun b => decide (place k < b)).or
      (chain.endIndex.map place) =
      ((chain.branches.find? fun b => decide (k < b)).or chain.endIndex).map place := by
    rw [find _ fun b hb => h.ordered hchain hb]
    cases chain.branches.find? fun b => decide (k < b) <;> rfl
  unfold Chain.following at hj ⊢
  split at hj
  · rename_i member hmember
    cases hj
    dsimp only [Chain.moved]
    rw [hmoved, hmember]
    rfl
  · exact (Checked.fail_ok.mp hj).elim

theorem ending {chain : Chain} (hj : chain.ending = .ok j) :
    (chain.moved place).ending = .ok (place j) := by
  rw [Chain.ending, Chain.moved, Chain.ending_ok hj]
  rfl

/-- A member of a chain that the program comes to behind another one. -/
theorem next_member (h : p.Relocates q place next) {chain : Chain}
    (hchain : p.chains.chainOf k = .ok chain) (hj : j ∈ chain.branches ∨ chain.endIndex = some j) :
    next j = place j := by
  have hget := (h.nested.chainOf_ok.mp hchain).1
  have hlt := h.nested.member_lt hget hj
  have hhead := h.nested.around_member hget hj
  have hentry : p.commands[j]? = some p.commands[j] := Array.getElem?_eq_getElem hlt
  refine (h.onward hentry fun hkey => ?_).1
  have hfits := h.nested.nested.fits ((p.getElem?_entries j).trans hentry)
  change p.commands[j].Fits (p.around j) at hfits
  rw [hhead] at hfits
  cases hc : p.commands[j].command <;> rw [hc] at hkey <;> cases hkey
  simp only [Entry.Fits, hc] at hfits
  cases hfits

theorem exit (h : p.Relocates q place next) {id : LoopId} {loop : Loop}
    (hloop : p.loops.loop id = .ok loop) (hj : loop.exitIndex = .ok j) :
    (loop.moved place).exitIndex = .ok (next j) := by
  obtain ⟨last, hlast, rfl⟩ := Loop.exitIndex_ok hj
  have hclose := (h.nested.endIndex_loop (LoopTable.loop_ok.mp hloop)).mp hlast
  obtain ⟨entry, hentry, hc⟩ := h.nested.nested.command_of_closes_loop hclose
  have honward := h.onward ((p.getElem?_entries last).symm.trans hentry) (by rw [hc]; rintro ⟨⟩)
  have hmoved : (loop.moved place).endIndex = some (place last) := by
    rw [Loop.moved, hlast]
    rfl
  rw [Loop.exitIndex, hmoved]
  exact congrArg Except.ok (honward.2 (by rw [hc]; rintro ⟨⟩)).symm

theorem body (h : p.Relocates q place next) {id : LoopId} {loop : Loop}
    (hloop : p.loops.loop id = .ok loop) : (loop.moved place).bodyIndex = next loop.bodyIndex := by
  have hget := LoopTable.loop_ok.mp hloop
  obtain rfl := h.nested.loops.id_eq id loop hget
  have hopen := (h.nested.loops.opens loop.id).mp (Option.isSome_iff_exists.mpr ⟨_, hget⟩)
  obtain ⟨entry, hentry, hc⟩ := Nested.command_of_opens_loop hopen
  have honward := h.onward ((p.getElem?_entries _).symm.trans hentry) (by rw [hc]; rintro ⟨⟩)
  exact (honward.2 (by rw [hc]; rintro ⟨⟩)).symm

end Program.Relocates

/-! ### Tables by command -/

section Taken

variable {place : Nat → Nat} (h : ∀ {i j}, place i = place j → i = j)
  (taken : Assoc (Nat × Nat) Bool) (depth i : Nat)

include h

theorem key_inj {x y : Nat × Nat} : (x.1, place x.2) = (y.1, place y.2) ↔ x = y := by
  obtain ⟨d, i⟩ := x
  obtain ⟨d', j⟩ := y
  simp only [Prod.mk.injEq]
  exact and_congr_right fun _ => ⟨h, congrArg place⟩

theorem get?_takenMoved :
    Assoc.get? (depth, place i) (taken.map (takenMoved place)) = taken.get? (depth, i) := by
  induction taken with
  | nil => rfl
  | cons entry taken ih =>
    obtain ⟨key, b⟩ := entry
    simp only [List.map_cons, takenMoved, Assoc.get?, key_inj h (x := key) (y := (depth, i))]
    rw [ih]

theorem put_takenMoved (b : Bool) : Assoc.put (depth, place i) b (taken.map (takenMoved place)) =
    (taken.put (depth, i) b).map (takenMoved place) := by
  induction taken with
  | nil => rfl
  | cons entry taken ih =>
    obtain ⟨key, b'⟩ := entry
    simp only [List.map_cons, takenMoved, Assoc.put, key_inj h (x := key) (y := (depth, i))]
    split
    · rfl
    · rw [List.map_cons, ← ih]
      rfl

theorem erase_takenMoved : Assoc.erase (depth, place i) (taken.map (takenMoved place)) =
    (taken.erase (depth, i)).map (takenMoved place) := by
  unfold Assoc.erase
  rw [List.filter_map]
  refine congrArg _ (List.filter_congr fun entry _ => ?_)
  exact decide_eq_decide.mpr (not_congr (key_inj h (x := entry.1) (y := (depth, i))))

end Taken

end CommandScript
