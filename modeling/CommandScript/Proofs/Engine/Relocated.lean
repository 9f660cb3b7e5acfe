import CommandScript.Proofs.Engine.Mates
import CommandScript.Proofs.Engine.Renewal

/-!
# Running relocated programs

A command that steers takes mates to the same command again (`relates_steering`), so every step does
(`Mates.step`), and two programs, one of which holds the commands of the other in other places, run
alike: as many turns come to the same outcome, or to faults of one kind (`Execution.Abreast.run`).
-/

namespace CommandScript

/-- The moves of commands of relocated programs, the first of which stands at `k`. -/
inductive Move.Goes (next : Nat → Nat) (k : Nat) : Move → Move → Prop
  | next : next (k + 1) = next k + 1 → Goes next k .next .next
  | jump {target : Nat} : Goes next k (.jump target) (.jump (next target))
  | exit : Goes next k .exit .exit

namespace Engine

variable {shared : Prop} {p q : Program} {place next : Nat → Nat} {k : Nat} {e f : Engine}
  {entry entry' : Entry}

/-- The operations take mates to the same command again. -/
abbrev Steers (shared : Prop) (p q : Program) (place next : Nat → Nat) (k : Nat)
    (x y : EngineM Move) : Prop :=
  Relates (Mates shared p q place next k) (Move.Goes next k) x y

section Steering

variable (hpq : p.Relocates q place next)

include hpq

/-- Behind a command that is neither `SUB` nor `ENDSUB` both programs go on with the next one. -/
theorem goes_next (hentry : p.commands[k]? = some entry) (hsub : entry.command.keyword ≠ .sub)
    (hend : entry.command.keyword ≠ .endSub) : Move.Goes next k .next .next := by
  obtain ⟨hhere, honward⟩ := hpq.onward hentry hsub
  exact .next ((honward hend).trans (congrArg (· + 1) hhere.symm))

/-! ### Chains -/

theorem matched_setTaken (i : Nat) (b : Bool) :
    Matched shared p q place next k (setTaken i b) (setTaken (place i) b) :=
  couples_modify fun e f h => by
    rw [h.taken, h.depth_eq, put_takenMoved hpq.injective]
    exact { h with taken := rfl }

theorem relates_isTaken (i : Nat) :
    Relates (Mates shared p q place next k) Eq (isTaken i) (isTaken (place i)) := by
  refine relates_get_bind fun e f h => ?_
  rw [h.taken, h.depth_eq, get?_takenMoved hpq.injective]
  split
  · exact relates_pure rfl
  · exact relates_throw rfl

/-- What the tables say of a member of a chain. -/
theorem exists_chain {i : Nat} (hopen : Opens p.entries (.chain i))
    (hk : k = i ∨ k ∈ branchesOf p.entries i ∨ Closes p.entries (.chain i) k) :
    ∃ chain j last, p.chains.chainOf k = .ok chain ∧ chain.following k = .ok j ∧
      chain.ending = .ok last ∧ next j = place j ∧ next last = place last := by
  obtain ⟨last, hclose⟩ := hpq.nested.exists_closes hopen
  have hchain := hpq.nested.chainOf_eq hopen hk
  obtain ⟨j, hj⟩ := hpq.nested.exists_following hclose k
  have hlast := hpq.nested.ending_eq hclose
  exact ⟨_, j, last, hchain, hj, hlast, hpq.next_member hchain (Chain.following_ok hj),
    hpq.next_member hchain (.inr (Chain.ending_ok hlast))⟩

theorem relates_executeIf {c : Condition} (hentry : p.commands[k]? = some entry)
    (hc : entry.command = .if_ c) (h : ∀ r ∈ c.references, r.showsWriter = false) :
    Steers shared p q place next k (executeIf k c) (executeIf (place k) c) := by
  have hopen := hpq.nested.nested.opens_chain ((p.getElem?_entries k).trans hentry) hc
  obtain ⟨chain, j, -, hchain, hj, -, hnext, -⟩ := exists_chain hpq hopen (.inl rfl)
  refine (matched_truth h).bind_relates fun b => (matched_setTaken hpq k b).bind_relates fun _ => ?_
  refine relates_ite Iff.rfl (fun _ => relates_pure (goes_next hpq hentry ?_ ?_)) fun _ => ?_
  · rw [hc]
    rintro ⟨⟩
  · rw [hc]
    rintro ⟨⟩
  · refine relates_get_bind fun e f hef => ?_
    rw [hef.left, hef.right, hchain, hpq.chains hchain]
    have hfollowing := hpq.following hchain hj
    refine relates_lift_bind (.ok ⟨rfl, rfl⟩ : Checked.Meets
      (fun a b => a = chain ∧ b = chain.moved place) _ _) ?_
    rintro _ _ ⟨rfl, rfl⟩
    rw [hj, hfollowing, ← hnext]
    exact relates_pure .jump

theorem relates_executeBranch {c : Option Condition} (hentry : p.commands[k]? = some entry)
    (hmarks : entry.marks = true) (hsub : entry.command.keyword ≠ .sub)
    (hend : entry.command.keyword ≠ .endSub)
    (h : ∀ condition, c = some condition → ∀ r ∈ condition.references, r.showsWriter = false) :
    Steers shared p q place next k (executeBranch k c) (executeBranch (place k) c) := by
  obtain ⟨i, hbranch, hopen⟩ :=
    hpq.nested.branch_owner ((p.getElem?_entries k).trans hentry) hmarks
  obtain ⟨chain, j, last, hchain, hj, hlast, hnext, hnext'⟩ :=
    exists_chain hpq hopen (.inr (.inl hbranch))
  have rest (holds : Bool) : Steers shared p q place next k (do
      if !holds then return .jump j
      setTaken chain.ifIndex true
      return .next : EngineM Move) (do
      if !holds then return .jump (next j)
      setTaken (place chain.ifIndex) true
      return .next : EngineM Move) :=
    relates_ite Iff.rfl (fun _ => relates_pure .jump) fun _ =>
      (matched_setTaken hpq _ _).bind_relates fun _ => relates_pure (goes_next hpq hentry hsub hend)
  refine relates_get_bind fun e f hef => ?_
  rw [hef.left, hef.right, hchain, hpq.chains hchain]
  refine relates_lift_bind (.ok ⟨rfl, rfl⟩ : Checked.Meets
    (fun a b => a = chain ∧ b = chain.moved place) _ _) ?_
  rintro _ _ ⟨rfl, rfl⟩
  rw [hlast, Program.Relocates.ending hlast, hj, hpq.following hchain hj, ← hnext, ← hnext']
  refine relates_lift_bind (.ok ⟨rfl, rfl⟩ : Checked.Meets (fun a b => a = last ∧ b = next last) _ _) ?_
  rintro _ _ ⟨rfl, rfl⟩
  refine relates_lift_bind (.ok ⟨rfl, rfl⟩ : Checked.Meets (fun a b => a = j ∧ b = next j) _ _) ?_
  rintro _ _ ⟨rfl, rfl⟩
  refine (relates_isTaken hpq _).bind ?_
  rintro taken _ rfl
  refine relates_ite Iff.rfl (fun _ => relates_pure .jump) fun _ => ?_
  cases c with
  | none => exact couples_pure.bind_relates fun _ => rest _
  | some c => exact (matched_truth (h c rfl)).bind_relates fun _ => rest _

theorem relates_executeEndIf (hentry : p.commands[k]? = some entry) (hc : entry.command = .endIf) :
    Steers shared p q place next k (executeEndIf k) (executeEndIf (place k)) := by
  obtain ⟨i, hclose⟩ :=
    hpq.nested.nested.closes_of_endIf ((p.getElem?_entries k).trans hentry) hc
  obtain ⟨chain, -, -, hchain, -⟩ :=
    exists_chain hpq (hpq.nested.nested.index_lt_of_closes hclose).2 (.inr (.inr hclose))
  refine relates_get_bind fun e f hef => ?_
  have he : e.program.chains.chainOf k = .ok chain := hef.left ▸ hchain
  have hf : f.program.chains.chainOf (place k) = .ok (chain.moved place) :=
    hef.right ▸ hpq.chains hchain
  rw [he, hf]
  refine relates_lift_bind (.ok ⟨rfl, rfl⟩ : Checked.Meets
    (fun a b => a = chain ∧ b = chain.moved place) _ _) ?_
  rintro _ _ ⟨rfl, rfl⟩
  refine (couples_set ?_).bind_relates fun _ => relates_pure (goes_next hpq hentry ?_ ?_)
  · rw [hef.taken, hef.depth_eq]
    exact { hef with taken := erase_takenMoved hpq.injective _ _ _ }
  · rw [hc]
    rintro ⟨⟩
  · rw [hc]
    rintro ⟨⟩

/-! ### Loops -/

section Loops

variable (hloops : ∀ id loop, p.loops.loop id = .ok loop →
  ∀ r ∈ loop.references, r.showsWriter = false)

omit hpq in
theorem matched_setLoops (loops : List ActiveLoop) : Matched shared p q place next k
    (modify fun e => { e with loops } : EngineM PUnit)
    (modify fun e => { e with loops := loops.map (ActiveLoop.moved place) }) :=
  couples_modify fun _ _ h => h.withLoops loops

omit hpq in
/-- A change of the loops in progress that commutes with moving them. -/
theorem matched_changeLoops {g g' : List ActiveLoop → List ActiveLoop}
    (hg : ∀ ls, g' (ls.map (ActiveLoop.moved place)) = (g ls).map (ActiveLoop.moved place)) :
    Matched shared p q place next k (modify fun e => { e with loops := g e.loops } : EngineM PUnit)
      (modify fun e => { e with loops := g' e.loops }) :=
  couples_modify fun e f h => by
    rw [h.loops, hg]
    exact h.withLoops _

theorem isRun_moved (depth : Nat) (id : LoopId) (l : ActiveLoop) :
    isRun depth (id.moved place) (l.moved place) = isRun depth id l := by
  have hid : (l.id.moved place == id.moved place) = (l.id == id) := by
    rw [Bool.eq_iff_iff, beq_iff_eq, beq_iff_eq]
    exact hpq.id_inj
  exact congrArg _ hid

theorem relates_findRun (id : LoopId) : Relates (Mates shared p q place next k)
    (fun x y => y = (x.1.map (ActiveLoop.moved place), x.2.1.moved place,
      x.2.2.map (ActiveLoop.moved place)))
    (findRun id) (findRun (id.moved place)) := by
  have hfun (depth : Nat) : (fun l => !isRun depth (id.moved place) l) ∘ ActiveLoop.moved place =
      fun l => !isRun depth id l := by
    funext l
    exact congrArg _ (isRun_moved hpq depth id l)
  refine relates_get_bind fun e f hef => ?_
  dsimp only
  rw [hef.loops, hef.depth_eq, List.dropWhile_map, List.takeWhile_map, hfun]
  cases e.loops.dropWhile fun l => !isRun e.depth id l with
  | nil => exact relates_throw rfl
  | cons l before => exact relates_pure rfl

include hloops

omit hpq in
/-- The formulas of a loop of the program. -/
theorem matched_loopNumbers {id : LoopId} {loop : Loop} (h : p.loops.loop id = .ok loop) :
    Matched shared p q place next k (number loop.start) (number loop.start) ∧
      Matched shared p q place next k (number loop.stop) (number loop.stop) ∧
      Matched shared p q place next k (number loop.step) (number loop.step) := by
  have hrefs := hloops id loop h
  refine ⟨matched_number fun r hr => hrefs r ?_, matched_number fun r hr => hrefs r ?_,
    matched_number fun r hr => hrefs r ?_⟩
  · exact List.mem_append_left _ (List.mem_append_left _ hr)
  · exact List.mem_append_left _ (List.mem_append_right _ hr)
  · exact List.mem_append_right _ hr

theorem relates_beginLoop {id : LoopId} {loop : Loop} {j : Nat}
    (hloop : p.loops.loop id = .ok loop) (hj : loop.exitIndex = .ok j)
    (hnext : Move.Goes next k .next .next) :
    Steers shared p q place next k (beginLoop id) (beginLoop (id.moved place)) := by
  obtain ⟨hstart, hstop, -⟩ : Matched shared p q place next k (number loop.start) (number loop.start) ∧
      Matched shared p q place next k (number loop.stop) (number loop.stop) ∧ _ :=
    matched_loopNumbers hloops hloop
  refine relates_get_bind fun e f hef => ?_
  dsimp only
  rw [hef.depth_eq, hef.left, hef.right, hloop, hpq.loops hloop]
  refine relates_lift_bind (.ok ⟨rfl, rfl⟩ : Checked.Meets
    (fun a b => a = loop ∧ b = loop.moved place) _ _) ?_
  rintro _ _ ⟨rfl, rfl⟩
  refine (matched_changeLoops fun ls => ?_).bind_relates fun _ => hstart.bind_relates fun start => ?_
  · rw [List.filter_map]
    refine congrArg _ (List.filter_congr fun l _ => ?_)
    exact congrArg _ (isRun_moved hpq e.depth id l)
  refine (matched_changeLoops fun ls => ?_).bind_relates fun _ => hstop.bind_relates fun stop => ?_
  · rfl
  refine relates_ite Iff.rfl (fun _ => relates_pure hnext) fun _ => ?_
  refine (matched_changeLoops fun ls => List.map_tail.symm).bind_relates fun _ => ?_
  rw [hj, hpq.exit hloop hj]
  exact relates_pure .jump

theorem relates_advanceLoop {id : LoopId} {loop : Loop} {j : Nat}
    (hloop : p.loops.loop id = .ok loop) (hj : loop.exitIndex = .ok j) :
    Steers shared p q place next k (advanceLoop id) (advanceLoop (id.moved place)) := by
  obtain ⟨-, hstop, hstep⟩ : _ ∧ Matched shared p q place next k (number loop.stop) (number loop.stop) ∧
      Matched shared p q place next k (number loop.step) (number loop.step) :=
    matched_loopNumbers hloops hloop
  refine (relates_findRun hpq id).bind ?_
  rintro ⟨after, run, before⟩ _ rfl
  refine relates_get_bind fun e f hef => ?_
  rw [hef.left, hef.right, hloop, hpq.loops hloop]
  refine relates_lift_bind (.ok ⟨rfl, rfl⟩ : Checked.Meets
    (fun a b => a = loop ∧ b = loop.moved place) _ _) ?_
  rintro _ _ ⟨rfl, rfl⟩
  refine hstep.bind_relates fun step => ?_
  refine relates_ite Iff.rfl (fun _ => (relates_throw rfl).bind fun _ _ (_ : True) => ?_) fun _ => ?_
  all_goals
    dsimp only [ActiveLoop.moved]
    split
    · exact relates_throw rfl
    · rename_i v _
      have hset : Matched shared p q place next k _ _ :=
        matched_setLoops (after ++ { run with value := v } :: before)
      rw [List.map_append, List.map_cons] at hset
      refine hset.bind_relates fun _ => hstop.bind_relates fun stop => ?_
      refine relates_ite Iff.rfl (fun _ => ?_) fun _ => ?_
      · rw [hpq.body hloop]
        exact relates_pure .jump
      · refine (matched_setLoops before).bind_relates fun _ => ?_
        rw [hj, hpq.exit hloop hj]
        exact relates_pure .jump

omit hloops

theorem relates_leaveLoop {id : LoopId} {loop : Loop} {j : Nat}
    (hloop : p.loops.loop id = .ok loop) (hj : loop.exitIndex = .ok j) :
    Steers shared p q place next k (leaveLoop id) (leaveLoop (id.moved place)) := by
  refine (relates_findRun hpq id).bind ?_
  rintro ⟨after, run, before⟩ _ rfl
  refine (matched_setLoops before).bind_relates fun _ => relates_get_bind fun e f hef => ?_
  rw [hef.left, hef.right, hloop, hpq.loops hloop]
  refine relates_lift_bind (.ok ⟨rfl, rfl⟩ : Checked.Meets
    (fun a b => a = loop ∧ b = loop.moved place) _ _) ?_
  rintro _ _ ⟨rfl, rfl⟩
  rw [hj, hpq.exit hloop hj]
  exact relates_pure .jump

end Loops

/-! ### Subroutines -/

omit hpq in
theorem relates_call (name : String) {target target' : Nat} (htarget : target' + 1 = next (target + 1))
    (hback : next (k + 1) = place k + 1) :
    Steers shared p q place next k (call k name target) (call (place k) name target') := by
  refine (couples_modify fun e f h => ?_).bind_relates fun _ =>
    (couples_modify fun e f h => h.report _ _ _).bind_relates fun _ => ?_
  · refine { h with calls := ?_, returns := ?_ }
    · rw [h.calls]
      rfl
    · rintro frame hframe
      rcases List.mem_cons.mp hframe with rfl | hframe
      · exact hback
      · exact h.returns frame hframe
  · rw [htarget]
    exact relates_pure .jump

omit hpq in
theorem relates_returnWith (v : Option String) :
    Steers shared p q place next k (returnWith v) (returnWith v) := by
  refine relates_get_bind fun e f hef => ?_
  rw [hef.calls]
  cases hcalls : e.calls with
  | nil => exact relates_throw rfl
  | cons frame calls =>
    have hback := hef.returns frame (hcalls ▸ List.mem_cons_self)
    have rest : Steers shared p q place next k (do
        modify fun e =>
          e.report .program s!"return from {frame.subroutine} to command {frame.callIndex + 1}"
        return .jump (frame.callIndex + 1) : EngineM Move) (do
        modify fun e => e.report .program
          s!"return from {frame.subroutine} to command {place frame.callIndex + 1}"
        return .jump (place frame.callIndex + 1) : EngineM Move) := by
      refine (matched_report _ _ _).bind_relates fun _ => ?_
      rw [← hback]
      exact relates_pure .jump
    have hset : Mates shared p q place next k
        { e with
          calls
          loops := e.loops.filter fun l => l.depth != e.depth
          taken := e.taken.filter fun entry => entry.1.1 != e.depth }
        { f with
          calls := calls.map (Frame.moved place)
          loops := f.loops.filter fun l => l.depth != f.depth
          taken := f.taken.filter fun entry => entry.1.1 != f.depth } := by
      rw [hef.depth_eq, hef.loops, hef.taken, List.filter_map, List.filter_map]
      refine { hef with calls := rfl, returns := fun frame hframe => ?_, taken := rfl, loops := rfl }
      exact hef.returns frame (hcalls ▸ List.mem_cons_of_mem _ hframe)
    refine (couples_set hset).bind_relates fun _ => ?_
    cases v with
    | none => exact rest
    | some v => exact (matched_onCells _).bind_relates fun _ => rest

/-! ### All commands -/

omit hpq in
theorem relates_of_plain {x y : EngineM Move} (h : Matched shared p q place next k x y) (hx : GoesOn x)
    (hnext : Move.Goes next k .next .next) : Steers shared p q place next k x y := by
  intro e f hef
  obtain ⟨hanswer, hafter⟩ := h e f hef
  refine ⟨?_, hafter⟩
  rw [← hanswer]
  rcases hrun : x.run e with ⟨g | m, e'⟩
  · exact .error rfl
  · obtain rfl : m = .next := hx.move hrun
    exact .ok hnext

theorem relates_steering (hentry : p.commands[entry.index]? = some entry)
    (hfollows : entry.Follows place next entry') (hsteers : entry.command.steers = true)
    (h : ∀ r ∈ entry.command.references, r.showsWriter = false)
    (hloops : ∀ id loop, p.loops.loop id = .ok loop → ∀ r ∈ loop.references, r.showsWriter = false) :
    Steers shared p q place next entry.index (execute entry) (execute entry') := by
  have hfits := hpq.nested.nested.fits ((p.getElem?_entries _).trans hentry)
  have condition {c : Condition} (hc : c ∈ entry.command.conditions) (r : Reference)
      (hr : r ∈ c.references) : r.showsWriter = false :=
    h r (Command.mem_references_of_condition hc hr)
  have inside {id : LoopId} (hid : (loopsOf (p.around entry.index)).head? = some id) :
      ∃ loop j, p.loops.loop id = .ok loop ∧ loop.exitIndex = .ok j :=
    hpq.nested.exists_loop (hpq.nested.nested.opens_of_head_loops hid)
  have hnext := goes_next hpq hentry
  have hindex := hfollows.index
  have hcommand := hfollows.command
  unfold execute
  generalize entry'.command = c' at hcommand ⊢
  cases hc : entry.command <;> rw [hc] at h hsteers hcommand hindex hnext condition <;>
    cases hsteers <;> simp only [Entry.Fits, hc] at hfits <;> cases hcommand <;>
    dsimp only [Command.moved]
  case sub.refl.sub hlast =>
    rw [hlast]
    exact relates_pure .jump
  case gosub.refl.gosub htarget =>
    rw [hindex (by rintro ⟨⟩)]
    exact relates_call _ htarget ((hpq.onward hentry (by rw [hc]; rintro ⟨⟩)).2 (by rw [hc]; rintro ⟨⟩))
  case sub hsub _ => exact absurd rfl hsub
  case gosub _ hgosub => exact absurd rfl hgosub
  case if_ =>
    rw [hindex (by rintro ⟨⟩)]
    exact relates_executeIf hpq hentry hc (condition List.mem_cons_self)
  case elseIf =>
    rw [hindex (by rintro ⟨⟩)]
    refine relates_executeBranch hpq hentry (by rw [Entry.marks, hc]) (by rw [hc]; rintro ⟨⟩)
      (by rw [hc]; rintro ⟨⟩) fun _ heq => ?_
    cases heq
    exact condition List.mem_cons_self
  case else_ =>
    rw [hindex (by rintro ⟨⟩)]
    exact relates_executeBranch hpq hentry (by rw [Entry.marks, hc]) (by rw [hc]; rintro ⟨⟩)
      (by rw [hc]; rintro ⟨⟩) fun _ heq => by cases heq
  case endIf =>
    rw [hindex (by rintro ⟨⟩)]
    exact relates_executeEndIf hpq hentry hc
  case for_ id _ _ =>
    obtain ⟨loop, j, hloop, hj⟩ := hpq.nested.exists_loop
      (hpq.nested.nested.opens_loop ((p.getElem?_entries _).trans hentry) hc).2
    exact relates_beginLoop hpq hloops hloop hj (hnext (by rintro ⟨⟩) (by rintro ⟨⟩))
  case next | skip =>
    obtain ⟨loop, j, hloop, hj⟩ := inside hfits
    exact relates_advanceLoop hpq hloops hloop hj
  case endFor =>
    obtain ⟨loop, j, hloop, hj⟩ := hpq.nested.exists_loop
      (hpq.nested.nested.opens_of_mem (List.mem_of_head? hfits)).2
    exact relates_advanceLoop hpq hloops hloop hj
  case skipIf =>
    obtain ⟨loop, j, hloop, hj⟩ := inside hfits
    exact (matched_truth (condition List.mem_cons_self)).bind_relates fun _ => relates_ite Iff.rfl
      (fun _ => relates_advanceLoop hpq hloops hloop hj) fun _ =>
        relates_pure (hnext (by rintro ⟨⟩) (by rintro ⟨⟩))
  case break_ =>
    obtain ⟨loop, j, hloop, hj⟩ := inside hfits
    exact relates_leaveLoop hpq hloop hj
  case breakIf =>
    obtain ⟨loop, j, hloop, hj⟩ := inside hfits
    exact (matched_truth (condition List.mem_cons_self)).bind_relates fun _ => relates_ite Iff.rfl
      (fun _ => relates_leaveLoop hpq hloop hj) fun _ =>
        relates_pure (hnext (by rintro ⟨⟩) (by rintro ⟨⟩))
  case endSub => exact relates_returnWith none
  case return_ v _ _ =>
    cases v with
    | none => exact relates_returnWith none
    | some a =>
      refine (matched_text fun r hr => h r ?_).bind_relates fun _ => relates_returnWith _
      exact Command.mem_references_of_argument List.mem_cons_self hr
  case endMain | exit => exact relates_pure .exit

/-- A command takes mates to the same command again. -/
theorem relates_execute (hentry : p.commands[k]? = some entry)
    (hfollows : entry.Follows place next entry') (hfiles : shared ∨ entry.command.isConfined = true)
    (h : ∀ r ∈ entry.command.references, r.showsWriter = false)
    (hloops : ∀ id loop, p.loops.loop id = .ok loop → ∀ r ∈ loop.references, r.showsWriter = false) :
    Steers shared p q place next k (execute entry) (execute entry') := by
  have hentry' := (p.getElem?_entries k).trans hentry
  obtain rfl : entry.index = k := hpq.nested.nested.index_eq hentry'
  cases hs : entry.command.steers with
  | true => exact relates_steering hpq hentry hfollows hs h hloops
  | false =>
    have hsame : entry'.command = entry.command := by
      have hcommand := hfollows.command
      generalize entry'.command = c' at hcommand ⊢
      generalize entry.command = c at hcommand hs ⊢
      cases hcommand with
      | sub | gosub => cases hs
      | other => exact Command.moved_of_plain _ hs
    have hkey : entry.command.keyword ≠ .sub ∧ entry.command.keyword ≠ .endSub := by
      generalize entry.command = c at hs ⊢
      cases c <;> cases hs <;> constructor <;> rintro ⟨⟩
    exact relates_of_plain (matched_execute hfollows.left hfollows.right hsame hs hfiles h)
      (goesOn_execute hs) (goes_next hpq hentry hkey.1 hkey.2)

end Steering

/-! ### Steps -/

namespace Mates

/-- The end of the programs has the same answer. -/
theorem finish (h : Mates shared p q place next k e f) : (finish.run e).1 = (finish.run f).1 ∧
    Mates shared p q place next k (finish.run e).2 (finish.run f).2 := by
  have hfinish : Matched shared p q place next k Engine.finish Engine.finish :=
    Couples.bind (couples_modify fun _ _ h => { h with state := rfl, finished := rfl }) fun _ =>
      (matched_onPapers (.inr Files.Papers.smooth_settle)).bind fun _ =>
        couples_modify fun _ _ h => h.report .program _ _
  exact hfinish e f h

theorem stopOn (h : Mates shared p q place next k e f) (entry entry' : Entry) (g g' : Fault) :
    Mates shared p q place next k (e.stopOn entry g).2 (f.stopOn entry' g').2 := by
  have hstopped (message message' : String) :
      Mates shared p q place next k { e.report .error message with state := .stopped }
        { f.report .error message' with state := .stopped } :=
    { h.report .error message message' with state := rfl }
  exact ((hstopped _ _).onPapers (.inr Files.Papers.smooth_closeFile)).2

/-- At the command that they have come to. -/
theorem atNext (h : Mates shared p q place next k e f) : Mates shared p q place next e.next e f :=
  { h with here := rfl, there := h.here.symm ▸ h.there }

theorem follow (h : Mates shared p q place next k e f) {m m' : Move} (hm : Move.Goes next k m m') :
    Checked.Meets Eq ((follow m).run e).1 ((follow m').run f).1 ∧
      Mates shared p q place next ((follow m).run e).2.next ((follow m).run e).2 ((follow m').run f).2 := by
  cases hm with
  | next hnext =>
    obtain rfl := h.here
    exact ⟨.ok rfl, { h with here := rfl, there := (congrArg (· + 1) h.there).trans hnext.symm }⟩
  | jump => exact ⟨.ok rfl, { h with here := rfl, there := rfl }⟩
  | exit =>
    obtain ⟨hanswer, hfinish⟩ := h.finish
    exact ⟨hanswer ▸ Checked.meets_self, hfinish.atNext⟩

variable (hpq : p.Relocates q place next) (hfiles : shared ∨ p.isConfined = true)
  (hwriter : p.ignoresWriter = true)

include hpq hfiles hwriter

/-- A step does the same to mates. -/
theorem step (h : Mates shared p q place next e.next e f) :
    Checked.Meets Eq e.step.1 f.step.1 ∧
      Mates shared p q place next e.step.2.next e.step.2 f.step.2 := by
  obtain ⟨hreferences, hloops⟩ := Program.ignoresWriter_iff.mp hwriter
  have hcommands := hpq.commands e.next
  have hp : e.program.commands = p.commands := congrArg Program.commands h.left
  have hq : f.program.commands[f.next]? = q.commands[next e.next]? := by rw [h.right, h.there]
  rw [← hp, ← hq] at hcommands
  cases hfinished : e.finished with
  | true =>
    rw [step_of_finished hfinished, step_of_finished (h.finished ▸ hfinished)]
    exact ⟨.ok rfl, h⟩
  | false =>
    have hfinished' : f.finished = false := h.finished ▸ hfinished
    cases hentry : e.program.commands[e.next]? with
    | none =>
      cases hentry' : f.program.commands[f.next]? <;> rw [hentry, hentry'] at hcommands <;>
        cases hcommands
      obtain ⟨hanswer, hfinish⟩ := h.finish
      rw [step_of_none hfinished hentry, step_of_none hfinished' hentry']
      exact ⟨hanswer ▸ Checked.meets_self, hfinish.atNext⟩
    | some entry =>
      cases hentry' : f.program.commands[f.next]? <;> rw [hentry, hentry'] at hcommands <;>
        cases hcommands
      rename_i entry' hfollows
      have hmem : p.commands[e.next]? = some entry := hp ▸ hentry
      have hskip : Mates shared p q place next e.next { e with skipBreakpoint := false }
          { f with skipBreakpoint := false } := { h with }
      obtain ⟨hanswer, hafter⟩ := relates_execute hpq hmem hfollows
        (hfiles.imp_right fun hconfined =>
          Array.all_eq_true'.mp hconfined entry (Array.mem_of_getElem? hmem))
        (hreferences entry (Array.mem_of_getElem? hmem))
        (fun id loop hloop => hloops (id, loop) (Assoc.mem_of_get? (LoopTable.loop_ok.mp hloop)))
        _ _ hskip
      rw [step_eq_settle hfinished hentry, step_eq_settle hfinished' hentry']
      revert hanswer hafter
      generalize (execute entry).run { e with skipBreakpoint := false } = x
      generalize (execute entry').run { f with skipBreakpoint := false } = y
      obtain ⟨r, e'⟩ := x
      obtain ⟨r', f'⟩ := y
      intro hanswer hafter
      cases hanswer with
      | ok hgoes => exact hafter.follow hgoes
      | @error g g' hkind =>
        refine ⟨.error ?_, (hafter.stopOn entry entry' g g').atNext⟩
        exact (Fault.kind_atLine ..).trans (hkind.trans (Fault.kind_atLine ..).symm)

omit hpq hfiles hwriter in
theorem clocked (h : Mates shared p q place next k e f) (now : Moment) :
    Mates shared p q place next k (e.clocked now) (f.clocked now) :=
  { h with memory := ⟨h.memory.store, rfl, h.memory.draw⟩ }

/-- A turn does the same to mates that run undisturbed or have stopped. -/
theorem turn (h : Mates shared p q place next e.next e f) (he : e.Uninterrupted)
    (hf : f.Uninterrupted) :
    Option.Rel (Checked.Meets Eq) e.turn.1 f.turn.1 ∧
      Mates shared p q place next e.turn.2.next e.turn.2 f.turn.2 ∧
      e.executing?.isSome = f.executing?.isSome := by
  have hcommands := hpq.commands e.next
  rw [← h.there, ← h.left, ← h.right] at hcommands
  unfold Engine.turn executing?
  dsimp only
  rw [he.drained_eq, hf.drained_eq, he.breakpointLine?_eq, hf.breakpointLine?_eq, ← h.state,
    ← h.finished]
  rcases he.state with hrunning | hstopped
  · rw [hrunning]
    refine and_assoc.mp ⟨?_, ?_⟩
    · obtain ⟨hanswer, hafter⟩ := h.step hpq hfiles hwriter
      unfold executeTurn
      rw [← h.state, hrunning]
      revert hanswer hafter
      rcases e.step with ⟨g | _, e'⟩ <;> rcases f.step with ⟨g' | _, f'⟩ <;>
        intro hanswer hafter <;> cases hanswer
      · exact ⟨.some (.error ‹_›), hafter⟩
      · exact ⟨.none, hafter⟩
    · dsimp only
      split
      · rfl
      · revert hcommands
        generalize e.program.commands[e.next]? = x
        generalize f.program.commands[f.next]? = y
        rintro (_ | _) <;> rfl
  · rw [hstopped]
    exact ⟨.some (.ok rfl), h, rfl⟩

end Mates

end Engine

/-! ### Runs -/

namespace Execution

open Engine

variable {shared : Prop} {p q : Program} {place next : Nat → Nat} {x y : Execution}
  {times : Nat → Moment}

/-- Executions of a program and of the one that it is relocated to, whose engines are mates as soon
as their clocks show the same. -/
structure Abreast (shared : Prop) (p q : Program) (place next : Nat → Nat) (x y : Execution) :
    Prop where
  engines : ∀ now,
    Mates shared p q place next x.engine.next (x.engine.clocked now) (y.engine.clocked now)
  executed : x.executed = y.executed
  left : x.engine.Uninterrupted
  right : y.engine.Uninterrupted
  leftVisits : Visits p x.engine
  rightVisits : Visits q y.engine

section Compiled

variable {settings settings' : Settings} {script script' : String} {log log' : Log}
  (hp : (Script.compile settings script log).1 = .ok p)
  (hq : (Script.compile settings' script' log').1 = .ok q) (hpq : p.Relocates q place next)
  (hfiles : shared ∨ p.isConfined = true) (hwriter : p.ignoresWriter = true)

include hp hq hpq hfiles hwriter

/-- A turn does the same to both executions. -/
theorem Abreast.turn (h : Abreast shared p q place next x y) :
    Option.Rel (Checked.Meets Eq) (x.poised times).turn.1 (y.poised times).turn.1 ∧
      Abreast shared p q place next (x.act times .turn) (y.act times .turn) := by
  have hposed :
      Mates shared p q place next (x.poised times).next (x.poised times) (y.poised times) := by
    unfold poised
    rw [h.executed]
    exact h.engines _
  have hleft : (x.poised times).Uninterrupted := h.left.clocked _
  have hright : (y.poised times).Uninterrupted := h.right.clocked _
  have hvisits : Visits p (x.poised times) := h.leftVisits.clock _
  have hvisits' : Visits q (y.poised times) := h.rightVisits.clock _
  obtain ⟨houtcome, hengines, hexecuting⟩ := hposed.turn hpq hfiles hwriter hleft hright
  refine ⟨houtcome, ?_, ?_, ?_, ?_, ?_, ?_⟩
  · rw [engine_act_turn, engine_act_turn]
    exact fun now => hengines.clocked now
  · rw [executed_act_turn, executed_act_turn, hexecuting, h.executed]
  · rw [engine_act_turn]
    exact hleft.turn (hvisits.steady hp).program (hvisits.steady hp).holds.memory
  · rw [engine_act_turn]
    exact hright.turn (hvisits'.steady hq).program (hvisits'.steady hq).holds.memory
  · rw [engine_act_turn]
    exact hvisits.turn
  · rw [engine_act_turn]
    exact hvisits'.turn

/-- As many turns come to the same outcome in both executions, or to faults of one kind. -/
theorem Abreast.run (h : Abreast shared p q place next x y) (turns : Nat) :
    Option.Rel (Checked.Meets Eq) (Execution.run times turns x).1 (Execution.run times turns y).1 ∧
      Abreast shared p q place next (Execution.run times turns x).2
        (Execution.run times turns y).2 := by
  induction turns generalizing x y with
  | zero => exact ⟨.none, h⟩
  | succ turns ih =>
    obtain ⟨houtcome, hbehind⟩ :
        Option.Rel (Checked.Meets Eq) (x.poised times).turn.1 (y.poised times).turn.1 ∧
          Abreast shared p q place next (x.act times .turn) (y.act times .turn) :=
      h.turn hp hq hpq hfiles hwriter
    unfold Execution.run
    revert houtcome
    generalize (x.poised times).turn.1 = r
    generalize (y.poised times).turn.1 = r'
    intro houtcome
    cases houtcome with
    | none => exact ih hbehind
    | some hmeets => exact ⟨.some hmeets, hbehind⟩

end Compiled

end Execution

end CommandScript
