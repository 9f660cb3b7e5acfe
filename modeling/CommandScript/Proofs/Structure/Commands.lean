import CommandScript.Proofs.Structure.Steps

/-!
# What the steering commands do in a flow

The commands that decide themselves where the program goes on, cut where a tree decides the same: each
evaluates what it has to, and what it does then `Leads` to the next command.
-/

namespace CommandScript

open Engine

variable {flow : Flow} {entry : Entry} {e : Engine} {chain : Chain} {c : Condition} {id : LoopId}
  {i j : Nat}

theorem gives_lift_of {σ α : Type} {x : Checked α} {a : α} {s : σ} (h : x = .ok a) :
    Gives (liftM x : ExceptT Fault (StateM σ) α) s a s :=
  gives_lift.mpr ⟨h, rfl⟩

theorem gives_modify_self {σ : Type} (f : σ → σ) (s : σ) :
    Gives (modify f : ExceptT Fault (StateM σ) PUnit) s () (f s) :=
  rfl

theorem run_of_gives {σ α β : Type} {x : ExceptT Fault (StateM σ) α} {a : α} {s t : σ}
    {f : α → ExceptT Fault (StateM σ) β} (h : Gives x s a t) : (x >>= f).run s = (f a).run t := by
  rw [run_bind, show x.run s = (.ok a, t) from h]

/-- A command that does not steer, and the step to the next one. -/
theorem Engine.GoesOn.run_eq {x : EngineM Move} (h : GoesOn x) (e : Engine) :
    x.run e = (x >>= fun _ => pure .next).run e := by
  rw [run_bind]
  rcases hx : x.run e with ⟨f | m, e'⟩
  · rfl
  · rw [h.move hx]
    rfl

theorem leads_pure (m : Move) : Leads (pure m) flow m flow :=
  fun e hflow => ⟨e, gives_pure.mpr ⟨rfl, rfl⟩, hflow, rfl⟩

/-! ### Chains -/

/-- What an `IF` does once its condition was evaluated. -/
def ifDecided (index : Nat) (b : Bool) : EngineM Move := do
  setTaken index b
  if b then return .next
  else
    let chain ← (← get).program.chains.chainOf index
    return .jump (← chain.following index)

theorem execute_if (hc : entry.command = .if_ c) :
    execute entry = truth c >>= ifDecided entry.index := by
  unfold execute
  rw [hc]
  rfl

theorem leads_ifTrue :
    Leads (ifDecided i true) flow .next
      { flow with taken := flow.taken.put (flow.depth, i) true } := by
  rintro e rfl
  exact ⟨_, gives_bind.mpr ⟨(), _, gives_modify.mpr rfl, gives_pure.mpr ⟨rfl, rfl⟩⟩, rfl, rfl⟩

theorem leads_ifFalse (hchain : flow.program.chains.chainOf i = .ok chain)
    (hj : chain.following i = .ok j) :
    Leads (ifDecided i false) flow (.jump j)
      { flow with taken := flow.taken.put (flow.depth, i) false } := by
  rintro e rfl
  refine ⟨{ e with taken := e.taken.put (e.depth, i) false }, ?_, rfl, rfl⟩
  simp only [ifDecided, gives_bind, gives_get, gives_lift, gives_pure, Bool.false_eq_true, ↓reduceIte]
  exact ⟨(), _, gives_modify.mpr rfl, _, _, ⟨rfl, rfl⟩, chain, _, ⟨hchain, rfl⟩, j, _, ⟨hj, rfl⟩, rfl,
    rfl⟩

/-- What an `ELSEIF` does once its condition was evaluated. -/
def branchDecided (chain : Chain) (following : Nat) (holds : Bool) : EngineM Move := do
  if !holds then return .jump following
  setTaken chain.ifIndex true
  return .next

/-- A branch where the flow stands, with what the chain says about it. -/
structure AtBranch (flow : Flow) (i : Nat) (chain : Chain) (following ending : Nat) (taken : Bool) :
    Prop where
  chainOf : flow.program.chains.chainOf i = .ok chain
  ending : chain.ending = .ok ending
  following : chain.following i = .ok following
  taken : flow.taken.get? (flow.depth, chain.ifIndex) = some taken

namespace AtBranch

variable {condition : Option Condition} {following ending : Nat} {taken : Bool}

theorem run_executeBranch (h : AtBranch flow i chain following ending taken) (he : e.flow = flow) :
    (executeBranch i condition).run e =
      (if taken then pure (.jump ending)
      else match condition with
        | none => branchDecided chain following true
        | some c => truth c >>= branchDecided chain following : EngineM Move).run e := by
  subst he
  have hchain : e.program.chains.chainOf i = .ok chain := h.chainOf
  have htaken : Gives (isTaken chain.ifIndex) e taken e := gives_isTaken.mpr ⟨h.taken, rfl⟩
  unfold executeBranch
  rw [run_of_gives (gives_get.mpr ⟨rfl, rfl⟩), run_of_gives (gives_lift_of hchain),
    run_of_gives (gives_lift_of h.ending), run_of_gives (gives_lift_of h.following),
    run_of_gives htaken]
  cases taken with
  | true => rfl
  | false =>
    cases condition with
    | none => rfl
    | some c => rfl

theorem leads_passed (h : AtBranch flow i chain following ending true) :
    Leads (executeBranch i condition) flow (.jump ending) flow :=
  fun e he => ⟨e, h.run_executeBranch he, he, rfl⟩

theorem leads_else (h : AtBranch flow i chain following ending false) :
    Leads (executeBranch i none) flow .next
      { flow with taken := flow.taken.put (flow.depth, chain.ifIndex) true } := by
  rintro e rfl
  exact ⟨{ e with taken := e.taken.put (e.depth, chain.ifIndex) true }, h.run_executeBranch rfl, rfl,
    rfl⟩

end AtBranch

theorem leads_branchTrue {following : Nat} :
    Leads (branchDecided chain following true) flow .next
      { flow with taken := flow.taken.put (flow.depth, chain.ifIndex) true } := by
  rintro e rfl
  exact ⟨{ e with taken := e.taken.put (e.depth, chain.ifIndex) true }, rfl, rfl, rfl⟩

theorem leads_branchFalse {following : Nat} :
    Leads (branchDecided chain following false) flow (.jump following) flow :=
  fun e he => ⟨e, rfl, he, rfl⟩

theorem leads_endIf (hchain : flow.program.chains.chainOf i = .ok chain) :
    Leads (executeEndIf i) flow .next
      { flow with taken := flow.taken.erase (flow.depth, chain.ifIndex) } := by
  rintro e rfl
  have hchain : e.program.chains.chainOf i = .ok chain := hchain
  refine ⟨{ e with taken := e.taken.erase (e.depth, chain.ifIndex) }, ?_, rfl, rfl⟩
  unfold Gives executeEndIf
  rw [run_of_gives (gives_get.mpr ⟨rfl, rfl⟩), run_of_gives (gives_lift_of hchain)]
  rfl

/-! ### Loops -/

/-- What a loop does once the bound of its next turn was evaluated. -/
def turned (l : Loop) (before : List ActiveLoop) (v stop : Int64) : EngineM Move := do
  if l.test.holds (compare v.toInt stop.toInt) then return .jump l.bodyIndex
  modify fun e => { e with loops := before }
  return .jump (← l.exitIndex)

/-- What a `FOR` does once the bound of its first turn was evaluated. -/
def begun (l : Loop) (v stop : Int64) : EngineM Move := do
  if l.test.holds (compare v.toInt stop.toInt) then return .next
  modify fun e => { e with loops := e.loops.tail }
  return .jump (← l.exitIndex)

theorem gives_findRun_head {v : Int64} {before : List ActiveLoop}
    (hloops : e.loops = ⟨e.depth, id, v⟩ :: before) :
    Gives (findRun id) e ([], ⟨e.depth, id, v⟩, before) e := by
  have hrun : isRun e.depth id ⟨e.depth, id, v⟩ = true := isRun_iff.mpr rfl
  unfold Gives findRun
  rw [run_of_gives (gives_get.mpr ⟨rfl, rfl⟩), hloops]
  simp only [List.dropWhile_cons, List.takeWhile_cons, hrun, Bool.not_true, Bool.false_eq_true,
    ↓reduceIte]
  rfl

theorem run_advanceLoop {l : Loop} {v : Int64} {before : List ActiveLoop}
    (hloops : flow.loops = ⟨flow.depth, id, v⟩ :: before)
    (hl : flow.program.loops.loop id = .ok l) (he : e.flow = flow) :
    (advanceLoop id).run e = (advanced id l v >>= fun v => do
      modify fun e => { e with loops := ⟨flow.depth, id, v⟩ :: before }
      turned l before v (← number l.stop)).run e := by
  subst he
  have hl : e.program.loops.loop id = .ok l := hl
  unfold advanceLoop advanced
  rw [run_of_gives (gives_findRun_head hloops), run_of_gives (gives_get.mpr ⟨rfl, rfl⟩),
    run_of_gives (gives_lift_of hl), bind_assoc, run_bind, run_bind]
  rcases (number l.step).run e with ⟨f | step, e₁⟩
  · rfl
  · dsimp only
    by_cases hzero : step = 0
    · rw [if_pos hzero, if_pos hzero]
      rfl
    · rw [if_neg hzero, if_neg hzero]
      cases int64? (v.toInt + step.toInt) with
      | none => rfl
      | some v => rfl

theorem leads_proceed {v : Int64} {before : List ActiveLoop} :
    Leads (modify fun e => { e with loops := ⟨flow.depth, id, v⟩ :: before } : EngineM Unit) flow ()
      { flow with loops := ⟨flow.depth, id, v⟩ :: before } := by
  rintro e rfl
  exact ⟨_, gives_modify.mpr rfl, rfl, rfl⟩

theorem leads_turnedTrue {l : Loop} {v stop : Int64} {before : List ActiveLoop}
    (h : l.test.holds (compare v.toInt stop.toInt) = true) :
    Leads (turned l before v stop) flow (.jump l.bodyIndex) flow := by
  unfold turned
  rw [if_pos h]
  exact leads_pure _

theorem leads_turnedFalse {l : Loop} {v stop : Int64} {before : List ActiveLoop}
    (h : ¬ l.test.holds (compare v.toInt stop.toInt) = true) (hj : l.exitIndex = .ok j) :
    Leads (turned l before v stop) flow (.jump j) { flow with loops := before } := by
  rintro e rfl
  refine ⟨{ e with loops := before }, ?_, rfl, rfl⟩
  unfold Gives turned
  rw [if_neg h, run_of_gives (gives_modify_self _ _), run_of_gives (gives_lift_of hj)]
  rfl

theorem run_beginLoop {l : Loop} (hl : flow.program.loops.loop id = .ok l)
    (hloops : (flow.loops.filter fun r => !isRun flow.depth id r) = flow.loops)
    (he : e.flow = flow) :
    (beginLoop id).run e = (formulas id >>= fun l => number l.start >>= fun start => do
      modify fun e => { e with loops := ⟨flow.depth, id, start⟩ :: flow.loops }
      begun l start (← number l.stop)).run e := by
  subst he
  have hl : e.program.loops.loop id = .ok l := hl
  have hfilter : { e with loops := e.loops.filter fun r => !isRun e.depth id r } = e :=
    congrArg (fun loops => { e with loops }) hloops
  unfold beginLoop formulas
  rw [bind_assoc, run_of_gives (gives_get.mpr ⟨rfl, rfl⟩), run_of_gives (gives_get.mpr ⟨rfl, rfl⟩),
    run_of_gives (gives_lift_of hl), run_of_gives (gives_lift_of hl),
    run_of_gives (gives_modify_self _ _), hfilter, run_bind, run_bind]
  rcases hstart : (number l.start).run e with ⟨f | start, e₁⟩
  · rfl
  · have hkept : e₁.loops = e.loops := congrArg Flow.loops ((plain_number l.start).flow_eq hstart)
    dsimp only
    rw [run_of_gives (gives_modify_self _ _), run_of_gives (gives_modify_self _ _), hkept]
    rfl

theorem leads_begunTrue {l : Loop} {v stop : Int64}
    (h : l.test.holds (compare v.toInt stop.toInt) = true) : Leads (begun l v stop) flow .next flow := by
  unfold begun
  rw [if_pos h]
  exact leads_pure _

theorem leads_begunFalse {l : Loop} {v stop : Int64}
    (h : ¬ l.test.holds (compare v.toInt stop.toInt) = true) (hj : l.exitIndex = .ok j) :
    Leads (begun l v stop) flow (.jump j) { flow with loops := flow.loops.tail } := by
  rintro e rfl
  refine ⟨{ e with loops := e.loops.tail }, ?_, rfl, rfl⟩
  unfold Gives begun
  rw [if_neg h, run_of_gives (gives_modify_self _ _), run_of_gives (gives_lift_of hj)]
  rfl

theorem leads_leaveLoop {l : Loop} {v : Int64} {before : List ActiveLoop}
    (hloops : flow.loops = ⟨flow.depth, id, v⟩ :: before)
    (hl : flow.program.loops.loop id = .ok l) (hj : l.exitIndex = .ok j) :
    Leads (leaveLoop id) flow (.jump j) { flow with loops := before } := by
  rintro e rfl
  have hl : e.program.loops.loop id = .ok l := hl
  refine ⟨{ e with loops := before }, ?_, rfl, rfl⟩
  unfold Gives leaveLoop
  rw [run_of_gives (gives_findRun_head hloops), run_of_gives (gives_modify_self _ _),
    run_of_gives (gives_get.mpr ⟨rfl, rfl⟩), run_of_gives (gives_lift_of hl),
    run_of_gives (gives_lift_of hj)]
  rfl

/-! ### Calls -/

/-- What a call does before its subroutine runs. -/
def beginCall (index : Nat) (name : String) : EngineM Unit := do
  modify fun e => { e with calls := ⟨index, name⟩ :: e.calls }
  modify fun e => e.report .program s!"GOSUB {name} (depth {e.depth})"

theorem run_call {index target : Nat} {name : String} :
    (call index name target).run e =
      (beginCall index name >>= fun _ => pure (.jump (target + 1))).run e := rfl

/-- A call is reported from inside the subroutine. -/
theorem same_beginCall {place : Place} {index : Nat} {name : String} {e w : Engine}
    (he : e.flow = flow) (hcalls : flow.calls = place.calls) (hd : e.data = w.data) :
    ((beginCall index name).run e).1 = .ok () ∧
      ((beginCall index name).run e).2.data =
        ((place.called ⟨index, name⟩).view w |>.report .program
          s!"GOSUB {name} (depth {(place.called ⟨index, name⟩).depth})").data ∧
      ((beginCall index name).run e).2.flow = { flow with calls := ⟨index, name⟩ :: flow.calls } := by
  subst he
  have hdepth : (place.called ⟨index, name⟩).depth = e.depth + 1 := by
    have hcalls : e.calls = place.calls := hcalls
    rw [Place.depth, Place.called, List.length_cons, ← hcalls, depth]
  have hreport (d : Engine) (message : String) :
      (d.report .program message).data = d.data.report .program message := rfl
  refine ⟨rfl, ?_, rfl⟩
  show (Engine.report _ _ s!"GOSUB {name} (depth {e.depth + 1})").data = _
  rw [hdepth, hreport, hreport]
  exact congrArg (fun d : Engine => d.report .program s!"GOSUB {name} (depth {e.depth + 1})") hd

/-- What a call that ends does before it leaves. -/
def leaveCall (frame : Frame) (calls : List Frame) (v : Option String) : EngineM Unit := do
  modify fun e => { e with
    calls
    loops := e.loops.filter fun l => l.depth != e.depth
    taken := e.taken.filter fun entry => entry.1.1 != e.depth }
  answer frame v

theorem run_returnWith {v : Option String} {frame : Frame} {calls : List Frame}
    (hcalls : e.calls = frame :: calls) :
    (returnWith v).run e =
      (leaveCall frame calls v >>= fun _ => pure (.jump (frame.callIndex + 1))).run e := by
  unfold returnWith leaveCall answer
  rw [run_of_gives (gives_get.mpr ⟨rfl, rfl⟩), hcalls]
  cases v with
  | none => rfl
  | some v => rfl

theorem same_leaveCall {place : Place} {frame : Frame} {calls : List Frame} {v : Option String}
    {e w : Engine} (he : e.flow = flow) (hd : e.data = w.data) :
    ((leaveCall frame calls v).run e).1 = ((answer frame v).run (place.view w)).1 ∧
      ((leaveCall frame calls v).run e).2.data = ((answer frame v).run (place.view w)).2.data ∧
      ((leaveCall frame calls v).run e).2.flow = { flow with
        calls
        loops := flow.loops.filter fun l => l.depth != flow.depth
        taken := flow.taken.filter fun entry => entry.1.1 != flow.depth } := by
  subst he
  have hanswer (d : Engine) : (answer frame v).run d = (.ok (), ((answer frame v).run d).2) ∧
      ((answer frame v).run d).2.data = ((answer frame v).run d.data).2.data ∧
      ((answer frame v).run d).2.flow = d.flow := by
    cases v with
    | none => exact ⟨rfl, rfl, rfl⟩
    | some v => exact ⟨rfl, rfl, rfl⟩
  unfold leaveCall
  rw [run_of_gives (gives_modify_self _ _), (hanswer _).1, (hanswer (place.view w)).1]
  refine ⟨rfl, ?_, (hanswer _).2.2⟩
  refine (hanswer _).2.1.trans (Eq.trans ?_ (hanswer (place.view w)).2.1.symm)
  exact congrArg (fun d : Engine => ((answer frame v).run d).2.data) hd

end CommandScript
