import CommandScript.Proofs.Structure.Follows

/-!
# What the engine follows in each construct

For each construct of a tree: if the engine follows its parts, it follows the construct. A chain is
followed arm by arm, a loop turn by turn, and only a call needs that calls are followed already.
-/

namespace CommandScript

open Engine

section Steps

variable {α : Type} {c : Course} {r : Progress} {flow flow' : Flow} {entry : Entry} {place : Place}
  {E : Stop → Progress → Prop}

/-- A command that evaluates no condition. -/
theorem plays_reach_midway (h : Arrives c r flow) (hfin : flow.finished = false)
    (he : flow.program.entries[flow.next]? = some entry) (hnone : flow.conditionOf? entry = none)
    (hE : c.Closes E) :
    Plays (reach entry) r
      (fun _ r' => r'.steps + 1 = r.steps ∧ Midway c r' flow entry (execute entry)) E :=
  (plays_reach h hfin he hE).mono (fun _ _ h => ⟨h.1, h.2.midway hnone⟩) fun _ _ h => h

/-- A command that only leads elsewhere. -/
theorem plays_reach_arrives {m : Move} {j : Nat} (h : Arrives c r flow) (hfin : flow.finished = false)
    (he : flow.program.entries[flow.next]? = some entry) (hnone : flow.conditionOf? entry = none)
    (hx : Leads (execute entry) flow m flow') (hj : m.target? flow'.next = some j)
    (hE : c.Closes E) :
    Plays (reach entry) r
      (fun _ r' => r'.steps + 1 = r.steps ∧ Arrives c r' { flow' with next := j }) E :=
  (plays_reach_midway h hfin he hnone hE).mono (fun _ _ h => ⟨h.1, h.2.arrives hx hj⟩) fun _ _ h => h

theorem plays_perform_fail {x : EngineM Move} {f : Fault} {Q : α → Progress → Prop}
    (h : Midway c r flow entry x)
    (hx : ∀ e : Engine, e.flow = flow → x.run e = (.error f, e)) (hE : c.Closes E) :
    Plays (perform entry place (throw f : EngineM α)) r Q E := by
  obtain ⟨e, hflow, hdata, hc⟩ := h
  obtain ⟨hfault, hstopped⟩ := stopOn_congr (f := place.view r.world) hdata entry f
  unfold Plays
  rw [run_perform]
  refine hE.failed _ { r with world := ((place.view r.world).stopOn entry f).2 } ?_
  rw [hc, hx e hflow, ← hfault, ← hstopped]
  rfl

end Steps

section Commands

variable {p : Program} {c : Course} {place : Place} {below : List ActiveLoop} {lo hi k : Nat}
  {taken : Assoc (Nat × Nat) Bool} {ids : List LoopId} {steps : Nat} {r : Progress} {entry : Entry}

/-- A call ends, from a subroutine to where it was called from and from the main program with a fault. -/
theorem plays_endCall {v : Option String} {Q : Unit → Progress → Prop} (hs : place.Suits ids below)
    (h : Midway c r (place.flow p below taken k) entry (returnWith v)) (hr : r.steps ≤ steps) :
    Plays (endCall entry place v) r Q (Ends p c place below lo hi taken steps) := by
  unfold endCall
  cases hcalls : place.calls with
  | nil =>
    refine plays_perform_fail h (fun e he => ?_) Ends.closes
    have hnil : e.calls = [] := (congrArg Flow.calls he).trans hcalls
    unfold returnWith
    rw [run_of_gives (gives_get.mpr ⟨rfl, rfl⟩), hnil]
    rfl
  | cons frame calls =>
    have h' := h.congr fun e he =>
      run_returnWith (v := v) ((congrArg Flow.calls he).trans hcalls)
    refine (plays_perform_of h' (fun e w he hd => same_leaveCall he hd) Ends.closes).bind
      (fun _ r' hp => ?_) fun _ _ he => he
    have ha := hp.2.arrives (leads_pure _) rfl
    have hflow : ({ place.flow p below taken k with
        next := frame.callIndex + 1
        calls
        loops := (place.loops ++ below).filter fun l => l.depth != place.depth
        taken := taken.filter fun entry => entry.1.1 != place.depth } : Flow) =
        ⟨p, frame.callIndex + 1, calls, taken.filter fun entry => entry.1.1 != place.depth, below,
          false⟩ := by
      rw [hs.filter_depth]
      rfl
    exact .returned hcalls (fun d i hd => get?_filter_depth (Nat.ne_of_lt hd) taken)
      (hp.1 ▸ hr) (hflow ▸ ha)

/-- What executes the calls of a program does so as long as fewer than `bound` steps are left. -/
def FollowsCalls (p : Program) (c : Course) (call : Entry → Place → String → Structured Unit)
    (bound : Nat) : Prop :=
  ∀ {place : Place} {below : List ActiveLoop} {taken : Assoc (Nat × Nat) Bool} {r : Progress}
    {k target : Nat} {entry : Entry} {name : String} {ids : List LoopId},
    p.entries[k]? = some entry → entry.command = .gosub name target → place.Suits ids below →
    r.steps < bound → Midway c r (place.flow p below taken k) entry (Engine.call k name target) →
    Follows p c place below k (k + 1) taken (call entry place name) r

/-- A command that tests nothing is reached and then executed. -/
theorem follows_reach {x : Unit → Structured Unit} (he : p.entries[k]? = some entry)
    (h : Arrives c r (place.flow p below taken k))
    (hnone : (place.flow p below taken k).conditionOf? entry = none)
    (hx : ∀ r₁ : Progress, r₁.steps < r.steps →
      Midway c r₁ (place.flow p below taken k) entry (execute entry) →
      Plays (x ()) r₁ (fun _ => Passes p c place below k (k + 1) taken r.steps)
        (Ends p c place below k (k + 1) taken r.steps)) :
    Follows p c place below k (k + 1) taken (reach entry >>= x) r :=
  (plays_reach_midway h rfl he hnone Ends.closes).bind
    (fun _ r₁ h₁ => hx r₁ (by omega) h₁.2) fun _ _ he => he

/-- A command that tests a condition is reached, tests it and goes on with the outcome. -/
theorem follows_judge {condition : Condition} {g : Bool → EngineM Move} {x : Bool → Structured Unit}
    (he : p.entries[k]? = some entry) (hs : place.Suits ids below)
    (h : Arrives c r (place.flow p below taken k))
    (hcond : (place.flow p below taken k).conditionOf? entry = some condition)
    (hrun : execute entry = truth condition >>= g)
    (hx : ∀ (b : Bool) (r₁ : Progress), r₁.steps < r.steps →
      Midway c r₁ (place.flow p below taken k) entry (g b) →
      Plays (x b) r₁ (fun _ => Passes p c place below k (k + 1) taken r.steps)
        (Ends p c place below k (k + 1) taken r.steps)) :
    Follows p c place below k (k + 1) taken
      (reach entry >>= fun _ => judge entry place condition >>= x) r := by
  refine (plays_reach h rfl he Ends.closes).bind (fun _ r₁ h₁ => ?_) fun _ _ he => he
  exact (plays_judge h₁.2 hcond (fun _ _ => by rw [hrun]) (hs.shows ..) Ends.closes).bind
    (fun b r₂ h₂ => hx b r₂ (by omega) h₂.2) fun _ _ he => he

theorem play_of_plain {call : Entry → Place → String → Structured Unit}
    (h : entry.command.steers = false) : entry.play call place = (do
      reach entry
      let _ ← perform entry place (execute entry)) := by
  unfold Entry.play
  cases hc : entry.command <;> rw [hc] at h <;> first | rfl | cases h

/-- A plain command goes on with the next one. -/
theorem follows_plain (hplain : entry.command.steers = false) (he : p.entries[k]? = some entry)
    (hs : place.Suits ids below) (h : Arrives c r (place.flow p below taken k)) :
    Follows p c place below k (k + 1) taken (do
      reach entry
      let _ ← perform entry place (execute entry)) r := by
  have hnone : (place.flow p below taken k).conditionOf? entry = none := by
    cases hc : entry.command <;> rw [hc] at hplain <;> cases hplain
    all_goals rw [Flow.conditionOf?, hc]
  have hgoes := goesOn_execute hplain
  refine follows_reach he h hnone fun r₁ hr₁ h₁ => ?_
  have hm := h₁.congr fun e _ => hgoes.run_eq e
  refine (plays_perform hm hgoes.plain (hs.shows ..) Ends.closes).bind (fun _ r₂ h₂ => ?_)
    fun _ _ he => he
  exact ⟨taken, .refl .., by omega, h₂.2.arrives (leads_pure _) rfl⟩

/-- A command goes on with the innermost loop. -/
theorem plays_again {id : LoopId} {Q : Unit → Progress → Prop} (hs : place.Suits ids below)
    (hid : ids.head? = some id)
    (h : Midway c r (place.flow p below taken k) entry (advanceLoop id)) (hr : r.steps < steps) :
    Plays (throw (.again entry) : Structured Unit) r Q (Ends p c place below lo hi taken steps) := by
  obtain ⟨v, rest, hloops⟩ := hs.head hid
  exact .again hloops (.refl ..) hr h

/-- A command leaves the innermost loop. -/
theorem plays_left (hn : p.IsNested) {id : LoopId} {Q : Unit → Progress → Prop}
    (hs : place.Suits ids below) (hid : ids.head? = some id) (hopen : Opens p.entries (.loop id))
    (h : Midway c r (place.flow p below taken k) entry (leaveLoop id)) (hr : r.steps ≤ steps) :
    Plays (throw .left : Structured Unit) r Q (Ends p c place below lo hi taken steps) := by
  obtain ⟨v, rest, hloops⟩ := hs.head hid
  obtain ⟨l, _, hl, hexit⟩ := hn.exists_loop hopen
  have hflow : (place.flow p below taken k).loops = ⟨place.depth, id, v⟩ :: (rest ++ below) := by
    rw [Place.flow, hloops]
    rfl
  exact .left hloops hl hexit (.refl ..) hr (h.arrives (leads_leaveLoop hflow hl hexit) rfl)

/-- A command that is no bracket. -/
theorem follows_play (hn : p.IsNested) {call : Entry → Place → String → Structured Unit} {bound : Nat}
    (hcall : FollowsCalls p c call bound) (he : p.entries[k]? = some entry) (hsimple : entry.Simple)
    (hs : place.Suits (loopsOf (p.around k)) below)
    (h : Arrives c r (place.flow p below taken k)) (hr : r.steps ≤ bound) :
    Follows p c place below k (k + 1) taken (entry.play call place) r := by
  have hindex : entry.index = k := hn.nested.index_eq he
  have hf : entry.Fits (p.around k) := hn.nested.fits he
  cases hsteers : entry.command.steers with
  | false =>
    rw [play_of_plain hsteers]
    exact follows_plain hsteers he hs h
  | true =>
    unfold Entry.Fits at hf
    unfold Entry.play
    cases hc : entry.command <;> rw [hc] at hsteers hf <;>
      first | (cases hsteers; done) | dsimp only at hf ⊢
    case next id | skip id =>
      refine follows_reach he h (by rw [Flow.conditionOf?, hc]) fun r₁ hr₁ h₁ => ?_
      rw [execute, hc] at h₁
      exact plays_again hs hf h₁ hr₁
    case break_ id =>
      refine follows_reach he h (by rw [Flow.conditionOf?, hc]) fun r₁ hr₁ h₁ => ?_
      rw [execute, hc] at h₁
      exact plays_left hn hs hf (hn.nested.opens_of_head_loops hf) h₁ (Nat.le_of_lt hr₁)
    case skipIf id condition =>
      refine follows_judge he hs h (g := fun b => if b then advanceLoop id else pure .next)
        (by rw [Flow.conditionOf?, hc]) (by rw [execute, hc]) fun b r₁ hr₁ h₁ => ?_
      cases b with
      | true =>
        rw [if_pos rfl] at h₁ ⊢
        exact plays_again hs hf h₁ hr₁
      | false =>
        rw [if_neg Bool.false_ne_true] at h₁ ⊢
        exact plays_pure.mpr ⟨taken, .refl .., Nat.le_of_lt hr₁, h₁.arrives (leads_pure _) rfl⟩
    case breakIf id condition =>
      refine follows_judge he hs h (g := fun b => if b then leaveLoop id else pure .next)
        (by rw [Flow.conditionOf?, hc]) (by rw [execute, hc]) fun b r₁ hr₁ h₁ => ?_
      cases b with
      | true =>
        rw [if_pos rfl] at h₁ ⊢
        exact plays_left hn hs hf (hn.nested.opens_of_head_loops hf) h₁ (Nat.le_of_lt hr₁)
      | false =>
        rw [if_neg Bool.false_ne_true] at h₁ ⊢
        exact plays_pure.mpr ⟨taken, .refl .., Nat.le_of_lt hr₁, h₁.arrives (leads_pure _) rfl⟩
    case gosub name target =>
      refine follows_reach he h (by rw [Flow.conditionOf?, hc]) fun r₁ hr₁ h₁ => ?_
      rw [execute, hc, hindex] at h₁
      exact (hcall he hc hs (by omega) h₁).mono (.refl ..) (Nat.le_refl _) (Nat.le_of_lt hr₁)
    case return_ a =>
      cases a with
      | none =>
        refine follows_reach he h (by rw [Flow.conditionOf?, hc]) fun r₁ hr₁ h₁ => ?_
        rw [execute, hc] at h₁
        exact plays_endCall hs h₁ (Nat.le_of_lt hr₁)
      | some a =>
        refine follows_reach he h (by rw [Flow.conditionOf?, hc]) fun r₁ hr₁ h₁ => ?_
        rw [execute, hc] at h₁
        refine (plays_perform h₁ (plain_text a) (hs.shows ..) Ends.closes).bind
          (fun v r₂ h₂ => ?_) fun _ _ he => he
        exact plays_endCall hs h₂.2 (by omega)
    case endMain | exit =>
      refine follows_reach he h (by rw [Flow.conditionOf?, hc]) fun r₁ hr₁ h₁ => ?_
      rw [execute, hc] at h₁
      exact plays_quit h₁ hindex Ends.closes
    case if_ | for_ | sub =>
      have ho := hsimple.opening?
      rw [Entry.opening?, hc] at ho
      cases ho
    case elseIf | else_ =>
      have hm := hsimple.marks
      rw [Entry.marks, hc] at hm
      cases hm
    case endIf | endFor | endSub =>
      have hclose := hsimple.closes
      rw [Entry.closes, hc] at hclose
      cases hclose

end Commands

section Chains

variable {p : Program} {c : Course} {place : Place} {below : List ActiveLoop} {i a b e z k : Nat}
  {taken : Assoc (Nat × Nat) Bool} {r : Progress} {entry : Entry} {body : Block} {arms : Arms}
  {outer : List Opening} {condition : Option Condition} {x y : Structured Unit}

/-- The `ENDIF` of a chain forgets which of its branches was taken. -/
theorem follows_endIf (hn : p.IsNested) (hclose : Closes p.entries (.chain i) e)
    (he : p.entries[e]? = some entry) (hc : entry.command = .endIf)
    (h : Arrives c r (place.flow p below taken e)) :
    Follows p c place below i (e + 1) taken (reach entry) r := by
  obtain ⟨hlt, hopen⟩ := hn.nested.index_lt_of_closes hclose
  have hchain : (place.flow p below taken e).program.chains.chainOf e = .ok (chainAt p.entries i) :=
    hn.chainOf_eq hopen (.inr (.inr hclose))
  have hx : Leads (execute entry) (place.flow p below taken e) .next
      (place.flow p below (taken.erase (place.depth, i)) e) := by
    rw [execute, hc, hn.nested.index_eq he]
    exact leads_endIf hchain
  refine (plays_reach_arrives h rfl he (by rw [Flow.conditionOf?, hc]) hx rfl Ends.closes).mono
    (fun _ r₁ h₁ => ?_) fun _ _ he => he
  exact ⟨_, .erase (Nat.le_refl _) (Nat.lt_succ_of_lt hlt), by omega, h₁.2⟩

/-- What the chain of an arm says where the arm stands. -/
theorem atBranch (hn : p.IsNested) (below : List ActiveLoop) {tookOne : Bool}
    (ha : p.around a = .chain i :: outer) (he : p.entries[a]? = some entry)
    (hc : entry.command = armCommand condition) (hbody : body.Stands p.entries (a + 1) b)
    (harms : arms.Stands p.entries b z)
    (htaken : taken.get? (place.depth, i) = some tookOne) :
    ∃ e, e + 1 = z ∧ p.entries[e]? = some arms.last ∧ arms.last.command = .endIf ∧
      Closes p.entries (.chain i) e ∧
      AtBranch (place.flow p below taken a) a (chainAt p.entries i) b e tookOne := by
  have hm := Entry.marks_of_armCommand hc
  have hinside : CommandScript.around p.entries (a + 1) = .chain i :: outer := by
    rw [around_succ he, Entry.nest_of_marks hm]
    exact ha
  have hb := (Block.around_eq hn.nested hbody).1.trans hinside
  obtain ⟨e, hz, hlast, hend, hclose, -⟩ := Arms.closes hn.nested hb harms
  have hhead : (CommandScript.around p.entries a).head? = some (.chain i) :=
    (congrArg List.head? ha).trans List.head?_cons
  have hmember : a ∈ branchesOf p.entries i := Nested.mem_branchesOf.mpr ⟨entry, he, hm, hhead⟩
  refine ⟨e, hz, hlast, hend, hclose, ?_, hn.ending_eq hclose, ?_, htaken⟩
  · exact hn.chainOf_eq (hn.nested.index_lt_of_closes hclose).2 (.inr (.inl hmember))
  · exact hn.following_eq hbody hinside harms

/-- Behind a branch that was taken, all other arms are passed over. -/
theorem follows_pass (hn : p.IsNested) (ha : p.around a = .chain i :: outer)
    (harms : arms.Stands p.entries a z) (htaken : taken.get? (place.depth, i) = some true)
    (h : Arrives c r (place.flow p below taken a)) :
    Follows p c place below i z taken arms.pass r := by
  cases arms with
  | ending entry =>
    obtain ⟨e, rfl, hlast, hend, hclose, -⟩ := Arms.closes hn.nested ha harms
    obtain ⟨-, -, hz⟩ := harms
    obtain rfl := Nat.succ.inj hz
    exact follows_endIf hn hclose hlast hend h
  | arm condition marker body arms =>
    obtain ⟨b, he, hc, hbody, harms⟩ := harms
    obtain ⟨e, rfl, hlast, hend, hclose, hat⟩ := atBranch hn below ha he hc hbody harms htaken
    have hx : Leads (execute marker) (place.flow p below taken a) (.jump e)
        (place.flow p below taken a) := by
      cases condition with
      | none =>
        rw [execute, hc, armCommand, hn.nested.index_eq he]
        exact hat.leads_passed
      | some condition =>
        rw [execute, hc, armCommand, hn.nested.index_eq he]
        exact hat.leads_passed
    have hnone : (place.flow p below taken a).conditionOf? marker = none := by
      cases condition with
      | none => rw [Flow.conditionOf?, hc, armCommand]
      | some condition =>
        simp only [Flow.conditionOf?, hc, armCommand, hn.nested.index_eq he, hat.chainOf, hat.taken,
          ↓reduceIte]
    refine (plays_reach_arrives h rfl he hnone hx rfl Ends.closes).bind (fun _ r₁ h₁ => ?_)
      fun _ _ he => he
    exact (follows_endIf hn hclose hlast hend h₁.2).mono (.refl ..) (Nat.le_refl _) (by omega)

/-- A branch that is taken, and what is passed over behind it. -/
theorem follows_taken (hn : p.IsNested) (hb : p.around b = .chain i :: outer) (hlt : i < a)
    (harms : arms.Stands p.entries b z) (htaken : taken.get? (place.depth, i) = some true)
    (hx : Follows p c place below a b taken x r) :
    Follows p c place below i z taken (do x; arms.pass) r := by
  obtain ⟨-, hbz⟩ := Arms.around_eq hn.nested hb harms
  refine Plays.bind hx (fun _ r₁ h₁ => ?_) fun s r₁ h₁ =>
    h₁.mono (.refl ..) (Nat.le_of_lt hlt) (Nat.le_of_lt hbz) (Nat.le_refl _)
  obtain ⟨taken', hw, hsteps, harrives⟩ := h₁
  have htaken' := (hw.outside i (.inl hlt)).trans htaken
  exact (follows_pass hn hb harms htaken' harrives).mono
    (hw.mono (Nat.le_of_lt hlt) (Nat.le_of_lt hbz)) (Nat.le_refl _) hsteps

theorem branch_none (marker : Entry) (place : Place) (x y : Structured Unit) :
    branch marker place none x y = (do reach marker; x) := rfl

theorem branch_some (marker : Entry) (place : Place) (condition : Condition) (x y : Structured Unit) :
    branch marker place (some condition) x y = (do
      reach marker
      if ← judge marker place condition then x else y) := rfl

theorem follows_if {opening : Entry} {condition : Condition} {ids : List LoopId} (hn : p.IsNested)
    (he : p.entries[k]? = some opening) (hc : opening.command = .if_ condition)
    (hbody : body.Stands p.entries (k + 1) a) (harms : arms.Stands p.entries a z)
    (hs : place.Suits ids below) (h : Arrives c r (place.flow p below taken k))
    (hx : ∀ taken' (r' : Progress), r'.steps ≤ r.steps →
      Arrives c r' (place.flow p below taken' (k + 1)) →
      Follows p c place below (k + 1) a taken' x r')
    (hy : ∀ taken' (r' : Progress), r'.steps ≤ r.steps →
      taken'.get? (place.depth, k) = some false → Arrives c r' (place.flow p below taken' a) →
      Follows p c place below k z taken' y r') :
    Follows p c place below k z taken
      (branch opening place (some condition) (do x; arms.pass) y) r := by
  have hindex := hn.nested.index_eq he
  have ha := around_chain_body hn.nested he hc hbody
  obtain ⟨-, hka⟩ := Block.around_eq hn.nested hbody
  obtain ⟨-, haz⟩ := Arms.around_eq hn.nested ha harms
  have hchain : (place.flow p below taken k).program.chains.chainOf k = .ok (chainAt p.entries k) :=
    hn.chainOf_eq (hn.nested.opens_chain he hc) (.inl rfl)
  have hinside : CommandScript.around p.entries (k + 1) = .chain k :: p.around k :=
    (around_succ he).trans (nest_of_opening (by rw [Entry.opening?, hc, hindex]))
  have hput (b : Bool) : Within place.depth k z taken (taken.put (place.depth, k) b) :=
    .put (Nat.le_refl _) (by omega)
  have hget (b : Bool) : (taken.put (place.depth, k) b).get? (place.depth, k) = some b := by
    rw [Assoc.get?_put, if_pos rfl]
  have hrun (e : Engine) (_ : e.flow = place.flow p below taken k) :
      (execute opening).run e = (truth condition >>= ifDecided k).run e := by
    rw [execute_if hc, hindex]
  rw [branch_some]
  refine (plays_reach h rfl he Ends.closes).bind (fun _ r₁ h₁ => ?_) fun _ _ he => he
  refine (plays_judge h₁.2 (by rw [Flow.conditionOf?, hc]) hrun (hs.shows ..) Ends.closes).bind
    (fun b r₂ h₂ => ?_) fun _ _ he => he
  have hsteps : r₂.steps ≤ r.steps := by omega
  cases b with
  | true =>
    rw [if_pos rfl]
    have harrives := h₂.2.arrives leads_ifTrue rfl
    exact (follows_taken hn ha (Nat.lt_succ_self k) harms (hget true)
      (hx _ r₂ hsteps harrives)).mono (hput true) (Nat.le_refl _) hsteps
  | false =>
    rw [if_neg Bool.false_ne_true]
    have harrives := h₂.2.arrives (leads_ifFalse hchain (hn.following_eq hbody hinside harms)) rfl
    exact (hy _ r₂ hsteps (hget false) harrives).mono (hput false) (Nat.le_refl _) hsteps

theorem follows_arm {marker : Entry} {ids : List LoopId} (hn : p.IsNested)
    (ha : p.around a = .chain i :: outer) (he : p.entries[a]? = some marker)
    (hc : marker.command = armCommand condition) (hbody : body.Stands p.entries (a + 1) b)
    (harms : arms.Stands p.entries b z) (htaken : taken.get? (place.depth, i) = some false)
    (hs : place.Suits ids below) (h : Arrives c r (place.flow p below taken a))
    (hx : ∀ taken' (r' : Progress), r'.steps ≤ r.steps →
      Arrives c r' (place.flow p below taken' (a + 1)) →
      Follows p c place below (a + 1) b taken' x r')
    (hy : ∀ taken' (r' : Progress), r'.steps ≤ r.steps →
      taken'.get? (place.depth, i) = some false → Arrives c r' (place.flow p below taken' b) →
      Follows p c place below i z taken' y r') :
    Follows p c place below i z taken
      (branch marker place condition (do x; arms.pass) y) r := by
  have hindex := hn.nested.index_eq he
  have hm := Entry.marks_of_armCommand hc
  obtain ⟨e, rfl, -, -, hclose, hat⟩ := atBranch hn below ha he hc hbody harms htaken
  have hinside : CommandScript.around p.entries (a + 1) = .chain i :: outer :=
    (around_succ he).trans ((Entry.nest_of_marks hm).trans ha)
  obtain ⟨hb, hab⟩ := Block.around_eq hn.nested hbody
  have hb := hb.trans hinside
  obtain ⟨-, hbz⟩ := Arms.around_eq hn.nested hb harms
  have hia : i < a := (hn.nested.opens_of_mem (ha ▸ List.mem_cons_self : .chain i ∈ p.around a)).1
  have hput : Within place.depth i (e + 1) taken (taken.put (place.depth, i) true) :=
    .put (Nat.le_refl _) (by omega)
  have hget : (taken.put (place.depth, i) true).get? (place.depth, i) = some true := by
    rw [Assoc.get?_put, if_pos rfl]
  have enter {r' : Progress} (hr : r'.steps ≤ r.steps)
      (h' : Arrives c r' (place.flow p below (taken.put (place.depth, i) true) (a + 1))) :
      Plays (do x; arms.pass) r' (fun _ => Passes p c place below i (e + 1) taken r.steps)
        (Ends p c place below i (e + 1) taken r.steps) :=
    (follows_taken hn hb (Nat.lt_succ_of_lt hia) harms hget (hx _ r' hr h')).mono hput
      (Nat.le_refl _) hr
  cases condition with
  | none =>
    have hx : Leads (execute marker) (place.flow p below taken a) .next
        (place.flow p below (taken.put (place.depth, i) true) a) := by
      rw [execute, hc, armCommand, hindex]
      exact hat.leads_else
    rw [branch_none]
    refine (plays_reach_arrives h rfl he (by rw [Flow.conditionOf?, hc, armCommand]) hx rfl
      Ends.closes).bind (fun _ r₁ h₁ => ?_) fun _ _ he => he
    exact enter (by omega) h₁.2
  | some condition =>
    have hcond : (place.flow p below taken a).conditionOf? marker = some condition := by
      simp only [Flow.conditionOf?, hc, armCommand, hindex, hat.chainOf, hat.taken,
        Option.some.injEq, Bool.false_eq_true, ↓reduceIte]
    have hrun (e' : Engine) (he' : e'.flow = place.flow p below taken a) :
        (execute marker).run e' =
          (truth condition >>= branchDecided (chainAt p.entries i) b).run e' := by
      rw [execute, hc, armCommand, hindex]
      exact hat.run_executeBranch he'
    rw [branch_some]
    refine (plays_reach h rfl he Ends.closes).bind (fun _ r₁ h₁ => ?_) fun _ _ he => he
    refine (plays_judge h₁.2 hcond hrun (hs.shows ..) Ends.closes).bind (fun holds r₂ h₂ => ?_)
      fun _ _ he => he
    have hsteps : r₂.steps ≤ r.steps := by omega
    cases holds with
    | true =>
      rw [if_pos rfl]
      exact enter hsteps (h₂.2.arrives leads_branchTrue rfl)
    | false =>
      rw [if_neg Bool.false_ne_true]
      exact (hy taken r₂ hsteps htaken (h₂.2.arrives leads_branchFalse rfl)).mono (.refl ..)
        (Nat.le_refl _) hsteps

end Chains

section Loops

variable {p : Program} {c : Course} {place : Place} {below : List ActiveLoop} {k z : Nat}
  {taken : Assoc (Nat × Nat) Bool} {r : Progress} {ids : List LoopId} {id : LoopId} {l : Loop}
  {opening ending : Entry} {body : Place → Structured Unit}

theorem plays_formulas {flow : Flow} {g : Loop → EngineM Move} {E : Stop → Progress → Prop}
    (hl : flow.program.loops.loop id = .ok l)
    (h : Midway c r flow opening (formulas id >>= g)) :
    Plays (perform opening place (formulas id)) r
      (fun a r' => a = l ∧ r'.steps = r.steps ∧ Midway c r' flow opening (g l)) E := by
  have hgives (e : Engine) (he : e.program = flow.program) : Gives (formulas id) e l e := by
    unfold Gives formulas
    rw [run_of_gives (gives_get.mpr ⟨rfl, rfl⟩), he]
    exact gives_lift_of hl
  obtain ⟨e, rfl, hdata, hc⟩ := h
  have hworld : (place.view r.world).program = e.program :=
    (congrArg Engine.program hdata).symm
  unfold Plays
  rw [run_perform, show (formulas id).run (place.view r.world) = _ from hgives _ hworld]
  rw [run_of_gives (hgives e rfl)] at hc
  exact ⟨rfl, rfl, e, rfl, hdata, hc⟩

theorem plain_advanced (id : LoopId) (l : Loop) (v : Int64) : Plain (advanced id l v) := by
  refine plain_bind (plain_number l.step) fun step => plain_ite (plain_throw _) ?_
  split
  · exact plain_throw _
  · exact plain_pure _

/-- A loop as it stands in a program. -/
structure StandsLoop (p : Program) (id : LoopId) (l : Loop) (ending : Entry) (k z : Nat) : Prop where
  loop : p.loops.loop id = .ok l
  bodyIndex : l.bodyIndex = k + 1
  exitIndex : l.exitIndex = .ok (z + 1)
  get : p.entries[z]? = some ending
  command : ending.command = .endFor id
  lt : k < z

/-- Where the engine is once the bound of a turn was evaluated. -/
structure Tests (p : Program) (place : Place) (below : List ActiveLoop) (id : LoopId) (l : Loop)
    (k z q : Nat) (taken : Assoc (Nat × Nat) Bool) (v : Int64) (g : Int64 → EngineM Move) : Prop where
  again : ∀ stop, l.test.holds (compare v.toInt stop.toInt) = true →
    ∃ m, Leads (g stop) ((place.inside id v).flow p below taken q) m
      ((place.inside id v).flow p below taken q) ∧ m.target? q = some (k + 1)
  behind : ∀ stop, ¬ l.test.holds (compare v.toInt stop.toInt) = true →
    Leads (g stop) ((place.inside id v).flow p below taken q) (.jump (z + 1))
      (place.flow p below taken q)

/-- Leaving a loop is going on behind it. -/
def LoopEnds (p : Program) (c : Course) (place : Place) (below : List ActiveLoop) (k z : Nat)
    (taken : Assoc (Nat × Nat) Bool) (steps : Nat) : Stop → Progress → Prop
  | .left, r => Passes p c place below k (z + 1) taken steps r
  | s, r => Ends p c place below k (z + 1) taken steps s r

theorem LoopEnds.closes {steps : Nat} : c.Closes (LoopEnds p c place below k z taken steps) :=
  ⟨fun _ => .out, fun _ => .finished, fun _ _ => .failed⟩

/-- The body of a loop is followed inside every turn. -/
def FollowsBody (p : Program) (c : Course) (place : Place) (below : List ActiveLoop) (id : LoopId)
    (body : Place → Structured Unit) (k z bound : Nat) : Prop :=
  ∀ {v : Int64} {taken : Assoc (Nat × Nat) Bool} {r : Progress}, r.steps ≤ bound →
    Arrives c r ((place.inside id v).flow p below taken (k + 1)) →
    Follows p c (place.inside id v) below (k + 1) z taken (body (place.inside id v)) r

/-- One turn goes through the body, up to the command that goes on with the loop. -/
theorem plays_turn (hloop : StandsLoop p id l ending k z)
    {v : Int64} {steps : Nat} {taken₀ : Assoc (Nat × Nat) Bool}
    (hbody : Follows p c (place.inside id v) below (k + 1) z taken (body (place.inside id v)) r)
    (hw : Within place.depth k (z + 1) taken₀ taken) (hr : r.steps ≤ steps) :
    Plays (tryCatch (do body (place.inside id v); reach ending; return ending) fun
        | .again entry => pure entry
        | s => throw s) r
      (fun entry r' => r'.steps < r.steps ∧ ∃ taken' q,
        Within place.depth k (z + 1) taken₀ taken' ∧
        Midway c r' ((place.inside id v).flow p below taken' q) entry (advanceLoop id))
      (LoopEnds p c place below k z taken₀ steps) := by
  have hwiden {taken' : Assoc (Nat × Nat) Bool} (h : Within place.depth (k + 1) z taken taken') :
      Within place.depth k (z + 1) taken₀ taken' :=
    hw.trans (h.mono (Nat.le_succ k) (Nat.le_succ z))
  refine plays_tryCatch.mpr (Plays.bind hbody (fun _ r₁ h₁ => ?_) fun s r₁ h₁ => ?_)
  · obtain ⟨taken', hw', hsteps, harrives⟩ := h₁
    refine (plays_reach_midway harrives rfl hloop.get (by rw [Flow.conditionOf?, hloop.command])
      ⟨fun _ => .out, fun _ => .finished, fun _ _ => .failed⟩).bind (fun _ r₂ h₂ => ?_)
      fun _ _ he => he
    have hm := h₂.2
    rw [execute, hloop.command] at hm
    exact plays_pure.mpr ⟨by omega, taken', z, hwiden hw', hm⟩
  · cases h₁ with
    | again hl hw' hr' hm =>
      obtain ⟨rfl, -⟩ := List.cons.inj hl
      exact ⟨hr', _, _, hwiden hw', hm⟩
    | left hl hother hj hw' hr' ha =>
      obtain ⟨rfl, rfl⟩ := List.cons.inj hl
      rw [hloop.loop, Except.ok.injEq] at hother
      subst hother
      rw [hloop.exitIndex, Except.ok.injEq] at hj
      subst hj
      exact ⟨_, hwiden hw', Nat.le_trans hr' hr, ha⟩
    | returned hcalls hbelow hr' ha =>
      exact .returned hcalls (fun d i hd => (hbelow d i hd).trans (hw.below d i hd))
        (Nat.le_trans hr' hr) ha
    | finished hc => exact .finished hc
    | failed hc => exact .failed hc
    | out hc => exact .out hc

theorem tests_turned {v : Int64} {q : Nat} (hloop : StandsLoop p id l ending k z) :
    Tests p place below id l k z q taken v (turned l (place.loops ++ below) v) where
  again _ h := ⟨_, leads_turnedTrue h, congrArg some hloop.bodyIndex⟩
  behind _ h := leads_turnedFalse h hloop.exitIndex

theorem tests_begun {v : Int64} (hloop : StandsLoop p id l ending k z) :
    Tests p place below id l k z k taken v (begun l v) where
  again _ h := ⟨_, leads_begunTrue h, rfl⟩
  behind _ h := leads_begunFalse h hloop.exitIndex

/-- The turns of a loop, by the steps that are left. -/
theorem plays_turns (hloop : StandsLoop p id l ending k z)
    (hs : place.Suits ids below) {bound steps : Nat} (hbody : FollowsBody p c place below id body k z bound)
    {taken₀ : Assoc (Nat × Nat) Bool} (hsteps : steps ≤ bound) :
    ∀ {fuel q : Nat} {entry : Entry} {v : Int64} {g : Int64 → EngineM Move}
      {taken : Assoc (Nat × Nat) Bool} {r : Progress}, r.steps < fuel → r.steps ≤ steps →
      Within place.depth k (z + 1) taken₀ taken → Tests p place below id l k z q taken v g →
      Midway c r ((place.inside id v).flow p below taken q) entry (number l.stop >>= g) →
      Plays (turns id l body ending place fuel entry v) r
        (fun _ => Passes p c place below k (z + 1) taken₀ steps)
        (LoopEnds p c place below k z taken₀ steps) := by
  intro fuel
  induction fuel with
  | zero => exact fun hlt => absurd hlt (Nat.not_lt_zero _)
  | succ fuel ih =>
    intro q entry v g taken r hlt hr hw htests h
    unfold turns
    refine (plays_perform h (plain_number l.stop) ((hs.inside id v).shows ..) LoopEnds.closes).bind
      (fun stop r₁ h₁ => ?_) fun _ _ he => he
    by_cases htest : l.test.holds (compare v.toInt stop.toInt) = true
    · rw [if_pos htest]
      obtain ⟨m, hm, hj⟩ := htests.again stop htest
      have hturn := hbody (by omega) (h₁.2.arrives hm hj)
      refine (plays_turn hloop hturn hw (by omega)).bind (fun entry r₂ h₂ => ?_) fun _ _ he => he
      obtain ⟨hlt₂, taken', q', hw', hm⟩ := h₂
      have hm := hm.congr fun e he => run_advanceLoop rfl hloop.loop he
      refine (plays_perform hm (plain_advanced id l v) ((hs.inside id v).shows ..)
        LoopEnds.closes).bind (fun v' r₃ h₃ => ?_) fun _ _ he => he
      exact ih (by omega) (by omega) hw' (tests_turned hloop) (h₃.2.leads leads_proceed)
    · rw [if_neg htest]
      exact ⟨taken, hw, by omega, h₁.2.arrives (htests.behind stop htest) rfl⟩

theorem follows_loop (hn : p.IsNested) (he : p.entries[k]? = some opening)
    (hc : opening.command = .for_ id) (hend : p.entries[z]? = some ending)
    (hclose : Closes p.entries (.loop id) z) (hs : place.Suits (loopsOf (p.around k)) below)
    (h : Arrives c r (place.flow p below taken k))
    (hbody : FollowsBody p c place below id body k z r.steps) :
    Follows p c place below k (z + 1) taken (playLoop id opening ending body place) r := by
  obtain ⟨l, hl, hid, hexit⟩ := hn.loop_eq hclose
  obtain rfl : id.index = k := hn.nested.opening_index (x := .loop id) he (by rw [Entry.opening?, hc])
  obtain ⟨other, hother, hcommand⟩ := hn.nested.command_of_closes_loop hclose
  rw [hend, Option.some.injEq] at hother
  have hloop : StandsLoop p id l ending id.index z :=
    ⟨hl, by rw [Loop.bodyIndex, hid], hexit, hend, hother ▸ hcommand,
      (hn.nested.index_lt_of_closes hclose).1⟩
  have hfresh : id ∉ loopsOf (p.around id.index) := fun hmem =>
    hn.nested.not_mem_around_index (mem_loopsOf.mp hmem)
  unfold playLoop
  refine (plays_reach_midway h rfl he (by rw [Flow.conditionOf?, hc]) Ends.closes).bind
    (fun _ r₁ h₁ => ?_) fun _ _ he => he
  have hm := h₁.2
  rw [execute, hc] at hm
  have hm := hm.congr fun e he => by
    refine run_beginLoop hl ?_ he
    exact hs.filter_run hfresh
  refine (plays_formulas hl hm).bind (fun _ r₂ h₂ => ?_) fun _ _ he => he
  obtain ⟨rfl, hsteps₂, hm⟩ := h₂
  refine (plays_perform hm (plain_number _) (hs.shows ..) Ends.closes).bind (fun start r₃ h₃ => ?_)
    fun _ _ he => he
  have hm := h₃.2.leads leads_proceed
  have hturns := plays_turns hloop hs hbody (Nat.le_refl r.steps) (Nat.lt_succ_self r₃.steps)
    (by omega) (.refl ..) (tests_begun hloop) hm
  refine plays_bind.mpr (plays_tryCatch.mpr (hturns.mono (fun _ _ hp => hp) fun s r' hends => ?_))
  cases s with
  | left => exact hends
  | again | returned | finished | failed | out => exact hends

end Loops

section Subroutines

variable {p : Program} {c : Course} {place : Place} {below : List ActiveLoop} {k z : Nat}
  {taken : Assoc (Nat × Nat) Bool} {r : Progress} {opening : Entry} {name : String} {last : Nat}

/-- A subroutine that is met in sequence is passed over. -/
theorem follows_sub (hn : p.IsNested) (he : p.entries[k]? = some opening)
    (hc : opening.command = .sub name last) (hclose : Closes p.entries (.sub k name) z)
    (h : Arrives c r (place.flow p below taken k)) :
    Follows p c place below k (z + 1) taken (reach opening) r := by
  obtain rfl := hn.nested.closes_unique (hn.sub k opening name last he hc) hclose
  have hx : Leads (execute opening) (place.flow p below taken k) (.jump (last + 1))
      (place.flow p below taken k) := by
    rw [execute, hc]
    exact leads_pure _
  refine (plays_reach_arrives h rfl he (by rw [Flow.conditionOf?, hc]) hx rfl Ends.closes).mono
    (fun _ r₁ h₁ => ?_) fun _ _ he => he
  exact ⟨taken, .refl .., by omega, h₁.2⟩

end Subroutines

end CommandScript
