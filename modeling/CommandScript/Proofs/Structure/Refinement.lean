import CommandScript.Proofs.Engine.Reachable
import CommandScript.Proofs.Structure.Constructs

/-!
# The engine does what the tree means

A block is followed by recursion over the tree, and calls are followed by induction on the steps that
are left, since every call is one. So from the beginning of a program the course of the engine is the
one of the tree, in any number of steps.
-/

namespace CommandScript

open Engine

section Refinement

variable {p : Program} {c : Course} {place : Place} {below : List ActiveLoop} {t : Block}

/-- Behind a node of a block the same loops are open as in front of it. -/
theorem Place.Suits.behind (hn : p.IsNested) {rest : Block} {k j z : Nat}
    (h : place.Suits (loopsOf (p.around k)) below)
    (hj : CommandScript.around p.entries j = CommandScript.around p.entries k)
    (hrest : rest.Stands p.entries z j) : place.Suits (loopsOf (p.around z)) below := by
  have hz : p.around z = p.around k := (Block.around_eq hn.nested hrest).1.symm.trans hj
  rwa [hz]

mutual

theorem Block.follows (hn : p.IsNested) {call : Entry → Place → String → Structured Unit}
    {bound : Nat} (hcall : FollowsCalls p c call bound) :
    ∀ {b : Block} {place : Place} {k j : Nat} {taken : Assoc (Nat × Nat) Bool} {r : Progress},
      b.Stands p.entries k j → place.Suits (loopsOf (p.around k)) below →
      Arrives c r (place.flow p below taken k) → r.steps ≤ bound →
      Follows p c place below k j taken (b.play call place) r
  | .nil, _, _, _, _, _, rfl, _, h, _ => by
    rw [Block.play]
    exact h.follows_pure
  | .command entry rest, place, k, j, taken, r, hb, hs, h, hr => by
    obtain ⟨hj, -⟩ := Block.around_eq hn.nested hb
    obtain ⟨he, hsimple, hrest⟩ := hb
    obtain ⟨-, hle⟩ := Block.around_eq hn.nested hrest
    rw [Block.play]
    refine (follows_play hn hcall he hsimple hs h hr).seq hle (Nat.le_succ k)
      fun taken' r' _ hr' h' => ?_
    exact Block.follows hn hcall hrest (hs.behind hn hj hrest) h' (Nat.le_trans hr' hr)
  | .chain condition opening body arms rest, place, k, j, taken, r, hb, hs, h, hr => by
    obtain ⟨hj, -⟩ := Block.around_eq hn.nested hb
    obtain ⟨a, z, he, hc, hbody, harms, hrest⟩ := hb
    obtain ⟨-, hle⟩ := Block.around_eq hn.nested hrest
    obtain ⟨-, hka⟩ := Block.around_eq hn.nested hbody
    have ha : p.around a = .chain k :: p.around k := around_chain_body hn.nested he hc hbody
    obtain ⟨-, haz⟩ := Arms.around_eq hn.nested ha harms
    have hkz : k ≤ z := by omega
    have hinside : p.around (k + 1) = .chain k :: p.around k :=
      (Block.around_eq hn.nested hbody).1.symm.trans ha
    rw [Block.play]
    refine (follows_if hn he hc hbody harms hs h (fun taken' r' hr' h' => ?_)
      fun taken' r' hr' hget h' => ?_).seq hle hkz fun taken' r' _ hr' h' => ?_
    · refine Block.follows hn hcall hbody ?_ h' (Nat.le_trans hr' hr)
      rwa [hinside]
    · refine Arms.follows hn hcall ha harms hget ?_ h' (Nat.le_trans hr' hr)
      rwa [ha]
    · exact Block.follows hn hcall hrest (hs.behind hn hj hrest) h' (Nat.le_trans hr' hr)
  | .loop id opening body ending rest, place, k, j, taken, r, hb, hs, h, hr => by
    obtain ⟨hj, -⟩ := Block.around_eq hn.nested hb
    obtain ⟨z, he, hc, hbody, ⟨hend, other, hother⟩, hrest⟩ := hb
    obtain ⟨-, hle⟩ := Block.around_eq hn.nested hrest
    have hkz : k ≤ z + 1 := by
      have := (Block.around_eq hn.nested hbody).2
      omega
    have hclose := closes_of_loop hn.nested he hc hbody hend hother
    have hinside : p.around (k + 1) = .loop id :: p.around k :=
      (around_succ he).trans (nest_of_opening (by rw [Entry.opening?, hc]))
    rw [Block.play]
    refine (follows_loop hn he hc hend hclose hs h fun {v taken' r'} hr' h' => ?_).seq hle hkz
      fun taken' r' _ hr' h' => ?_
    · refine Block.follows hn hcall hbody ?_ h' (Nat.le_trans hr' hr)
      rw [hinside]
      exact hs.inside id v
    · exact Block.follows hn hcall hrest (hs.behind hn hj hrest) h' (Nat.le_trans hr' hr)
  | .sub name opening body ending rest, place, k, j, taken, r, hb, hs, h, hr => by
    obtain ⟨hj, -⟩ := Block.around_eq hn.nested hb
    obtain ⟨z, he, ⟨last, hc⟩, hbody, ⟨hend, hother⟩, hrest⟩ := hb
    obtain ⟨-, hle⟩ := Block.around_eq hn.nested hrest
    have hkz : k ≤ z + 1 := by
      have := (Block.around_eq hn.nested hbody).2
      omega
    have hclose := closes_of_sub hn.nested he hc hbody hend hother
    rw [Block.play]
    refine (follows_sub hn he hc hclose h).seq hle hkz fun taken' r' _ hr' h' => ?_
    exact Block.follows hn hcall hrest (hs.behind hn hj hrest) h' (Nat.le_trans hr' hr)

theorem Arms.follows (hn : p.IsNested) {call : Entry → Place → String → Structured Unit}
    {bound : Nat} (hcall : FollowsCalls p c call bound) {i : Nat} {outer : List Opening} :
    ∀ {arms : Arms} {place : Place} {a z : Nat} {taken : Assoc (Nat × Nat) Bool} {r : Progress},
      p.around a = .chain i :: outer → arms.Stands p.entries a z →
      taken.get? (place.depth, i) = some false → place.Suits (loopsOf (p.around a)) below →
      Arrives c r (place.flow p below taken a) → r.steps ≤ bound →
      Follows p c place below i z taken (arms.play call place) r
  | .ending entry, _, a, _, _, _, ha, ⟨he, hc, rfl⟩, _, _, h, _ => by
    have hclose : Closes p.entries (.chain i) a :=
      ⟨entry, he, by rw [Entry.closes, hc], (congrArg List.head? ha).trans List.head?_cons⟩
    rw [Arms.play]
    exact follows_endIf hn hclose he hc h
  | .arm condition marker body arms, place, a, z, taken, r, ha, ⟨b, he, hc, hbody, harms⟩, hget, hs,
      h, hr => by
    have hinside : p.around (a + 1) = p.around a :=
      (around_succ he).trans (Entry.nest_of_marks (Entry.marks_of_armCommand hc))
    have hb : p.around b = p.around a := (Block.around_eq hn.nested hbody).1.trans hinside
    rw [Arms.play]
    refine follows_arm hn ha he hc hbody harms hget hs h (fun taken' r' hr' h' => ?_)
      fun taken' r' hr' hget' h' => ?_
    · refine Block.follows hn hcall hbody ?_ h' (Nat.le_trans hr' hr)
      rwa [hinside]
    · refine Arms.follows hn hcall (hb.trans ha) harms hget' ?_ h' (Nat.le_trans hr' hr)
      rwa [hb]

end

/-- What a call stops with inside its subroutine leads on behind the call. -/
theorem Ends.of_call {frame : Frame} {lo hi k : Nat} {taken : Assoc (Nat × Nat) Bool}
    {steps : Nat} {s : Stop} {r : Progress} (hframe : frame.callIndex = k)
    (h : Ends p c (place.called frame) (place.loops ++ below) lo hi taken steps s r) :
    match s with
    | .returned => Passes p c place below k (k + 1) taken steps r
    | s => Ends p c place below k (k + 1) taken steps s r := by
  cases h with
  | again hl => cases hl
  | left hl => cases hl
  | returned hcalls hbelow hr ha =>
    obtain ⟨rfl, rfl⟩ := List.cons.inj hcalls
    subst hframe
    exact ⟨_, .of_call hbelow, hr, ha⟩
  | finished hc => exact .finished hc
  | failed hc => exact .failed hc
  | out hc => exact .out hc

theorem Block.follows_call (hn : p.IsNested) (ht : t.Stands p.entries 0 p.size) (fuel : Nat) :
    FollowsCalls p c (t.call fuel) fuel := by
  induction fuel with
  | zero => exact fun _ _ _ hlt => absurd hlt (Nat.not_lt_zero _)
  | succ fuel ih =>
    intro place below taken r k target entry name ids he hc hs hr h
    obtain ⟨body, ending, z, hsub, hbody, hend, hcommand⟩ :=
      hn.sub?_eq ht (hn.gosub k entry name target he hc)
    have hindex : entry.index = k := hn.nested.index_eq he
    have hinside : loopsOf (p.around (target + 1)) = [] := by
      rw [(hn.around_target he hc).1]
      rfl
    unfold Block.call
    rw [hsub, hindex]
    dsimp only
    have hm := h.congr fun e _ => run_call
    refine (plays_perform_of hm (fun e w he hd => same_beginCall he rfl hd) Ends.closes).bind
      (fun _ r₁ h₁ => ?_) fun _ _ he => he
    have hinner : (place.called ⟨k, name⟩).Suits (loopsOf (p.around (target + 1)))
        (place.loops ++ below) := by
      rw [hinside]
      exact hs.called _
    have harrives := h₁.2.arrives (leads_pure _) rfl
    have hfollows := Block.follows hn ih hbody hinner harrives (by omega)
    have hcalled : Plays (do
        body.play (t.call fuel) (place.called ⟨k, name⟩)
        reach ending
        endCall ending (place.called ⟨k, name⟩) none) r₁ (fun _ _ => False)
        (Ends p c (place.called ⟨k, name⟩) (place.loops ++ below) (target + 1) z taken r.steps) := by
      refine Plays.bind hfollows (fun _ r₂ h₂ => ?_) fun _ _ he =>
        he.mono (.refl ..) (Nat.le_refl _) (Nat.le_refl _) (Nat.le_of_eq h₁.1)
      obtain ⟨taken', hw, hr₂, harrives⟩ := h₂
      refine (plays_reach_midway harrives rfl hend (by rw [Flow.conditionOf?, hcommand])
        Ends.closes).bind (fun _ r₃ h₃ => ?_) fun _ _ he => he
      have hm := h₃.2
      rw [execute, hcommand] at hm
      have hr₃ : r₃.steps ≤ r.steps := by omega
      refine (plays_endCall hinner hm hr₃).mono (fun _ _ h => h)
        fun _ _ he => he.mono hw (Nat.le_refl _) (Nat.le_refl _) (Nat.le_refl _)
    refine plays_tryCatch.mpr (hcalled.mono (fun _ _ h => h.elim) fun s r' hends => ?_)
    have hback : (⟨k, name⟩ : Frame).callIndex = k := rfl
    have hends := Ends.of_call hback hends
    cases s with
    | returned => exact hends
    | again | left | finished | failed | out => exact hends

/-- Behind the last command nothing is left to be done. -/
def Over (c : Course) : Stop → Progress → Prop
  | .failed f, r => c = ⟨r.events, some f, r.world.data⟩
  | _, r => c = ⟨r.events, none, r.world.data⟩

theorem Over.closes : c.Closes (Over c) := ⟨fun _ h => h, fun _ h => h, fun _ _ h => h⟩

theorem Ends.over {lo hi : Nat} {taken : Assoc (Nat × Nat) Bool} {steps : Nat} {s : Stop}
    {r : Progress} (h : Ends p c {} below lo hi taken steps s r) : Over c s r := by
  cases h with
  | again hl => cases hl
  | left hl => cases hl
  | returned hcalls => cases hcalls
  | finished hc => exact hc
  | failed hc => exact hc
  | out hc => exact hc

theorem Block.course_eq (hn : p.IsNested) (ht : t.Stands p.entries 0 p.size)
    (hlength : t.entries.length = p.size) {e : Engine} (he : e.flow = Flow.start p) (n : Nat) :
    e.course n [] = t.course n e := by
  have hs : ({} : Place).Suits (loopsOf (p.around 0)) [] :=
    ⟨rfl, fun l hl => absurd hl List.not_mem_nil⟩
  have h : Arrives (e.course n []) { world := e, steps := n } (({} : Place).flow p [] [] 0) :=
    ⟨e, he, rfl, rfl⟩
  have hplays : Plays (do t.play (t.call n) {}; spend; quit t.entries.length)
      { world := e, steps := n } (fun _ _ => False) (Over (e.course n [])) := by
    refine Plays.bind (Block.follows hn (Block.follows_call hn ht n) ht hs h (Nat.le_refl _))
      (fun _ r' hp => ?_) fun _ _ hends => hends.over
    obtain ⟨taken', -, -, harrives⟩ := hp
    have hend : p.commands[p.size]? = none := Array.getElem?_eq_none (Nat.le_refl _)
    exact plays_end harrives rfl hend hlength Over.closes
  unfold Plays at hplays
  unfold Block.course
  dsimp only
  split at hplays
  · exact hplays.elim
  · rename_i s r' hrun
    rw [hrun]
    cases s <;> exact hplays

end Refinement

namespace Script

variable {settings : Settings} {script : String} {log : Log} {p : Program}

/-- The commands of a script that compiles are a tree, and from the beginning the engine does what the
tree means, in any number of steps. -/
theorem refines_of_compile (h : (compile settings script log).1 = .ok p) :
    ∃ t, group p.entries = some t ∧
      ∀ (e : Engine) (n : Nat), e.flow = Flow.start p → e.course n [] = t.course n e := by
  have hn := isNested_of_compile h
  obtain ⟨t, hgroup, ht⟩ := hn.group
  have hlength : t.entries.length = p.size := by rw [entries_of_group hgroup, p.length_entries]
  exact ⟨t, hgroup, fun e n he => Block.course_eq hn ht hlength he n⟩

/-- What happens in `blocks`: a branch goes on with its loop, another one leaves a loop, and a call
returns from a third. -/
def blocksEvents : List Event :=
  [.reached 0, .reached 1, .reached 2, .evaluated 2 false, .reached 4, .reached 5, .reached 6,
    .reached 8, .reached 9, .reached 2, .evaluated 2 true, .reached 3, .reached 2,
    .evaluated 2 false, .reached 4, .reached 5, .reached 6, .reached 8, .reached 9, .reached 10,
    .reached 13, .reached 14, .evaluated 14 true, .reached 15, .reached 11]

theorem refines_blocks :
    ∃ p t e, (compile {} blocks).1 = .ok p ∧ group p.entries = some t ∧ e.flow = Flow.start p ∧
      (t.course 40 e).events = blocksEvents := by
  have h : (match (compile {} blocks).1 with
      | .error _ => false
      | .ok p => (((prepare {}).run (bare p)).2.course 40 []).events == blocksEvents) = true := by
    decide +kernel
  cases hp : (compile {} blocks).1 with
  | error f =>
    rw [hp] at h
    cases h
  | ok p =>
    rw [hp] at h
    obtain ⟨t, hgroup, hcourse⟩ := refines_of_compile hp
    have hflow : ((prepare {}).run (bare p)).2.flow = Flow.start p := (plain_prepare {}).flow _
    refine ⟨p, t, ((prepare {}).run (bare p)).2, rfl, hgroup, hflow, ?_⟩
    rw [← hcourse _ 40 hflow]
    exact eq_of_beq h

end Script

end CommandScript
