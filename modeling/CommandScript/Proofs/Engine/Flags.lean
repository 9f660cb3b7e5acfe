import CommandScript.Proofs.Engine.Scope
import CommandScript.Proofs.Engine.Supply

/-!
# Flags of chains

While a chain is gone through, a flag at the depth of its call says whether one of its branches was
taken. `Flow.Steady` says that there is a flag for every chain around the next command and around
every call in progress, and that the calls and loops in progress belong to their places. It survives
the commands and their faults, and a steady flow supplies its next command.
-/

namespace CommandScript

namespace Program

/-- Every chain around the command at `k` has a flag at the depth. -/
def Flagged (p : Program) (taken : Assoc (Nat × Nat) Bool) (depth k : Nat) : Prop :=
  ∀ i ∈ chainsOf (p.around k), (taken.get? (depth, i)).isSome = true

/-- So it is at the command at `k` and where the calls were made. -/
def Flags (p : Program) (taken : Assoc (Nat × Nat) Bool) : List Frame → Nat → Prop
  | [], k => p.Flagged taken 0 k
  | frame :: calls, k =>
    p.Flagged taken (calls.length + 1) k ∧ p.Flags taken calls frame.callIndex

variable {p : Program} {taken taken' : Assoc (Nat × Nat) Bool} {calls : List Frame} {j k : Nat}

theorem Flags.here (h : p.Flags taken calls k) : p.Flagged taken calls.length k := by
  cases calls with
  | nil => exact h
  | cons frame calls => exact h.1

/-- A move to another place, where flags below the depth stay. -/
theorem Flags.change (h : p.Flags taken calls k)
    (hbelow : ∀ d i, d < calls.length → taken'.get? (d, i) = taken.get? (d, i))
    (hj : p.Flagged taken' calls.length j) : p.Flags taken' calls j := by
  induction calls generalizing j k with
  | nil => exact hj
  | cons frame calls ih =>
    refine ⟨hj, ih h.2 (fun d i hd => hbelow d i (Nat.lt_succ_of_lt hd)) fun i hi => ?_⟩
    rw [hbelow _ _ (Nat.lt_succ_self _)]
    exact h.2.here i hi

theorem Flags.move (h : p.Flags taken calls k)
    (hj : chainsOf (p.around j) ⊆ chainsOf (p.around k)) : p.Flags taken calls j :=
  h.change (fun _ _ _ => rfl) fun i hi => h.here i (hj hi)

theorem Flags.stay (h : p.Flags taken calls k)
    (hj : chainsOf (p.around j) = chainsOf (p.around k)) : p.Flags taken calls j :=
  h.move (hj ▸ List.Subset.refl _)

theorem Flags.move_into (h : p.Flags taken calls k) {i : Nat}
    (hi : (taken.get? (calls.length, i)).isSome = true)
    (hj : chainsOf (p.around j) ⊆ i :: chainsOf (p.around k)) : p.Flags taken calls j :=
  h.change (fun _ _ _ => rfl) fun i' hi' => by
    rcases List.mem_cons.mp (hj hi') with rfl | hi'
    · exact hi
    · exact h.here i' hi'

theorem Flags.put (h : p.Flags taken calls k) {i : Nat} {b : Bool}
    (hj : chainsOf (p.around j) ⊆ i :: chainsOf (p.around k)) :
    p.Flags (taken.put (calls.length, i) b) calls j := by
  refine h.change (fun d i' hd => ?_) fun i' hi' => ?_
  · rw [Assoc.get?_put, if_neg fun heq => Nat.ne_of_gt hd (congrArg Prod.fst heq)]
  · rw [Assoc.get?_put]
    split
    · rfl
    · rename_i hne
      rcases List.mem_cons.mp (hj hi') with rfl | hi'
      · exact absurd rfl hne
      · exact h.here i' hi'

theorem Flags.erase (h : p.Flags taken calls k) {i : Nat}
    (hk : chainsOf (p.around k) = i :: chainsOf (p.around j)) (hi : i ∉ chainsOf (p.around j)) :
    p.Flags (taken.erase (calls.length, i)) calls j := by
  refine h.change (fun d i' hd => ?_) fun i' hi' => ?_
  · rw [Assoc.get?_erase, if_neg fun heq => Nat.ne_of_gt hd (congrArg Prod.fst heq)]
  · have hne : (calls.length, i) ≠ (calls.length, i') := fun heq => by
      cases heq
      exact hi hi'
    rw [Assoc.get?_erase, if_neg hne]
    exact h.here i' (hk ▸ List.mem_cons_of_mem i hi')

namespace IsNested

/-- From one member of a chain to a later one the chains around stay the same, but an `IF` opens its
own. -/
theorem chains_of_member (hn : p.IsNested) {chain : Chain}
    (hchain : p.chains.chainOf k = .ok chain)
    (hj : j ∈ chain.branches ∨ chain.endIndex = some j) :
    chain.ifIndex = k ∧ chainsOf (p.around j) = k :: chainsOf (p.around k) ∨
      chainsOf (p.around j) = chainsOf (p.around k) := by
  obtain ⟨hget, hfrom⟩ := hn.chainOf_ok.mp hchain
  have hto := hn.around_member hget hj
  rcases hfrom with rfl | hfrom
  · exact .inl ⟨rfl, by rw [hto, chainsOf_chain]⟩
  · exact .inr (by rw [hto, hn.around_member hget hfrom])

theorem chains_of_loop (hn : p.IsNested) {id : LoopId}
    (h : (loopsOf (p.around k)).head? = some id) :
    chainsOf (p.around id.index) ⊆ chainsOf (p.around k) := by
  obtain ⟨before, hsplit, -⟩ := hn.nested.around_loop h
  have hk : chainsOf (p.around k) = chainsOf before ++ chainsOf (p.around id.index) := by
    rw [Program.around, hsplit, chainsOf_append, chainsOf_loop, Program.around]
  rw [hk]
  exact List.subset_append_right _ _

end IsNested

/-! ### Flags along the moves of commands -/

section Moves

variable {chain : Chain} {entry : Entry}

/-- To a later member of a chain whose flag stands. -/
theorem Flags.member (h : p.Flags taken calls k) (hn : p.IsNested)
    (hchain : p.chains.chainOf k = .ok chain)
    (hj : j ∈ chain.branches ∨ chain.endIndex = some j)
    (hflag : (taken.get? (calls.length, chain.ifIndex)).isSome = true) : p.Flags taken calls j := by
  refine h.move_into hflag fun i hi => ?_
  rcases hn.chains_of_member hchain hj with ⟨hif, heq⟩ | heq
  · rw [hif]
    exact heq ▸ hi
  · exact List.mem_cons_of_mem _ (heq ▸ hi)

/-- Past an `ENDIF`, which forgets the flag of its chain. -/
theorem Flags.endIf (h : p.Flags taken calls k) (hn : p.IsNested)
    (he : p.entries[k]? = some entry) (hc : entry.command = .endIf)
    (hchain : p.chains.chainOf k = .ok chain) :
    p.Flags (taken.erase (calls.length, chain.ifIndex)) calls (k + 1) := by
  obtain ⟨i, hclose, hhere, hbehind⟩ := hn.around_endIf he hc
  rw [hn.chainOf_eq (hn.nested.index_lt_of_closes hclose).2 (.inr (.inr hclose))] at hchain
  cases hchain
  refine h.erase (i := i) ?_ ?_
  · rw [hbehind, hhere, chainsOf_chain]
  · rw [hbehind, mem_chainsOf]
    exact hn.nested.not_mem_around_index

/-- Out of a call, whose flags are forgotten. -/
theorem Flags.returned {frame : Frame} (h : p.Flags taken (frame :: calls) k) (hn : p.IsNested)
    (hcall : p.LeadsTo (frame :: calls) k) :
    p.Flags (taken.filter fun entry => entry.1.1 != calls.length + 1) calls
      (frame.callIndex + 1) := by
  cases hcall with
  | call _ he hc _ =>
    refine h.2.change (fun d i hd => get?_filter_depth (by omega) _) fun i hi => ?_
    rw [(hn.around_behind_call he hc).1] at hi
    rw [get?_filter_depth (by omega)]
    exact h.2.here i hi

end Moves

end Program

namespace Engine

namespace Flow

variable {f f' : Flow} {entry : Entry} {m : Move} {id : LoopId} {j : Nat}

/-! ### A loop that is about to be begun anew -/

/-- The loops in progress, without the one that the next command begins. -/
def settledLoops (f : Flow) : List ActiveLoop :=
  match f.program.entries[f.next]?.map Entry.command with
  | some (.for_ id) => f.loops.filter fun l => !isRun f.depth id l
  | _ => f.loops

/-- The flow as its next command sees it: what a fault left of a loop that is begun anew does not
count. -/
def settled (f : Flow) : Flow := { f with loops := f.settledLoops }

theorem settledLoops_of_for (he : f.program.entries[f.next]? = some entry)
    (hc : entry.command = .for_ id) :
    f.settledLoops = f.loops.filter fun l => !isRun f.depth id l := by
  simp only [settledLoops, he, Option.map_some, hc]

theorem settled_of_not (he : f.program.entries[f.next]? = some entry)
    (hc : ∀ id, entry.command ≠ .for_ id) : f.settled = f := by
  rw [settled, settledLoops, he]
  split
  · rename_i id hid
    exact absurd (Option.some.inj hid) (hc id)
  · rfl

theorem Scoped.settled_eq (h : f.Scoped) (hn : f.program.IsNested) : f.settled = f := by
  rw [settled, settledLoops]
  split
  · rename_i id hid
    obtain ⟨entry, he, hc⟩ := Option.map_eq_some_iff.mp hid
    rw [h.filter_loops hn (hn.nested.opens_loop he hc).1]
  · rfl

/-- In front of a `FOR`, runs of its loop do not count. -/
theorem settled_congr (he : f.program.entries[f.next]? = some entry) (hc : entry.command = .for_ id)
    {loops : List ActiveLoop} (h : (loops.filter fun l => !isRun f.depth id l) =
      f.loops.filter fun l => !isRun f.depth id l) :
    settled { f with loops } = f.settled := by
  have hloops : ({ f with loops } : Flow).settledLoops = f.settledLoops :=
    (settledLoops_of_for (f := { f with loops }) he hc).trans
      (h.trans (settledLoops_of_for he hc).symm)
  exact congrArg (fun loops => { f with loops }) hloops

theorem filter_filter_isRun (depth : Nat) (id : LoopId) (loops : List ActiveLoop) :
    ((loops.filter fun l => !isRun depth id l).filter fun l => !isRun depth id l) =
      loops.filter fun l => !isRun depth id l := by
  rw [List.filter_filter]
  simp only [Bool.and_self]

theorem not_for_of_goesOnWith (h : goesOnWith? entry.command = some id) (other : LoopId) :
    entry.command ≠ .for_ other := by
  intro hc
  rw [hc] at h
  cases h

end Flow

variable {f f' : Flow} {entry : Entry} {m : Move} {id : LoopId} {j : Nat}

/-- A command does to the flow what it does to the settled one. -/
theorem Effect.settled (h : Effect f entry m f') (he : f.program.entries[f.next]? = some entry) :
    Effect f.settled entry m f' := by
  by_cases hfor : ∃ id, entry.command = .for_ id
  · obtain ⟨id, hid⟩ := hfor
    have hloops := Flow.settledLoops_of_for he hid
    have hsame : (f.settledLoops.filter fun l => !isRun f.depth id l) = f.settledLoops := by
      rw [hloops, Flow.filter_filter_isRun]
    cases h with
    | @loopBegun other v hc =>
      cases hid.symm.trans hc
      have := Effect.loopBegun (f := f.settled) (v := v) hid
      rw [show f.settled.loops = f.settledLoops from rfl, show f.settled.depth = f.depth from rfl,
        hsame, hloops] at this
      exact this
    | @loopPassed other loop j hc hloop hexit =>
      cases hid.symm.trans hc
      have := Effect.loopPassed (f := f.settled) hid hloop hexit
      rw [show f.settled.loops = f.settledLoops from rfl, show f.settled.depth = f.depth from rfl,
        hsame, hloops] at this
      exact this
    | _ => simp_all [Command.steers, Entry.marks, goesOnWith?, leaves?]
  · rwa [Flow.settled_of_not he fun id hid => hfor ⟨id, hid⟩]

namespace Flow

/-- The calls and loops in progress belong to the next command, and its chains have flags. -/
structure Steady (f : Flow) : Prop where
  settled : f.settled.Scoped
  flags : f.program.Flags f.taken f.calls f.next

namespace Steady

theorem failure (h : f.Steady) (hn : f.program.IsNested)
    (he : f.program.entries[f.next]? = some entry) (hx : Failure f entry f') : f'.Steady := by
  cases hx with
  | same => exact h
  | dropped hc =>
    refine ⟨?_, h.flags⟩
    rw [settled_congr he hc (filter_filter_isRun ..)]
    exact h.settled
  | @begun id v hc =>
    have hrun : isRun f.depth id ⟨f.depth, id, v⟩ = true := isRun_iff.mpr rfl
    refine ⟨?_, h.flags⟩
    rw [settled_congr he hc (by rw [List.filter_cons_of_neg (by simp [hrun]), filter_filter_isRun])]
    exact h.settled
  | @again id after run before v hc hr =>
    have hscoped := h.settled
    rw [settled_of_not he (not_for_of_goesOnWith hc)] at hscoped
    have hkept : Scoped { f with loops := after ++ { run with value := v } :: before } := by
      refine hscoped.move hscoped.next_lt rfl rfl ?_
      rw [hr.loops, List.map_append, List.map_append, List.map_cons, List.map_cons]
      rfl
    exact ⟨(hkept.settled_eq hn).symm ▸ hkept, h.flags⟩

theorem supplied (h : f.Steady) (hn : f.program.IsNested)
    (he : f.program.entries[f.next]? = some entry) : f.Supplied entry := by
  have hindex : entry.index = f.next := hn.nested.index_eq he
  have member (hm : (∃ c, entry.command = .if_ c) ∨ entry.marks = true ∨ entry.command = .endIf) :
      ∃ i j, Closes f.program.entries (.chain i) j ∧
        f.program.chains.chainOf entry.index = .ok (chainAt f.program.entries i) := by
    obtain ⟨i, ho, hi⟩ := hn.exists_member he hm
    obtain ⟨j, hclose⟩ := hn.exists_closes ho
    exact ⟨i, j, hclose, hindex ▸ hn.chainOf_eq ho hi⟩
  refine ⟨fun hm => ?chain, fun hm hchain => ?following, fun hm hchain => ?ending,
    fun hm hchain => ?taken, fun hid => ?loop, fun hid hloop => ?leaving, fun {id} hid => ?run⟩
  case chain =>
    obtain ⟨i, j, -, hchain⟩ := member hm
    exact ⟨_, hchain⟩
  case following =>
    obtain ⟨i, j, hclose, hother⟩ := member (hm.imp_right .inl)
    cases hchain.symm.trans hother
    exact hn.exists_following hclose entry.index
  case ending =>
    obtain ⟨i, j, hclose, hother⟩ := member (.inr (.inl hm))
    cases hchain.symm.trans hother
    exact ⟨j, hn.ending_eq hclose⟩
  case taken =>
    obtain ⟨i, hb, ho⟩ := hn.branch_owner he hm
    cases hchain.symm.trans (hindex ▸ hn.chainOf_eq ho (.inr (.inl hb)))
    obtain ⟨_, _, _, hx⟩ := Nested.mem_branchesOf.mp hb
    exact Option.isSome_iff_exists.mp (h.flags.here i (mem_chainsOf.mpr (List.mem_of_head? hx)))
  case loop =>
    obtain ⟨loop, j, hloop, -⟩ := hn.exists_loop (opens_of_uses hn he hid)
    exact ⟨loop, hloop⟩
  case leaving =>
    obtain ⟨other, j, hother, hexit⟩ := hn.exists_loop (opens_of_uses hn he hid)
    cases hloop.symm.trans hother
    exact ⟨j, hexit⟩
  case run =>
    have hnot (other : LoopId) : entry.command ≠ .for_ other := fun hc => by
      rcases hid with hid | hid <;> rw [hc] at hid <;> cases hid
    have hscoped := h.settled
    rw [settled_of_not he hnot] at hscoped
    have hmem : (f.depth, id) ∈ f.loops.map ActiveLoop.label := by
      rw [hscoped.loops, List.mem_append, List.mem_map]
      exact .inl ⟨id, List.mem_of_head? (head_loops_of_fits (hn.nested.fits he) hid), rfl⟩
    obtain ⟨l, hl, hlabel⟩ := List.mem_map.mp hmem
    exact ⟨l, hl, isRun_iff.mpr hlabel⟩

theorem flags_effect (h : f.Steady) (hn : f.program.IsNested)
    (he : f.program.entries[f.next]? = some entry) (hx : Effect f entry m f')
    (hj : m.target? f.next = some j) : f.program.Flags f'.taken f'.calls j := by
  have hindex : entry.index = f.next := hn.nested.index_eq he
  have hf : entry.Fits (f.program.around f.next) := hn.nested.fits he
  have hsucc : f.program.around (f.next + 1) = entry.nest (f.program.around f.next) :=
    around_succ he
  have past (ho : entry.opening? = none) (hc : entry.closes = false) :
      f.program.Flags f.taken f.calls (f.next + 1) :=
    h.flags.stay (congrArg chainsOf (Nested.around_succ_of_neither he ho hc))
  cases hx with
  | plain hs =>
    cases hj
    exact past (Entry.opening?_of_plain hs) (Entry.closes_of_plain hs)
  | ifTrue hc =>
    cases hj
    refine h.flags.put fun i hi => ?_
    rwa [hsucc, nest_of_opening (x := .chain entry.index) (by rw [Entry.opening?, hc]),
      chainsOf_chain] at hi
  | ifFalse hc hchain hfollowing =>
    cases hj
    refine h.flags.put fun i hi => ?_
    rw [hindex] at hchain ⊢
    rcases hn.chains_of_member hchain (Chain.following_ok hfollowing) with ⟨-, heq⟩ | heq
    · exact heq ▸ hi
    · exact List.mem_cons_of_mem _ (heq ▸ hi)
  | branchPassed hm hchain hending ht =>
    cases hj
    exact h.flags.member hn (hindex ▸ hchain) (.inr (Chain.ending_ok hending))
      (Option.isSome_of_eq_some ht)
  | branchFalse hc hchain hfollowing ht =>
    cases hj
    exact h.flags.member hn (hindex ▸ hchain) (Chain.following_ok hfollowing)
      (Option.isSome_of_eq_some ht)
  | branchTrue hm hchain ht =>
    cases hj
    refine h.flags.put fun i hi => List.mem_cons_of_mem _ ?_
    rwa [hsucc, Entry.nest_of_marks hm] at hi
  | endIf hc hchain =>
    cases hj
    exact h.flags.endIf hn he hc (hindex ▸ hchain)
  | @loopBegun id v hc =>
    cases hj
    refine h.flags.stay ?_
    rw [hsucc, nest_of_opening (x := .loop id) (by rw [Entry.opening?, hc]), chainsOf_loop]
  | @loopPassed id loop j hc hloop hexit =>
    cases hj
    exact h.flags.stay (by rw [(hn.around_exit hloop hexit).1, (hn.nested.opens_loop he hc).1])
  | @loopAgain id loop after run before v hc hloop hr =>
    cases hj
    refine h.flags.move ?_
    rw [(hn.around_body hloop).1, chainsOf_loop]
    exact hn.chains_of_loop (head_loops_of_fits hf (.inl hc))
  | loopLeft hc hloop hr hexit =>
    cases hj
    refine h.flags.move ?_
    rw [(hn.around_exit hloop hexit).1]
    exact hn.chains_of_loop (head_loops_of_fits hf hc)
  | loopKept hc =>
    cases hj
    rcases hc with hc | hc
    · exact past (by rw [Entry.opening?, hc]) (by rw [Entry.closes, hc])
    · exact past (by rw [Entry.opening?, hc]) (by rw [Entry.closes, hc])
  | sub hc =>
    cases hj
    exact h.flags.stay (congrArg chainsOf (hn.around_behind_sub he hc).1)
  | gosub hc =>
    cases hj
    refine ⟨fun i hi => ?_, hindex ▸ h.flags⟩
    rw [(hn.around_target he hc).1] at hi
    cases hi
  | @return_ frame calls hc hcalls =>
    cases hj
    have hflags := h.flags
    have hcall : f.program.LeadsTo f.calls f.next := h.settled.calls
    rw [hcalls] at hflags hcall
    rw [Flow.depth, hcalls]
    exact hflags.returned hn hcall
  | exit hc => cases hj

theorem effect (h : f.Steady) (hn : f.program.IsNested)
    (he : f.program.entries[f.next]? = some entry) (hx : Effect f entry m f')
    (hj : m.target? f.next = some j) : Steady { f' with next := j } := by
  have hmoved : Scoped { f' with next := j } := h.settled.effect hn he (hx.settled he) hj
  have hn' : f'.program.IsNested := hx.program_eq ▸ hn
  have hflags := h.flags_effect hn he hx hj
  exact ⟨(hmoved.settled_eq hn').symm ▸ hmoved, hx.program_eq ▸ hflags⟩

end Steady

end Flow

end Engine

end CommandScript
