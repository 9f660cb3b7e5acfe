import CommandScript.Proofs.Engine.Effect
import CommandScript.Proofs.Nesting.Program

/-!
# Calls and loops in progress

At compile time a command has a subroutine and loops around it. At run time there are calls and loops
in progress. `Flow.Scoped` says that these belong together: the subroutine that runs is the one
around the next command, every call was made from the subroutine that ran before, and the loops in
progress at a depth of calls are those around the place at that depth. No command breaks this.
-/

namespace CommandScript

/-- The command that a move leads to from the command at `k`. -/
def Move.target? (k : Nat) : Move → Option Nat
  | .next => some (k + 1)
  | .jump target => some target
  | .exit => none

namespace Program

/-- The loops around the commands that called, by depth. -/
def loopsBelow (p : Program) : List Frame → List (Nat × LoopId)
  | [] => []
  | frame :: calls =>
    (loopsOf (p.around frame.callIndex)).map (calls.length, ·) ++ p.loopsBelow calls

/-- The calls lead to the command at `k`: it lies in the subroutine that was called last, and every
call was made from the subroutine called before. -/
inductive LeadsTo (p : Program) : List Frame → Nat → Prop where
  | main {k : Nat} : subOf? (p.around k) = none → LeadsTo p [] k
  | call {frame : Frame} {calls : List Frame} {k target : Nat} {entry : Entry} :
      subOf? (p.around k) = some frame.subroutine → p.entries[frame.callIndex]? = some entry →
      entry.command = .gosub frame.subroutine target → LeadsTo p calls frame.callIndex →
      LeadsTo p (frame :: calls) k

namespace LeadsTo

variable {p : Program} {calls above below : List Frame} {frame : Frame} {j k : Nat}

theorem move (h : p.LeadsTo calls k) (hj : subOf? (p.around j) = subOf? (p.around k)) :
    p.LeadsTo calls j := by
  cases h with
  | main hsub => exact .main (hj.trans hsub)
  | call hsub he hc h => exact .call (hj.trans hsub) he hc h

theorem owner (h : p.LeadsTo calls k) : subOf? (p.around k) = calls.head?.map (·.subroutine) := by
  cases h with
  | main hsub => exact hsub
  | call hsub => exact hsub

theorem split (h : p.LeadsTo (above ++ frame :: below) k) :
    (∃ (entry : Entry) (target : Nat), p.entries[frame.callIndex]? = some entry ∧
      entry.command = .gosub frame.subroutine target) ∧ p.LeadsTo below frame.callIndex := by
  induction above generalizing k with
  | nil =>
    cases h with
    | call _ he hc h => exact ⟨⟨_, _, he, hc⟩, h⟩
  | cons other above ih =>
    cases h with
    | call _ _ _ h => exact ih h

end LeadsTo

theorem depth_lt_of_mem_loopsBelow {p : Program} {calls : List Frame} {x : Nat × LoopId}
    (h : x ∈ p.loopsBelow calls) : x.1 < calls.length := by
  induction calls with
  | nil => cases h
  | cons frame calls ih =>
    rw [loopsBelow, List.mem_append, List.mem_map] at h
    rcases h with ⟨id, -, rfl⟩ | h
    · exact Nat.lt_succ_self _
    · exact Nat.lt_succ_of_lt (ih h)

/-- The loops of a list that all run at a depth. -/
theorem filter_depth (d : Nat) (ids : List LoopId) :
    (ids.map (d, ·)).filter (fun x => x.1 == d) = ids.map (d, ·) := by
  refine List.filter_eq_self.mpr fun x hx => ?_
  obtain ⟨id, -, rfl⟩ := List.mem_map.mp hx
  exact beq_self_eq_true d

theorem filter_depth_of_ne {d d' : Nat} (h : d ≠ d') (ids : List LoopId) :
    (ids.map (d, ·)).filter (fun x => x.1 == d') = [] := by
  refine List.filter_eq_nil_iff.mpr fun x hx => ?_
  obtain ⟨id, -, rfl⟩ := List.mem_map.mp hx
  simpa using h

theorem filter_loopsBelow (p : Program) (calls : List Frame) :
    (p.loopsBelow calls).filter (fun x => x.1 == calls.length) = [] := by
  refine List.filter_eq_nil_iff.mpr fun x hx => ?_
  have := depth_lt_of_mem_loopsBelow hx
  simp only [beq_iff_eq]
  omega

theorem loopsBelow_at (p : Program) (above : List Frame) (frame : Frame) (below : List Frame) :
    (p.loopsBelow (above ++ frame :: below)).filter (fun x => x.1 == below.length) =
      (loopsOf (p.around frame.callIndex)).map (below.length, ·) := by
  induction above with
  | nil =>
    rw [List.nil_append, loopsBelow, List.filter_append, filter_depth, filter_loopsBelow,
      List.append_nil]
  | cons other above ih =>
    have hne : (above ++ frame :: below).length ≠ below.length := by
      rw [List.length_append, List.length_cons]
      omega
    rw [List.cons_append, loopsBelow, List.filter_append, filter_depth_of_ne hne, ih,
      List.nil_append]

end Program

namespace Entry

variable {entry : Entry}

theorem opening?_of_plain (h : entry.command.steers = false) : entry.opening? = none := by
  unfold opening?
  cases hc : entry.command <;> rw [hc] at h <;> first | rfl | cases h

theorem closes_of_plain (h : entry.command.steers = false) : entry.closes = false := by
  unfold closes
  cases hc : entry.command <;> rw [hc] at h <;> first | rfl | cases h

end Entry

/-- Forgetting the flags of a depth leaves those of other depths. -/
theorem get?_filter_depth {d depth i : Nat} (hd : d ≠ depth) (taken : Assoc (Nat × Nat) Bool) :
    Assoc.get? (d, i) (taken.filter fun entry => entry.1.1 != depth) = taken.get? (d, i) := by
  induction taken with
  | nil => rfl
  | cons entry rest ih =>
    obtain ⟨⟨d', i'⟩, b⟩ := entry
    rw [List.filter_cons]
    split
    · simp only [Assoc.get?, ih]
    · rename_i hkeep
      have hne : (d', i') ≠ (d, i) := by
        rintro heq
        obtain rfl := (Prod.mk.inj heq).1
        simp [hd] at hkeep
      rw [ih, Assoc.get?, if_neg hne]

def ActiveLoop.label (l : ActiveLoop) : Nat × LoopId := (l.depth, l.id)

namespace Engine

theorem isRun_iff {depth : Nat} {id : LoopId} {l : ActiveLoop} :
    isRun depth id l = true ↔ l.label = (depth, id) := by
  simp [isRun, ActiveLoop.label]

/-- The calls and loops in progress belong to the next command. -/
structure Flow.Scoped (f : Flow) : Prop where
  next_lt : f.next < f.program.size
  calls : f.program.LeadsTo f.calls f.next
  loops : f.loops.map ActiveLoop.label =
    (loopsOf (f.program.around f.next)).map (f.depth, ·) ++ f.program.loopsBelow f.calls

/-- A loop that a command goes on with or leaves is the innermost one. -/
theorem head_loops_of_fits {entry : Entry} {outer : List Opening} {id : LoopId}
    (hf : entry.Fits outer)
    (h : goesOnWith? entry.command = some id ∨ leaves? entry.command = some id) :
    (loopsOf outer).head? = some id := by
  unfold Entry.Fits at hf
  cases hc : entry.command <;> rw [hc] at hf h <;> simp [goesOnWith?, leaves?] at h
  case endFor =>
    obtain ⟨rest, rfl⟩ := List.head?_eq_some_iff.mp hf
    rw [loopsOf_loop, List.head?_cons, h]
  all_goals exact h ▸ hf

/-- A loop that a command begins, goes on with or leaves stands in the program. -/
theorem opens_of_uses {p : Program} {entry : Entry} {id : LoopId} {k : Nat} (hn : p.IsNested)
    (he : p.entries[k]? = some entry) (h : entry.command = .for_ id ∨
      goesOnWith? entry.command = some id ∨ leaves? entry.command = some id) :
    Opens p.entries (.loop id) := by
  rcases h with hc | hid
  · exact (hn.nested.opens_loop he hc).2
  · exact hn.nested.opens_of_head_loops (head_loops_of_fits (hn.nested.fits he) hid)

namespace Flow.Scoped

variable {f f' : Flow} {entry : Entry} {m : Move} {id : LoopId} {j : Nat}

/-- A move inside the same loops of the same subroutine. -/
theorem move (h : f.Scoped) {taken : Assoc (Nat × Nat) Bool} {loops : List ActiveLoop}
    (hlt : j < f.program.size)
    (hloops : loopsOf (f.program.around j) = loopsOf (f.program.around f.next))
    (hsub : subOf? (f.program.around j) = subOf? (f.program.around f.next))
    (hlabels : loops.map ActiveLoop.label = f.loops.map ActiveLoop.label) :
    Scoped { f with next := j, taken, loops } where
  next_lt := hlt
  calls := h.calls.move hsub
  loops := by
    rw [hlabels, h.loops, ← hloops]
    rfl

/-- The loops that a `FOR` drops were not in progress. -/
theorem filter_loops (h : f.Scoped) (hn : f.program.IsNested) (hid : id.index = f.next) :
    (f.loops.filter fun l => !isRun f.depth id l) = f.loops := by
  refine List.filter_eq_self.mpr fun l hl => ?_
  rw [Bool.not_eq_true', Bool.eq_false_iff, Ne, isRun_iff]
  intro hlabel
  have hmem := h.loops ▸ List.mem_map_of_mem (f := ActiveLoop.label) hl
  rw [hlabel, List.mem_append, List.mem_map] at hmem
  rcases hmem with ⟨other, hother, heq⟩ | hmem
  · cases heq
    have := (hn.nested.opens_of_mem (mem_loopsOf.mp hother)).1
    exact Nat.lt_irrefl _ (hid ▸ this)
  · exact Nat.lt_irrefl _ (Program.depth_lt_of_mem_loopsBelow hmem)

/-- The innermost loop is the one that was begun last. -/
theorem runs (h : f.Scoped) (hn : f.program.IsNested)
    (hhead : (loopsOf (f.program.around f.next)).head? = some id) {after before : List ActiveLoop}
    {run : ActiveLoop} (hr : f.Runs id after run before) :
    after = [] ∧ before.map ActiveLoop.label =
      (loopsOf (f.program.around id.index)).map (f.depth, ·) ++ f.program.loopsBelow f.calls := by
  have hcons := hn.nested.loopsOf_eq_cons hhead
  have hlabels := h.loops
  rw [hr.loops, Program.around, hcons, List.map_cons, List.cons_append] at hlabels
  cases after with
  | nil => exact ⟨rfl, (List.cons.inj hlabels).2⟩
  | cons l after =>
    have hl := isRun_iff.mpr (List.cons.inj hlabels).1
    rw [hr.after l List.mem_cons_self] at hl
    cases hl

theorem next_of_neither (h : f.Scoped) (hn : f.program.IsNested) {taken : Assoc (Nat × Nat) Bool}
    (he : f.program.entries[f.next]? = some entry) (ho : entry.opening? = none)
    (hc : entry.closes = false) (hexit : entry.command ≠ .exit) :
    Scoped { f with next := f.next + 1, taken } := by
  have hsame : f.program.around (f.next + 1) = f.program.around f.next :=
    Nested.around_succ_of_neither he ho hc
  exact h.move (hn.succ_lt he hexit) (by rw [hsame]) (by rw [hsame]) rfl

/-- A jump to a later member of the same chain. -/
theorem jump_chain (h : f.Scoped) (hn : f.program.IsNested) {chain : Chain}
    {taken : Assoc (Nat × Nat) Bool} (hchain : f.program.chains.chainOf f.next = .ok chain)
    (hj : j ∈ chain.branches ∨ chain.endIndex = some j) : Scoped { f with next := j, taken } := by
  obtain ⟨hget, hmember⟩ := hn.chainOf_ok.mp hchain
  have hto := hn.around_member hget hj
  rcases hmember with hfrom | hfrom
  · rw [← hfrom] at hto
    exact h.move (hn.member_lt hget hj) (by rw [hto, loopsOf_chain]) (by rw [hto, subOf?_chain]) rfl
  · have hfrom := hn.around_member hget hfrom
    exact h.move (hn.member_lt hget hj) (by rw [hto, hfrom]) (by rw [hto, hfrom]) rfl

theorem loopLeft (h : f.Scoped) (hn : f.program.IsNested) {loop : Loop}
    (hhead : (loopsOf (f.program.around f.next)).head? = some id) {after before : List ActiveLoop}
    {run : ActiveLoop} (hloop : f.program.loops.loop id = .ok loop) (hr : f.Runs id after run before)
    (hexit : loop.exitIndex = .ok j) : Scoped { f with next := j, loops := before } := by
  obtain ⟨hsame, hlt⟩ := hn.around_exit hloop hexit
  refine ⟨hlt, h.calls.move ?_, ?_⟩
  · rw [hsame]
    exact (hn.nested.subOf?_eq hhead).symm
  · rw [(h.runs hn hhead hr).2, ← hsame]
    rfl

theorem gosub (h : f.Scoped) (hn : f.program.IsNested) {name : String} {target : Nat}
    (he : f.program.entries[f.next]? = some entry) (hc : entry.command = .gosub name target) :
    Scoped { f with next := target + 1, calls := ⟨f.next, name⟩ :: f.calls } := by
  obtain ⟨hin, hlt⟩ := hn.around_target he hc
  refine ⟨hlt, .call (by rw [hin, subOf?_sub]) he hc h.calls, ?_⟩
  show f.loops.map ActiveLoop.label = _
  rw [hin, loopsOf_sub, loopsOf_nil, h.loops]
  rfl

theorem return_ (h : f.Scoped) (hn : f.program.IsNested) {frame : Frame} {calls : List Frame}
    {taken : Assoc (Nat × Nat) Bool} (hcalls : f.calls = frame :: calls) :
    Scoped { f with
      next := frame.callIndex + 1
      calls
      loops := f.loops.filter fun l => l.depth != f.depth
      taken } := by
  have hcall := h.calls
  rw [hcalls] at hcall
  cases hcall with
  | @call _ _ _ target entry hsub he hc hbelow =>
    obtain ⟨hsame, hlt⟩ := hn.around_behind_call he hc
    refine ⟨hlt, hbelow.move (by rw [hsame]), ?_⟩
    -- the loops of the call that ends are all of its depth, those below it are all of another one
    have hfilter : (f.loops.filter fun l => l.depth != f.depth).map ActiveLoop.label =
        (f.loops.map ActiveLoop.label).filter fun x => x.1 != f.depth := by
      rw [List.filter_map]
      rfl
    have hhere : ((loopsOf (f.program.around f.next)).map (f.depth, ·)).filter
        (fun x => x.1 != f.depth) = [] := by
      refine List.filter_eq_nil_iff.mpr fun x hx => ?_
      obtain ⟨id, -, rfl⟩ := List.mem_map.mp hx
      simp
    have hkept : (f.program.loopsBelow f.calls).filter (fun x => x.1 != f.depth) =
        f.program.loopsBelow f.calls := by
      refine List.filter_eq_self.mpr fun x hx => ?_
      have := Program.depth_lt_of_mem_loopsBelow hx
      simp only [bne_iff_ne, Flow.depth]
      omega
    show (f.loops.filter fun l => l.depth != f.depth).map ActiveLoop.label = _
    rw [hfilter, h.loops, List.filter_append, hhere, hkept, List.nil_append, hcalls, hsame]
    rfl

theorem effect (h : f.Scoped) (hn : f.program.IsNested)
    (he : f.program.entries[f.next]? = some entry) (hx : Effect f entry m f')
    (hj : m.target? f.next = some j) : Scoped { f' with next := j } := by
  have hindex : entry.index = f.next := hn.nested.index_eq he
  have hf : entry.Fits (f.program.around f.next) := hn.nested.fits he
  have hsucc : f.program.around (f.next + 1) = entry.nest (f.program.around f.next) :=
    around_succ he
  cases hx with
  | plain hs =>
    cases hj
    exact h.next_of_neither hn he (Entry.opening?_of_plain hs) (Entry.closes_of_plain hs)
      fun hc => by rw [hc] at hs; cases hs
  | ifTrue hc =>
    cases hj
    rw [nest_of_opening (x := .chain entry.index) (by rw [Entry.opening?, hc])] at hsucc
    exact h.move (hn.succ_lt he (by simp [hc])) (by rw [hsucc, loopsOf_chain])
      (by rw [hsucc, subOf?_chain]) rfl
  | ifFalse hc hchain hfollowing =>
    cases hj
    exact h.jump_chain hn (hindex ▸ hchain) (Chain.following_ok hfollowing)
  | branchPassed hm hchain hending ht =>
    cases hj
    exact h.jump_chain hn (hindex ▸ hchain) (.inr (Chain.ending_ok hending))
  | branchFalse hc hchain hfollowing ht =>
    cases hj
    exact h.jump_chain hn (hindex ▸ hchain) (Chain.following_ok hfollowing)
  | branchTrue hm hchain ht =>
    cases hj
    exact h.next_of_neither hn he (Entry.opening?_eq_none_of_marks hm)
      (Entry.closes_eq_false_of_marks hm) fun hc => by rw [Entry.marks, hc] at hm; cases hm
  | endIf hc hchain =>
    cases hj
    obtain ⟨i, -, hhere, hbehind⟩ := hn.around_endIf he hc
    exact h.move (hn.succ_lt he (by simp [hc])) (by rw [hbehind, hhere, loopsOf_chain])
      (by rw [hbehind, hhere, subOf?_chain]) rfl
  | @loopBegun id v hc =>
    cases hj
    have hid := (hn.nested.opens_loop he hc).1
    rw [nest_of_opening (x := .loop id) (by rw [Entry.opening?, hc])] at hsucc
    refine ⟨hn.succ_lt he (by simp [hc]), h.calls.move (by rw [hsucc, subOf?_loop]), ?_⟩
    show (_ :: f.loops.filter _).map ActiveLoop.label = _
    rw [h.filter_loops hn hid, List.map_cons, h.loops, hsucc, loopsOf_loop]
    rfl
  | @loopPassed id loop j hc hloop hexit =>
    cases hj
    have hid := (hn.nested.opens_loop he hc).1
    obtain ⟨hsame, hlt⟩ := hn.around_exit hloop hexit
    rw [hid] at hsame
    exact h.move hlt (by rw [hsame]) (by rw [hsame]) (by rw [h.filter_loops hn hid])
  | @loopAgain id loop after run before v hc hloop hr =>
    cases hj
    have hhead := head_loops_of_fits hf (.inl hc)
    obtain ⟨hin, hlt⟩ := hn.around_body hloop
    refine h.move hlt ?_ ?_ ?_
    · rw [hin, loopsOf_loop]
      exact (hn.nested.loopsOf_eq_cons hhead).symm
    · rw [hin, subOf?_loop]
      exact (hn.nested.subOf?_eq hhead).symm
    · rw [hr.loops, List.map_append, List.map_append, List.map_cons, List.map_cons]
      rfl
  | loopLeft hc hloop hr hexit =>
    cases hj
    exact h.loopLeft hn (head_loops_of_fits hf hc) hloop hr hexit
  | loopKept hc =>
    cases hj
    have hkept : entry.opening? = none ∧ entry.closes = false ∧ entry.command ≠ .exit := by
      rcases hc with hc | hc <;> simp [hc, Entry.opening?, Entry.closes]
    exact h.next_of_neither hn he hkept.1 hkept.2.1 hkept.2.2
  | @sub name last hc =>
    cases hj
    obtain ⟨hsame, hlt⟩ := hn.around_behind_sub he hc
    exact h.move hlt (by rw [hsame]) (by rw [hsame]) rfl
  | gosub hc =>
    cases hj
    rw [hindex]
    exact h.gosub hn he hc
  | return_ hc hcalls =>
    cases hj
    exact h.return_ hn hcalls
  | exit hc => cases hj

end Flow.Scoped

end Engine

end CommandScript
