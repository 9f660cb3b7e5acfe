import CommandScript.Proofs.Assembly.Mirror

/-!
# What a line leaves alone

A line touches the blocks that are open and the subroutine that it belongs to. What the assembly
holds below the outermost open block, and what it holds for other subroutines, stays as it is
(`Takes.apart`).
-/

namespace CommandScript.Assembly

open Script

/-- No block below `m` is open. -/
structure Above (m : Nat) (a : Assembly) : Prop where
  index : m ≤ a.index
  chains : ∀ i ∈ a.openChains, m ≤ i
  loops : ∀ id ∈ a.openLoops, m ≤ id.index

/-- The second assembly holds the same as the first one below `m` and for a subroutine, and no more
globals. -/
structure Apart (m : Nat) (name : String) (a b : Assembly) : Prop where
  above : Above m b
  slots : ∀ i < m, b.slot i = a.slot i
  part : b.part name = a.part name
  globals : b.memory.store.globals = a.memory.store.globals

variable {m : Nat} {name : String} {a b : Assembly} {l : Line}

section Change

theorem ChainTable.finish_ok {t t' : ChainTable} {i k : Nat} (h : t.finish i k = .ok t') :
    ∃ c, t' = ⟨t.chains.put i c, t.members.put k i⟩ := by
  unfold ChainTable.finish at h
  split at h
  · exact (Checked.fail_ok.mp h).elim
  · cases h
    exact ⟨_, rfl⟩

theorem LoopTable.finish_ok {t t' : LoopTable} {id : LoopId} {k : Nat}
    (h : LoopTable.finish t id k = .ok t') : ∃ loop, t' = Assoc.put id loop t := by
  unfold LoopTable.finish at h
  split at h
  · exact (Checked.fail_ok.mp h).elim
  · cases h
    exact ⟨_, rfl⟩

variable {t : ChainTable} {u : LoopTable} {i : Nat}

theorem slot_withChains {c : Chain} {x y : Nat} (hy : m ≤ y) (hx : m ≤ x) (hi : i < m) :
    slot { a with chains := ⟨a.chains.chains.put y c, a.chains.members.put x y⟩ } i = a.slot i := by
  unfold slot
  dsimp only
  rw [Assoc.get?_put, Assoc.get?_put, if_neg (by omega), if_neg (by omega)]

theorem slot_withLoop {id : LoopId} {loop : Loop} (hid : m ≤ id.index) (hi : i < m) :
    slot { a with loops := Assoc.put id loop a.loops } i = a.slot i := by
  have hloops : (fun name => Assoc.get? ⟨name, i⟩ (Assoc.put id loop a.loops)) =
      fun name => Assoc.get? ⟨name, i⟩ a.loops := by
    funext name
    rw [Assoc.get?_put, if_neg]
    rintro rfl
    exact absurd hid (by simpa using hi)
  exact congrArg (Slot.mk a.commands[i]? (a.chains.chains.get? i) (a.chains.members.get? i)) hloops

theorem part_withSubroutine {other : String} {f : Subroutine → Subroutine}
    (hf : ∀ s, (f s).name = s.name) (hsame : name = other → ∀ s, rangeOf (f s) = rangeOf s) :
    part { a with subroutines := a.subroutines.update other f } name = a.part name := by
  refine Part.ext rfl ?_
  show Option.map _ _ = Option.map _ _
  rw [SubroutineTable.get?_update _ _ _ hf, Option.map_map]
  refine congrArg (Option.map · _) (funext fun s => ?_)
  show rangeOf (if name = other then f s else s) = rangeOf s
  split
  · exact hsame ‹_› s
  · rfl

theorem Change.apart {k : Keyword} {rest : String} {r : Option Command} (h : Change a k rest r b)
    (ha : Above m a) (howner : k ≠ .sub → name ≠ a.owner) (hsub : k = .sub → name ≠ rest) :
    Apart m name a b := by
  have hself : Apart m name a a := ⟨ha, fun _ _ => rfl, rfl, rfl⟩
  have hput {y : Nat} (hy : m ≤ y) (c : Chain) : Apart m name a
      { a with chains := ⟨a.chains.chains.put y c, a.chains.members.put a.index y⟩ } :=
    { hself with
      above := { ha with }
      slots := fun _ hi => slot_withChains hy ha.index hi }
  cases h with
  | simple | next | skip | skipIf | break_ | breakIf | endMain => exact hself
  | allocate _ howned hglobal =>
    rename_i scope type names m' _
    cases scope with
    | global =>
      obtain rfl := hglobal rfl
      exact hself
    | owned =>
      obtain ⟨hglobals, -, hlocals⟩ := locals_of_allocateAll (howned rfl)
      refine { hself with
        above := { ha with }, part := Part.ext (funext fun x => ?_) rfl, globals := hglobals }
      refine (hlocals name x).trans (if_neg fun heq => howner nofun heq.1)
  | if_ =>
    have hstart := hput ha.index { ifIndex := a.index, loopLevel := a.openLoops.length }
    exact { hstart with
      above := { hstart.above with chains := List.forall_mem_cons.mpr ⟨ha.index, ha.chains⟩ } }
  | elseIf _ hbranch | else_ hbranch =>
    obtain ⟨i, outer, c, hopen, -, -, hadd⟩ := hbranch
    obtain ⟨c', -, -, rfl⟩ := ChainTable.addBranch_ok hadd
    exact hput (ha.chains i (hopen ▸ List.mem_cons_self)) _
  | endIf hopen _ _ hfinish =>
    obtain ⟨c, rfl⟩ := ChainTable.finish_ok hfinish
    have hchains := List.forall_mem_cons.mp (hopen ▸ ha.chains)
    have hend := hput hchains.1 c
    exact { hend with above := { hend.above with chains := hchains.2 } }
  | for_ hid =>
    refine { hself with
      above := ⟨ha.index, ha.chains, List.forall_mem_cons.mpr ⟨?_, ha.loops⟩⟩, slots := ?_ }
    · rw [hid]
      exact ha.index
    · exact fun i hi => slot_withLoop (hid ▸ ha.index) hi
  | endFor hopen hfinish =>
    obtain ⟨loop, rfl⟩ := LoopTable.finish_ok hfinish
    have hloops := List.forall_mem_cons.mp (hopen ▸ ha.loops)
    exact { hself with
      above := ⟨ha.index, ha.chains, hloops.2⟩
      slots := fun i hi => slot_withLoop hloops.1 hi }
  | sub =>
    exact { hself with
      above := { ha with }
      part := part_withSubroutine (fun _ => rfl) fun heq => absurd heq (hsub rfl) }
  | endSub hcurrent =>
    have hname := howner nofun
    rw [owner, hcurrent] at hname
    exact { hself with
      above := { ha with }
      part := part_withSubroutine (fun _ => rfl) fun heq => absurd heq hname }
  | gosub =>
    exact { hself with
      above := { ha with }
      part := part_withSubroutine (fun _ => rfl) fun _ _ => rfl }
  | startup => exact { hself with above := { ha with } }

end Change

/-- Putting a command behind the others leaves what is below it. -/
theorem Apart.pushed (h : Apart m name a b) (l : Line) (c : Command) :
    Apart m name a (b.pushed l c) := by
  have hlt : b.index < (b.pushed l c).index := by
    rw [pushed_index, ← index_eq_length]
    exact Nat.lt_succ_self _
  refine { h with above := { h.above with index := ?_ }, slots := fun i hi => ?_ }
  · exact Nat.le_trans h.above.index (Nat.le_of_lt hlt)
  · rw [← h.slots i hi]
    have hentry : (b.commands.push ⟨b.index, l.number, l.text, c⟩)[i]? = b.commands[i]? := by
      rw [Array.getElem?_push, if_neg]
      exact Nat.ne_of_lt (Nat.lt_of_lt_of_le hi h.above.index)
    exact congrArg (fun e => Slot.mk e _ _ _) hentry

/-- A line leaves alone what lies below the open blocks and what belongs to other subroutines. -/
theorem Takes.apart (h : Takes a l b) (ha : Above m a)
    (howner : l.keyword? ≠ some .sub → name ≠ a.owner)
    (hsub : ∀ rest, l.statement? = some (.sub, rest) → name ≠ rest) : Apart m name a b := by
  have reads {r : Option Command} {b : Assembly} (h : Reads a l r b) : Apart m name a b := by
    cases h with
    | inside => exact ⟨{ ha with }, fun _ _ => rfl, rfl, rfl⟩
    | options => exact ⟨ha, fun _ _ => rfl, rfl, rfl⟩
    | statement _ hs h =>
      have hkeyword := Line.keyword?_of_statement? hs
      refine h.apart ha (fun hk => howner ?_) fun hk => hsub _ (hk ▸ hs)
      rw [hkeyword]
      exact fun heq => hk (Option.some.inj heq)
  cases h with
  | silent h => exact reads h
  | command h => exact (reads h).pushed l _

theorem Apart.trans {c : Assembly} (h : Apart m name a b) (h' : Apart m name b c) :
    Apart m name a c where
  above := h'.above
  slots i hi := (h'.slots i hi).trans (h.slots i hi)
  part := h'.part.trans h.part
  globals := h'.globals.trans h.globals

end CommandScript.Assembly
