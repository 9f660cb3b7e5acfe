import CommandScript.Assembly
import CommandScript.Proofs.Assembly.Simple
import CommandScript.Proofs.Script.Statement

/-!
# What a line does to an assembly

`Change` lists, keyword by keyword, the command that a line becomes and what reading it does to the
assembly, with every check that the line passed. `change_of_readKeyword` says that reading does
nothing else, so the invariants of the second walk go by cases on `Change`.
-/

namespace CommandScript.Assembly

open Script Text

/-- The line may be a branch of the innermost chain, and makes it so. -/
def Branches (a : Assembly) (isElse : Bool) (chains : ChainTable) : Prop :=
  ∃ i outer c, a.openChains = i :: outer ∧ a.chains.chainOf i = .ok c ∧
    c.loopLevel = a.openLoops.length ∧ a.chains.addBranch i a.index isElse = .ok chains

/-- Reading the keyword and the text behind it gives a command, or none, and leaves an assembly. -/
inductive Change (a : Assembly) : Keyword → String → Option Command → Assembly → Prop where
  | simple {k rest cmd} : k.isSimple = true → a.context.readCommand k rest = .ok (some cmd) →
      Change a k rest (some cmd) a
  | allocate {rest scope type names m} : readAllocation rest = .ok (scope, type, names) →
      (scope = .owned → Gives (allocateAll type names) a () { a with memory := m }) →
      (scope = .global → m = a.memory) →
      Change a .allocate rest (some (.allocate scope type names)) { a with memory := m }
  | if_ {rest c} : a.context.readCondition rest = .ok c →
      Change a .if_ rest (some (.if_ c))
        { a with
          chains := a.chains.start a.index a.openLoops.length
          openChains := a.index :: a.openChains }
  | elseIf {rest c chains} : a.context.readCondition rest = .ok c → a.Branches false chains →
      Change a .elseIf rest (some (.elseIf c)) { a with chains }
  | else_ {rest chains} : a.Branches true chains →
      Change a .else_ rest (some .else_) { a with chains }
  | endIf {rest i outer c chains} : a.openChains = i :: outer → a.chains.chainOf i = .ok c →
      c.loopLevel = a.openLoops.length → a.chains.finish i a.index = .ok chains →
      Change a .endIf rest (some .endIf) { a with chains, openChains := outer }
  | for_ {rest l} : l.id.index = a.index → l.chainLevel = a.openChains.length →
      l.endIndex = none → a.context.isLoop l.id.name = false →
      a.memory.store.isVisible l.id.name a.owner = false →
      a.context.checkFormula l.start = .ok () →
      { a.context with loops := l.id :: a.openLoops }.checkFormula l.stop = .ok () →
      { a.context with loops := l.id :: a.openLoops }.checkFormula l.step = .ok () →
      Change a .for_ rest (some (.for_ l.id))
        { a with loops := a.loops.add l, openLoops := l.id :: a.openLoops }
  | next {rest id outer} : a.openLoops = id :: outer → Change a .next rest (some (.next id)) a
  | skip {rest id outer} : a.openLoops = id :: outer → Change a .skip rest (some (.skip id)) a
  | skipIf {rest id outer c} : a.openLoops = id :: outer → a.context.readCondition rest = .ok c →
      Change a .skipIf rest (some (.skipIf id c)) a
  | break_ {rest id outer} : a.openLoops = id :: outer →
      Change a .break_ rest (some (.break_ id)) a
  | breakIf {rest id outer c} : a.openLoops = id :: outer → a.context.readCondition rest = .ok c →
      Change a .breakIf rest (some (.breakIf id c)) a
  | endFor {rest id outer loops l} : a.openLoops = id :: outer →
      a.loops.finish id a.index = .ok loops → loops.loop id = .ok l →
      l.chainLevel = a.openChains.length →
      Change a .endFor rest (some (.endFor id)) { a with loops, openLoops := outer }
  | sub {rest s} : isValidName rest = true → a.current = none → a.openChains = [] →
      a.openLoops = [] → a.subroutines.get rest = .ok s → s.startIndex = none →
      Change a .sub rest (some (.sub rest 0))
        { a with
          subroutines := a.subroutines.update rest fun s => { s with startIndex := some a.index }
          current := some rest }
  | endSub {rest name} : a.current = some name → a.openChains = [] → a.openLoops = [] →
      Change a .endSub rest (some .endSub)
        { a with
          subroutines := a.subroutines.update name fun s => { s with endIndex := some a.index }
          current := none }
  | gosub {rest} : isValidName rest = true → a.subroutines.contains rest = true →
      Change a .gosub rest (some (.gosub rest 0))
        { a with
          subroutines := a.subroutines.update rest fun s =>
            { s with calls := s.calls ++ [a.index] } }
  | endMain {rest} : a.current = none → Change a .endMain rest (some .endMain) a
  | startup {rest} : Change a .startup rest none { a with inStartup := true }

variable {a a' : Assembly} {rest : String}

theorem gives_failCompile {α : Type} {d : String} {x : α} :
    Gives (failCompile d) a x a' ↔ False := by
  unfold failCompile
  exact gives_throw

/-- Allocating touches the memory only. -/
theorem exists_of_allocateAll {type : ValueType} {names : List String}
    (h : Gives (allocateAll type names) a () a') : ∃ m, a' = { a with memory := m } := by
  induction names generalizing a with
  | nil =>
    simp only [allocateAll, gives_pure] at h
    obtain ⟨-, rfl⟩ := h
    exact ⟨a.memory, rfl⟩
  | cons name names ih =>
    simp only [allocateAll, gives_bind, gives_get, gives_ite, gives_throw, gives_lift, gives_set,
      false_and, exists_false, and_false, false_or] at h
    obtain ⟨_, _, ⟨rfl, rfl⟩, -, m, _, ⟨-, rfl⟩, _, _, rfl, h⟩ := h
    obtain ⟨m', rfl⟩ := ih h
    exact ⟨m', rfl⟩

theorem readAllocate_change {cmd : Command} (h : Gives (readAllocate rest) a cmd a') :
    Change a .allocate rest (some cmd) a' := by
  simp only [readAllocate, gives_bind, gives_lift, gives_ite, gives_pure] at h
  obtain ⟨⟨scope, type, names⟩, _, ⟨hr, rfl⟩, ⟨hs, _, _, h, rfl, rfl⟩ | ⟨hs, rfl, rfl⟩⟩ := h
  · obtain ⟨m, rfl⟩ := exists_of_allocateAll h
    exact .allocate hr (fun _ => h) (fun hg => by cases hs.symm.trans hg)
  · exact .allocate (m := a.memory) hr (fun ho => absurd ho hs) (fun _ => rfl)

theorem innermostChain_gives {k : Keyword} {i : Nat} (h : Gives (innermostChain k) a i a') :
    a = a' ∧ ∃ outer, a.openChains = i :: outer := by
  simp only [innermostChain, gives_bind, gives_get] at h
  obtain ⟨a₁, _, ⟨rfl, rfl⟩, h⟩ := h
  split at h
  · rename_i j outer heq
    obtain ⟨rfl, rfl⟩ := gives_pure.mp h
    exact ⟨rfl, outer, heq⟩
  · exact (gives_failCompile.mp h).elim

theorem innermostLoop_gives {k : Keyword} {id : LoopId} (h : Gives (innermostLoop k) a id a') :
    a = a' ∧ ∃ outer, a.openLoops = id :: outer := by
  simp only [innermostLoop, gives_bind, gives_get] at h
  obtain ⟨a₁, _, ⟨rfl, rfl⟩, h⟩ := h
  split at h
  · rename_i j outer heq
    obtain ⟨rfl, rfl⟩ := gives_pure.mp h
    exact ⟨rfl, outer, heq⟩
  · exact (gives_failCompile.mp h).elim

theorem checkChainLevel_ok {k : Keyword} {i : Nat} (h : a.checkChainLevel k i = .ok ()) :
    ∃ c, a.chains.chainOf i = .ok c ∧ c.loopLevel = a.openLoops.length := by
  simp only [checkChainLevel, Checked.bind_ok, Checked.ite_ok, Checked.fail_ok, Checked.pure_ok,
    and_false, false_or] at h
  obtain ⟨c, hc, hl, -⟩ := h
  exact ⟨c, hc, Decidable.not_not.mp hl⟩

theorem addBranch_gives {k : Keyword} {isElse : Bool} (h : Gives (addBranch k isElse) a () a') :
    ∃ chains, a.Branches isElse chains ∧ a' = { a with chains } := by
  simp only [addBranch, gives_bind, gives_get, gives_lift, gives_set] at h
  obtain ⟨i, a₁, h₁, a₂, _, ⟨rfl, rfl⟩, _, _, ⟨hl, rfl⟩, chains, _, ⟨hb, rfl⟩, rfl⟩ := h
  obtain ⟨rfl, outer, ho⟩ := innermostChain_gives h₁
  obtain ⟨c, hc, hlevel⟩ := checkChainLevel_ok hl
  exact ⟨chains, ⟨i, outer, c, ho, hc, hlevel, hb⟩, rfl⟩

theorem endChain_change (h : Gives endChain a () a') :
    Change a .endIf rest (some .endIf) a' := by
  simp only [endChain, gives_bind, gives_get, gives_lift, gives_set, gives_modify] at h
  obtain ⟨i, a₁, h₁, a₂, _, ⟨rfl, rfl⟩, _, _, rfl, chains, _, ⟨hf, rfl⟩, _, _, rfl, hl, rfl⟩ := h
  obtain ⟨rfl, outer, ho⟩ := innermostChain_gives h₁
  obtain ⟨c, hc, hlevel⟩ := checkChainLevel_ok hl
  simp only [ho, List.tail_cons]
  exact .endIf ho hc hlevel hf

theorem readFormula_ok {c : Context} {text : String} {f : Formula}
    (h : c.readFormula text = .ok f) : c.checkFormula f = .ok () := by
  simp only [Context.readFormula, Checked.bind_ok, Checked.pure_ok] at h
  obtain ⟨f', -, u, hc, rfl⟩ := h
  exact hc

theorem checkFormula_literal (c : Context) (n : Int64) :
    c.checkFormula (Formula.literal n) = .ok () := rfl

theorem beginLoop_change {cmd : Command} (h : Gives (beginLoop rest) a cmd a') :
    Change a .for_ rest (some cmd) a' := by
  simp only [beginLoop, gives_bind, gives_get, gives_lift, gives_ite, gives_failCompile,
    false_and, exists_false, and_false, false_or] at h
  obtain ⟨parts, _, ⟨-, rfl⟩, _, _, ⟨rfl, rfl⟩, hloop, hvis, start, _, ⟨hstart, rfl⟩, stop, _,
    ⟨hstop, rfl⟩, h⟩ := h
  -- the step is read from its text, or it is one
  have hstep : ∃ step, { a.context with loops := ⟨parts.name, a.index⟩ :: a.openLoops }.checkFormula
        step = .ok () ∧ .for_ ⟨parts.name, a.index⟩ = cmd ∧
      { a with
        loops := a.loops.add ⟨⟨parts.name, a.index⟩, start, stop, step, parts.test, none,
          a.openChains.length⟩
        openLoops := ⟨parts.name, a.index⟩ :: a.openLoops } = a' := by
    split at h
    · simp only [gives_bind, gives_lift, gives_set, gives_pure] at h
      obtain ⟨step, _, ⟨hs, rfl⟩, _, _, rfl, rfl, rfl⟩ := h
      exact ⟨step, readFormula_ok hs, rfl, rfl⟩
    · simp only [gives_bind, gives_set, gives_pure] at h
      obtain ⟨step, _, ⟨rfl, rfl⟩, _, _, rfl, rfl, rfl⟩ := h
      exact ⟨_, checkFormula_literal _ _, rfl, rfl⟩
  obtain ⟨step, hstep, rfl, rfl⟩ := hstep
  exact .for_ (l := ⟨⟨parts.name, a.index⟩, start, stop, step, parts.test, none,
    a.openChains.length⟩) rfl rfl rfl (Bool.eq_false_iff.mpr hloop) (Bool.eq_false_iff.mpr hvis)
    (readFormula_ok hstart) (readFormula_ok hstop) hstep

theorem endLoop_change {cmd : Command} (h : Gives endLoop a cmd a') :
    Change a .endFor rest (some cmd) a' := by
  simp only [endLoop, gives_bind, gives_get] at h
  obtain ⟨a₁, _, ⟨rfl, rfl⟩, h⟩ := h
  split at h
  · exact (gives_failCompile.mp h).elim
  · rename_i id outer heq
    simp only [gives_bind, gives_set, gives_lift, gives_modify, gives_ite, gives_failCompile,
      gives_pure, false_and, exists_false, and_false, false_or] at h
    obtain ⟨_, _, rfl, loops, _, ⟨hf, rfl⟩, _, _, rfl, l, _, ⟨hl, rfl⟩, hlevel, rfl, rfl⟩ := h
    exact .endFor heq hf hl (Decidable.not_not.mp hlevel)

theorem beginSub_change {cmd : Command} (h : Gives (beginSub rest) a cmd a') :
    Change a .sub rest (some cmd) a' := by
  simp only [beginSub, gives_bind, gives_get, gives_lift] at h
  obtain ⟨name, _, ⟨hname, rfl⟩, _, _, ⟨rfl, rfl⟩, h⟩ := h
  obtain ⟨rfl, hvalid⟩ := readSubName_ok hname
  split at h
  · simp only [gives_bind, gives_throw, false_and, exists_false] at h
  · rename_i hcurrent
    simp only [gives_bind, gives_set, gives_lift, gives_ite, gives_failCompile, gives_pure,
      false_and, exists_false, and_false, false_or, Bool.or_eq_true, Bool.not_eq_true',
      List.isEmpty_eq_false_iff, not_or, ne_eq, Decidable.not_not] at h
    obtain ⟨⟨hchains, hloops⟩, s, _, ⟨hs, rfl⟩, hstart, _, _, rfl, rfl, rfl⟩ := h
    exact .sub hvalid (Option.eq_none_iff_forall_ne_some.mpr hcurrent) hchains hloops hs
      (Option.not_isSome_iff_eq_none.mp hstart)

theorem endSub_change {cmd : Command} (h : Gives endSub a cmd a') :
    Change a .endSub rest (some cmd) a' := by
  simp only [endSub, gives_bind, gives_get] at h
  obtain ⟨_, _, ⟨rfl, rfl⟩, h⟩ := h
  split at h
  · exact (gives_throw.mp h).elim
  · rename_i name hname
    simp only [gives_bind, gives_set, gives_ite, gives_failCompile, gives_pure,
      false_and, exists_false, and_false, false_or, Bool.or_eq_true, Bool.not_eq_true',
      List.isEmpty_eq_false_iff, not_or, ne_eq, Decidable.not_not] at h
    obtain ⟨_, _, rfl, ⟨hchains, hloops⟩, rfl, rfl⟩ := h
    have h : Change a .endSub rest _ _ := .endSub hname hchains hloops
    rwa [hchains, hloops] at h

theorem readGosub_change {cmd : Command} (h : Gives (readGosub rest) a cmd a') :
    Change a .gosub rest (some cmd) a' := by
  simp only [readGosub, gives_bind, gives_get, gives_lift, gives_ite, gives_throw, gives_set,
    gives_pure, false_and, exists_false, and_false, false_or, Bool.not_eq_true',
    Bool.not_eq_false] at h
  obtain ⟨name, _, ⟨hname, rfl⟩, _, _, ⟨rfl, rfl⟩, hdef, _, _, rfl, rfl, rfl⟩ := h
  obtain ⟨rfl, hvalid⟩ := readSubName_ok hname
  exact .gosub hvalid hdef

/-- Reading a keyword and the text behind it does what `Change` lists. -/
theorem change_of_readKeyword {k : Keyword} {r : Option Command}
    (h : Gives (readKeyword k rest) a r a') : Change a k rest r a' := by
  unfold readKeyword at h
  simp only [gives_bind, gives_get] at h
  obtain ⟨_, _, ⟨rfl, rfl⟩, h⟩ := h
  cases k
  case allocate =>
    obtain ⟨cmd, hcmd, rfl⟩ := gives_map.mp h
    exact readAllocate_change hcmd
  case if_ =>
    simp only [gives_bind, gives_lift, beginChain, gives_modify, gives_pure] at h
    obtain ⟨c, _, ⟨hc, rfl⟩, _, _, rfl, rfl, rfl⟩ := h
    exact .if_ hc
  case elseIf =>
    simp only [gives_bind, gives_lift, gives_pure] at h
    obtain ⟨c, _, ⟨hc, rfl⟩, _, _, hb, rfl, rfl⟩ := h
    obtain ⟨chains, hbranch, rfl⟩ := addBranch_gives hb
    exact .elseIf hc hbranch
  case else_ =>
    simp only [gives_bind, gives_lift, gives_pure] at h
    obtain ⟨_, _, ⟨-, rfl⟩, _, _, hb, rfl, rfl⟩ := h
    obtain ⟨chains, hbranch, rfl⟩ := addBranch_gives hb
    exact .else_ hbranch
  case endIf =>
    simp only [gives_bind, gives_lift, gives_pure] at h
    obtain ⟨_, _, ⟨-, rfl⟩, _, _, he, rfl, rfl⟩ := h
    exact endChain_change he
  case for_ =>
    obtain ⟨cmd, hcmd, rfl⟩ := gives_map.mp h
    exact beginLoop_change hcmd
  case next =>
    simp only [gives_bind, gives_lift, gives_pure] at h
    obtain ⟨_, _, ⟨-, rfl⟩, id, _, hid, rfl, rfl⟩ := h
    obtain ⟨rfl, outer, ho⟩ := innermostLoop_gives hid
    exact .next ho
  case skip =>
    simp only [gives_bind, gives_lift, gives_pure] at h
    obtain ⟨_, _, ⟨-, rfl⟩, id, _, hid, rfl, rfl⟩ := h
    obtain ⟨rfl, outer, ho⟩ := innermostLoop_gives hid
    exact .skip ho
  case skipIf =>
    simp only [gives_bind, gives_lift, gives_pure] at h
    obtain ⟨id, _, hid, c, _, ⟨hc, rfl⟩, rfl, rfl⟩ := h
    obtain ⟨rfl, outer, ho⟩ := innermostLoop_gives hid
    exact .skipIf ho hc
  case break_ =>
    simp only [gives_bind, gives_lift, gives_pure] at h
    obtain ⟨_, _, ⟨-, rfl⟩, id, _, hid, rfl, rfl⟩ := h
    obtain ⟨rfl, outer, ho⟩ := innermostLoop_gives hid
    exact .break_ ho
  case breakIf =>
    simp only [gives_bind, gives_lift, gives_pure] at h
    obtain ⟨id, _, hid, c, _, ⟨hc, rfl⟩, rfl, rfl⟩ := h
    obtain ⟨rfl, outer, ho⟩ := innermostLoop_gives hid
    exact .breakIf ho hc
  case endFor =>
    simp only [gives_bind, gives_lift, gives_map] at h
    obtain ⟨_, _, ⟨-, rfl⟩, cmd, hcmd, rfl⟩ := h
    exact endLoop_change hcmd
  case sub =>
    obtain ⟨cmd, hcmd, rfl⟩ := gives_map.mp h
    exact beginSub_change hcmd
  case endSub =>
    simp only [gives_bind, gives_lift, gives_map] at h
    obtain ⟨_, _, ⟨-, rfl⟩, cmd, hcmd, rfl⟩ := h
    exact endSub_change hcmd
  case gosub =>
    obtain ⟨cmd, hcmd, rfl⟩ := gives_map.mp h
    exact readGosub_change hcmd
  case endMain =>
    simp only [gives_bind, gives_lift, gives_get] at h
    obtain ⟨_, _, ⟨-, rfl⟩, _, _, ⟨rfl, rfl⟩, h⟩ := h
    split at h
    · exact (gives_throw.mp h).elim
    · rename_i hcurrent
      obtain ⟨rfl, rfl⟩ := gives_pure.mp h
      exact .endMain hcurrent
  case startup =>
    simp only [gives_bind, gives_lift, gives_modify, gives_pure] at h
    obtain ⟨_, _, ⟨-, rfl⟩, _, _, rfl, rfl, rfl⟩ := h
    exact .startup
  case endStartup =>
    exact (gives_throw.mp h).elim
  -- every other keyword is simple
  all_goals
    obtain ⟨hr, rfl⟩ := gives_lift.mp h
    obtain ⟨cmd, rfl, -⟩ := Context.readCommand_keyword rfl hr
    exact .simple rfl hr

end CommandScript.Assembly
