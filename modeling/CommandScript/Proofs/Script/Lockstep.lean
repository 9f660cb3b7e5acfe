import CommandScript.Proofs.Assembly.Coherent
import CommandScript.Proofs.Script.Compile

/-!
# Both walks line by line

The walks classify a line and keep track of subroutines and of the startup block each in its own way.
`Lockstep` says that they agree so far; `Together` lists what one line then does to both of them.
-/

namespace CommandScript.Script

/-- The walk knows the subroutines and variables that it knew before. -/
structure Declarations.Keeps (d d' : Declarations) : Prop where
  subroutines : d'.subroutines = d.subroutines
  current : d'.current = d.current
  store : d'.memory.store = d.memory.store

/-- Both walks are inside or outside the startup block, and in the same subroutine. -/
structure Lockstep (d : Declarations) (a : Assembly) : Prop where
  startup : a.inStartup = d.startupLine.isSome
  current : a.current = d.current

/-- What taking in a line does to both walks. -/
inductive Together (d : Declarations) (a : Assembly) (l : Line) (d' : Declarations)
    (a' : Assembly) : Prop where
  | silent : d.Keeps d' → a'.commands = a.commands → a'.memory.store = a.memory.store →
      Together d a l d' a'
  | neutral {c} : d.Keeps d' → c.keyword ∉ [.allocate, .sub, .endSub] →
      a'.commands.toList = a.commands.toList ++ [a.entryOf l c] →
      a'.memory.store = a.memory.store → Together d a l d' a'
  | global {type names} : Gives (Declarations.allocateAll type d.owner names) d () d' →
      a'.commands.toList = a.commands.toList ++ [a.entryOf l (.allocate .global type names)] →
      a'.memory.store = a.memory.store → Together d a l d' a'
  | owned {type names b} : d.Keeps d' → Gives (Assembly.allocateAll type names) a () b →
      a'.commands.toList = a.commands.toList ++ [a.entryOf l (.allocate .owned type names)] →
      a'.memory.store = b.memory.store → Together d a l d' a'
  | sub {name} : d.subroutines.get? name = none →
      d'.subroutines = SubroutineTable.insert { name, startLine := l.number } d.subroutines →
      d'.memory.store = d.memory.store →
      a'.commands.toList = a.commands.toList ++ [a.entryOf l (.sub name 0)] →
      a'.memory.store = a.memory.store → Together d a l d' a'
  | endSub {name} : a.current = some name →
      d'.subroutines = (d.subroutines.update name fun s => { s with endLine := some l.number }) →
      d'.memory.store = d.memory.store →
      a'.commands.toList = a.commands.toList ++ [a.entryOf l .endSub] →
      a'.memory.store = a.memory.store → Together d a l d' a'

variable {d d' : Declarations} {a a' b : Assembly} {l : Line} {k : Keyword} {rest : String}
  {c : Command}

theorem Change.pushed_commands (h : Assembly.Change a k rest (some c) b) :
    (b.pushed l c).commands.toList = a.commands.toList ++ [a.entryOf l c] := by
  rw [Assembly.pushed_commands, h.kept.1, Assembly.entryOf, Assembly.index, h.kept.1]
  rfl

/-- A command that begins or ends no subroutine leaves the walk in the one it is in. -/
theorem Change.current_eq (h : Assembly.Change a k rest (some c) b)
    (hk : k ∉ [.allocate, .sub, .endSub]) : b.current = a.current ∧ b.memory = a.memory := by
  cases h with
  | allocate | sub | endSub => exact absurd hk (by decide)
  | _ => exact ⟨rfl, rfl⟩

theorem Lockstep.neutral (h : Lockstep d a) (hkeep : d.Keeps d')
    (hstartup : d'.startupLine = d.startupLine) (hk : k ∉ [.allocate, .sub, .endSub])
    (hc : Assembly.Change a k rest (some c) b) :
    Together d a l d' (b.pushed l c) ∧ Lockstep d' (b.pushed l c) := by
  obtain ⟨hcurrent, hmemory⟩ := Change.current_eq hc hk
  refine ⟨.neutral hkeep (hc.keyword_eq ▸ hk) (Change.pushed_commands hc) ?_, ⟨?_, ?_⟩⟩
  · rw [Assembly.pushed, hmemory]
    rfl
  · rw [hstartup]
    exact hc.kept.2.1.trans h.startup
  · rw [hkeep.current]
    exact hcurrent.trans h.current

/-- A statement that becomes a command. -/
theorem Lockstep.command (h : Lockstep d a) (hd : Declarations.Change d l.number k rest d')
    (hc : Assembly.Change a k rest (some c) b) :
    Together d a l d' (b.pushed l c) ∧ Lockstep d' (b.pushed l c) := by
  have hcommands := Change.pushed_commands (l := l) hc
  cases hd with
  | allocate hr hg =>
    cases hc with
    | simple hk => cases hk
    | allocate hr' howned hglobal =>
      cases hr.symm.trans hr'
      refine ⟨.global hg hcommands ?_, h.startup, h.current⟩
      rw [hglobal rfl]
      rfl
  | allocateOwned hr =>
    cases hc with
    | simple hk => cases hk
    | allocate hr' howned hglobal =>
      cases hr.symm.trans hr'
      exact ⟨.owned ⟨rfl, rfl, rfl⟩ (howned rfl) hcommands rfl, h.startup, h.current⟩
  | endMain => exact h.neutral ⟨rfl, rfl, rfl⟩ rfl (by decide) hc
  | sub _ hnone hdeclare =>
    obtain ⟨hnew, rfl⟩ := SubroutineTable.declare_ok hdeclare
    cases hc with
    | simple hk => cases hk
    | sub => exact ⟨.sub hnew rfl rfl hcommands rfl, h.startup, rfl⟩
  | endSub hname =>
    cases hc with
    | simple hk => cases hk
    | endSub hname' =>
      cases hname.symm.trans (h.current.symm.trans hname')
      exact ⟨.endSub hname' rfl rfl hcommands rfl, h.startup, rfl⟩
  | gosub => exact h.neutral ⟨rfl, rfl, rfl⟩ rfl (by decide) hc
  | startup =>
    cases hc with
    | simple hk => cases hk
  | other hk =>
    refine h.neutral ⟨rfl, rfl, rfl⟩ rfl (fun hmem => hk ?_) hc
    simp only [List.mem_cons, List.not_mem_nil, or_false] at hmem
    rcases hmem with rfl | rfl | rfl <;> decide

theorem Lockstep.takes (h : Lockstep d a) (hd : Declarations.Takes d l d')
    (ha : Assembly.Takes a l a') : Together d a l d' a' ∧ Lockstep d' a' := by
  have outside (hout : d.startupLine = none) : a.inStartup = false := by
    rw [h.startup, hout]
    rfl
  cases hd with
  | inside hin hd =>
    have hin : a.inStartup = true := h.startup.trans hin
    have hstartup : (decide (l.keyword? ≠ some .endStartup)) = d'.startupLine.isSome := by
      rw [hd.startupLine]
      split <;> simp [*, ← h.startup]
    cases ha with
    | silent ha =>
      cases ha with
      | inside =>
        exact ⟨.silent ⟨hd.subroutines, hd.current, hd.store⟩ rfl rfl, hstartup,
          h.current.trans hd.current.symm⟩
      | statement hout => exact absurd (hin.symm.trans hout) (by decide)
    | command ha =>
      cases ha with
      | options hout => exact absurd (hin.symm.trans hout) (by decide)
      | statement hout => exact absurd (hin.symm.trans hout) (by decide)
  | silent hout hs =>
    cases ha with
    | silent ha =>
      cases ha with
      | inside hin => exact absurd (hin.symm.trans (outside hout)) (by decide)
      | statement _ hs' => exact absurd (hs.symm.trans hs') nofun
    | command ha =>
      cases ha with
      | options =>
        exact ⟨.neutral ⟨rfl, rfl, rfl⟩ (by rw [Command.keyword]; decide) (Assembly.pushed_commands ..) rfl, h.startup,
          h.current⟩
      | statement _ hs' => exact absurd (hs.symm.trans hs') nofun
  | statement hout hs hd =>
    cases ha with
    | silent ha =>
      cases ha with
      | inside hin => exact absurd (hin.symm.trans (outside hout)) (by decide)
      | statement _ hs' ha =>
        cases hs.symm.trans hs'
        cases ha with
        | startup =>
          cases hd with
          | startup => exact ⟨.silent ⟨rfl, rfl, rfl⟩ rfl rfl, rfl, h.current⟩
          | other hk => exact absurd (by decide) hk
    | command ha =>
      cases ha with
      | options _ hopt =>
        rw [Line.statement?, if_pos hopt] at hs
        cases hs
      | statement _ hs' ha =>
        cases hs.symm.trans hs'
        exact h.command hd ha

/-! ### The lines of subroutines -/

/-- The line of the command at `k`. -/
def lineAt (es : List Entry) (k : Nat) : Option Nat := es[k]?.map (·.line)

/-- Where the subroutine begins and ends, if it began and if it ended. -/
def rangeOf (es : List Entry) (name : String) : Option (Option Nat × Option Nat) :=
  (startOf es name).map fun i => (lineAt es i, (subEndOf es name).bind (lineAt es))

/-- The table holds the lines of the subroutines that the commands begin and end. -/
def RangesOf (t : SubroutineTable) (es : List Entry) : Prop :=
  ∀ name, (t.get? name).map (fun s => (some s.startLine, s.endLine)) = rangeOf es name

section Ranges

variable {es : List Entry} {e : Entry} {name : String} {t : SubroutineTable}

theorem lineAt_concat_of_lt {i : Nat} (hi : i < es.length) : lineAt (es ++ [e]) i = lineAt es i := by
  rw [lineAt, List.getElem?_append_left hi, lineAt]

theorem lineAt_concat_length : lineAt (es ++ [e]) es.length = some e.line := by
  rw [lineAt, List.getElem?_concat_length, Option.map_some]

theorem startOf_lt {i : Nat} (h : startOf es name = some i) : i < es.length :=
  places_lt_length (List.mem_of_head? h)

theorem subEndOf_lt {j : Nat} (h : subEndOf es name = some j) : j < es.length :=
  places_lt_length (List.mem_of_head? h)

theorem bind_lineAt_concat : (subEndOf es name).bind (lineAt (es ++ [e])) =
    (subEndOf es name).bind (lineAt es) := by
  cases hend : subEndOf es name with
  | none => rfl
  | some j => exact lineAt_concat_of_lt (subEndOf_lt hend)

theorem rangeOf_concat_of_not (hb : e.begins name = false)
    (hend : e.ends (around es es.length) name = false) : rangeOf (es ++ [e]) name = rangeOf es name := by
  rw [rangeOf, startOf_concat, subEndOf_concat, hb, hend]
  simp only [Bool.false_eq_true, ↓reduceIte, Option.or_none, bind_lineAt_concat, rangeOf]
  cases hstart : startOf es name with
  | none => rfl
  | some i => rw [Option.map_some, Option.map_some, lineAt_concat_of_lt (startOf_lt hstart)]

theorem rangeOf_concat_of_begins (hn : Nested es) (hb : e.begins name = true)
    (hnew : startOf es name = none) : rangeOf (es ++ [e]) name = some (some e.line, none) := by
  have hend : subEndOf es name = none := by
    refine Option.eq_none_iff_forall_ne_some.mpr fun j hj => ?_
    obtain ⟨i, hclose⟩ := Nested.closes_of_subEndOf hj
    exact hn.startOf_eq_none.mp hnew i (hn.index_lt_of_closes hclose).2
  have hc : e.closes = false := by
    cases hc : e.closes with
    | false => rfl
    | true =>
      rw [Entry.begins] at hb
      cases ho : e.opening? with
      | none => simp [ho] at hb
      | some x => rw [closes_eq_false_of_opening ho] at hc; cases hc
  rw [rangeOf, startOf_concat, subEndOf_concat, hb, hnew, hend, Entry.ends, hc]
  simp [lineAt_concat_length]

theorem rangeOf_concat_of_ends {start : Option Nat × Option Nat}
    (hb : e.begins name = false) (hend : e.ends (around es es.length) name = true)
    (hopen : subEndOf es name = none) (hstart : rangeOf es name = some start) :
    rangeOf (es ++ [e]) name = some (start.1, some e.line) := by
  obtain ⟨i, hi, rfl⟩ := Option.map_eq_some_iff.mp hstart
  rw [rangeOf, startOf_concat, subEndOf_concat, hb, hend, hopen, hi]
  simp [lineAt_concat_length, lineAt_concat_of_lt (startOf_lt hi)]

theorem get?_insert {s : Subroutine} (h : t.get? s.name = none) (name : String) :
    (SubroutineTable.insert s t).get? name = if s.name = name then some s else t.get? name := by
  have get?_cons (u : Subroutine) (t : SubroutineTable) :
      SubroutineTable.get? (u :: t) name = if u.name = name then some u else t.get? name := by
    rw [SubroutineTable.get?, List.find?_cons]
    by_cases hu : u.name = name
    · rw [if_pos hu, beq_iff_eq.mpr hu]
    · rw [if_neg hu, beq_eq_false_iff_ne.mpr hu]
      rfl
  induction t with
  | nil => exact get?_cons s []
  | cons u t ih =>
    have hne : u.name ≠ s.name := fun hu => by
      simp [SubroutineTable.get?, hu] at h
    have h : SubroutineTable.get? t s.name = none := by
      simpa [SubroutineTable.get?, hne] using h
    unfold SubroutineTable.insert
    split
    · exact get?_cons s _
    · rw [get?_cons, get?_cons, ih h]
      by_cases hu : u.name = name
      · have hs : s.name ≠ name := fun hs => hne (hu.trans hs.symm)
        rw [if_pos hu, if_neg hs, if_pos hu]
      · rw [if_neg hu, if_neg hu]

theorem begins_eq_false (h : e.command.keyword ≠ .sub) : e.begins name = false := by
  cases hc : e.command <;> simp_all [Entry.begins, Entry.opening?, Opening.sub?, Command.keyword]

/-- Only an `ENDSUB` may stand directly inside a subroutine and close something. -/
theorem ends_eq_false {outer : List Opening} (hf : e.Fits outer) (h : e.command.keyword ≠ .endSub) :
    e.ends outer name = false := by
  cases hc : e.command <;> simp_all [Entry.ends, Entry.closes, Entry.Fits, Command.keyword]
  case endIf =>
    obtain ⟨i, hi⟩ := hf
    simp [hi, Opening.sub?]
  case endFor => simp [Opening.sub?]

/-- A line does the same to the table of the one walk as to the commands of the other. -/
theorem RangesOf.together (h : RangesOf d.subroutines a.commands.toList) (hc : a.Coherent)
    (hn : Nested a'.commands.toList) (ht : Together d a l d' a') :
    RangesOf d'.subroutines a'.commands.toList := by
  intro name
  have hname := h name
  have fits {e : Entry} (hcommands : a'.commands.toList = a.commands.toList ++ [e]) :
      e.Fits (around a.commands.toList a.commands.toList.length) := by
    rw [hcommands] at hn
    have := hn.fits (List.getElem?_concat_length (l := a.commands.toList) (a := e))
    rwa [around_append _ _ (Nat.le_refl _)] at this
  cases ht with
  | silent hkeep hcommands =>
    rw [hkeep.subroutines, hcommands]
    exact hname
  | neutral hkeep hk hcommands =>
    simp only [List.mem_cons, List.not_mem_nil, or_false, not_or] at hk
    rw [hkeep.subroutines, hcommands, rangeOf_concat_of_not (begins_eq_false hk.2.1)
      (ends_eq_false (fits hcommands) hk.2.2)]
    exact hname
  | global hg hcommands =>
    obtain ⟨m, rfl⟩ := Declarations.exists_of_allocateAll hg
    rw [hcommands, rangeOf_concat_of_not rfl rfl]
    exact hname
  | owned hkeep _ hcommands =>
    rw [hkeep.subroutines, hcommands, rangeOf_concat_of_not rfl rfl]
    exact hname
  | @sub other hnew hsubs _ hcommands =>
    rw [hsubs, hcommands, get?_insert hnew]
    by_cases hother : other = name
    · subst hother
      rw [hnew] at hname
      have hstart : startOf a.commands.toList other = none := Option.map_eq_none_iff.mp hname.symm
      rw [if_pos rfl, rangeOf_concat_of_begins hc.nested _ hstart]
      · rfl
      · simp [Entry.begins, Entry.opening?, Assembly.entryOf, Opening.sub?]
    · rw [if_neg hother, rangeOf_concat_of_not _ rfl]
      · exact hname
      · simp [Entry.begins, Entry.opening?, Assembly.entryOf, Opening.sub?, hother]
  | @endSub other hcurrent hsubs _ hcommands =>
    obtain ⟨i, inner, hi⟩ := fits hcommands
    have hmem := List.mem_of_head? hi
    have hsub := hc.nested.subOf?_of_mem hmem
    rw [hc.current, Assembly.index_eq_length, hsub] at hcurrent
    cases hcurrent
    have hends : (a.entryOf l .endSub).ends (around a.commands.toList a.commands.toList.length) name =
        decide (other = name) := by
      rw [Entry.ends, hi]
      simp [Opening.sub?, Entry.closes, Assembly.entryOf]
    have hget := SubroutineTable.get?_update d.subroutines other name
      (f := fun s => { s with endLine := some l.number }) fun s => rfl
    rw [hsubs, hcommands, hget]
    by_cases hsame : other = name
    · subst hsame
      have hopen := hc.subroutines.subEndOf_eq_none hc.nested hmem
      have hstart : startOf a.commands.toList other ≠ none := fun hnone =>
        hc.nested.startOf_eq_none.mp hnone i (hc.nested.opens_of_mem hmem).2
      obtain ⟨k, hk⟩ := Option.ne_none_iff_exists'.mp hstart
      have hrange : rangeOf a.commands.toList other = some (lineAt a.commands.toList k, none) := by
        rw [rangeOf, hk, hopen]
        rfl
      rw [rangeOf_concat_of_ends rfl (hends.trans (decide_eq_true rfl)) hopen hrange]
      rw [hrange] at hname
      obtain ⟨s, hs, heq⟩ := Option.map_eq_some_iff.mp hname
      rw [hs, Option.map_some, Option.map_some, if_pos rfl, ← heq]
      rfl
    · rw [rangeOf_concat_of_not rfl (hends.trans (decide_eq_false hsame)), ← hname]
      cases d.subroutines.get? name with
      | none => rfl
      | some s => rw [Option.map_some, if_neg (Ne.symm hsame)]

end Ranges

end CommandScript.Script
