import CommandScript.Command
import CommandScript.Proofs.Checked
import CommandScript.Typing

/-!
# Commands that fit a context

The rules for types, taken apart: what it takes that a reference, a formula or an argument has a
type in a context. A context admits a command (`Context.Admits`) if all that the command works out
has a type and a change of a variable fits the type of the variable. A context that extends another
one gives the same types, so it admits the same commands.
-/

namespace CommandScript

namespace Condition

/-- The types that an operand of the condition may have. -/
def Allows (condition : Condition) (t : ValueType) : Prop :=
  match condition with
  | .relation .. => t.isArray = false
  | .flag .. => t = .boolean ∨ t = .string

/-- The references whose values the condition may need. -/
def references (condition : Condition) : List Reference :=
  condition.operands.flatMap Operand.references

end Condition

namespace Checked

variable {α : Type}

theorem discard_ok {x : Checked α} {u : Unit} : discard x = .ok u ↔ ∃ a, x = .ok a := by
  cases x with
  | error f => exact iff_of_false nofun nofun
  | ok a => exact iff_of_true rfl ⟨a, rfl⟩

theorem forM_ok {l : List α} {f : α → Checked Unit} :
    l.forM f = .ok () ↔ ∀ a ∈ l, f a = .ok () := by
  induction l with
  | nil => exact iff_of_true rfl fun _ ha => absurd ha List.not_mem_nil
  | cons a l ih =>
    rw [show (a :: l).forM f = f a >>= fun _ => l.forM f from rfl, bind_ok, List.forall_mem_cons,
      ← ih]
    exact ⟨fun ⟨_, h, hl⟩ => ⟨h, hl⟩, fun ⟨h, hl⟩ => ⟨(), h, hl⟩⟩

end Checked

/-! ### The rules -/

namespace Reference

/-- The type of what the index picks, if there is one. -/
def pickedType? (r : Reference) (declared : ValueType) : Option ValueType :=
  match r.index with
  | none => some declared
  | some index => index.pickedType declared

/-- The type of the view, if there is one. -/
def viewedType (trait : Option Trait) (t : ValueType) : Checked ValueType :=
  match trait with
  | none => .ok t
  | some view => view.resultType t

/-- `WRITER` and `WRITETIME` are of the variable; every other view is of what the index picks, and a
date trait is only of the date. -/
theorem resultType_ok {r : Reference} {declared t : ValueType} :
    r.resultType declared = .ok t ↔
      (∃ view, r.trait = some view ∧ view.isMetadata = true ∧ view.resultType declared = .ok t) ∨
        (∀ view, r.trait = some view →
          view.isMetadata = false ∧ (view.isDate = true → r.name = dateName)) ∧
        ∃ picked, r.pickedType? declared = some picked ∧ viewedType r.trait picked = .ok t := by
  obtain ⟨name, index, trait⟩ := r
  unfold resultType pickedType? viewedType
  cases trait with
  | none =>
    cases index with
    | none => simp [Checked.pure_ok]
    | some index => cases h : index.pickedType declared <;> simp [h, Checked.pure_ok, Checked.fail]
  | some view =>
    cases hm : view.isMetadata with
    | true => simp [hm]
    | false =>
      by_cases hd : view.isDate = true ∧ name ≠ dateName
      · simp [hm, hd, Checked.bind_ok, Checked.fail_ok]
      · have hd' : view.isDate = true → name = dateName := by simpa using hd
        cases index with
        | none => simpa [hm, hd] using fun _ => hd'
        | some index =>
          cases h : index.pickedType declared with
          | none => simp [h, hm, hd, Checked.bind_ok, Checked.fail_ok]
          | some picked => simpa [h, hm, hd] using fun _ => hd'

variable {r : Reference} {index : Index}

theorem pickedType?_of_index (h : r.index = some index) (declared : ValueType) :
    r.pickedType? declared = index.pickedType declared := by
  rw [pickedType?, h]

theorem pickedType?_string (r : Reference) : r.pickedType? .string = some .string := by
  unfold pickedType?
  split
  · rfl
  · rename_i index _
    cases index <;> rfl

theorem mem_indexNames {name : String} (h : r.index = some index)
    (hname : .named name ∈ index.bounds) : name ∈ r.indexNames := by
  unfold indexNames
  rw [h]
  exact List.mem_filterMap.mpr ⟨_, hname, rfl⟩

end Reference

namespace Context

variable (c : Context)

/-- The name may stand in an index. -/
def Counts (name : String) : Prop :=
  c.isLoop name = false → ∃ t, c.typeOf name = .ok t ∧ t.mayCount = true

variable {c} {r : Reference} {t : ValueType}

theorem isArray_of_mayCount (h : t.mayCount = true) : t.isArray = false := by
  cases t <;> first | rfl | cases h

theorem checkIndexNames_ok :
    c.checkIndexNames r = .ok () ↔ ∀ name ∈ r.indexNames, c.Counts name := by
  unfold checkIndexNames
  rw [Checked.forM_ok]
  refine forall₂_congr fun name _ => ?_
  unfold Counts
  cases c.isLoop name with
  | true => exact iff_of_true rfl nofun
  | false =>
    simp only [Bool.false_eq_true, ↓reduceIte, forall_const]
    cases c.typeOf name with
    | error f => exact iff_of_false nofun nofun
    | ok t => cases h : t.mayCount <;> simp [bind, Except.bind, pure, Except.pure, h, Checked.fail]

theorem loopType_ok (h : loopType r = .ok t) :
    r.trait = none ∧ t = .integer ∨ r.trait = some .hex ∧ t = .string := by
  unfold loopType at h
  split at h
  · cases h
  · split at h
    · exact .inl ⟨‹_›, (Except.ok.inj h).symm⟩
    · exact .inr ⟨‹_›, (Except.ok.inj h).symm⟩
    · cases h

theorem referenceType_ok : c.referenceType r = .ok t ↔
    (∀ name ∈ r.indexNames, c.Counts name) ∧
      if c.isLoop r.name then loopType r = .ok t
      else ∃ declared, c.typeOf r.name = .ok declared ∧ r.resultType declared = .ok t := by
  unfold referenceType
  rw [Checked.bind_ok, ← checkIndexNames_ok]
  cases c.isLoop r.name with
  | true => exact ⟨fun ⟨_, h, ht⟩ => ⟨h, ht⟩, fun ⟨h, ht⟩ => ⟨(), h, ht⟩⟩
  | false =>
    simp only [Bool.false_eq_true, ↓reduceIte, Checked.bind_ok]
    exact ⟨fun ⟨_, h, ht⟩ => ⟨h, ht⟩, fun ⟨h, ht⟩ => ⟨(), h, ht⟩⟩

theorem checkFormula_ok {f : Formula} : c.checkFormula f = .ok () ↔
    ∀ r ∈ f.references, ∃ t, c.referenceType r = .ok t ∧ t.mayCount = true := by
  unfold checkFormula
  rw [Checked.forM_ok]
  refine forall₂_congr fun r _ => ?_
  cases c.referenceType r with
  | error f => exact iff_of_false nofun nofun
  | ok t => cases h : t.mayCount <;> simp [bind, Except.bind, pure, Except.pure, h, Checked.fail]

theorem operandType_formula {f : Formula} :
    c.operandType (.formula f) = .ok t ↔ c.checkFormula f = .ok () ∧ t = .integer := by
  simp only [operandType, Checked.bind_ok, Checked.pure_ok]
  exact ⟨fun ⟨_, h, ht⟩ => ⟨h, ht.symm⟩, fun ⟨h, ht⟩ => ⟨(), h, ht.symm⟩⟩

theorem argumentType_joined {parts : List Operand} :
    c.argumentType (.joined parts) = .ok t ↔
      (∀ o ∈ parts, ∃ u, c.operandType o = .ok u) ∧ t = .string := by
  simp only [argumentType, Checked.bind_ok, Checked.pure_ok]
  constructor
  · rintro ⟨_, h, rfl⟩
    exact ⟨fun o ho => Checked.discard_ok.mp (Checked.forM_ok.mp h o ho), rfl⟩
  · rintro ⟨h, rfl⟩
    exact ⟨(), Checked.forM_ok.mpr fun o ho => Checked.discard_ok.mpr (h o ho), rfl⟩

theorem checkCondition_ok {condition : Condition} : c.checkCondition condition = .ok () ↔
    ∀ o ∈ condition.operands, ∃ u, c.operandType o = .ok u ∧ condition.Allows u := by
  cases condition with
  | relation left r right =>
    unfold checkCondition Condition.operands Condition.Allows
    rw [Checked.forM_ok]
    refine forall₂_congr fun o _ => ?_
    rw [Checked.bind_ok]
    refine exists_congr fun u => and_congr_right fun _ => ?_
    cases h : u.isArray <;> simp [pure, Except.pure, Checked.fail]
  | flag o negated =>
    simp only [checkCondition, Condition.operands, Condition.Allows, List.forall_mem_singleton]
    rw [Checked.bind_ok]
    refine exists_congr fun u => and_congr_right fun _ => ?_
    cases u <;> simp [pure, Except.pure, Checked.fail]

end Context

namespace Command

/-! ### What a command works out -/

def formulas : Command → List Formula
  | set _ _ (.number f) | setRandom f | truncate _ f | pop _ f | filter _ (.number _ f)
  | fileRead (some f) => [f]
  | _ => []

def arguments : Command → List Argument
  | set _ _ (.text a) | set _ _ (.entries a) | print a | return_ (some a) | insert _ _ a | append _ a
  | modify _ _ a | filter _ (.text _ _ a) | fileOpen a _ | fileCreate a | fileWrite a
  | fileExists a _ | fileSize a | fileLines a | fileDelete a | changeDirectory a | makeDirectory a
  | removeDirectory a | directory a _ | scan a => [a]
  | _ => []

def conditions : Command → List Condition
  | set _ _ (.truth c) | if_ c | elseIf c | skipIf _ c | breakIf _ c => [c]
  | _ => []

/-- The ends of the index of an array. -/
def bounds : Command → List Bound
  | insert _ b _ | modify _ b _ => [b]
  | remove _ index => index.bounds
  | _ => []

/-- The references whose values the command may need. -/
def references (c : Command) : List Reference :=
  c.formulas.flatMap Formula.references ++ c.arguments.flatMap Argument.references ++
    c.conditions.flatMap Condition.references

end Command

namespace Context

/-! ### Commands -/

/-- What a right-hand side gives fits a target of the type. -/
def SuitsRight (c : Context) (t : ValueType) (op : AssignOp) : RightSide → Prop
  | .number _ => t = .integer ∨ t = .unsigned
  | .truth _ => t = .boolean ∧ (op = .set ∨ op = .and ∨ op = .or ∨ op = .xor)
  | .text _ => t = .string
  | .entries a => t.isArray = true ∧ (op = .set → c.argumentType a = .ok t)

/-- What a command does to a variable fits the type of the variable. -/
def Suits (c : Context) : Command → Prop
  | .set target op right => ∃ t, c.typeOf target = .ok t ∧ c.SuitsRight t op right
  | .insert array _ item | .append array item | .modify array _ item =>
    ∃ t, c.typeOf array = .ok t ∧ t.isArray = true ∧
      ∃ found, c.argumentType item = .ok found ∧ found.isArray = false
  | .remove array _ | .truncate array _ | .pop array _ | .reset array | .filter array .apply =>
    ∃ t, c.typeOf array = .ok t ∧ t.isArray = true
  | .filter array (.number ..) => c.typeOf array = .ok .integers
  | .filter array (.text ..) => c.typeOf array = .ok .strings
  | _ => True

/-- The command has a place in the context. -/
structure Admits (c : Context) (cmd : Command) : Prop where
  formulas : ∀ f ∈ cmd.formulas, c.checkFormula f = .ok ()
  arguments : ∀ a ∈ cmd.arguments, ∃ t, c.argumentType a = .ok t
  conditions : ∀ condition ∈ cmd.conditions, c.checkCondition condition = .ok ()
  bounds : ∀ name, .named name ∈ cmd.bounds → c.Counts name
  suits : c.Suits cmd

/-- What can be read inside one more loop. -/
def within (c : Context) (id : LoopId) : Context :=
  { c with loops := id :: c.loops }

/-- The formulas of a loop fit the context of its `FOR`; the end and the step may read its
variable. -/
structure AdmitsLoop (c : Context) (loop : Loop) : Prop where
  start : c.checkFormula loop.start = .ok ()
  stop : (c.within loop.id).checkFormula loop.stop = .ok ()
  step : (c.within loop.id).checkFormula loop.step = .ok ()

variable {c : Context} {r : Reference} {t : ValueType} {o : Operand} {a : Argument}
  {condition : Condition} {cmd : Command}

theorem typed_of_formula {f : Formula} (h : c.checkFormula f = .ok ()) :
    ∀ r ∈ f.references, ∃ u, c.referenceType r = .ok u := fun r hr =>
  let ⟨u, hu, _⟩ := checkFormula_ok.mp h r hr
  ⟨u, hu⟩

theorem typed_of_operand (h : c.operandType o = .ok t) :
    ∀ r ∈ o.references, ∃ u, c.referenceType r = .ok u := by
  cases o with
  | literal v => exact nofun
  | reference r => exact fun r' hr' => List.mem_singleton.mp hr' ▸ ⟨t, h⟩
  | formula f => exact typed_of_formula (operandType_formula.mp h).1

theorem typed_of_argument (h : c.argumentType a = .ok t) :
    ∀ r ∈ a.references, ∃ u, c.referenceType r = .ok u := by
  cases a with
  | operand o => exact typed_of_operand h
  | joined parts =>
    intro r hr
    obtain ⟨o, ho, hr⟩ := List.mem_flatMap.mp hr
    obtain ⟨u, hu⟩ := (argumentType_joined.mp h).1 o ho
    exact typed_of_operand hu r hr

/-- Every reference of an admitted command has a type. -/
theorem Admits.typed (h : c.Admits cmd) :
    ∀ r ∈ cmd.references, ∃ t, c.referenceType r = .ok t := by
  intro r hr
  simp only [Command.references, List.mem_append, List.mem_flatMap] at hr
  rcases hr with (⟨f, hf, hr⟩ | ⟨a, ha, hr⟩) | ⟨condition, hc, hr⟩
  · exact typed_of_formula (h.formulas f hf) r hr
  · obtain ⟨t, ht⟩ := h.arguments a ha
    exact typed_of_argument ht r hr
  · obtain ⟨o, ho, hr⟩ := List.mem_flatMap.mp hr
    obtain ⟨t, ht, -⟩ := checkCondition_ok.mp (h.conditions condition hc) o ho
    exact typed_of_operand ht r hr

/-! ### Extensions -/

/-- The second context gives every name the type that the first one gives it. -/
structure Extends (c d : Context) : Prop where
  isLoop : ∀ name, d.isLoop name = c.isLoop name
  typeOf : ∀ {name t}, c.typeOf name = .ok t → d.typeOf name = .ok t

namespace Extends

variable {d : Context} (h : c.Extends d)

include h

theorem counts {name : String} (hc : c.Counts name) : d.Counts name := fun hl =>
  let ⟨t, ht, hcount⟩ := hc (h.isLoop name ▸ hl)
  ⟨t, h.typeOf ht, hcount⟩

theorem referenceType (ht : c.referenceType r = .ok t) : d.referenceType r = .ok t := by
  rw [referenceType_ok] at ht ⊢
  refine ⟨fun name hname => h.counts (ht.1 name hname), ?_⟩
  rw [h.isLoop]
  cases hl : c.isLoop r.name <;> rw [hl] at ht
  · obtain ⟨declared, hd, hr⟩ := ht.2
    exact ⟨declared, h.typeOf hd, hr⟩
  · exact ht.2

theorem checkFormula {f : Formula} (hf : c.checkFormula f = .ok ()) : d.checkFormula f = .ok () :=
  checkFormula_ok.mpr fun r hr =>
    let ⟨t, ht, hcount⟩ := checkFormula_ok.mp hf r hr
    ⟨t, h.referenceType ht, hcount⟩

theorem operandType (ho : c.operandType o = .ok t) : d.operandType o = .ok t := by
  cases o with
  | literal v => exact ho
  | reference r => exact h.referenceType ho
  | formula f =>
    rw [operandType_formula] at ho ⊢
    exact ⟨h.checkFormula ho.1, ho.2⟩

theorem argumentType (ha : c.argumentType a = .ok t) : d.argumentType a = .ok t := by
  cases a with
  | operand o => exact h.operandType ha
  | joined parts =>
    rw [argumentType_joined] at ha ⊢
    exact ⟨fun o ho => let ⟨u, hu⟩ := ha.1 o ho; ⟨u, h.operandType hu⟩, ha.2⟩

theorem checkCondition (hc : c.checkCondition condition = .ok ()) :
    d.checkCondition condition = .ok () :=
  checkCondition_ok.mpr fun o ho =>
    let ⟨u, hu, hallows⟩ := checkCondition_ok.mp hc o ho
    ⟨u, h.operandType hu, hallows⟩

theorem suits (hs : c.Suits cmd) : d.Suits cmd := by
  cases cmd
  case set target op right =>
    obtain ⟨t, ht, hr⟩ := hs
    refine ⟨t, h.typeOf ht, ?_⟩
    cases right with
    | entries a => exact ⟨hr.1, fun hop => h.argumentType (hr.2 hop)⟩
    | _ => exact hr
  case insert | append | modify =>
    obtain ⟨t, ht, ha, found, hf, hn⟩ := hs
    exact ⟨t, h.typeOf ht, ha, found, h.argumentType hf, hn⟩
  case remove | truncate | pop | reset =>
    obtain ⟨t, ht, ha⟩ := hs
    exact ⟨t, h.typeOf ht, ha⟩
  case filter array spec =>
    cases spec with
    | apply =>
      obtain ⟨t, ht, ha⟩ := hs
      exact ⟨t, h.typeOf ht, ha⟩
    | _ => exact h.typeOf hs
  all_goals trivial

theorem admits (hc : c.Admits cmd) : d.Admits cmd where
  formulas f hf := h.checkFormula (hc.formulas f hf)
  arguments a ha := let ⟨t, ht⟩ := hc.arguments a ha; ⟨t, h.argumentType ht⟩
  conditions condition hcondition := h.checkCondition (hc.conditions condition hcondition)
  bounds name hname := h.counts (hc.bounds name hname)
  suits := h.suits hc.suits

theorem within (id : LoopId) : (c.within id).Extends (d.within id) where
  isLoop name := by
    have := h.isLoop name
    unfold Context.isLoop at this ⊢
    rw [Context.within, List.any_cons, Context.within, List.any_cons, this]
  typeOf ht := h.typeOf ht

end Extends

end Context

end CommandScript
