import CommandScript.Proofs.Engine.Alike
import CommandScript.Proofs.Engine.Arguments

/-!
# Commands that ignore the clock

A command shows the clock if it names `DATE` or `TIME`, takes a date trait or `WRITETIME`, or tests a
text, which may hold such a reference. All that other commands work out comes to the same in memories
alike, however far their clocks are apart; under one clock everything does.
-/

namespace CommandScript

theorem Assoc.mem_of_get? {κ α : Type} [DecidableEq κ] {k : κ} {a : α} {m : Assoc κ α}
    (h : get? k m = some a) : (k, a) ∈ m := by
  induction m with
  | nil => cases h
  | cons e m ih =>
    obtain ⟨j, b⟩ := e
    change (if j = k then some b else get? k m) = some a at h
    split at h
    · rename_i hj
      cases h
      exact hj ▸ List.mem_cons_self
    · exact List.mem_cons_of_mem _ (ih h)

/-- Some variable of the name is a text. -/
def Store.holdsText (s : Store) (name : String) : Bool :=
  match Reserved.ofName? name with
  | some r => r.type == .string
  | none => (s.globals.any fun e => e.1 == name && e.2.type == .string) ||
      s.locals.any fun e => e.1.2 == name && e.2.type == .string

theorem Store.holdsText_of_typeOf {s : Store} {name owner : String}
    (h : s.typeOf name owner = .ok .string) : s.holdsText name = true := by
  unfold typeOf at h
  unfold holdsText
  cases hr : Reserved.ofName? name with
  | some r =>
    rw [hr] at h
    simpa using Except.ok.inj h
  | none =>
    rw [hr] at h
    obtain ⟨v, hv, ht⟩ := Checked.map_ok.mp h
    unfold get find? at hv
    simp only [Bool.or_eq_true, List.any_eq_true, Bool.and_eq_true, beq_iff_eq]
    cases hl : s.locals.get? (owner, name) with
    | some w =>
      rw [hl] at hv
      cases hv
      exact .inr ⟨_, Assoc.mem_of_get? hl, rfl, ht⟩
    | none =>
      rw [hl] at hv
      cases hg : s.globals.get? name with
      | some w =>
        rw [hg] at hv
        cases hv
        exact .inl ⟨_, Assoc.mem_of_get? hg, rfl, ht⟩
      | none =>
        rw [hg] at hv
        cases hv

/-! ### What ignores the clock -/

/-- The operand surely gives no text: it is a number or a truth value, or a variable of which there
is no text. -/
def Operand.isNoText (s : Store) : Operand → Bool
  | .literal v => v.type != .string
  | .reference r => r.index.isNone && r.trait.isNone && !s.holdsText r.name
  | .formula _ => true

/-- The condition does not test a text. -/
def Condition.isNoText (s : Store) : Condition → Bool
  | .relation .. => true
  | .flag o _ => o.isNoText s

def Bound.showsClock : Bound → Bool
  | .position _ => false
  | .named name => Store.showsClock name

/-- The variable that the command reads to assign to it. -/
def Command.target? : Command → Option String
  | .set target _ _ => some target
  | _ => none

/-- The command comes to the same whatever the clock says. -/
def Command.ignoresClock (s : Store) (c : Command) : Bool :=
  (c.references.all fun r => !r.showsClock) && (c.bounds.all fun b => !b.showsClock) &&
    c.conditions.all (·.isNoText s) && c.target?.all fun name => !Store.showsClock name

def Loop.references (l : Loop) : List Reference :=
  l.start.references ++ l.stop.references ++ l.step.references

def Program.ignoresClock (p : Program) : Bool :=
  (p.commands.all fun entry => entry.command.ignoresClock p.store) &&
    p.loops.all fun e => e.2.references.all fun r => !r.showsClock

namespace Command

variable {c : Command} {r : Reference}

theorem mem_references_of_formula {f : Formula} (hf : f ∈ c.formulas) (hr : r ∈ f.references) :
    r ∈ c.references :=
  List.mem_append_left _ (List.mem_append_left _ (List.mem_flatMap.mpr ⟨f, hf, hr⟩))

theorem mem_references_of_argument {a : Argument} (ha : a ∈ c.arguments) (hr : r ∈ a.references) :
    r ∈ c.references :=
  List.mem_append_left _ (List.mem_append_right _ (List.mem_flatMap.mpr ⟨a, ha, hr⟩))

theorem mem_references_of_condition {condition : Condition} (hc : condition ∈ c.conditions)
    (hr : r ∈ condition.references) : r ∈ c.references :=
  List.mem_append_right _ (List.mem_flatMap.mpr ⟨condition, hc, hr⟩)

end Command

/-- Under one clock, or where the clock is ignored, the command may be run in memories alike. -/
structure Command.Portable (same : Prop) (s : Store) (c : Command) : Prop where
  references : ∀ r ∈ c.references, same ∨ r.showsClock = false
  bounds : ∀ name, .named name ∈ c.bounds → same ∨ Store.showsClock name = false
  conditions : ∀ condition ∈ c.conditions, same ∨ condition.isNoText s = true
  target : ∀ name, c.target? = some name → same ∨ Store.showsClock name = false

namespace Command.Portable

variable {same : Prop} {s : Store} {command : Command} (h : command.Portable same s)

include h

theorem formula {f : Formula} (hf : f ∈ command.formulas) :
    ∀ r ∈ f.references, same ∨ r.showsClock = false :=
  fun r hr => h.references r (mem_references_of_formula hf hr)

theorem argument {a : Argument} (ha : a ∈ command.arguments) :
    ∀ r ∈ a.references, same ∨ r.showsClock = false :=
  fun r hr => h.references r (mem_references_of_argument ha hr)

theorem condition {c : Condition} (hc : c ∈ command.conditions) :
    (∀ r ∈ c.references, same ∨ r.showsClock = false) ∧ (same ∨ c.isNoText s = true) :=
  ⟨fun r hr => h.references r (mem_references_of_condition hc hr), h.conditions c hc⟩

end Command.Portable

/-- All commands of the program may be run in memories alike. -/
structure Program.Portable (same : Prop) (p : Program) : Prop where
  commands : ∀ entry ∈ p.commands, entry.command.Portable same p.store
  loops : ∀ id loop, p.loops.loop id = .ok loop →
    ∀ r ∈ loop.references, same ∨ r.showsClock = false

theorem Program.portable {same : Prop} {p : Program} (h : same ∨ p.ignoresClock = true) :
    p.Portable same := by
  rcases h with h | h
  · exact ⟨fun _ _ => ⟨fun _ _ => .inl h, fun _ _ => .inl h, fun _ _ => .inl h,
      fun _ _ => .inl h⟩, fun _ _ _ _ _ => .inl h⟩
  · simp only [ignoresClock, Command.ignoresClock, Bool.and_eq_true, Array.all_eq_true',
      List.all_eq_true, Bool.not_eq_true', Option.all_eq_true] at h
    obtain ⟨hcommands, hloops⟩ := h
    refine ⟨fun entry hentry => ?_, fun id loop hloop r hr => .inr ?_⟩
    · obtain ⟨⟨⟨href, hbounds⟩, hconditions⟩, htarget⟩ := hcommands entry hentry
      exact ⟨fun r hr => .inr (href r hr), fun name hname => .inr (hbounds _ hname),
        fun c hc => .inr (hconditions c hc), fun name hname => .inr (htarget name hname)⟩
    · unfold LoopTable.loop at hloop
      split at hloop
      · rename_i found hfound
        cases hloop
        exact hloops _ (Assoc.mem_of_get? hfound) r hr
      · cases hloop

/-! ### Working out in memories alike -/

namespace Viewpoint

variable (v : Viewpoint) {same : Prop} {base : Store} {M : Memory → Memory → Prop}
  [like : Memory.Likeness same base M]

section

include like

theorem couples_formula {f : Formula} (h : ∀ r ∈ f.references, same ∨ r.showsClock = false) :
    Couple M (f.evaluate (lookInteger v.look)) :=
  CommandScript.couples_formula fun r hr => v.couples_look (h r hr)

theorem couples_argument {a : Argument} (h : ∀ r ∈ a.references, same ∨ r.showsClock = false) :
    Couple M (a.evaluate v.look) :=
  CommandScript.couples_argument fun r hr => v.couples_look (h r hr)

theorem couples_text {a : Argument} (h : ∀ r ∈ a.references, same ∨ r.showsClock = false) :
    Couple M (a.evaluateText v.look) :=
  CommandScript.couples_evaluateText fun r hr => v.couples_look (h r hr)

end

theorem stays_noText {o : Operand} (h : o.isNoText base = true) :
    Stays (fun m => base.Fits m.store) (o.evaluate v.look) (fun w => w.type ≠ .string)
      fun _ => True := by
  cases o with
  | literal w => exact stays_pure (by simpa [Operand.isNoText] using h)
  | formula f =>
    exact (Stays.imp (Viewpoint.stays_formula f) (fun _ => id) fun _ _ => trivial).bind
      fun n _ => stays_pure nofun
  | reference r =>
    simp only [Operand.isNoText, Bool.and_eq_true, Option.isNone_iff_eq_none, Bool.not_eq_true'] at h
    obtain ⟨⟨hindex, htrait⟩, htext⟩ := h
    have hplain : v.lookPlain r = (do
        let w ← v.read r.name
        liftM (viewed none w)) := by
      unfold lookPlain
      rw [hindex, htrait]
      rfl
    change Stays _ (v.look r) _ _
    unfold look
    split
    · rw [htrait]
      exact stays_lift (x := .ok _) nofun
    · rw [htrait]
      change Stays _ (v.lookPlain r) _ _
      rw [hplain]
      refine (Stays.imp (stays_read r.name) (fun _ => id) fun _ _ => trivial).bind fun w hw =>
        stays_lift (x := .ok w) ?_
      intro hstring
      rw [hstring] at hw
      rw [Store.holdsText_of_typeOf hw] at htext
      cases htext

include like

theorem couples_condition {c : Condition} (h : ∀ r ∈ c.references, same ∨ r.showsClock = false)
    (htext : same ∨ c.isNoText base = true) : Couple M (c.evaluate v.look) := by
  have operand (o : Operand) (ho : o ∈ c.operands) (r : Reference) (hr : r ∈ o.references) :
      Couple M (v.look r) :=
    v.couples_look (h r (List.mem_flatMap.mpr ⟨o, ho, hr⟩))
  refine CommandScript.couples_condition operand fun o negated hc => ?_
  have hvalue : Couple M (o.evaluate v.look) :=
    couples_operand fun r hr => operand o (hc ▸ List.mem_cons_self) r hr
  rcases htext with hsame | hno
  · exact hvalue.bind fun w => couples_followed fun _ r _ => v.couples_look (.inl hsame)
  · -- what is no text is not followed
    rw [hc] at hno
    refine hvalue.bind_stays (v.stays_noText hno) (fun m n hmn => (like.alike hmn).fits) fun w hw => ?_
    exact couples_followed fun s r hs => absurd (hs ▸ rfl) hw

theorem couples_indexed {index : Bound} {item : Argument}
    (hindex : ∀ name, index = .named name → same ∨ Store.showsClock name = false)
    (hitem : ∀ r ∈ item.references, same ∨ r.showsClock = false) :
    Couple M (do
      let n ← v.position index
      let item ← item.evaluate v.look
      return (n, item)) :=
  (v.couples_position hindex).bind fun _ => (v.couples_argument hitem).bind fun _ => couples_pure

end Viewpoint

end CommandScript
