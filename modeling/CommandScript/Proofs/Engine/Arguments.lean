import CommandScript.Condition
import CommandScript.Proofs.Engine.Looking

/-!
# Working out arguments

Formulas, arguments and conditions are worked out by looking up their references. The variables keep
their types all the while, no fault says that bookkeeping is missing, and where the compiler's rules
give an argument a type, its value has it and no types fail to fit.
-/

namespace CommandScript

theorem LookFault.allowed {c : Context} {r : Reference} {f : Fault} (h : LookFault c r f) :
    f.Allowed (∃ t, c.referenceType r = .ok t) := by
  cases h with
  | position h => exact h.allowed
  | text hf =>
    exact hf.elim (Fault.allowed_of_kind · nofun nofun) (Fault.allowed_of_kind · nofun nofun)
  | unstamped hf => exact Fault.allowed_of_kind hf nofun nofun
  | untyped hf hnone =>
    have hp : ¬∃ t, c.referenceType r = .ok t := fun ⟨t, ht⟩ => hnone t ht
    rcases hf with hf | hf | hf
    · exact Fault.allowed_of_kind hf nofun nofun
    · exact Fault.allowed_mismatch hf hp
    · exact Fault.allowed_of_kind hf nofun nofun

theorem BoundFault.allowed {c : Context} {name : String} {f : Fault} (h : BoundFault c name f) :
    f.Allowed (c.Counts name) := by
  cases h with
  | position h => exact h.allowed
  | text hf =>
    exact hf.elim (Fault.allowed_of_kind · nofun nofun) (Fault.allowed_of_kind · nofun nofun)
  | uncounted hf hnot =>
    rcases hf with hf | hf
    · exact Fault.allowed_of_kind hf nofun nofun
    · exact Fault.allowed_mismatch hf hnot

/-! ### Formulas -/

namespace Formula

variable {p : Prop}

theorem fair_incomplete {α : Type} (d : String) : (incomplete d : Checked α).Fair p :=
  Fault.allowed_of_kind rfl nofun nofun

theorem fair_applySelected (selected : Operator → Bool) (done ts : List Token) :
    (applySelected selected done ts).Fair p := by
  fun_induction applySelected selected done ts with
  | case1 => trivial
  | case2 _ _ _ _ _ _ ih => exact (fair_apply _ _ _).bind ih
  | case3 => exact fair_incomplete _
  | case4 => exact fair_incomplete _
  | case5 _ _ _ _ ih => exact ih
  | case6 _ _ _ _ ih => exact ih

theorem fair_reduceValues (ts : List Token) : (reduceValues ts).Fair p := by
  refine (fair_applySelected _ _ _).bind fun sums => (fair_applySelected _ _ _).bind fun left => ?_
  split
  · trivial
  · exact fair_incomplete _

variable {σ : Type} {I : σ → Prop} {look : Reference → ExceptT Fault (StateM σ) Int64}

/-- Every reference among the tokens stands for a number, or its fault is allowed. -/
def Looks (I : σ → Prop) (look : Reference → ExceptT Fault (StateM σ) Int64) (p : Prop)
    (ts : List Token) : Prop :=
  ∀ r, .reference r ∈ ts → Stays I (look r) (fun _ => True) (Fault.Allowed p)

theorem Looks.cons {t : Token} {ts : List Token} (ht : Looks I look p [t]) (h : Looks I look p ts) :
    Looks I look p (t :: ts) := fun r hr =>
  (List.mem_cons.mp hr).elim (fun heq => ht r (heq ▸ List.mem_cons_self)) (h r)

theorem Looks.tail {t : Token} {ts : List Token} (h : Looks I look p (t :: ts)) :
    Looks I look p [t] ∧ Looks I look p ts :=
  ⟨fun r hr => h r (List.mem_singleton.mp hr ▸ List.mem_cons_self),
    fun r hr => h r (List.mem_cons_of_mem _ hr)⟩

theorem stays_reduceTokens {ts : List Token} (h : Looks I look p ts) :
    Stays I (reduceTokens look ts) (fun _ => True) (Fault.Allowed p) := by
  refine Stays.bind (Q := fun _ => True) ((stays_mapM (R := fun _ => True) fun t ht => ?_).imp
    (fun _ _ => trivial) fun _ => id) fun us _ => stays_lift (fair_reduceValues us)
  cases t with
  | reference r => exact (h r ht).bind fun _ _ => stays_pure trivial
  | _ => exact stays_pure trivial

/-- What stands before the open parentheses has references that may be looked up, as what is left
has. -/
theorem stays_evaluateFrom {text : String} {outer : List (List Token)} {here ts : List Token}
    (hout : ∀ us ∈ outer, Looks I look p us) (hhere : Looks I look p here) (h : Looks I look p ts) :
    Stays I (evaluateFrom look text outer here ts) (fun _ => True) (Fault.Allowed p) := by
  have reversed {us : List Token} (h : Looks I look p us) : Looks I look p us.reverse :=
    fun r hr => h r (List.mem_reverse.mp hr)
  induction ts generalizing outer here with
  | nil =>
    refine stays_tryCatch (stays_reduceTokens (reversed hhere)) fun f hf => stays_throw ?_
    split
    · exact hf.framed text
    · exact hf
  | cons t ts ih =>
    obtain ⟨ht, hts⟩ := h.tail
    have pass : Stays I (evaluateFrom look text outer (t :: here) ts) (fun _ => True)
        (Fault.Allowed p) := ih hout (ht.cons hhere) hts
    cases t with
    | opening => exact ih (List.forall_mem_cons.mpr ⟨hhere, hout⟩) nofun hts
    | closing =>
      cases outer with
      | nil => exact stays_lift (fair_incomplete _)
      | cons before outer =>
        obtain ⟨hbefore, hout⟩ := List.forall_mem_cons.mp hout
        exact (stays_reduceTokens (reversed hhere)).bind fun n _ =>
          ih hout (Looks.cons nofun hbefore) hts
    | _ => exact pass

theorem stays_evaluate {f : Formula}
    (h : ∀ r ∈ f.references, Stays I (look r) (fun _ => True) (Fault.Allowed p)) :
    Stays I (f.evaluate look) (fun _ => True) (Fault.Allowed p) :=
  stays_evaluateFrom nofun nofun fun r hr => h r (List.mem_filterMap.mpr ⟨_, hr, rfl⟩)

end Formula

namespace Viewpoint

variable {v : Viewpoint} {s : Store}

theorem stays_formula (f : Formula) :
    Stays (fun m => s.Fits m.store) (f.evaluate (lookInteger v.look)) (fun _ => True)
      (Fault.Allowed ((v.context s).checkFormula f = .ok ())) := by
  refine Formula.stays_evaluate fun r hr => ?_
  have typed (h : (v.context s).checkFormula f = .ok ()) := Context.checkFormula_ok.mp h r hr
  refine ((stays_look r).imp (fun _ => id) fun e he => he.allowed.imp fun h =>
    let ⟨t, ht, _⟩ := typed h; ⟨t, ht⟩).bind fun w hw => stays_lift ?_
  refine (fair_toInteger w).imp fun h => ?_
  obtain ⟨t, ht, hcount⟩ := typed h
  rw [hw t ht]
  exact Context.isArray_of_mayCount hcount

theorem stays_operand (o : Operand) :
    Stays (fun m => s.Fits m.store) (o.evaluate v.look)
      (fun w => ∀ t, (v.context s).operandType o = .ok t → w.type = t)
      (Fault.Allowed (∃ t, (v.context s).operandType o = .ok t)) := by
  cases o with
  | literal w => exact stays_pure fun t ht => Except.ok.inj ht
  | reference r => exact (stays_look r).imp (fun _ => id) fun f hf => hf.allowed
  | formula f =>
    have checked (h : ∃ t, (v.context s).operandType (.formula f) = .ok t) :
        (v.context s).checkFormula f = .ok () := by
      obtain ⟨t, ht⟩ := h
      exact (Context.operandType_formula.mp ht).1
    exact ((stays_formula f).imp (fun _ => id) fun e he => he.imp checked).bind
      fun n _ => stays_pure fun t ht => (Context.operandType_formula.mp ht).2.symm

theorem stays_argument (a : Argument) :
    Stays (fun m => s.Fits m.store) (a.evaluate v.look)
      (fun w => ∀ t, (v.context s).argumentType a = .ok t → w.type = t)
      (Fault.Allowed (∃ t, (v.context s).argumentType a = .ok t)) := by
  cases a with
  | operand o => exact stays_operand o
  | joined parts =>
    have typed (h : ∃ t, (v.context s).argumentType (.joined parts) = .ok t) :
        ∀ o ∈ parts, ∃ t, (v.context s).operandType o = .ok t := by
      obtain ⟨t, ht⟩ := h
      exact (Context.argumentType_joined.mp ht).1
    exact ((stays_mapM (R := fun _ => True) fun o ho => (stays_operand o).imp (fun _ _ => trivial)
      fun f hf => hf.imp fun h => typed h o ho).bind fun ws _ =>
        stays_pure fun t ht => (Context.argumentType_joined.mp ht).2.symm)

theorem stays_text (a : Argument) :
    Stays (fun m => s.Fits m.store) (a.evaluateText v.look) (fun _ => True)
      (Fault.Allowed (∃ t, (v.context s).argumentType a = .ok t)) :=
  (stays_argument a).bind fun _ _ => stays_pure trivial

theorem stays_condition (c : Condition) :
    Stays (fun m => s.Fits m.store) (c.evaluate v.look) (fun _ => True) (Fault.Allowed False) := by
  have operand (o : Operand) : Stays (fun m => s.Fits m.store) (o.evaluate v.look) (fun _ => True)
      (Fault.Allowed False) :=
    (stays_operand o).imp (fun _ _ => trivial) fun _ hf => hf.imp False.elim
  have follow (w : Value) : Stays (fun m => s.Fits m.store) (followed v.look w) (fun _ => True)
      (Fault.Allowed False) := by
    unfold followed
    split
    · refine stays_ite (fun _ => ?_) fun _ => stays_pure trivial
      split
      · exact (stays_look _).imp (fun _ _ => trivial) fun _ hf => hf.allowed.imp False.elim
      · exact stays_pure trivial
    · exact stays_pure trivial
  cases c with
  | relation left r right =>
    exact (operand left).bind fun a _ => (operand right).bind fun b _ =>
      stays_lift (fair_test r a b)
  | flag o negated =>
    refine Stays.bind (Q := fun _ => True) ((operand o).bind fun w _ => (follow w).bind fun w _ =>
      stays_lift ((fair_convert w .boolean).imp False.elim)) fun w _ =>
        Stays.bind (stays_lift ((fair_toBoolean w).imp False.elim)) fun b _ => stays_pure trivial

end Viewpoint

end CommandScript
