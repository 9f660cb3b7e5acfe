import CommandScript.Condition
import CommandScript.Proofs.Couples

/-!
# Working out arguments in two runs

Formulas, arguments and conditions reach a memory only by looking up references. So where the
look-ups of their references couple, the values couple too. A flag may hold a text that is itself a
reference; unless it gives no text, every reference has to couple.
-/

namespace CommandScript

variable {σ τ : Type} {R : σ → τ → Prop}

namespace Formula

variable {look : Reference → ExceptT Fault (StateM σ) Int64}
  {look' : Reference → ExceptT Fault (StateM τ) Int64}

/-- The look-ups of the references among the tokens couple. -/
def Coupled (R : σ → τ → Prop) (look : Reference → ExceptT Fault (StateM σ) Int64)
    (look' : Reference → ExceptT Fault (StateM τ) Int64) (ts : List Token) : Prop :=
  ∀ r, .reference r ∈ ts → Couples R (look r) (look' r)

theorem Coupled.cons {t : Token} {ts : List Token} (ht : Coupled R look look' [t])
    (h : Coupled R look look' ts) : Coupled R look look' (t :: ts) := fun r hr =>
  (List.mem_cons.mp hr).elim (fun heq => ht r (heq ▸ List.mem_cons_self)) (h r)

theorem Coupled.tail {t : Token} {ts : List Token} (h : Coupled R look look' (t :: ts)) :
    Coupled R look look' [t] ∧ Coupled R look look' ts :=
  ⟨fun r hr => h r (List.mem_singleton.mp hr ▸ List.mem_cons_self),
    fun r hr => h r (List.mem_cons_of_mem _ hr)⟩

theorem Coupled.reverse {ts : List Token} (h : Coupled R look look' ts) :
    Coupled R look look' ts.reverse :=
  fun r hr => h r (List.mem_reverse.mp hr)

theorem couples_reduceTokens {ts : List Token} (h : Coupled R look look' ts) :
    Couples R (reduceTokens look ts) (reduceTokens look' ts) := by
  refine (couples_mapM fun t ht => ?_).bind fun us => couples_lift
  cases t with
  | reference r => exact (h r ht).bind fun _ => couples_pure
  | _ => exact couples_pure

theorem couples_evaluateFrom {text : String} {outer : List (List Token)} {here ts : List Token}
    (hout : ∀ us ∈ outer, Coupled R look look' us) (hhere : Coupled R look look' here)
    (h : Coupled R look look' ts) :
    Couples R (evaluateFrom look text outer here ts) (evaluateFrom look' text outer here ts) := by
  induction ts generalizing outer here with
  | nil => exact couples_tryCatch (couples_reduceTokens hhere.reverse) fun _ => couples_throw
  | cons t ts ih =>
    obtain ⟨ht, hts⟩ := h.tail
    cases t with
    | opening => exact ih (List.forall_mem_cons.mpr ⟨hhere, hout⟩) nofun hts
    | closing =>
      cases outer with
      | nil => exact couples_lift
      | cons before outer =>
        obtain ⟨hbefore, hout⟩ := List.forall_mem_cons.mp hout
        exact (couples_reduceTokens hhere.reverse).bind fun n => ih hout (Coupled.cons nofun hbefore) hts
    | _ => exact ih hout (ht.cons hhere) hts

theorem couples_evaluate {f : Formula} (h : ∀ r ∈ f.references, Couples R (look r) (look' r)) :
    Couples R (f.evaluate look) (f.evaluate look') :=
  couples_evaluateFrom nofun nofun fun r hr => h r (List.mem_filterMap.mpr ⟨_, hr, rfl⟩)

end Formula

section Lookup

variable {look : Reference → ExceptT Fault (StateM σ) Value}
  {look' : Reference → ExceptT Fault (StateM τ) Value}

theorem couples_lookInteger {r : Reference} (h : Couples R (look r) (look' r)) :
    Couples R (lookInteger look r) (lookInteger look' r) :=
  h.bind fun _ => couples_lift

theorem couples_formula {f : Formula} (h : ∀ r ∈ f.references, Couples R (look r) (look' r)) :
    Couples R (f.evaluate (lookInteger look)) (f.evaluate (lookInteger look')) :=
  Formula.couples_evaluate fun r hr => couples_lookInteger (h r hr)

theorem couples_operand {o : Operand} (h : ∀ r ∈ o.references, Couples R (look r) (look' r)) :
    Couples R (o.evaluate look) (o.evaluate look') := by
  cases o with
  | literal v => exact couples_pure
  | reference r => exact h r List.mem_cons_self
  | formula f => exact (couples_formula h).bind fun _ => couples_pure

theorem couples_argument {a : Argument} (h : ∀ r ∈ a.references, Couples R (look r) (look' r)) :
    Couples R (a.evaluate look) (a.evaluate look') := by
  cases a with
  | operand o => exact couples_operand h
  | joined parts =>
    refine (couples_mapM fun o ho => couples_operand fun r hr => ?_).bind fun _ => couples_pure
    exact h r (List.mem_flatMap.mpr ⟨o, ho, hr⟩)

theorem couples_evaluateText {a : Argument} (h : ∀ r ∈ a.references, Couples R (look r) (look' r)) :
    Couples R (a.evaluateText look) (a.evaluateText look') :=
  (couples_argument h).bind fun _ => couples_pure

theorem couples_followed {v : Value} (h : ∀ s r, v = .string s → Couples R (look r) (look' r)) :
    Couples R (followed look v) (followed look' v) := by
  cases v with
  | string s =>
    unfold followed
    refine couples_ite (fun _ => ?_) fun _ => couples_pure
    cases Reference.read s with
    | ok r => exact h s r rfl
    | error e => exact couples_pure
  | _ => exact couples_pure

/-- The references that the condition names couple, and what a flag may hold. -/
theorem couples_condition {c : Condition}
    (h : ∀ o ∈ c.operands, ∀ r ∈ o.references, Couples R (look r) (look' r))
    (hfollow : ∀ o negated, c = .flag o negated → Couples R
      (do followed look (← o.evaluate look)) (do followed look' (← o.evaluate look'))) :
    Couples R (c.evaluate look) (c.evaluate look') := by
  cases c with
  | relation left r right =>
    refine (couples_operand (h left (by simp [Condition.operands]))).bind fun a => ?_
    exact (couples_operand (h right (by simp [Condition.operands]))).bind fun b => couples_lift
  | flag o negated =>
    have hvalue : Couples R (o.evaluateAs look .boolean) (o.evaluateAs look' .boolean) := by
      have h := (hfollow o negated rfl).bind fun w => couples_lift (x := w.convert .boolean)
      simpa [Operand.evaluateAs, coerced] using h
    exact hvalue.bind fun w => couples_lift.bind fun b => couples_pure

end Lookup

end CommandScript
