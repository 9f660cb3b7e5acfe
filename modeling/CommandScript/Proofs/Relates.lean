import CommandScript.Proofs.Couples

/-!
# Two runs that give related values

`Relates R S x y`: from states that are alike in the sense of `R`, either both operations give values,
which `S` relates, or both fail with faults of one kind; the states that they leave are alike again.
Operations that are coupled give equal values and faults, so every coupling is such a relation.
-/

namespace CommandScript

/-- Both come to values that are related, or both to faults of one kind. -/
inductive Checked.Meets {α β : Type} (S : α → β → Prop) : Checked α → Checked β → Prop
  | ok {a : α} {b : β} : S a b → Meets S (.ok a) (.ok b)
  | error {f g : Fault} : f.kind = g.kind → Meets S (.error f) (.error g)

section Relates

variable {σ τ α β γ δ : Type}

namespace Checked

variable {S : α → β → Prop} {T : γ → δ → Prop} {x : Checked α} {y : Checked β}

theorem meets_fail {k : FaultKind} {d d' : String} : Meets S (fail k d) (fail k d') :=
  .error rfl

theorem Meets.bind {f : α → Checked γ} {g : β → Checked δ} (h : Meets S x y)
    (hf : ∀ a b, S a b → Meets T (f a) (g b)) : Meets T (x >>= f) (y >>= g) := by
  cases h with
  | ok h => exact hf _ _ h
  | error h => exact .error h

theorem meets_fail_bind {k : FaultKind} {d d' : String} {f : α → Checked γ} {g : β → Checked δ} :
    Meets T (fail k d >>= f) (fail k d' >>= g) :=
  .error rfl

theorem meets_ite {p : Prop} [Decidable p] {x' : Checked α} {y' : Checked β} (h : p → Meets S x y)
    (h' : ¬p → Meets S x' y') : Meets S (if p then x else x') (if p then y else y') := by
  split
  · exact h ‹_›
  · exact h' ‹_›

theorem meets_self {x : Checked α} : Meets Eq x x := by
  cases x with
  | ok a => exact .ok rfl
  | error f => exact .error rfl

theorem Meets.trans {x y z : Checked α} (h : Meets Eq x y) (h' : Meets Eq y z) : Meets Eq x z := by
  cases h with
  | ok heq =>
    cases h' with
    | ok heq' => exact .ok (heq.trans heq')
  | error hkind =>
    cases h' with
    | error hkind' => exact .error (hkind.trans hkind')

end Checked

/-- From alike states the operations give related values or faults of one kind, and leave alike
states. -/
def Relates (R : σ → τ → Prop) (S : α → β → Prop) (x : ExceptT Fault (StateM σ) α)
    (y : ExceptT Fault (StateM τ) β) : Prop :=
  ∀ s t, R s t → Checked.Meets S (x.run s).1 (y.run t).1 ∧ R (x.run s).2 (y.run t).2

variable {R : σ → τ → Prop} {S : α → β → Prop} {T : γ → δ → Prop}
  {x : ExceptT Fault (StateM σ) α} {y : ExceptT Fault (StateM τ) β}

theorem Couples.relates {y : ExceptT Fault (StateM τ) α} (h : Couples R x y) : Relates R Eq x y := by
  intro s t hst
  obtain ⟨hanswer, hafter⟩ := h s t hst
  rw [← hanswer]
  exact ⟨Checked.meets_self, hafter⟩

theorem Relates.bind {f : α → ExceptT Fault (StateM σ) γ} {g : β → ExceptT Fault (StateM τ) δ}
    (h : Relates R S x y) (hf : ∀ a b, S a b → Relates R T (f a) (g b)) :
    Relates R T (x >>= f) (y >>= g) := by
  intro s t hst
  obtain ⟨hanswer, hafter⟩ := h s t hst
  simp only [run_bind]
  rcases hx : x.run s with ⟨r, s'⟩
  rcases hy : y.run t with ⟨r', t'⟩
  rw [hx, hy] at hanswer hafter
  cases hanswer with
  | ok hab => exact hf _ _ hab s' t' hafter
  | error hkind => exact ⟨.error hkind, hafter⟩

/-- Behind operations that are coupled the values are the same. -/
theorem Couples.bind_relates {y : ExceptT Fault (StateM τ) α} {f : α → ExceptT Fault (StateM σ) γ}
    {g : α → ExceptT Fault (StateM τ) δ} (h : Couples R x y) (hf : ∀ a, Relates R T (f a) (g a)) :
    Relates R T (x >>= f) (y >>= g) :=
  h.relates.bind fun a _ hab => hab ▸ hf a

theorem relates_pure {a : α} {b : β} (h : S a b) :
    Relates R S (pure a : ExceptT Fault (StateM σ) α) (pure b : ExceptT Fault (StateM τ) β) :=
  fun _ _ hst => ⟨.ok h, hst⟩

theorem relates_throw {e e' : Fault} (h : e.kind = e'.kind) :
    Relates R S (throw e : ExceptT Fault (StateM σ) α) (throw e' : ExceptT Fault (StateM τ) β) :=
  fun _ _ hst => ⟨.error h, hst⟩

theorem relates_throw_bind {e e' : Fault} {f : α → ExceptT Fault (StateM σ) γ}
    {g : β → ExceptT Fault (StateM τ) δ} (h : e.kind = e'.kind) :
    Relates R T (throw e >>= f) (throw e' >>= g) :=
  fun _ _ hst => ⟨.error h, hst⟩

theorem relates_lift {x : Checked α} {y : Checked β} (h : Checked.Meets S x y) :
    Relates R S (liftM x : ExceptT Fault (StateM σ) α) (liftM y : ExceptT Fault (StateM τ) β) := by
  intro s t hst
  cases h with
  | ok hab => exact ⟨.ok hab, hst⟩
  | error hkind => exact ⟨.error hkind, hst⟩

theorem relates_lift_bind {x : Checked α} {y : Checked β} {f : α → ExceptT Fault (StateM σ) γ}
    {g : β → ExceptT Fault (StateM τ) δ} (h : Checked.Meets S x y)
    (hf : ∀ a b, S a b → Relates R T (f a) (g b)) : Relates R T (liftM x >>= f) (liftM y >>= g) :=
  (relates_lift h).bind hf

theorem relates_same_bind {x : Checked α} {f : α → ExceptT Fault (StateM σ) γ}
    {g : α → ExceptT Fault (StateM τ) δ} (hf : ∀ a, x = .ok a → Relates R T (f a) (g a)) :
    Relates R T (liftM x >>= f) (liftM x >>= g) := by
  cases x with
  | ok a => exact hf a rfl
  | error e => exact fun _ _ hst => ⟨.error rfl, hst⟩

theorem relates_get_bind {f : σ → ExceptT Fault (StateM σ) γ} {g : τ → ExceptT Fault (StateM τ) δ}
    (hf : ∀ s t, R s t → Relates R T (f s) (g t)) : Relates R T (get >>= f) (get >>= g) :=
  fun s t hst => hf s t hst s t hst

theorem relates_modify {f : σ → σ} {g : τ → τ} (h : ∀ s t, R s t → R (f s) (g t)) :
    Relates R Eq (modify f : ExceptT Fault (StateM σ) PUnit)
      (modify g : ExceptT Fault (StateM τ) PUnit) :=
  (couples_modify h).relates

theorem relates_ite {p q : Prop} [Decidable p] [Decidable q] {x' : ExceptT Fault (StateM σ) α}
    {y' : ExceptT Fault (StateM τ) β} (hpq : p ↔ q) (h : p → Relates R S x y)
    (h' : ¬p → Relates R S x' y') :
    Relates R S (if p then x else x') (if q then y else y') := by
  by_cases hp : p
  · rw [if_pos hp, if_pos (hpq.mp hp)]
    exact h hp
  · rw [if_neg hp, if_neg (mt hpq.mpr hp)]
    exact h' hp

end Relates

end CommandScript
