import CommandScript.Proofs.Ensures

/-!
# Two runs of an operation

`Couples R x y`: from states that are alike in the sense of `R`, `x` and `y` come to the same value
or the same fault, and the states that they leave are alike again. The rules go through both
operations at once, part by part.
-/

namespace CommandScript

section Couples

variable {σ τ α β γ : Type}

/-- From alike states the operations give the same value or the same fault and leave alike states. -/
def Couples (R : σ → τ → Prop) (x : ExceptT Fault (StateM σ) α) (y : ExceptT Fault (StateM τ) α) :
    Prop :=
  ∀ s t, R s t → (x.run s).1 = (y.run t).1 ∧ R (x.run s).2 (y.run t).2

variable {R : σ → τ → Prop} {x : ExceptT Fault (StateM σ) α} {y : ExceptT Fault (StateM τ) α}

theorem Couples.of_gives {s s' : σ} {t : τ} {a : α} (h : Couples R x y) (hst : R s t)
    (hx : x.run s = (.ok a, s')) : ∃ t', y.run t = (.ok a, t') ∧ R s' t' := by
  obtain ⟨hv, hr⟩ := h s t hst
  rw [hx] at hv hr
  exact ⟨(y.run t).2, Prod.ext hv.symm rfl, hr⟩

theorem Couples.of_error {s s' : σ} {t : τ} {e : Fault} (h : Couples R x y) (hst : R s t)
    (hx : x.run s = (.error e, s')) : ∃ t', y.run t = (.error e, t') ∧ R s' t' := by
  obtain ⟨hv, hr⟩ := h s t hst
  rw [hx] at hv hr
  exact ⟨(y.run t).2, Prod.ext hv.symm rfl, hr⟩

theorem Couples.bind {f : α → ExceptT Fault (StateM σ) β} {g : α → ExceptT Fault (StateM τ) β}
    (h : Couples R x y) (hf : ∀ a, Couples R (f a) (g a)) : Couples R (x >>= f) (y >>= g) := by
  intro s t hst
  simp only [run_bind]
  rcases hx : x.run s with ⟨e | a, s'⟩
  · obtain ⟨t', hy, hr⟩ := h.of_error hst hx
    rw [hy]
    exact ⟨rfl, hr⟩
  · obtain ⟨t', hy, hr⟩ := h.of_gives hst hx
    rw [hy]
    exact hf a s' t' hr

/-- What the first operation gives on states of an invariant may be assumed behind it. -/
theorem Couples.bind_stays {I : σ → Prop} {Q : α → Prop} {E : Fault → Prop}
    {f : α → ExceptT Fault (StateM σ) β} {g : α → ExceptT Fault (StateM τ) β}
    (h : Couples R x y) (hx : Stays I x Q E) (hI : ∀ s t, R s t → I s)
    (hf : ∀ a, Q a → Couples R (f a) (g a)) : Couples R (x >>= f) (y >>= g) := by
  intro s t hst
  have hstays := hx s (hI s t hst)
  simp only [run_bind]
  rcases hrun : x.run s with ⟨e | a, s'⟩ <;> rw [hrun] at hstays
  · obtain ⟨t', hy, hr⟩ := h.of_error hst hrun
    rw [hy]
    exact ⟨rfl, hr⟩
  · obtain ⟨t', hy, hr⟩ := h.of_gives hst hrun
    rw [hy]
    exact hf a hstays.2 s' t' hr

theorem couples_pure {a : α} : Couples R (pure a) (pure a) :=
  fun _ _ hst => ⟨rfl, hst⟩

theorem couples_throw {e : Fault} :
    Couples R (throw e : ExceptT Fault (StateM σ) α) (throw e : ExceptT Fault (StateM τ) α) :=
  fun _ _ hst => ⟨rfl, hst⟩

theorem couples_throw_bind {e : Fault} {f : α → ExceptT Fault (StateM σ) β}
    {g : α → ExceptT Fault (StateM τ) β} : Couples R (throw e >>= f) (throw e >>= g) :=
  fun _ _ hst => ⟨rfl, hst⟩

theorem couples_lift {x : Checked α} :
    Couples R (liftM x : ExceptT Fault (StateM σ) α) (liftM x : ExceptT Fault (StateM τ) α) := by
  intro s t hst
  rcases x with e | a
  · exact ⟨rfl, hst⟩
  · exact ⟨rfl, hst⟩

theorem couples_lift_bind {x : Checked α} {f : α → ExceptT Fault (StateM σ) β}
    {g : α → ExceptT Fault (StateM τ) β} (h : ∀ a, x = .ok a → Couples R (f a) (g a)) :
    Couples R (liftM x >>= f) (liftM x >>= g) := by
  intro s t hst
  rcases x with e | a
  · exact ⟨rfl, hst⟩
  · exact h a rfl s t hst

/-- Checked operations that come to related values, or to the same fault. -/
def Checked.Both (S : α → β → Prop) : Checked α → Checked β → Prop
  | .ok a, .ok b => S a b
  | .error e, .error e' => e = e'
  | _, _ => False

theorem Checked.Both.bind {δ : Type} {S : α → β → Prop} {T : γ → δ → Prop} {x : Checked α}
    {y : Checked β} {f : α → Checked γ} {g : β → Checked δ} (h : Both S x y)
    (hf : ∀ a b, S a b → Both T (f a) (g b)) : Both T (x >>= f) (y >>= g) := by
  rcases x with e | a <;> rcases y with e' | b
  · exact h
  · exact h.elim
  · exact h.elim
  · exact hf a b h

theorem Checked.Both.and_left {S : α → β → Prop} {Q : α → Prop} {E : Fault → Prop} {x : Checked α}
    {y : Checked β} (h : Both S x y) (hx : x.Yields Q E) : Both (fun a b => S a b ∧ Q a) x y := by
  rcases x with e | a <;> rcases y with e' | b
  · exact h
  · exact h.elim
  · exact h.elim
  · exact ⟨h, hx⟩

theorem Checked.Both.imp {S T : α → β → Prop} {x : Checked α} {y : Checked β} (h : Both S x y)
    (hst : ∀ a b, S a b → T a b) : Both T x y := by
  rcases x with e | a <;> rcases y with e' | b
  · exact h
  · exact h.elim
  · exact h.elim
  · exact hst a b h

theorem Checked.both_map_iff {δ : Type} {S : γ → δ → Prop} {f : α → γ} {g : β → δ} {x : Checked α}
    {y : Checked β} : Both S (f <$> x) (g <$> y) ↔ Both (fun a b => S (f a) (g b)) x y := by
  rcases x with e | a <;> rcases y with e' | b <;> exact Iff.rfl

theorem couples_both_bind {S : α → β → Prop} {x : Checked α} {y : Checked β}
    {f : α → ExceptT Fault (StateM σ) γ} {g : β → ExceptT Fault (StateM τ) γ}
    (h : Checked.Both S x y) (hf : ∀ a b, S a b → Couples R (f a) (g b)) :
    Couples R (liftM x >>= f) (liftM y >>= g) := by
  intro s t hst
  rcases x with e | a <;> rcases y with e' | b
  · obtain rfl : e = e' := h
    exact ⟨rfl, hst⟩
  · exact h.elim
  · exact h.elim
  · exact hf a b h s t hst

/-- Operations that change nothing where they fail are compared by what they come to. -/
theorem couples_atomic [Atomic x] [Atomic y] (h : ∀ s t, R s t →
    Checked.Both (fun a b => a.1 = b.1 ∧ R a.2 b.2) (outcome x s) (outcome y t)) :
    Couples R x y := by
  intro s t hst
  have hboth := h s t hst
  rw [Atomic.run_eq, Atomic.run_eq]
  rcases hx : outcome x s with e | ⟨a, s'⟩ <;> rcases hy : outcome y t with e' | ⟨b, t'⟩ <;>
    rw [hx, hy] at hboth
  · exact ⟨congrArg Except.error hboth, hst⟩
  · exact hboth.elim
  · exact hboth.elim
  · exact ⟨congrArg Except.ok hboth.1, hboth.2⟩

theorem Couples.map {g : α → β} (h : Couples R x y) : Couples R (g <$> x) (g <$> y) := by
  simp only [map_eq_pure_bind]
  exact h.bind fun _ => couples_pure

theorem couples_get_bind {f : σ → ExceptT Fault (StateM σ) β}
    {g : τ → ExceptT Fault (StateM τ) β} (hf : ∀ s t, R s t → Couples R (f s) (g t)) :
    Couples R (get >>= f) (get >>= g) :=
  fun s t hst => hf s t hst s t hst

theorem couples_set {s : σ} {t : τ} (h : R s t) :
    Couples R (set s : ExceptT Fault (StateM σ) PUnit) (set t : ExceptT Fault (StateM τ) PUnit) :=
  fun _ _ _ => ⟨rfl, h⟩

theorem couples_modify {f : σ → σ} {g : τ → τ} (h : ∀ s t, R s t → R (f s) (g t)) :
    Couples R (modify f : ExceptT Fault (StateM σ) PUnit)
      (modify g : ExceptT Fault (StateM τ) PUnit) :=
  fun s t hst => ⟨rfl, h s t hst⟩

theorem couples_ite {p : Prop} [Decidable p] {x' : ExceptT Fault (StateM σ) α}
    {y' : ExceptT Fault (StateM τ) α} (h : p → Couples R x y) (h' : ¬p → Couples R x' y') :
    Couples R (if p then x else x') (if p then y else y') := by
  split
  · exact h ‹_›
  · exact h' ‹_›

theorem couples_tryCatch {f : Fault → ExceptT Fault (StateM σ) α}
    {g : Fault → ExceptT Fault (StateM τ) α} (h : Couples R x y) (hf : ∀ e, Couples R (f e) (g e)) :
    Couples R (tryCatch x f) (tryCatch y g) := by
  intro s t hst
  simp only [run_tryCatch]
  rcases hx : x.run s with ⟨e | a, s'⟩
  · obtain ⟨t', hy, hr⟩ := h.of_error hst hx
    rw [hy]
    exact hf e s' t' hr
  · obtain ⟨t', hy, hr⟩ := h.of_gives hst hx
    rw [hy]
    exact ⟨rfl, hr⟩

theorem couples_mapM {f : γ → ExceptT Fault (StateM σ) α} {g : γ → ExceptT Fault (StateM τ) α}
    {l : List γ} (h : ∀ c ∈ l, Couples R (f c) (g c)) : Couples R (l.mapM f) (l.mapM g) := by
  induction l with
  | nil => exact couples_pure
  | cons c l ih =>
    simp only [List.mapM_cons]
    refine (h c List.mem_cons_self).bind fun a => ?_
    exact (ih fun c hc => h c (.tail _ hc)).bind fun _ => couples_pure

/-- Staying among the states of an invariant is coupling with itself. -/
theorem couples_self_iff {I : σ → Prop} {x : ExceptT Fault (StateM σ) α} :
    Couples (fun s t => s = t ∧ I s) x x ↔ Stays I x (fun _ => True) fun _ => True := by
  constructor
  · intro h s hs
    have hs := (h s s ⟨rfl, hs⟩).2.2
    rcases hx : x.run s with ⟨e | a, t⟩ <;> rw [hx] at hs
    · exact ⟨hs, trivial⟩
    · exact ⟨hs, trivial⟩
  · rintro h s _ ⟨rfl, hs⟩
    have hs := h s hs
    rcases hx : x.run s with ⟨e | a, t⟩ <;> rw [hx] at hs
    · exact ⟨rfl, rfl, hs.1⟩
    · exact ⟨rfl, rfl, hs.1⟩

end Couples

end CommandScript
