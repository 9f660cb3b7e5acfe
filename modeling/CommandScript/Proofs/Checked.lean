import CommandScript.Fault

/-!
# Taking checked operations apart

An operation that succeeded succeeded at every one of its parts. The lemmas on `ok` say so for plain
checked operations, those on `Gives` for operations that also change a state.
-/

namespace CommandScript

namespace Checked

variable {α β : Type}

theorem bind_ok {x : Checked α} {f : α → Checked β} {b : β} :
    x >>= f = .ok b ↔ ∃ a, x = .ok a ∧ f a = .ok b := by
  cases x with
  | error e => simp [bind, Except.bind]
  | ok a => simp [bind, Except.bind]

theorem map_ok {x : Checked α} {f : α → β} {b : β} :
    f <$> x = .ok b ↔ ∃ a, x = .ok a ∧ f a = b := by
  cases x with
  | error e => simp [Functor.map, Except.map]
  | ok a => simp [Functor.map, Except.map]

theorem pure_ok {a b : α} : (pure a : Checked α) = .ok b ↔ a = b := by
  simp [pure, Except.pure]

theorem fail_ok {k : FaultKind} {d : String} {a : α} :
    (Checked.fail k d : Checked α) = .ok a ↔ False := by
  simp [fail]

theorem ite_ok {p : Prop} [Decidable p] {x y : Checked α} {a : α} :
    (if p then x else y) = .ok a ↔ (p ∧ x = .ok a) ∨ (¬p ∧ y = .ok a) := by
  split <;> simp [*]

theorem ok_of_toOption {x : Checked α} {a : α} (h : x.toOption = some a) : x = .ok a := by
  cases x with
  | error e => cases h
  | ok b =>
    cases h
    rfl

end Checked

section Gives

variable {σ α β γ : Type}

/-- Run on `s`, the operation gives `a` and leaves `t`. -/
def Gives (x : ExceptT Fault (StateM σ) α) (s : σ) (a : α) (t : σ) : Prop :=
  x.run s = (.ok a, t)

variable {s t : σ} {a : α} {b : β}

theorem run_bind {ε : Type} (x : ExceptT ε (StateM σ) α) (f : α → ExceptT ε (StateM σ) β) (s : σ) :
    (x >>= f).run s = match x.run s with
      | (.ok a, t) => (f a).run t
      | (.error e, t) => (.error e, t) := by
  simp only [ExceptT.run, bind, ExceptT.bind, ExceptT.mk, ExceptT.bindCont, StateT.bind]
  rcases x s with ⟨_ | a, t⟩ <;> rfl

theorem run_tryCatch {ε : Type} (x : ExceptT ε (StateM σ) α) (f : ε → ExceptT ε (StateM σ) α)
    (s : σ) :
    (tryCatch x f).run s = match x.run s with
      | (.ok a, t) => (.ok a, t)
      | (.error e, t) => (f e).run t := by
  simp only [ExceptT.run, tryCatch, tryCatchThe, MonadExceptOf.tryCatch, ExceptT.tryCatch,
    ExceptT.mk, bind, StateT.bind]
  rcases x s with ⟨_ | a, t⟩ <;> rfl

theorem gives_bind {x : ExceptT Fault (StateM σ) α} {f : α → ExceptT Fault (StateM σ) β} :
    Gives (x >>= f) s b t ↔ ∃ a u, Gives x s a u ∧ Gives (f a) u b t := by
  unfold Gives
  rw [run_bind]
  constructor
  · intro h
    rcases hx : x.run s with ⟨e | a, u⟩
    · rw [hx] at h
      cases h
    · rw [hx] at h
      exact ⟨a, u, rfl, h⟩
  · rintro ⟨a, u, hx, hf⟩
    rw [hx]
    exact hf

theorem gives_pure {a' : α} : Gives (pure a' : ExceptT Fault (StateM σ) α) s a t ↔ a' = a ∧ s = t := by
  constructor
  · intro h
    cases h
    exact ⟨rfl, rfl⟩
  · rintro ⟨rfl, rfl⟩
    rfl

theorem gives_map {x : ExceptT Fault (StateM σ) α} {f : α → β} :
    Gives (f <$> x) s b t ↔ ∃ a, Gives x s a t ∧ f a = b := by
  rw [map_eq_pure_bind, gives_bind]
  simp only [gives_pure]
  exact ⟨fun ⟨a, u, h, h', e⟩ => ⟨a, e ▸ h, h'⟩, fun ⟨a, h, h'⟩ => ⟨a, t, h, h', rfl⟩⟩

theorem gives_get {u : σ} : Gives (get : ExceptT Fault (StateM σ) σ) s u t ↔ s = u ∧ s = t := by
  constructor
  · intro h
    cases h
    exact ⟨rfl, rfl⟩
  · rintro ⟨rfl, rfl⟩
    rfl

theorem gives_set {u : σ} {x : PUnit} :
    Gives (set u : ExceptT Fault (StateM σ) PUnit) s x t ↔ u = t := by
  constructor
  · intro h
    cases h
    rfl
  · rintro rfl
    rfl

theorem gives_modify {f : σ → σ} {x : PUnit} :
    Gives (modify f : ExceptT Fault (StateM σ) PUnit) s x t ↔ f s = t := by
  constructor
  · intro h
    cases h
    rfl
  · rintro rfl
    rfl

theorem gives_throw {e : Fault} :
    Gives (throw e : ExceptT Fault (StateM σ) α) s a t ↔ False := by
  refine iff_false_intro fun h => ?_
  cases h

theorem gives_lift {x : Checked α} :
    Gives (liftM x : ExceptT Fault (StateM σ) α) s a t ↔ x = .ok a ∧ s = t := by
  constructor
  · intro h
    cases x with
    | error e => cases h
    | ok a' =>
      cases h
      exact ⟨rfl, rfl⟩
  · rintro ⟨rfl, rfl⟩
    rfl

theorem gives_ite {p : Prop} [Decidable p] {x y : ExceptT Fault (StateM σ) α} :
    Gives (if p then x else y) s a t ↔ (p ∧ Gives x s a t) ∨ (¬p ∧ Gives y s a t) := by
  split <;> simp [*]

theorem gives_forIn_nil {f : γ → ExceptT Fault (StateM σ) Unit} {u : PUnit} :
    Gives (forIn ([] : List γ) PUnit.unit fun c _ => do
        f c
        pure (ForInStep.yield PUnit.unit)) s u t ↔ s = t := by
  rw [List.forIn_nil, gives_pure]
  exact ⟨fun h => h.2, fun h => ⟨rfl, h⟩⟩

/-- Going over a list with an operation is doing it for the first element and then for the rest. -/
theorem gives_forIn_cons {f : γ → ExceptT Fault (StateM σ) Unit} {c : γ} {l : List γ} {u : PUnit} :
    Gives (forIn (c :: l) PUnit.unit fun c _ => do
        f c
        pure (ForInStep.yield PUnit.unit)) s u t ↔
      ∃ m, Gives (f c) s () m ∧ Gives (forIn l PUnit.unit fun c _ => do
        f c
        pure (ForInStep.yield PUnit.unit)) m u t := by
  simp only [List.forIn_cons, gives_bind, gives_pure]
  constructor
  · rintro ⟨_, m, ⟨_, m', h, rfl, rfl⟩, h'⟩
    exact ⟨m', h, h'⟩
  · rintro ⟨m, h, h'⟩
    exact ⟨_, m, ⟨_, m, h, rfl, rfl⟩, h'⟩

/-- An operation whose faults are handled succeeded, or its handler did. -/
theorem gives_tryCatch {x : ExceptT Fault (StateM σ) α} {f : Fault → ExceptT Fault (StateM σ) α} :
    Gives (tryCatch x f) s a t ↔
      Gives x s a t ∨ ∃ e u, x.run s = (.error e, u) ∧ Gives (f e) u a t := by
  unfold Gives
  rw [run_tryCatch]
  rcases x.run s with ⟨e | a', u⟩
  · constructor
    · exact fun h => .inr ⟨e, u, rfl, h⟩
    · rintro (h | ⟨e', u', h, h'⟩)
      · cases h
      · cases h
        exact h'
  · constructor
    · exact .inl
    · rintro (h | ⟨e', u', h, h'⟩)
      · exact h
      · cases h

end Gives

end CommandScript
