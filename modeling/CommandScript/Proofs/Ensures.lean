import CommandScript.Proofs.Checked

/-!
# What operations ensure

A checked operation yields a value or a fault; one that also changes a state ensures something of
both, from every state that it may be run on. `Stays` is the case of an invariant, which also the
states that faults leave behind have. The lemmas go through an operation part by part.

Where an operation fails it may have changed its state before. One that is `Atomic` has not: it looks
at the state as long as it may fail, and what it does behind that does not fail.
-/

namespace CommandScript

namespace Checked

variable {α β : Type}

/-- The operation gives a value with `Q` or a fault with `E`. -/
def Yields (Q : α → Prop) (E : Fault → Prop) : Checked α → Prop
  | .ok a => Q a
  | .error f => E f

variable {Q Q' : α → Prop} {R : β → Prop} {E E' : Fault → Prop} {x : Checked α}

theorem Yields.bind {k : α → Checked β} (hx : x.Yields Q E) (hk : ∀ a, Q a → (k a).Yields R E) :
    (x >>= k).Yields R E := by
  rcases x with f | a
  · exact hx
  · exact hk a hx

theorem Yields.map {g : α → β} (hx : x.Yields Q E) (hg : ∀ a, Q a → R (g a)) :
    (g <$> x).Yields R E := by
  rcases x with f | a
  · exact hx
  · exact hg a hx

theorem yields_map_iff {g : α → β} : (g <$> x).Yields R E ↔ x.Yields (fun a => R (g a)) E := by
  rcases x with f | a <;> exact Iff.rfl

theorem Yields.imp (hx : x.Yields Q E) (hq : ∀ a, Q a → Q' a) (he : ∀ f, E f → E' f) :
    x.Yields Q' E' := by
  rcases x with f | a
  · exact he f hx
  · exact hq a hx

theorem Yields.of_error {f : Fault} (hx : x.Yields Q E) (h : x = .error f) : E f := by
  rw [h] at hx
  exact hx

/-- What an operation gives, it yields. -/
theorem yields_of {x : Checked α} (hq : ∀ a, x = .ok a → Q a) (he : ∀ f, x = .error f → E f) :
    x.Yields Q E := by
  rcases x with f | a
  · exact he f rfl
  · exact hq a rfl

theorem yields_trivial (x : Checked α) : x.Yields (fun _ => True) fun _ => True :=
  yields_of (fun _ _ => trivial) fun _ _ => trivial

theorem yields_ite {p : Prop} [Decidable p] {x y : Checked α} (hx : p → x.Yields Q E)
    (hy : ¬p → y.Yields Q E) : (if p then x else y).Yields Q E := by
  split
  · exact hx ‹_›
  · exact hy ‹_›

theorem yields_mapM {k : α → Checked β} {l : List α} (h : ∀ a ∈ l, (k a).Yields R E) :
    (l.mapM k).Yields (fun bs => ∀ b ∈ bs, R b) E := by
  induction l with
  | nil => exact fun _ hb => absurd hb List.not_mem_nil
  | cons a l ih =>
    rw [List.mapM_cons]
    refine (h a List.mem_cons_self).bind fun b hb => ?_
    refine (ih fun a ha => h a (.tail _ ha)).bind fun bs hbs => ?_
    exact fun b' hb' => (List.mem_cons.mp hb').elim (fun heq => heq ▸ hb) (hbs b')

end Checked

section Ensures

variable {σ α β : Type}

/-- Run where `P` holds, the operation gives a value and leaves a state with `Q`, or it ends in a
fault and leaves a state with `E`. -/
def Ensures (P : σ → Prop) (x : ExceptT Fault (StateM σ) α) (Q : α → σ → Prop)
    (E : Fault → σ → Prop) : Prop :=
  ∀ s, P s → match x.run s with
    | (.ok a, t) => Q a t
    | (.error f, t) => E f t

variable {P P' : σ → Prop} {Q Q' : α → σ → Prop} {R : β → σ → Prop} {E E' : Fault → σ → Prop}
  {x : ExceptT Fault (StateM σ) α}

theorem Ensures.bind {f : α → ExceptT Fault (StateM σ) β} (hx : Ensures P x Q E)
    (hf : ∀ a, Ensures (Q a) (f a) R E) : Ensures P (x >>= f) R E := by
  intro s hs
  have h := hx s hs
  rw [run_bind]
  rcases hr : x.run s with ⟨e | a, t⟩ <;> rw [hr] at h
  · exact h
  · exact hf a t h

theorem Ensures.imp (hx : Ensures P x Q E) (hp : ∀ s, P' s → P s) (hq : ∀ a s, Q a s → Q' a s)
    (he : ∀ f s, E f s → E' f s) : Ensures P' x Q' E' := by
  intro s hs
  have h := hx s (hp s hs)
  rcases hr : x.run s with ⟨e | a, t⟩ <;> rw [hr] at h
  · exact he e t h
  · exact hq a t h

theorem Ensures.of_gives {s t : σ} {a : α} (hx : Ensures P x Q E) (hs : P s)
    (h : x.run s = (.ok a, t)) : Q a t := by
  have := hx s hs
  rw [h] at this
  exact this

theorem Ensures.of_error {s t : σ} {f : Fault} (hx : Ensures P x Q E) (hs : P s)
    (h : x.run s = (.error f, t)) : E f t := by
  have := hx s hs
  rw [h] at this
  exact this

/-- What does not depend on the state may be assumed beforehand. -/
theorem ensures_of_and {q : Prop} (h : q → Ensures P x Q E) : Ensures (fun s => P s ∧ q) x Q E :=
  fun s hs => h hs.2 s hs.1

theorem ensures_pure {a : α} (h : ∀ s, P s → Q a s) : Ensures P (pure a) Q E :=
  h

theorem ensures_throw {f : Fault} (h : ∀ s, P s → E f s) :
    Ensures P (throw f : ExceptT Fault (StateM σ) α) Q E :=
  h

theorem ensures_lift {x : Checked α} {Q' : α → Prop} {E' : Fault → Prop} (hx : x.Yields Q' E')
    (hq : ∀ a s, P s → Q' a → Q a s) (he : ∀ f s, P s → E' f → E f s) :
    Ensures P (liftM x : ExceptT Fault (StateM σ) α) Q E := by
  intro s hs
  rcases x with f | a
  · exact he f s hs hx
  · exact hq a s hs hx

theorem ensures_get_bind {f : σ → ExceptT Fault (StateM σ) β}
    (hf : ∀ s, P s → Ensures (· = s) (f s) R E) : Ensures P (get >>= f) R E :=
  fun s hs => hf s hs s rfl

/-- What is read is the state, which stays as it is. -/
theorem ensures_read_bind {f : σ → ExceptT Fault (StateM σ) β}
    (hf : ∀ s, P s → Ensures P (f s) R E) :
    Ensures P (get >>= f) R E :=
  fun s hs => hf s hs s hs

theorem ensures_set {s' : σ} {Q : PUnit → σ → Prop} (h : ∀ s, P s → Q ⟨⟩ s') :
    Ensures P (set s' : ExceptT Fault (StateM σ) PUnit) Q E :=
  h

theorem ensures_modify {g : σ → σ} {Q : PUnit → σ → Prop} (h : ∀ s, P s → Q ⟨⟩ (g s)) :
    Ensures P (modify g : ExceptT Fault (StateM σ) PUnit) Q E :=
  h

theorem ensures_ite {p : Prop} [Decidable p] {x y : ExceptT Fault (StateM σ) α}
    (hx : p → Ensures P x Q E) (hy : ¬p → Ensures P y Q E) :
    Ensures P (if p then x else y) Q E := by
  split
  · exact hx ‹_›
  · exact hy ‹_›

/-- An operation that may be run first leaves the state as it is, or fails. -/
theorem ensures_unless {p : Prop} [Decidable p] {x : ExceptT Fault (StateM σ) PUnit}
    {k : PUnit → ExceptT Fault (StateM σ) α} (hx : Ensures P x (fun _ => P) E)
    (hk : Ensures P (k ⟨⟩) Q E) : Ensures P (if p then x >>= k else k ⟨⟩) Q E :=
  ensures_ite (fun _ => hx.bind fun _ => hk) fun _ => hk

theorem ensures_tryCatch {f : Fault → ExceptT Fault (StateM σ) α} {E₀ : Fault → σ → Prop}
    (hx : Ensures P x Q E₀) (hf : ∀ e, Ensures (E₀ e) (f e) Q E) :
    Ensures P (tryCatch x f) Q E := by
  intro s hs
  have h := hx s hs
  rw [run_tryCatch]
  rcases hr : x.run s with ⟨e | a, t⟩ <;> rw [hr] at h
  · exact hf e t h
  · exact h

end Ensures

section Stays

variable {σ α β : Type}

/-- The operation stays among the states with `I`; it gives a value with `Q` or a fault with `E`. -/
def Stays (I : σ → Prop) (x : ExceptT Fault (StateM σ) α) (Q : α → Prop)
    (E : Fault → Prop) : Prop :=
  Ensures I x (fun a s => I s ∧ Q a) (fun f s => I s ∧ E f)

variable {I : σ → Prop} {Q Q' : α → Prop} {R : β → Prop} {E E' : Fault → Prop}
  {x : ExceptT Fault (StateM σ) α}

/-- What comes behind an operation that stays may leave. -/
theorem Stays.bind_ensures {f : α → ExceptT Fault (StateM σ) β} {R : β → σ → Prop}
    (hx : Stays I x Q E) (hf : ∀ a, Q a → Ensures I (f a) R fun f s => I s ∧ E f) :
    Ensures I (x >>= f) R fun f s => I s ∧ E f :=
  Ensures.bind hx fun a s hs => hf a hs.2 s hs.1

theorem Stays.bind {f : α → ExceptT Fault (StateM σ) β} (hx : Stays I x Q E)
    (hf : ∀ a, Q a → Stays I (f a) R E) : Stays I (x >>= f) R E :=
  hx.bind_ensures hf

theorem Stays.imp (hx : Stays I x Q E) (hq : ∀ a, Q a → Q' a) (he : ∀ f, E f → E' f) :
    Stays I x Q' E' :=
  Ensures.imp hx (fun _ h => h) (fun a _ h => ⟨h.1, hq a h.2⟩) fun f _ h => ⟨h.1, he f h.2⟩

theorem stays_pure {a : α} (h : Q a) : Stays I (pure a) Q E :=
  fun _ hs => ⟨hs, h⟩

theorem Stays.map {g : α → β} (hx : Stays I x Q E) (hg : ∀ a, Q a → R (g a)) :
    Stays I (g <$> x) R E := by
  rw [map_eq_pure_bind]
  exact hx.bind fun a ha => stays_pure (hg a ha)

theorem stays_throw {f : Fault} (h : E f) : Stays I (throw f : ExceptT Fault (StateM σ) α) Q E :=
  fun _ hs => ⟨hs, h⟩

theorem stays_throw_bind {f : Fault} {k : α → ExceptT Fault (StateM σ) β} (h : E f) :
    Stays I ((throw f : ExceptT Fault (StateM σ) α) >>= k) R E :=
  stays_throw h

theorem stays_lift {x : Checked α} (hx : x.Yields Q E) :
    Stays I (liftM x : ExceptT Fault (StateM σ) α) Q E :=
  ensures_lift hx (fun _ _ hs ha => ⟨hs, ha⟩) fun _ _ hs hf => ⟨hs, hf⟩

theorem stays_get_bind {f : σ → ExceptT Fault (StateM σ) β} (hf : ∀ s, I s → Stays I (f s) R E) :
    Stays I (get >>= f) R E :=
  ensures_read_bind hf

theorem stays_modify {g : σ → σ} {Q : PUnit → Prop} (h : ∀ s, I s → I (g s)) (hq : Q ⟨⟩) :
    Stays I (modify g : ExceptT Fault (StateM σ) PUnit) Q E :=
  fun s hs => ⟨h s hs, hq⟩

theorem stays_ite {p : Prop} [Decidable p] {x y : ExceptT Fault (StateM σ) α}
    (hx : p → Stays I x Q E) (hy : ¬p → Stays I y Q E) : Stays I (if p then x else y) Q E :=
  ensures_ite hx hy

theorem stays_mapM {f : α → ExceptT Fault (StateM σ) β} {l : List α}
    (h : ∀ a ∈ l, Stays I (f a) R E) : Stays I (l.mapM f) (fun bs => ∀ b ∈ bs, R b) E := by
  induction l with
  | nil => exact stays_pure fun _ hb => absurd hb List.not_mem_nil
  | cons a l ih =>
    rw [List.mapM_cons]
    refine (h a List.mem_cons_self).bind fun b hb => ?_
    refine (ih fun a ha => h a (.tail _ ha)).bind fun bs hbs => stays_pure ?_
    exact fun b' hb' => (List.mem_cons.mp hb').elim (fun heq => heq ▸ hb) (hbs b')

theorem stays_forIn {f : α → PUnit → ExceptT Fault (StateM σ) (ForInStep PUnit)} {l : List α}
    {u : PUnit} (h : ∀ a ∈ l, Stays I (f a u) (fun _ => True) E) :
    Stays I (forIn l u f) (fun _ => True) E := by
  induction l with
  | nil => exact stays_pure trivial
  | cons a l ih =>
    rw [List.forIn_cons]
    refine (h a List.mem_cons_self).bind fun r _ => ?_
    cases r with
    | done _ => exact stays_pure trivial
    | yield _ => exact ih fun a ha => h a (.tail _ ha)

theorem stays_tryCatch {f : Fault → ExceptT Fault (StateM σ) α} {E₀ : Fault → Prop}
    (hx : Stays I x Q E₀) (hf : ∀ e, E₀ e → Stays I (f e) Q E) : Stays I (tryCatch x f) Q E :=
  ensures_tryCatch hx fun e s hs => hf e hs.2 s hs.1

/-- The operation stays among the states with `I`, whatever comes of it. -/
abbrev Preserves (I : σ → Prop) (x : ExceptT Fault (StateM σ) α) : Prop :=
  Stays I x (fun _ => True) fun _ => True

theorem preserves_lift (x : Checked α) :
    Preserves I (liftM x : ExceptT Fault (StateM σ) α) :=
  stays_lift x.yields_trivial

theorem preserves_set {s : σ} (h : I s) :
    Preserves I (set s : ExceptT Fault (StateM σ) PUnit) :=
  fun _ _ => ⟨h, trivial⟩

theorem preserves_modify {g : σ → σ} (h : ∀ s, I s → I (g s)) :
    Preserves I (modify g : ExceptT Fault (StateM σ) PUnit) :=
  stays_modify h trivial

end Stays

section Atomic

variable {σ α β : Type}

/-- The operation changes nothing, whatever comes of it. -/
class Still (x : ExceptT Fault (StateM σ) α) : Prop where
  same : ∀ s, (x.run s).2 = s

/-- The operation does not fail. -/
class Safe (x : ExceptT Fault (StateM σ) α) : Prop where
  gives : ∀ s, ∃ a t, x.run s = (.ok a, t)

/-- Where the operation fails it has changed nothing. -/
class Atomic (x : ExceptT Fault (StateM σ) α) : Prop where
  same : ∀ {s t : σ} {f : Fault}, x.run s = (.error f, t) → t = s

variable {x y : ExceptT Fault (StateM σ) α} {f : α → ExceptT Fault (StateM σ) β} {p : Prop}

theorem Still.of_run [Still x] {s t : σ} {r : Checked α} (h : x.run s = (r, t)) : t = s := by
  have := Still.same (x := x) s
  rwa [h] at this

instance still_get : Still (get : ExceptT Fault (StateM σ) σ) := ⟨fun _ => rfl⟩

instance still_pure (a : α) : Still (pure a : ExceptT Fault (StateM σ) α) := ⟨fun _ => rfl⟩

instance still_throw (g : Fault) : Still (throw g : ExceptT Fault (StateM σ) α) := ⟨fun _ => rfl⟩

instance still_lift (r : Checked α) : Still (liftM r : ExceptT Fault (StateM σ) α) :=
  ⟨fun _ => by cases r <;> rfl⟩

instance still_ite [Decidable p] [Still x] [Still y] : Still (if p then x else y) := by
  split <;> infer_instance

instance still_bind [Still x] [∀ a, Still (f a)] : Still (x >>= f) where
  same s := by
    rw [run_bind]
    rcases hx : x.run s with ⟨g | a, t⟩
    · exact Still.of_run hx
    · exact (Still.same (x := f a) t).trans (Still.of_run hx)

/-- What comes behind a fault is not done. -/
instance still_throw_bind (g : Fault) : Still ((throw g : ExceptT Fault (StateM σ) α) >>= f) :=
  ⟨fun _ => rfl⟩

instance safe_get : Safe (get : ExceptT Fault (StateM σ) σ) := ⟨fun s => ⟨s, s, rfl⟩⟩

instance safe_pure (a : α) : Safe (pure a : ExceptT Fault (StateM σ) α) := ⟨fun s => ⟨a, s, rfl⟩⟩

instance safe_set (t : σ) : Safe (set t : ExceptT Fault (StateM σ) PUnit) :=
  ⟨fun _ => ⟨⟨⟩, t, rfl⟩⟩

instance safe_modify (g : σ → σ) : Safe (modify g : ExceptT Fault (StateM σ) PUnit) :=
  ⟨fun s => ⟨⟨⟩, g s, rfl⟩⟩

instance safe_ite [Decidable p] [Safe x] [Safe y] : Safe (if p then x else y) := by
  split <;> infer_instance

instance safe_bind [Safe x] [∀ a, Safe (f a)] : Safe (x >>= f) where
  gives s := by
    obtain ⟨a, t, hx⟩ := Safe.gives (x := x) s
    rw [run_bind, hx]
    exact Safe.gives t

instance Still.atomic [Still x] : Atomic x := ⟨Still.of_run⟩

instance Safe.atomic [Safe x] : Atomic x where
  same {s t g} h := by
    obtain ⟨a, u, hx⟩ := Safe.gives (x := x) s
    cases hx.symm.trans h

instance atomic_ite [Decidable p] [Atomic x] [Atomic y] : Atomic (if p then x else y) := by
  split <;> infer_instance

/-- What may fail comes behind what only looks. -/
instance atomic_bind [Still x] [∀ a, Atomic (f a)] : Atomic (x >>= f) where
  same {s t g} h := by
    rw [run_bind] at h
    rcases hx : x.run s with ⟨g' | a, u⟩ <;> rw [hx] at h
    · cases h
      exact Still.of_run hx
    · exact (Atomic.same h).trans (Still.of_run hx)

/-- What does not fail may come behind what may. -/
instance atomic_bind_safe [Atomic x] [∀ a, Safe (f a)] : Atomic (x >>= f) where
  same {s t g} h := by
    rw [run_bind] at h
    rcases hx : x.run s with ⟨g' | a, u⟩ <;> rw [hx] at h
    · cases h
      exact Atomic.same hx
    · obtain ⟨b, v, hf⟩ := Safe.gives (x := f a) u
      cases hf.symm.trans h

/-- An operation that is atomic is known by what it comes to. -/
theorem Atomic.run_eq [Atomic x] (s : σ) : x.run s = match outcome x s with
    | .ok (a, t) => (.ok a, t)
    | .error g => (.error g, s) := by
  unfold outcome
  rcases hx : x.run s with ⟨g | a, t⟩
  · rw [Atomic.same hx]
  · rfl

/-- An atomic operation stays among states if those stay among them that it leaves when it succeeds. -/
theorem stays_atomic [Atomic x] {I : σ → Prop} {Q : α → Prop} {E : Fault → Prop}
    (h : ∀ s, I s → (outcome x s).Yields (fun r => I r.2 ∧ Q r.1) E) : Stays I x Q E := by
  intro s hs
  have hx := h s hs
  rw [Atomic.run_eq]
  rcases ho : outcome x s with g | ⟨a, t⟩ <;> rw [ho] at hx
  · exact ⟨hs, hx⟩
  · exact hx

end Atomic

end CommandScript
