import CommandScript.Proofs.Couples
import CommandScript.Script.Findings

/-!
# Stopping at a fault and going on

Both walks over a script take in their faults by `record`, which stops a compilation and lets a
check go on. A part that records nothing is `Quiet`: it does not look at the findings, keeps them
and logs no error. A part that records `Tracks`: as long as the run that stops has no fault, the run
that goes on is the same, and where the one stops, the other has that fault first. From there on the
two have nothing more to do with each other, and what `Going` says is all that is left of the one
that goes on.
-/

namespace CommandScript.Script

/-- The state of a walk, which has findings and a log. -/
class Recorder (σ : Type) where
  findings : σ → Findings
  log : σ → Log
  noted : σ → Findings → Log → σ
  findings_noted (s : σ) (found : Findings) (l : Log) : findings (noted s found l) = found
  log_noted (s : σ) (found : Findings) (l : Log) : log (noted s found l) = l
  noted_self (s : σ) : noted s (findings s) (log s) = s

namespace Recorder

attribute [simp] findings_noted log_noted noted_self

variable {σ α β γ : Type} [Recorder σ]

/-- Takes in a fault. -/
def record (f : Fault) : ExceptT Fault (StateM σ) Unit := do
  let s ← get
  let (found, log) ← (findings s).record (log s) f
  set (noted s found log)

/-- The states differ in their findings only, which are `found` and `found'`; `errors` are the
messages on errors in their log. -/
structure Blind (found found' : Findings) (errors : List String) (s t : σ) : Prop where
  found_eq : findings s = found
  eq_noted : t = noted s found' (log s)
  errors_eq : (log s).messages .error = errors

/-- The operation does not look at the findings, keeps them and logs no error. -/
def Quiet (x : ExceptT Fault (StateM σ) α) : Prop :=
  ∀ found found' errors, Couples (Blind found found' errors) x x

/-- Going on, a walk has found at least `first`, in this order. No two of its faults have the same
text, and behind the errors of `base` it has logged their texts. -/
structure Going (base : List String) (first : List Fault) (s : σ) : Prop where
  collecting : (findings s).collecting = true
  found : first <+: (findings s).faults
  distinct : ((findings s).faults.map Fault.message).Nodup
  logged : (log s).messages .error = base ++ (findings s).faults.map Fault.message

/-- Nothing is found yet; the first state stops at a fault and the second one goes on. -/
abbrev Twin (base : List String) : σ → σ → Prop :=
  Blind { collecting := false } { collecting := true } base

/-- The run that stops and the one that goes on: they are the same up to the fault that the one
stops at, and the other never fails. -/
structure Tracks (base : List String) (x y : ExceptT Fault (StateM σ) α) : Prop where
  leads : ∀ s t, Twin base s t → match x.run s with
    | (.ok a, s') => ∃ t', y.run t = (.ok a, t') ∧ Twin base s' t'
    | (.error f, _) => ∃ a t', y.run t = (.ok a, t') ∧ Going base [f] t'
  goes : ∀ first, Stays (Going base first) y (fun _ => True) fun _ => False

variable {base : List String} {x y : ExceptT Fault (StateM σ) α}

theorem Blind.refl (s : σ) : Blind (findings s) (findings s) ((log s).messages .error) s s :=
  ⟨rfl, (noted_self s).symm, rfl⟩

theorem Blind.found_eq' {found found' : Findings} {errors : List String} {s t : σ}
    (h : Blind found found' errors s t) : findings t = found' := by
  rw [h.eq_noted, findings_noted]

theorem Quiet.findings_eq (h : Quiet x) {s t : σ} {r : Except Fault α} (hx : x.run s = (r, t)) :
    findings t = findings s := by
  have hb := (h _ _ _ s s (.refl s)).2.found_eq
  rwa [hx] at hb

theorem run_record (f : Fault) (s : σ) :
    (record f).run s = match (findings s).record (log s) f with
      | .ok (found, l) => (.ok (), noted s found l)
      | .error e => (.error e, s) := by
  change ((liftM ((findings s).record (log s) f) : ExceptT Fault (StateM σ) (Findings × Log)) >>=
    fun r => set (noted s r.1 r.2)).run s = _
  rw [run_bind]
  rcases (findings s).record (log s) f with e | ⟨found, l⟩
  · rfl
  · rfl

/-! ### Stopping -/

theorem record_gives {f : Fault} {s t : σ} (hc : (findings s).collecting = false) :
    ¬ Gives (record f) s () t := by
  unfold Gives
  rw [run_record, Findings.record, hc]
  exact fun h => nomatch h

/-- Where a walk stops at a fault, what succeeds had none. -/
theorem Quiet.gives_of_tryCatch {x : ExceptT Fault (StateM σ) Unit} (h : Quiet x) {g : Fault → Fault}
    {s t : σ} (hc : (findings s).collecting = false)
    (hgives : Gives (tryCatch x fun f => record (g f)) s () t) : Gives x s () t := by
  obtain hx | ⟨e, u, he, hu⟩ := gives_tryCatch.mp hgives
  · exact hx
  · exact (record_gives (by rw [h.findings_eq he, hc]) hu).elim

/-! ### Going on -/

theorem Going.of_keeps {first : List Fault} {s s' : σ} (h : Going base first s)
    (hf : findings s' = findings s)
    (hl : (log s').messages .error = (log s).messages .error) : Going base first s' := by
  obtain ⟨hc, hfound, hd, hlog⟩ := h
  exact ⟨hf ▸ hc, hf ▸ hfound, hf ▸ hd, by rw [hl, hlog, hf]⟩

/-- A part that records nothing may fail, but it goes on where the walk does. -/
theorem Quiet.stays (h : Quiet x) (first : List Fault) :
    Stays (Going base first) x (fun _ => True) fun _ => True := by
  intro s hs
  have hb := (h _ _ _ s s (.refl s)).2
  rcases hx : x.run s with ⟨e | a, s'⟩ <;> rw [hx] at hb
  · exact ⟨hs.of_keeps hb.found_eq hb.errors_eq, trivial⟩
  · exact ⟨hs.of_keeps hb.found_eq hb.errors_eq, trivial⟩

theorem messages_add (l : Log) {c : Category} (hc : c.isAlwaysOn = true) (message : String) :
    (l.add c message).messages c = l.messages c ++ [message] := by
  simp [Log.add, Log.messages, Category.isKept, hc]

/-- A log does not keep a message of a category under another one. -/
theorem messages_add_of_ne (l : Log) {c c' : Category} (hc : c ≠ c') (message : String) :
    (l.add c message).messages c' = l.messages c' := by
  unfold Log.add
  split
  · simp [Log.messages, hc]
  · rfl

/-- A fault whose text is new becomes the last one. -/
theorem Going.noted {first first' : List Fault} {f : Fault} {s : σ} (h : Going base first s)
    (hnew : f.message ∉ (findings s).faults.map Fault.message)
    (hfirst : first' <+: (findings s).faults ++ [f]) :
    Going base first' (noted s { collecting := true, faults := (findings s).faults ++ [f] }
      ((log s).add .error f.message)) := by
  constructor
  · rw [findings_noted]
  · rw [findings_noted]
    exact hfirst
  · rw [findings_noted, List.map_append, List.map_singleton, List.nodup_append]
    refine ⟨h.distinct, List.pairwise_singleton _ _, fun m hm m' hm' heq => ?_⟩
    rw [List.mem_singleton] at hm'
    exact hnew (hm' ▸ heq ▸ hm)
  · rw [findings_noted, log_noted, messages_add _ rfl, h.logged, List.map_append,
      List.append_assoc, List.map_singleton]

/-- Going on, a fault becomes one more of the faults, unless its text was there. -/
theorem record_going {first : List Fault} {s : σ} (h : Going base first s) (f : Fault) :
    ∃ s', (record f).run s = (.ok (), s') ∧ Going base first s' ∧
      ((findings s).faults = [] → Going base [f] s') := by
  simp only [run_record, Findings.record, h.collecting, Bool.not_true, Bool.false_eq_true, if_false]
  by_cases hold : ((findings s).faults.any fun g => g.message == f.message) = true
  · rw [if_pos hold]
    refine ⟨_, rfl, ?_, fun hnone => ?_⟩
    · rwa [noted_self]
    · rw [hnone] at hold
      cases hold
  · rw [if_neg hold]
    have hnew : f.message ∉ (findings s).faults.map Fault.message := by simpa using hold
    refine ⟨_, rfl, ?_, fun hnone => ?_⟩
    · exact h.noted hnew (h.found.trans (List.prefix_append _ _))
    · refine h.noted hnew ?_
      rw [hnone]
      exact List.prefix_rfl

/-! ### Both at once -/

theorem Blind.going {s t : σ} (h : Twin base s t) : Going base [] t := by
  obtain ⟨-, rfl, herrors⟩ := h
  exact ⟨by simp, by simp, by simp, by simp [herrors]⟩

/-- A part that records nothing and cannot fail is the same in both runs. -/
theorem Quiet.tracks (h : Quiet x) (hok : ∀ s, ∃ a, (x.run s).1 = .ok a) : Tracks base x x := by
  constructor
  · intro s t hst
    rcases hx : x.run s with ⟨e | a, s'⟩
    · obtain ⟨a, ha⟩ := hok s
      rw [hx] at ha
      cases ha
    · exact (h _ _ base).of_gives hst hx
  · intro first s hs
    have hstays := h.stays first s hs
    rcases hx : x.run s with ⟨e | a, s'⟩ <;> rw [hx] at hstays
    · obtain ⟨a, ha⟩ := hok s
      rw [hx] at ha
      cases ha
    · exact hstays

theorem tracks_pure {a : α} : Tracks base (pure a : ExceptT Fault (StateM σ) α) (pure a) :=
  Quiet.tracks (fun _ _ _ => couples_pure) fun _ => ⟨a, rfl⟩

theorem tracks_record (f : Fault) :
    Tracks base (record f : ExceptT Fault (StateM σ) Unit) (record f) := by
  constructor
  · intro s t hst
    have hstop : (record f).run s = (.error f, s) := by
      rw [run_record, hst.found_eq]
      rfl
    obtain ⟨t', hrun, -, ht'⟩ := record_going hst.going f
    rw [hstop, hrun]
    exact ⟨(), t', rfl, ht' (by rw [hst.found_eq'])⟩
  · intro first s hs
    obtain ⟨s', hrun, hs', -⟩ := record_going hs f
    rw [hrun]
    exact ⟨hs', trivial⟩

/-- A part that records nothing comes to the same fault in both runs, which may then be recorded. -/
theorem Quiet.tracks_tryCatch {f : Fault → ExceptT Fault (StateM σ) α} (h : Quiet x)
    (hf : ∀ e, Tracks base (f e) (f e)) : Tracks base (tryCatch x f) (tryCatch x f) := by
  constructor
  · intro s t hst
    have hx := h { collecting := false } { collecting := true } base
    simp only [run_tryCatch]
    rcases hr : x.run s with ⟨e | a, s'⟩
    · obtain ⟨t', hy, hst'⟩ := hx.of_error hst hr
      rw [hy]
      exact (hf e).leads s' t' hst'
    · obtain ⟨t', hy, hst'⟩ := hx.of_gives hst hr
      rw [hy]
      exact ⟨t', rfl, hst'⟩
  · exact fun first => stays_tryCatch (h.stays first) fun e _ => (hf e).goes first

theorem Tracks.bind {f g : α → ExceptT Fault (StateM σ) β} (hx : Tracks base x y)
    (hf : ∀ a, Tracks base (f a) (g a)) : Tracks base (x >>= f) (y >>= g) := by
  constructor
  · intro s t hst
    have h := hx.leads s t hst
    simp only [run_bind]
    rcases hr : x.run s with ⟨e | a, s'⟩ <;> rw [hr] at h
    · -- the first part stopped, and the run that goes on keeps that fault in front
      obtain ⟨a, t', hy, ht'⟩ := h
      have hgoes := (hf a).goes [e] t' ht'
      rw [hy]
      dsimp only
      rcases hr' : (g a).run t' with ⟨e' | b, t''⟩ <;> rw [hr'] at hgoes
      · exact hgoes.2.elim
      · exact ⟨b, t'', rfl, hgoes.1⟩
    · obtain ⟨t', hy, hst'⟩ := h
      rw [hy]
      exact (hf a).leads s' t' hst'
  · exact fun first => (hx.goes first).bind fun a _ => (hf a).goes first

theorem tracks_get_bind {f : σ → ExceptT Fault (StateM σ) β}
    (h : ∀ s found, Tracks base (f s) (f (noted s found (log s)))) :
    Tracks base (get >>= f) (get >>= f) := by
  constructor
  · rintro s _ ⟨hf, rfl, he⟩
    exact (h s _).leads s _ ⟨hf, rfl, he⟩
  · refine fun first => stays_get_bind fun s _ => ?_
    have hs := (h s (findings s)).goes first
    rwa [noted_self] at hs

theorem tracks_ite {p : Prop} [Decidable p] {x' y' : ExceptT Fault (StateM σ) α}
    (h : p → Tracks base x y) (h' : ¬p → Tracks base x' y') :
    Tracks base (if p then x else x') (if p then y else y') := by
  split
  · exact h ‹_›
  · exact h' ‹_›

theorem tracks_forIn {f : γ → PUnit → ExceptT Fault (StateM σ) (ForInStep PUnit)} {l : List γ}
    {u : PUnit} (hf : ∀ c, Tracks base (f c u) (f c u)) :
    Tracks base (forIn l u f) (forIn l u f) := by
  induction l with
  | nil => exact tracks_pure
  | cons c l ih =>
    rw [List.forIn_cons]
    refine (hf c).bind fun r => ?_
    cases r with
    | done _ => exact tracks_pure
    | yield _ => exact ih

theorem tracks_mapM {f : γ → ExceptT Fault (StateM σ) α} {l : List γ}
    (hf : ∀ c, Tracks base (f c) (f c)) : Tracks base (l.mapM f) (l.mapM f) := by
  induction l with
  | nil => exact tracks_pure
  | cons c l ih =>
    rw [List.mapM_cons]
    exact (hf c).bind fun _ => ih.bind fun _ => tracks_pure

end Recorder

end CommandScript.Script
