import CommandScript.Proofs.Assembly.Walk
import CommandScript.Proofs.Declarations.Change
import CommandScript.Proofs.Relates

/-!
# Passing over lines

A walk passes over lines if it takes in one after the other without a fault. It passes over two
pieces of a script if it passes over the one and from there over the other, so what is known of the
pieces gives what is known of the script.
-/

namespace CommandScript

theorem Relates.of_gives {σ τ α β : Type} {R : σ → τ → Prop} {S : α → β → Prop}
    {x : ExceptT Fault (StateM σ) α} {y : ExceptT Fault (StateM τ) β} {s s' : σ} {t : τ} {a : α}
    (h : Relates R S x y) (hst : R s t) (hx : Gives x s a s') :
    ∃ b t', Gives y t b t' ∧ S a b ∧ R s' t' := by
  obtain ⟨hanswer, hafter⟩ := h s t hst
  unfold Gives at hx
  rw [hx] at hanswer hafter
  rcases hy : y.run t with ⟨g | b, t'⟩ <;> rw [hy] at hanswer hafter
  · cases hanswer
  · cases hanswer with
    | ok hab => exact ⟨b, t', hy, hab, hafter⟩

namespace Script

section PassesOver

variable {σ : Type} {step : Line → ExceptT Fault (StateM σ) Unit} {s t u : σ} {ls ls' : List Line}

/-- The walk takes in one line after the other. -/
inductive PassesOver (step : Line → ExceptT Fault (StateM σ) Unit) : σ → List Line → σ → Prop where
  | nil (s : σ) : PassesOver step s [] s
  | cons {s t u : σ} {l : Line} {ls : List Line} : Gives (step l) s () t → PassesOver step t ls u →
      PassesOver step s (l :: ls) u

theorem passesOver_iff : PassesOver step s ls t ↔ Gives (forIn ls PUnit.unit fun l _ => do
      step l
      pure (ForInStep.yield PUnit.unit)) s PUnit.unit t := by
  induction ls generalizing s with
  | nil =>
    rw [gives_forIn_nil]
    constructor
    · rintro ⟨⟩
      rfl
    · rintro rfl
      exact .nil s
  | cons l ls ih =>
    rw [gives_forIn_cons]
    constructor
    · rintro (_ | ⟨hl, hls⟩)
      exact ⟨_, hl, ih.mp hls⟩
    · rintro ⟨m, hl, hls⟩
      exact .cons hl (ih.mpr hls)

theorem passesOver_append : PassesOver step s (ls ++ ls') t ↔
    ∃ m, PassesOver step s ls m ∧ PassesOver step m ls' t := by
  induction ls generalizing s with
  | nil =>
    constructor
    · exact fun h => ⟨s, .nil s, h⟩
    · rintro ⟨_, ⟨⟩, h⟩
      exact h
  | cons l ls ih =>
    constructor
    · rintro (_ | ⟨hl, hls⟩)
      obtain ⟨m, h, h'⟩ := ih.mp hls
      exact ⟨m, .cons hl h, h'⟩
    · rintro ⟨m, _ | ⟨hl, hls⟩, h'⟩
      exact .cons hl (ih.mpr ⟨m, hls, h'⟩)

/-- A walk passes over lines in one way. -/
theorem PassesOver.unique (h : PassesOver step s ls t) (h' : PassesOver step s ls u) : t = u := by
  induction h with
  | nil =>
    cases h'
    rfl
  | cons h _ ih =>
    obtain _ | ⟨h₁, hrest⟩ := h'
    unfold Gives at h h₁
    cases h.symm.trans h₁
    exact ih hrest

theorem PassesOver.append (h : PassesOver step s ls t) (h' : PassesOver step t ls' u) :
    PassesOver step s (ls ++ ls') u :=
  passesOver_append.mpr ⟨t, h, h'⟩

end PassesOver

/-! ### Lines without a fault -/

/-- While nothing is collected, the first walk takes in a line if it has no fault. -/
theorem Declarations.gives_lineOrFault {d d' : Declarations} {l : Line}
    (hc : d.findings.collecting = false) :
    Gives (lineOrFault l) d () d' ↔ Gives (line l) d () d' :=
  ⟨(line_quiet l).gives_of_tryCatch hc, fun h => gives_tryCatch.mpr (.inl h)⟩

end Script

namespace Assembly

open Script

/-- The assembly with what a line has become behind the others. -/
def pushed? (a : Assembly) (l : Line) (r : Option Command) : Assembly :=
  r.elim a (a.pushed l)

/-- While nothing is collected, the second walk takes in a line if it has no fault. -/
theorem gives_line {a a' : Assembly} {l : Line} (hc : a.findings.collecting = false) :
    Gives (line l) a () a' ↔ ∃ r b, Gives (readLine l.text) a r b ∧ a' = b.pushed? l r := by
  refine Iff.trans ⟨(takeIn_quiet l).gives_of_tryCatch hc, fun h => gives_tryCatch.mpr (.inl h)⟩ ?_
  rw [gives_bind]
  refine exists_congr fun r => exists_congr fun b => and_congr_right fun _ => ?_
  cases r with
  | none => exact gives_pure.trans ⟨fun h => h.2.symm, fun h => ⟨rfl, h.symm⟩⟩
  | some c => exact gives_modify.trans eq_comm

theorem walks_of_passesOver {a a' : Assembly} {ls : List Line} (hc : a.findings.collecting = false)
    (h : PassesOver line a ls a') : Walks a ls a' :=
  walks_of_forIn hc (passesOver_iff.mp h)

end Assembly

end CommandScript
