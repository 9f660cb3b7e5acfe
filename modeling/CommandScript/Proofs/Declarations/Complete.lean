import CommandScript.Proofs.Declarations.Exchange
import CommandScript.Proofs.Script.Agreement

/-!
# Scripts that the first walk gets through

At the end of the script nothing may be open and every call must be declared (`Complete`). A script
that the first walk gets through is one that it gets through with two subroutines in the other order.
-/

namespace CommandScript

theorem Assoc.contains_iff {κ α : Type} [DecidableEq κ] {k : κ} {m : Assoc κ α} :
    m.contains k = true ↔ ∃ a, (k, a) ∈ m := by
  unfold contains
  induction m with
  | nil => simp
  | cons e m ih =>
    obtain ⟨j, b⟩ := e
    by_cases hj : j = k
    · subst hj
      simp [get?]
    · simp [get?, hj, Ne.symm hj, ih]

namespace Script.Declarations

variable {d d' e : Declarations} {lines : List Line}

/-- Nothing is open, and every call is declared. -/
structure Complete (d : Declarations) : Prop where
  startupLine : d.startupLine = none
  closed : ∀ name, d.known name ≠ some false
  called : ∀ name, d.calls.contains name → (d.known name).isSome

theorem unclosed_eq_nil (hd : Distinct d.subroutines) :
    d.subroutines.unclosed = [] ↔ ∀ name, d.known name ≠ some false := by
  unfold SubroutineTable.unclosed
  rw [List.filter_eq_nil_iff]
  constructor
  · intro h name hknown
    obtain ⟨s, hs, hend⟩ := Option.map_eq_some_iff.mp hknown
    have := h s (mem_of_get? hs).1
    simp [Option.isSome_eq_false_iff.mp hend] at this
  · intro h s hs hopen
    refine h s.name ?_
    rw [known, hd.get?_of_mem hs, Option.map_some]
    exact congrArg some (by simpa using hopen)

theorem called_iff : (∀ c ∈ d.calls.mergeSort fun a b => decide (a.1 ≤ b.1),
      d.subroutines.contains c.1 = true) ↔ ∀ name, d.calls.contains name → (d.known name).isSome := by
  simp only [List.mem_mergeSort, Assoc.contains_iff, known, Option.isSome_map, Prod.forall]
  exact forall_congr' fun name => ⟨fun h hn => hn.elim (h ·), fun h n hn => h ⟨n, hn⟩⟩

theorem complete_iff (hd : Distinct d.subroutines) : Complete d ↔
    d.startupLine = none ∧ d.subroutines.unclosed = [] ∧
      ∀ c ∈ d.calls.mergeSort fun a b => decide (a.1 ≤ b.1),
        d.subroutines.contains c.1 = true := by
  rw [unclosed_eq_nil hd, called_iff]
  exact ⟨fun h => ⟨h.startupLine, h.closed, h.called⟩, fun ⟨hs, hclosed, hcalled⟩ =>
    ⟨hs, hclosed, hcalled⟩⟩

/-- The walk with its message at the end. -/
def reported (d : Declarations) : Declarations :=
  let message :=
    s!"pass 1: {d.subroutines.length} subroutine(s), {d.startup.length} startup option(s)"
  { d with memory := d.memory.report .compile message }

/-- The first walk succeeds if it passes over all lines and is complete at the end. -/
theorem gives_walk (hc : d.findings.collecting = false) (hd : Distinct d.subroutines) :
    Gives (walk lines) d () d' ↔
      ∃ b, PassesOver lineOrFault d lines b ∧ Complete b ∧ d' = b.reported := by
  have atEnd {b c : Declarations} (h : PassesOver lineOrFault d lines b) :
      Gives (atEnd lines) b () c ↔ b = c ∧ Complete b := by
    have hwalks := walks_of_passesOver hc h
    rw [gives_atEnd (hwalks.findings_eq ▸ hc), complete_iff (declares_walks hwalks hd).1]
  simp only [walk, gives_bind, gives_modify]
  constructor
  · rintro ⟨⟨⟩, b, hpass, ⟨⟩, c, hend, rfl⟩
    have hpass := passesOver_iff.mpr hpass
    obtain ⟨rfl, hcomplete⟩ := (atEnd hpass).mp hend
    exact ⟨b, hpass, hcomplete, rfl⟩
  · rintro ⟨b, hpass, hcomplete, rfl⟩
    exact ⟨⟨⟩, b, passesOver_iff.mp hpass, ⟨⟩, b, (atEnd hpass).mpr ⟨rfl, hcomplete⟩, rfl⟩

/-- Walks that know the same of all names are complete together. -/
theorem Complete.level (h : Complete d) (hde : Level d e) : Complete e where
  startupLine := by
    have hline := hde.startupLine
    rw [h.startupLine] at hline
    exact Option.not_isSome_iff_eq_none.mp (by rw [hline]; decide)
  closed name := by
    rw [hde.declared trivial]
    exact h.closed name
  called name hname := by
    rw [hde.declared trivial]
    exact h.called name ((hde.calls hname).elim id id)

/-- The walk passes over a script with two subroutines in the other order, too. -/
theorem exchange_within {pre a b post a' b' post' : List Line} {x y : String} (ha : IsBlock x a)
    (hb : IsBlock y b) (hc : d.findings.collecting = false)
    (ha' : a'.map (·.text) = a.map (·.text)) (hb' : b'.map (·.text) = b.map (·.text))
    (hpost : post'.map (·.text) = post.map (·.text))
    (h : PassesOver lineOrFault d (pre ++ ((a ++ b) ++ post)) d') :
    ∃ e, PassesOver lineOrFault d (pre ++ ((b' ++ a') ++ post')) e ∧ Level d' e := by
  obtain ⟨d₁, h₁, h⟩ := passesOver_append.mp h
  obtain ⟨d₂, h₂, h₃⟩ := passesOver_append.mp h
  have hc₁ : d₁.findings.collecting = false := (walks_of_passesOver hc h₁).findings_eq ▸ hc
  obtain ⟨e₂, hpass, hlevel⟩ := exchange ha hb hc₁ h₂ ha' hb'
  have hc₂ : d₂.findings.collecting = false := (walks_of_passesOver hc₁ h₂).findings_eq ▸ hc₁
  have hc₂' : e₂.findings.collecting = false := (walks_of_passesOver hc₁ hpass).findings_eq ▸ hc₁
  obtain ⟨e, hpass', hbehind⟩ := hlevel.passes hc₂ hc₂' hpost (fun _ _ _ _ => trivial)
    (fun _ _ _ _ => trivial) h₃
  refine ⟨e, h₁.append (hpass.append hpass'), ?_⟩
  exact { hbehind with
    otherGlobals := fun hnot => absurd trivial hnot
    otherDeclared := fun hnot => absurd trivial hnot
    calls := fun hname => .inl
      ((hbehind.calls hname).elim (walks_of_passesOver hc₂ h₃).calls id) }

end Script.Declarations

end CommandScript
