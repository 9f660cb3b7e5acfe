import CommandScript.Proofs.Script.Blocks

/-!
# Declaring two subroutines in either order

Two subroutines that stand one behind the other declare the same in the other order
(`Declarations.exchange`): neither may declare a name that the other one declares, and what they have
in common are calls, of which it does not matter which is the first.
-/

namespace CommandScript.Script

variable {x y : String} {a b ls : List Line}

/-- One of the lines allocates the name as a global. -/
def AllocatesGlobal (ls : List Line) (x : String) : Prop :=
  ∃ l ∈ ls, l.AllocatesGlobal x

namespace Declarations

variable {d d' d₂ e : Declarations}

/-- The walks know the same of all names. -/
abbrev Level (d e : Declarations) : Prop :=
  Alongside (fun _ => True) (fun _ => True) d d e

theorem Takes.calls {l : Line} (h : Takes d l d') {name : String} (hname : d.calls.contains name) :
    d'.calls.contains name := by
  cases h with
  | inside _ h => rwa [h.calls]
  | silent => exact hname
  | statement _ _ h =>
    cases h with
    | gosub =>
      dsimp only
      split
      · exact hname
      · unfold Assoc.contains at hname ⊢
        rw [Assoc.get?_put]
        split
        · rfl
        · exact hname
    | _ => exact hname

theorem Walks.calls (h : Walks d ls d') {name : String} (hname : d.calls.contains name) :
    d'.calls.contains name := by
  induction h with
  | nil => exact hname
  | cons h _ ih => exact ih (h.calls hname)

/-- The walk over a subroutine changes nothing but what it declares. -/
theorem alongside_self (ha : IsBlock x a) (hc : d.findings.collecting = false)
    (h : PassesOver lineOrFault d a d₂) : Alongside (AllocatesGlobal a) (· = x) d d₂ d₂ := by
  have hcross := crosses_of_passesOver ha hc h
  have hself : Alongside (AllocatesGlobal a) (· = x) d d d :=
    { current := rfl, startupLine := rfl, startupSeen := rfl, endMainLine := rfl, startup := rfl
      owned := fun hsome => by
        rw [hcross.before] at hsome
        cases hsome
      globals := fun _ => rfl, otherGlobals := fun _ => rfl
      declared := fun _ => rfl, otherDeclared := fun _ => rfl
      calls := .inl }
  obtain ⟨e, hpass, halong⟩ := hself.passes hc hc rfl (fun l hl v hv => ⟨l, hl, hv⟩)
    (fun l hl name hs => ha.eq_of_sub hl hs) h
  cases hpass.unique h
  exact halong

/-- Where the walk has come to a subroutine that stood behind another one, it knows of its names what
it would know behind the other one. -/
theorem Crosses.alongside (ha : Crosses x a d d₂) (hwalks : Walks d a d₂) (hb : Crosses y b d₂ d') :
    Alongside (AllocatesGlobal b) (· = y) d d₂ d where
  current := ha.before.trans ha.behind.symm
  startupLine := by rw [ha.outside, ha.startupLine]
  startupSeen := ha.startupSeen.symm
  endMainLine := by rw [ha.endMainLine]
  startup := ha.startup.symm
  owned hsome := by
    rw [ha.behind] at hsome
    cases hsome
  globals := by
    rintro v ⟨l, hl, hv⟩
    have hnone := (hb.allocates hl hv).1
    rw [hnone, hwalks.globals_eq_none hnone]
  otherGlobals _ := rfl
  declared := by
    rintro _ rfl
    rw [hb.fresh, hwalks.known_eq_none hb.fresh]
  otherDeclared _ := rfl
  calls := .inl

section Exchange

variable {e₂ e₃ : Declarations}

/-- Behind the second subroutine the walk knows of the names of the first one what it knew in front of
both. -/
theorem Alongside.swapped (ha : Crosses x a d d₂) (hb : Crosses y b d₂ d')
    (h : Alongside (AllocatesGlobal b) (· = y) d d' e₂) :
    Alongside (AllocatesGlobal a) (· = x) e₂ d e₂ where
  current := h.current.trans (hb.behind.trans ha.before.symm)
  startupLine := by rw [h.startupLine, hb.startupLine, ha.outside]
  startupSeen := h.startupSeen.trans (hb.startupSeen.trans ha.startupSeen)
  endMainLine := by rw [h.endMainLine, hb.endMainLine, ha.endMainLine]
  startup := h.startup.trans (hb.startup.trans ha.startup)
  owned hsome := by
    rw [ha.before] at hsome
    cases hsome
  globals := by
    rintro v ⟨l, hl, hv⟩
    refine h.otherGlobals ?_
    rintro ⟨m, hm, hv'⟩
    have hsome := (ha.allocates hl hv).2
    rw [(hb.allocates hm hv').1] at hsome
    cases hsome
  otherGlobals _ := rfl
  declared := by
    rintro _ rfl
    refine h.otherDeclared ?_
    rintro rfl
    have hsome := ha.declared
    rw [hb.fresh] at hsome
    cases hsome
  otherDeclared _ := rfl
  calls := .inl

/-- Behind both subroutines the walk knows the same in either order. -/
theorem Alongside.level (ha : Alongside (AllocatesGlobal a) (· = x) d d₂ d₂)
    (hb : Alongside (AllocatesGlobal b) (· = y) d₂ d' d') (hcross : Around d₂ d')
    (hcalls : ∀ {name}, d.calls.contains name → d₂.calls.contains name)
    (hcalls' : ∀ {name}, d₂.calls.contains name → d'.calls.contains name)
    (hdisjoint : ∀ v, AllocatesGlobal a v → ¬AllocatesGlobal b v) (hne : x ≠ y)
    (h₂ : Alongside (AllocatesGlobal b) (· = y) d d' e₂)
    (h₃ : Alongside (AllocatesGlobal a) (· = x) e₂ d₂ e₃) : Level d' e₃ where
  current := h₃.current.trans (hcross.before.trans hcross.behind.symm)
  startupLine := by rw [h₃.startupLine, hcross.outside, hcross.startupLine]
  startupSeen := h₃.startupSeen.trans hcross.startupSeen.symm
  endMainLine := by rw [h₃.endMainLine, hcross.endMainLine]
  startup := h₃.startup.trans hcross.startup.symm
  owned _ := trivial
  globals {v} _ := by
    by_cases hva : AllocatesGlobal a v
    · rw [h₃.globals hva, hb.otherGlobals (hdisjoint v hva)]
    by_cases hvb : AllocatesGlobal b v
    · rw [h₃.otherGlobals hva, h₂.globals hvb]
    · rw [h₃.otherGlobals hva, h₂.otherGlobals hvb, hb.otherGlobals hvb, ha.otherGlobals hva]
  otherGlobals hnot := absurd trivial hnot
  declared {name} _ := by
    by_cases hx : name = x
    · rw [h₃.declared hx, hb.otherDeclared fun hy => hne (hx.symm.trans hy)]
    by_cases hy : name = y
    · rw [h₃.otherDeclared hx, h₂.declared hy]
    · rw [h₃.otherDeclared hx, h₂.otherDeclared hy, hb.otherDeclared hy, ha.otherDeclared hx]
  otherDeclared hnot := absurd trivial hnot
  calls hname := by
    refine .inl ?_
    rcases h₃.calls hname with hname | hname
    · rcases h₂.calls hname with hname | hname
      · exact hcalls' (hcalls hname)
      · exact hname
    · exact hcalls' hname

end Exchange

/-- A walk passes over two subroutines in either order, and knows the same behind them. -/
theorem exchange (ha : IsBlock x a) (hb : IsBlock y b) (hc : d.findings.collecting = false)
    (h : PassesOver lineOrFault d (a ++ b) d') {a' b' : List Line}
    (ha' : a'.map (·.text) = a.map (·.text)) (hb' : b'.map (·.text) = b.map (·.text)) :
    ∃ e, PassesOver lineOrFault d (b' ++ a') e ∧ Level d' e := by
  obtain ⟨d₂, h₁, h₂⟩ := passesOver_append.mp h
  have hwalks := walks_of_passesOver hc h₁
  have hc₂ : d₂.findings.collecting = false := hwalks.findings_eq ▸ hc
  have hwalks' := walks_of_passesOver hc₂ h₂
  have hcross := crosses_of_passesOver ha hc h₁
  have hcross' := crosses_of_passesOver hb hc₂ h₂
  obtain ⟨e₂, hpass, halong⟩ := (hcross.alongside hwalks hcross').passes hc₂ hc hb'
    (fun l hl v hv => ⟨l, hl, hv⟩) (fun l hl name hs => hb.eq_of_sub hl hs) h₂
  have hce₂ : e₂.findings.collecting = false := (walks_of_passesOver hc hpass).findings_eq ▸ hc
  obtain ⟨e₃, hpass', halong'⟩ := (halong.swapped hcross hcross').passes hc hce₂ ha'
    (fun l hl v hv => ⟨l, hl, hv⟩) (fun l hl name hs => ha.eq_of_sub hl hs) h₁
  refine ⟨e₃, hpass.append hpass', .level (alongside_self ha hc h₁) (alongside_self hb hc₂ h₂)
    hcross'.toAround hwalks.calls hwalks'.calls ?_ ?_ halong halong'⟩
  · rintro v ⟨l, hl, hv⟩ ⟨m, hm, hv'⟩
    have hsome := (hcross.allocates hl hv).2
    rw [(hcross'.allocates hm hv').1] at hsome
    cases hsome
  · rintro rfl
    have hsome := hcross.declared
    rw [hcross'.fresh] at hsome
    cases hsome

end Declarations

end CommandScript.Script
