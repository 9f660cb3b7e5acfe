import CommandScript.Proofs.Assembly.Apart
import CommandScript.Proofs.Script.Blocks

/-!
# Assembling the lines of a subroutine

The second walk comes to a subroutine and leaves it with nothing open, and on the way it touches only
what belongs to the subroutine (`Assembly.Crosses`).
-/

namespace CommandScript.Assembly

open Script

/-- The walk is outside subroutines and outside the startup block, and nothing is open. -/
structure Idle (a : Assembly) : Prop where
  chains : a.openChains = []
  loops : a.openLoops = []
  current : a.current = none
  inStartup : a.inStartup = false

/-- The walk over a subroutine. -/
structure Crosses (name : String) (a b : Assembly) : Prop where
  named : name ≠ mainOwner
  before : a.Idle
  behind : b.Idle
  apart : ∀ {other}, other ≠ name → Apart a.index other a b
  closes : ∃ last, b.index = last + 1 ∧ Closes b.commands.toList (.sub a.index name) last

/-- What the walk from `a` has come to in the subroutine. -/
structure Within (name : String) (a b : Assembly) : Prop where
  coherent : b.Coherent
  current : b.current = some name
  inStartup : b.inStartup = false
  opens : Opens b.commands.toList (.sub a.index name)
  apart : ∀ {other}, other ≠ name → Apart a.index other a b

variable {name : String} {a b c : Assembly} {l : Line} {ls : List Line}

theorem Reads.current_eq {r : Option Command} (h : Reads b l r c) (hsub : l.keyword? ≠ some .sub)
    (hend : l.keyword? ≠ some .endSub) : c.current = b.current := by
  cases h with
  | inside | options => rfl
  | statement _ hs h =>
    have hkeyword := Line.keyword?_of_statement? hs
    cases h with
    | sub => exact absurd hkeyword hsub
    | endSub => exact absurd hkeyword hend
    | _ => rfl

theorem Reads.inStartup_eq {r : Option Command} (h : Reads b l r c) (hin : b.inStartup = false)
    (hstartup : l.keyword? ≠ some .startup) : c.inStartup = false := by
  cases h with
  | inside h =>
    rw [hin] at h
    cases h
  | options => exact hin
  | statement _ hs h =>
    cases h with
    | startup => exact absurd (Line.keyword?_of_statement? hs) hstartup
    | _ => exact hin

theorem Takes.opens (h : Takes b l c) {x : Opening} (hx : Opens b.commands.toList x) :
    Opens c.commands.toList x := by
  cases h with
  | silent h =>
    rw [h.commands_eq]
    exact hx
  | command h =>
    rw [pushed_commands, h.commands_eq]
    exact opens_concat.mpr (.inl hx)

theorem Within.takes (h : Within name a b) (ht : Takes b l c) (hsub : l.keyword? ≠ some .sub)
    (hend : l.keyword? ≠ some .endSub) (hstartup : l.keyword? ≠ some .startup) :
    Within name a c where
  coherent := h.coherent.takes ht
  current := by
    cases ht with
    | silent ht | command ht => exact (ht.current_eq hsub hend).trans h.current
  inStartup := by
    cases ht with
    | silent ht | command ht => exact ht.inStartup_eq h.inStartup hstartup
  opens := ht.opens h.opens
  apart hother := by
    have hbefore := h.apart hother
    refine hbefore.trans (ht.apart hbefore.above (fun _ howner => hother ?_) fun rest hs => ?_)
    · rw [howner, owner, h.current, Option.getD_some]
    · exact absurd (Line.keyword?_of_statement? hs) hsub

theorem Within.walks (h : Within name a b) (hw : Walks b ls c)
    (hls : ∀ l ∈ ls, l.keyword? ≠ some .sub ∧ l.keyword? ≠ some .endSub)
    (hstartup : ∀ l ∈ ls, l.keyword? ≠ some .startup) : Within name a c := by
  induction hw with
  | nil => exact h
  | cons ht _ ih =>
    obtain ⟨hl, hls⟩ := List.forall_mem_cons.mp hls
    obtain ⟨hl', hstartup⟩ := List.forall_mem_cons.mp hstartup
    exact ih (h.takes ht hl.1 hl.2 hl') hls hstartup

/-- The `SUB` leads into the subroutine. -/
theorem Takes.begins (h : Takes a l b) (ha : a.Coherent) (hin : a.inStartup = false)
    (hl : l.statement? = some (.sub, name)) : name ≠ mainOwner ∧ a.Idle ∧ Within name a b := by
  have hcoherent := ha.takes h
  have happart (hidle : a.Idle) {other : String} (hother : other ≠ name) :
      Apart a.index other a b := by
    refine h.apart ⟨Nat.le_refl _, ?_, ?_⟩ (fun hsub => ?_) fun rest hs heq => ?_
    · rw [hidle.chains]
      exact fun _ hi => absurd hi List.not_mem_nil
    · rw [hidle.loops]
      exact fun _ hi => absurd hi List.not_mem_nil
    · exact absurd (Line.keyword?_of_statement? hl) hsub
    · cases hl.symm.trans hs
      exact hother heq
  cases h with
  | silent h =>
    cases h with
    | inside h =>
      rw [hin] at h
      cases h
    | statement _ hs h =>
      cases hs.symm.trans hl
      cases h
  | command h =>
    cases h with
    | options _ hopt =>
      rw [Line.statement?, if_pos hopt] at hl
      cases hl
    | statement _ hs h =>
      cases hs.symm.trans hl
      cases h with
      | simple hk => cases hk
      | sub hvalid hcurrent hchains hloops =>
        have hidle : a.Idle := ⟨hchains, hloops, hcurrent, hin⟩
        refine ⟨?_, hidle, hcoherent, rfl, hin, ?_, happart hidle⟩
        · rintro rfl
          exact absurd hvalid (by decide)
        · rw [pushed_commands]
          exact opens_concat.mpr (.inr ⟨a.index_eq_length, rfl⟩)

/-- The `ENDSUB` leads out of the subroutine and closes it. -/
theorem Within.ends (h : Within name a b) (ht : Takes b l c) (hl : l.keyword? = some .endSub) :
    c.Idle ∧ (∀ {other}, other ≠ name → Apart a.index other a c) ∧
      ∃ last, c.index = last + 1 ∧ Closes c.commands.toList (.sub a.index name) last := by
  have happart {other : String} (hother : other ≠ name) : Apart a.index other a c := by
    have hbefore := h.apart hother
    refine hbefore.trans (ht.apart hbefore.above (fun _ howner => hother ?_) fun rest hs => ?_)
    · rw [howner, owner, h.current, Option.getD_some]
    · cases hl.symm.trans (Line.keyword?_of_statement? hs)
  cases ht with
  | silent ht =>
    cases ht with
    | inside hin =>
      rw [h.inStartup] at hin
      cases hin
    | statement _ hs ht =>
      cases hl.symm.trans (Line.keyword?_of_statement? hs)
      cases ht
  | command ht =>
    cases ht with
    | options _ hopt =>
      rw [Line.keyword?, Line.statement?, if_pos hopt] at hl
      cases hl
    | statement _ hs ht =>
      cases hl.symm.trans (Line.keyword?_of_statement? hs)
      cases ht with
      | simple hk => cases hk
      | @endSub _ other hcurrent hchains hloops =>
        obtain rfl : other = name := Option.some.inj (hcurrent.symm.trans h.current)
        refine ⟨⟨hchains, hloops, rfl, h.inStartup⟩, happart, b.index, ?_, ?_⟩
        · rw [pushed_index, index_eq_length]
        · have hc := h.coherent
          obtain ⟨i, hhead⟩ := Nested.head_sub (hc.openChains.symm.trans hchains)
            (hc.openLoops.symm.trans hloops) (hc.current.symm.trans hcurrent)
          obtain rfl : i = a.index := hc.subroutines.unique _ _ other
            (hc.nested.opens_of_mem (List.mem_of_head? hhead)).2 h.opens
          refine ⟨b.entryOf l .endSub, ?_, rfl, ?_⟩
          · rw [pushed_commands, index_eq_length]
            exact List.getElem?_concat_length ..
          · rw [pushed_commands, around_append _ _ (Nat.le_of_eq b.index_eq_length)]
            exact hhead

theorem crosses_of_passesOver (hls : IsBlock name ls) (hstartup : ∀ l ∈ ls, l.keyword? ≠ some .startup)
    (ha : a.Coherent) (hin : a.inStartup = false) (hc : a.findings.collecting = false)
    (h : PassesOver line a ls b) : Crosses name a b := by
  obtain @⟨first, last, body, hfirst, hbody, hlast⟩ := hls
  obtain _ | @⟨_, a₁, _, _, _, hline, hrest⟩ := h
  have htakes := takes_of_line hc hline
  obtain ⟨hnamed, hidle, hwithin⟩ := htakes.begins ha hin hfirst
  obtain ⟨a₂, hbodies, hend⟩ := passesOver_append.mp hrest
  have hc₁ : a₁.findings.collecting = false := htakes.findings_eq ▸ hc
  have hwalks := walks_of_passesOver hc₁ hbodies
  have hwithin₂ := hwithin.walks hwalks hbody fun l hl =>
    hstartup l (List.mem_cons_of_mem _ (List.mem_append_left _ hl))
  obtain _ | ⟨hline', _ | _⟩ := hend
  obtain ⟨hbehind, happart, hcloses⟩ :=
    hwithin₂.ends (takes_of_line (hwalks.findings_eq ▸ hc₁) hline') hlast
  exact ⟨hnamed, hidle, hbehind, happart, hcloses⟩

end CommandScript.Assembly
