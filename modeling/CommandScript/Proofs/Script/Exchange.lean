import CommandScript.Proofs.Assembly.Exchange
import CommandScript.Proofs.Script.Passing

/-!
# Scripts with two subroutines in either order

If both walks get through a script, they get through the one in which two neighbouring subroutines
have changed places, and the assemblies that they come to mirror each other (`Passing.exchange`).
-/

namespace CommandScript.Script

open Assembly (Mirror Restated)

variable {settings : Settings} {script script' : String} {log : Log} {d d' e : Declarations}
  {a a' s t : Assembly} {x y : String} {ls ls' pre ms ms' post post' : List Line} {place : Nat → Nat}

theorem Lockstep.walks (h : Lockstep d a) (hd : Declarations.Walks d ls d')
    (ha : Assembly.Walks a ls a') : Lockstep d' a' := by
  induction hd generalizing a with
  | nil =>
    cases ha
    exact h
  | cons hd _ ih =>
    obtain _ | ⟨ha, hrest⟩ := ha
    exact ih (h.takes hd ha).2 hrest

theorem part_handed (hfresh : Assembly.Fresh d.subroutines) (name : String) :
    (d.handed.part name).range = (d.known name).map fun _ => (none, none) := by
  show (d.subroutines.get? name).map Assembly.rangeOf = _
  unfold Declarations.known
  cases hs : d.subroutines.get? name with
  | none => rfl
  | some s =>
    obtain ⟨hstart, hend, -⟩ := hfresh s (List.mem_of_find?_eq_some hs)
    rw [Option.map_some, Option.map_some, Option.map_some, Assembly.rangeOf, hstart, hend]

/-- The second walks begin with assemblies that mirror each other if the first ones know the same. -/
theorem mirror_handed (hde : Declarations.Level d e)
    (hlocals : e.memory.store.locals = d.memory.store.locals)
    (hd : Assembly.Fresh d.subroutines) (he : Assembly.Fresh e.subroutines) :
    Mirror place (fun _ => True) (fun _ => True) 0 0 d.handed e.handed where
  left := rfl
  right := rfl
  current := rfl
  inStartup := rfl
  owned := trivial
  openChains := rfl
  openLoops := rfl
  chainKeys _ _ := trivial
  loopKeys _ _ := trivial
  memberKeys _ _ := trivial
  slots _ := ⟨.none, rfl, rfl, fun _ => rfl⟩
  parts {name} _ := by
    refine Assembly.Part.ext ?_ ?_
    · funext v
      show e.memory.store.locals.get? (name, v) = d.memory.store.locals.get? (name, v)
      rw [hlocals]
    · show (e.handed.part name).range = ((d.handed.part name).range).map (Assembly.rangeMoved place)
      rw [part_handed hd, part_handed he, hde.declared trivial, Option.map_map]
      rfl
  globals v := hde.globals trivial
  declared name := by
    have hsame : e.known name = d.known name := hde.declared trivial
    have hknown := congrArg Option.isSome hsame
    unfold Declarations.known at hknown
    rwa [Option.isSome_map, Option.isSome_map] at hknown

/-- The assemblies of two scripts, of which the second one has the pieces of the first one on either
side of the cut in the other order; the pieces are the subroutines `x` and `y`. -/
structure Exchanged (c : Cut) (x y : String) (s t : Assembly) : Prop where
  mirror : Mirror c.place (fun _ => True) (fun _ => True) s.index s.index s t
  first : ∃ last, c.second = last + 1 ∧ Closes s.commands.toList (.sub c.first x) last
  second : ∃ last, c.behind = last + 1 ∧ Closes s.commands.toList (.sub c.second y) last
  behind : c.behind ≤ s.index

/-- Where the second walk has crossed two subroutines, there is a cut between them. -/
theorem exists_cut {s₁ s₂ s₃ : Assembly} (hs₁ : s₁.Coherent) (hw₁ : Assembly.Walks s₁ ls s₂)
    (hw₂ : Assembly.Walks s₂ ms s₃) (hx : Assembly.Crosses x s₁ s₂) (hy : Assembly.Crosses y s₂ s₃) :
    ∃ c : Cut, c.first = s₁.index ∧ c.second = s₂.index ∧ c.behind = s₃.index := by
  have hs₂ := hs₁.walks hw₁
  obtain ⟨last, hlast, hclose⟩ := hx.closes
  obtain ⟨last', hlast', hclose'⟩ := hy.closes
  have hlt : s₁.index < last := (hs₂.nested.index_lt_of_closes hclose).1
  have hlt' : s₂.index < last' := ((hs₂.walks hw₂).nested.index_lt_of_closes hclose').1
  exact ⟨⟨s₁.index, s₂.index, s₃.index, by omega, by omega⟩, rfl, rfl, rfl⟩

theorem closes_of_walks {z : Opening} {k : Nat} (h : Closes s.commands.toList z k)
    (hw : Assembly.Walks s ls t) : Closes t.commands.toList z k := by
  obtain ⟨es, hes⟩ := hw.commands
  rw [hes]
  exact closes_append es h

/-- The second walk passes over a script with two subroutines in the other order, too. -/
theorem assemble_exchanged (hstart : ∀ place, Mirror place (fun _ => True) (fun _ => True) 0 0 a a')
    (ha : a.Coherent) (ha' : a'.Coherent) (hc : a.findings.collecting = false)
    (hc' : a'.findings.collecting = false) (hls : Restated x ls ls') (hms : Restated y ms ms')
    (hne : x ≠ y) (hpre : ∀ l ∈ pre, 0 < l.number) (hposts : post'.map (·.text) = post.map (·.text))
    (hpost : ∀ l ∈ post, 0 < l.number) (hpost' : ∀ l ∈ post', 0 < l.number)
    (hin : ∀ b, PassesOver Assembly.line a pre b → b.inStartup = false)
    (hpass : PassesOver Assembly.line a (pre ++ ((ls ++ ms) ++ post)) s) :
    ∃ t c, PassesOver Assembly.line a' (pre ++ ((ms' ++ ls') ++ post')) t ∧ Exchanged c x y s t := by
  obtain ⟨s₁, hbefore, hrest⟩ := passesOver_append.mp hpass
  obtain ⟨s₃, hboth, hbehind⟩ := passesOver_append.mp hrest
  obtain ⟨s₂, hfirst, hsecond⟩ := passesOver_append.mp hboth
  have hw₁ := Assembly.walks_of_passesOver hc hbefore
  have hc₁ : s₁.findings.collecting = false := hw₁.findings_eq ▸ hc
  have hw₂ := Assembly.walks_of_passesOver hc₁ hfirst
  have hc₂ : s₂.findings.collecting = false := hw₂.findings_eq ▸ hc₁
  have hw₃ := Assembly.walks_of_passesOver hc₂ hsecond
  have hc₃ : s₃.findings.collecting = false := hw₃.findings_eq ▸ hc₂
  have hw₄ := Assembly.walks_of_passesOver hc₃ hbehind
  have hs₁ := ha.walks hw₁
  have hx := Assembly.crosses_of_passesOver hls.block hls.steady hs₁ (hin s₁ hbefore) hc₁ hfirst
  have hy := Assembly.crosses_of_passesOver hms.block hms.steady (hs₁.walks hw₂)
    hx.behind.inStartup hc₂ hsecond
  obtain ⟨c, hcfirst, hcsecond, hcbehind⟩ := exists_cut hs₁ hw₂ hw₃ hx hy
  -- in front of the subroutines every command stands where it stood
  obtain ⟨t₁, hpass₁, h₁⟩ := (hstart c.place).passes c.place_inj trivial hc hc' rfl hpre hpre
    (fun i _ hi => ⟨by rw [c.place_of_lt (by omega)]; omega, trivial⟩) (fun _ _ _ _ => trivial) hbefore
  have hcount : s₁.index = c.first := hcfirst.symm
  rw [hcount, Nat.zero_add, Nat.sub_zero] at h₁
  have hv₁ := Assembly.walks_of_passesOver hc' hpass₁
  have hd₁ : t₁.findings.collecting = false := hv₁.findings_eq ▸ hc'
  obtain ⟨t₃, hpass₃, h₃⟩ := h₁.exchange c hs₁ (ha'.walks hv₁) (hin s₁ hbefore) hc₁ hd₁ hls hms hne
    hfirst hsecond hcsecond.symm hcbehind.symm
  have hd₃ : t₃.findings.collecting = false :=
    (Assembly.walks_of_passesOver hd₁ hpass₃).findings_eq ▸ hd₁
  obtain ⟨t, hpass₄, h₄⟩ := h₃.passes c.place_inj trivial hc₃ hd₃ hposts hpost hpost'
    (fun i hi _ => ⟨by rw [c.place_of_le hi]; omega, trivial⟩) (fun _ _ _ _ => trivial) hbehind
  have hle := hw₄.index_le
  refine ⟨t, c, hpass₁.append (hpass₃.append hpass₄), ?_, ?_, ?_, hcbehind ▸ hle⟩
  · rwa [show c.behind + (s.index - c.behind) = s.index by omega] at h₄
  · obtain ⟨last, hlast, hclose⟩ := hx.closes
    refine ⟨last, hcsecond.trans hlast, ?_⟩
    rw [hcfirst]
    exact closes_of_walks (closes_of_walks hclose hw₃) hw₄
  · obtain ⟨last, hlast, hclose⟩ := hy.closes
    refine ⟨last, hcbehind.trans hlast, ?_⟩
    rw [hcsecond]
    exact closes_of_walks hclose hw₄

theorem number_pos {l : Line} (hl : l ∈ lines script) : 0 < l.number :=
  (linesFrom_numbers 1 _).2 l hl

theorem Passing.fresh (h : Passing settings script log d a) : Assembly.Fresh d.subroutines :=
  (Declarations.walks_of_passesOver rfl h.declares).fresh fun s hs => by cases hs

theorem Passing.locals (h : Passing settings script log d a) : d.memory.store.locals = [] :=
  (declares_walks (Declarations.walks_of_passesOver rfl h.declares) distinct_beforeFirst).2

/-- Both walks get through the script with the subroutines in the other order. -/
theorem Passing.exchange (h : Passing settings script log d s)
    (hscript : lines script = pre ++ ((ls ++ ms) ++ post))
    (hscript' : lines script' = pre ++ ((ms' ++ ls') ++ post')) (hls : IsBlock x ls)
    (hms : IsBlock y ms) (hls' : ls'.map (·.text) = ls.map (·.text))
    (hms' : ms'.map (·.text) = ms.map (·.text)) (hpost : post'.map (·.text) = post.map (·.text)) :
    ∃ e t c, Passing settings script' log e t ∧ Declarations.Level d e ∧ Exchanged c x y s t := by
  -- the first walk
  have hdeclares := hscript ▸ h.declares
  obtain ⟨e, hpass, hlevel⟩ :=
    Declarations.exchange_within hls hms rfl hls' hms' hpost hdeclares
  obtain ⟨d₁, hd₁, hrest⟩ := passesOver_append.mp hdeclares
  obtain ⟨d₃, hboth, -⟩ := passesOver_append.mp hrest
  obtain ⟨d₂, hd₂, hd₃⟩ := passesOver_append.mp hboth
  have hcd₁ : d₁.findings.collecting = false := by
    rw [(Declarations.walks_of_passesOver rfl hd₁).findings_eq]
    rfl
  have hcd₂ : d₂.findings.collecting = false := by
    rw [(Declarations.walks_of_passesOver hcd₁ hd₂).findings_eq, hcd₁]
  have hx := Declarations.crosses_of_passesOver hls hcd₁ hd₂
  have hy := Declarations.crosses_of_passesOver hms hcd₂ hd₃
  have hne : x ≠ y := by
    rintro rfl
    have hsome := hx.declared
    rw [hy.fresh] at hsome
    cases hsome
  -- the second walk
  have left {l : Line} (hl : l ∈ pre ++ ((ls ++ ms) ++ post)) : 0 < l.number :=
    number_pos (hscript ▸ hl)
  have right {l : Line} (hl : l ∈ pre ++ ((ms' ++ ls') ++ post')) : 0 < l.number :=
    number_pos (hscript' ▸ hl)
  simp only [List.mem_append] at left right
  have hde : e.findings.collecting = false := by
    rw [(Declarations.walks_of_passesOver rfl hpass).findings_eq]
    rfl
  have hfresh : Assembly.Fresh e.subroutines :=
    (Declarations.walks_of_passesOver rfl hpass).fresh fun s hs => by cases hs
  have hlocals : e.memory.store.locals = d.memory.store.locals :=
    (declares_walks (Declarations.walks_of_passesOver rfl hpass) distinct_beforeFirst).2.trans
      h.locals.symm
  have hin (b : Assembly) (hb : PassesOver Assembly.line d.handed pre b) : b.inStartup = false := by
    have hstart : Lockstep (beforeFirst settings log) d.handed := ⟨rfl, rfl⟩
    have hlockstep := hstart.walks (Declarations.walks_of_passesOver rfl hd₁)
      (Assembly.walks_of_passesOver h.collecting hb)
    rw [hlockstep.startup, hx.outside]
    rfl
  obtain ⟨t, c, hpass', hexchanged⟩ := assemble_exchanged
    (fun place => mirror_handed hlevel hlocals h.fresh hfresh) (.start h.fresh) (.start hfresh)
    h.collecting hde
    ⟨hls, hls', fun l hl => left (by simp [hl]), fun l hl => right (by simp [hl]), hx.steady⟩
    ⟨hms, hms', fun l hl => left (by simp [hl]), fun l hl => right (by simp [hl]), hy.steady⟩
    hne (fun l hl => left (by simp [hl])) hpost (fun l hl => left (by simp [hl]))
    (fun l hl => right (by simp [hl])) hin (hscript ▸ h.assembles)
  refine ⟨e, t, c, ⟨hscript' ▸ hpass, h.complete.level hlevel, hscript' ▸ hpass', ?_⟩, hlevel,
    hexchanged⟩
  exact hexchanged.mirror.ready c.exists_place h.ready

end CommandScript.Script
