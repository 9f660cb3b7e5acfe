import CommandScript.Proofs.Declarations.Alongside

/-!
# The lines of a subroutine

A subroutine stands in a script from its `SUB` to its `ENDSUB`, and the first walk passes over it
outside the startup block and outside other subroutines (`Declarations.Walks.block`).
-/

namespace CommandScript.Script

/-- The lines of a subroutine, from its `SUB` to the next `ENDSUB`. -/
inductive IsBlock (name : String) : List Line → Prop
  | mk {first last : Line} {body : List Line} : first.statement? = some (.sub, name) →
      (∀ l ∈ body, l.keyword? ≠ some .sub ∧ l.keyword? ≠ some .endSub) →
      last.keyword? = some .endSub → IsBlock name (first :: (body ++ [last]))

variable {name : String} {l l' : Line} {ls ls' body : List Line} {first last : Line}

theorem Line.statement?_congr (h : l'.text = l.text) : l'.statement? = l.statement? := by
  unfold statement?
  rw [h]

theorem Line.keyword?_congr (h : l'.text = l.text) : l'.keyword? = l.keyword? := by
  unfold keyword?
  rw [statement?_congr h]

/-- Whether lines are those of a subroutine does not depend on where they stand. -/
theorem IsBlock.congr (h : IsBlock name ls) (htexts : ls'.map (·.text) = ls.map (·.text)) :
    IsBlock name ls' := by
  cases h with
  | @mk first last body hfirst hbody hlast =>
    obtain ⟨first', rest, rfl, hfirst', hrest⟩ := List.map_eq_cons_iff.mp htexts
    obtain ⟨body', lasts, rfl, hbody', hlasts⟩ := List.map_eq_append_iff.mp
      (hrest.trans (List.map_append ..))
    obtain ⟨last', _, rfl, hlast', hnil⟩ := List.map_eq_cons_iff.mp hlasts
    obtain rfl := List.map_eq_nil_iff.mp hnil
    refine .mk ((Line.statement?_congr hfirst').trans hfirst) (fun l' hl' => ?_)
      ((Line.keyword?_congr hlast').trans hlast)
    obtain ⟨l, hl, htext⟩ := List.mem_map.mp (hbody' ▸ List.mem_map_of_mem hl')
    rw [Line.keyword?_congr htext.symm]
    exact hbody l hl

/-- The only subroutine that begins there is that of the block. -/
theorem IsBlock.eq_of_sub (h : IsBlock name ls) (hl : l ∈ ls) {other : String}
    (hs : l.statement? = some (.sub, other)) : other = name := by
  obtain @⟨first, last, body, hfirst, hbody, hlast⟩ := h
  have hkeyword := Line.keyword?_of_statement? hs
  rcases List.mem_cons.mp hl with rfl | hl
  · cases hfirst.symm.trans hs
    rfl
  rcases List.mem_append.mp hl with hl | hl
  · exact absurd hkeyword (hbody l hl).1
  · obtain rfl := List.mem_singleton.mp hl
    cases hkeyword.symm.trans hlast

namespace Declarations

variable {d d' e e' : Declarations}

theorem walks_of_passesOver (hc : d.findings.collecting = false)
    (h : PassesOver lineOrFault d ls d') : Walks d ls d' :=
  walks_of_forIn hc (passesOver_iff.mp h)

/-- What the walk from `d` has come to in the subroutine. -/
structure Within (name : String) (d e : Declarations) : Prop where
  current : e.current = some name
  startupLine : e.startupLine = none
  startupSeen : e.startupSeen = d.startupSeen
  endMainLine : e.endMainLine = d.endMainLine
  startup : e.startup = d.startup

/-- A walk over a subroutine begins and ends outside subroutines and the startup block. -/
structure Around (d e : Declarations) : Prop where
  before : d.current = none
  behind : e.current = none
  outside : d.startupLine = none
  startupLine : e.startupLine = none
  startupSeen : e.startupSeen = d.startupSeen
  endMainLine : e.endMainLine = d.endMainLine
  startup : e.startup = d.startup

/-- No line of the startup block is a `SUB`. -/
theorem outside_of_line (h : Gives (line l) d () d') (hl : l.keyword? = some .sub) :
    d.startupLine = none := by
  obtain ⟨hopt, hword⟩ := Line.keyword?_eq_some.mp hl
  simp only [line, gives_bind, gives_get, gives_ite] at h
  obtain ⟨_, _, ⟨rfl, rfl⟩, ⟨-, h⟩ | ⟨hin, -⟩⟩ := h
  · simp only [startupOptions, hopt, hword] at h
    exact (gives_throw.mp h).elim
  · exact Option.not_isSome_iff_eq_none.mp hin

theorem Takes.within (h : Takes e l e') (hsub : l.keyword? ≠ some .sub)
    (hend : l.keyword? ≠ some .endSub) (he : Within name d e) : Within name d e' := by
  cases h with
  | inside hin =>
    rw [he.startupLine] at hin
    cases hin
  | silent => exact he
  | statement _ hs h =>
    have hkeyword := Line.keyword?_of_statement? hs
    cases h with
    | allocate => exact { he with }
    | allocateOwned => exact he
    | endMain hnone =>
      rw [he.current] at hnone
      cases hnone
    | sub => exact absurd hkeyword hsub
    | endSub => exact absurd hkeyword hend
    | gosub => exact { he with }
    | startup hnone =>
      rw [he.current] at hnone
      cases hnone
    | other => exact he

theorem Walks.within (h : Walks e ls e')
    (hls : ∀ l ∈ ls, l.keyword? ≠ some .sub ∧ l.keyword? ≠ some .endSub) (he : Within name d e) :
    Within name d e' := by
  induction h with
  | nil => exact he
  | cons h _ ih =>
    obtain ⟨hl, hls⟩ := List.forall_mem_cons.mp hls
    exact ih hls (h.within hl.1 hl.2 he)

/-- The startup block does not begin in a subroutine. -/
theorem Takes.not_startup (h : Takes e l e') (he : Within name d e) :
    l.keyword? ≠ some .startup := by
  intro hl
  cases h with
  | inside hin =>
    rw [he.startupLine] at hin
    cases hin
  | silent _ hs =>
    rw [Line.keyword?, hs] at hl
    cases hl
  | statement _ hs h =>
    cases hl.symm.trans (Line.keyword?_of_statement? hs)
    cases h with
    | startup hnone =>
      rw [he.current] at hnone
      cases hnone
    | other hk => exact absurd (by decide) hk

theorem Walks.not_startup (h : Walks e ls e')
    (hls : ∀ l ∈ ls, l.keyword? ≠ some .sub ∧ l.keyword? ≠ some .endSub) (he : Within name d e) :
    ∀ l ∈ ls, l.keyword? ≠ some .startup := by
  induction h with
  | nil => exact fun _ hl => absurd hl List.not_mem_nil
  | cons h _ ih =>
    obtain ⟨hl, hls⟩ := List.forall_mem_cons.mp hls
    exact List.forall_mem_cons.mpr ⟨h.not_startup he, ih hls (h.within hl.1 hl.2 he)⟩

theorem Takes.beginsSub (h : Takes d l d') (hout : d.startupLine = none)
    (hl : l.statement? = some (.sub, name)) :
    d.current = none ∧ d.known name = none ∧ (d'.known name).isSome ∧
      ∃ t, d' = { d with subroutines := t, current := some name } := by
  cases h with
  | inside hin =>
    rw [hout] at hin
    cases hin
  | silent _ hs => cases hs.symm.trans hl
  | statement _ hs h =>
    cases hs.symm.trans hl
    cases h with
    | sub _ hnone hdeclare =>
      obtain ⟨hfree, rfl⟩ := SubroutineTable.declare_ok hdeclare
      refine ⟨hnone, by rw [known, hfree, Option.map_none], ?_, _, rfl⟩
      rw [known, get?_insert hfree, if_pos rfl]
      rfl
    | other hk => exact absurd (by decide) hk

theorem Takes.endsSub (h : Takes d l d') (hout : d.startupLine = none)
    (hl : l.keyword? = some .endSub) : ∃ t, d' = { d with subroutines := t, current := none } := by
  cases h with
  | inside hin =>
    rw [hout] at hin
    cases hin
  | silent _ hs =>
    rw [Line.keyword?, hs] at hl
    cases hl
  | statement _ hs h =>
    cases (Line.keyword?_of_statement? hs).symm.trans hl
    cases h with
    | endSub => exact ⟨_, rfl⟩
    | other hk => exact absurd (by decide) hk

/-- What was allocated stays. -/
theorem Takes.globals_isSome (h : Takes d l d') {x : String}
    (hx : (d.memory.store.globals.get? x).isSome) : (d'.memory.store.globals.get? x).isSome := by
  cases h with
  | inside _ h => rwa [h.store]
  | silent => exact hx
  | statement _ _ h =>
    cases h with
    | allocate _ h =>
      rw [(globals_of_allocateAll h).2.2]
      split
      · rfl
      · exact hx
    | _ => exact hx

/-- What was declared stays. -/
theorem Takes.known_isSome (h : Takes d l d') {x : String} (hx : (d.known x).isSome) :
    (d'.known x).isSome := by
  rw [known, Option.isSome_map] at hx ⊢
  cases h with
  | inside _ h => rwa [h.subroutines]
  | silent => exact hx
  | statement _ _ h =>
    cases h with
    | sub _ _ hdeclare =>
      obtain ⟨hfree, rfl⟩ := SubroutineTable.declare_ok hdeclare
      rw [get?_insert hfree]
      split
      · rfl
      · exact hx
    | endSub =>
      exact (SubroutineTable.contains_update _ _ _ (f := fun s => { s with endLine := some l.number })
        fun _ => rfl).trans hx
    | _ => exact hx

theorem Walks.known_isSome (h : Walks d ls d') {x : String} (hx : (d.known x).isSome) :
    (d'.known x).isSome := by
  induction h with
  | nil => exact hx
  | cons h _ ih => exact ih (h.known_isSome hx)

theorem Walks.known_eq_none (h : Walks d ls d') {x : String} (hx : d'.known x = none) :
    d.known x = none := by
  cases hd : d.known x with
  | none => rfl
  | some v =>
    have hsome := h.known_isSome (x := x) (by rw [hd]; rfl)
    rw [hx] at hsome
    cases hsome

theorem Walks.globals_isSome (h : Walks d ls d') {x : String}
    (hx : (d.memory.store.globals.get? x).isSome) : (d'.memory.store.globals.get? x).isSome := by
  induction h with
  | nil => exact hx
  | cons h _ ih => exact ih (h.globals_isSome hx)

theorem Walks.globals_eq_none (h : Walks d ls d') {x : String}
    (hx : d'.memory.store.globals.get? x = none) : d.memory.store.globals.get? x = none := by
  cases hd : d.memory.store.globals.get? x with
  | none => rfl
  | some v =>
    have hsome := h.globals_isSome (x := x) (by rw [hd]; rfl)
    rw [hx] at hsome
    cases hsome

/-- A name that a line allocates was free before. -/
theorem Takes.allocates (h : Takes d l d') (hout : d.startupLine = none) {x : String}
    (hl : l.AllocatesGlobal x) : d.memory.store.globals.get? x = none ∧
      (d'.memory.store.globals.get? x).isSome := by
  obtain ⟨rest, type, names, hs, hread, hx⟩ := hl
  cases h with
  | inside hin =>
    rw [hout] at hin
    cases hin
  | silent _ hs' => cases hs'.symm.trans hs
  | statement _ hs' h =>
    cases hs'.symm.trans hs
    cases h with
    | allocate hread' h =>
      cases hread'.symm.trans hread
      obtain ⟨-, hfree, hget⟩ := globals_of_allocateAll h
      refine ⟨hfree x hx, ?_⟩
      rw [hget, if_pos hx]
      rfl
    | allocateOwned hread' => cases hread'.symm.trans hread
    | other hk => exact absurd (by decide) hk

theorem Walks.allocates (h : Walks e ls e')
    (hls : ∀ l ∈ ls, l.keyword? ≠ some .sub ∧ l.keyword? ≠ some .endSub) (he : Within name d e)
    (hl : l ∈ ls) {x : String} (hx : l.AllocatesGlobal x) :
    e.memory.store.globals.get? x = none ∧ (e'.memory.store.globals.get? x).isSome := by
  induction h with
  | nil => cases hl
  | cons h hrest ih =>
    obtain ⟨hm, hls⟩ := List.forall_mem_cons.mp hls
    rcases List.mem_cons.mp hl with rfl | hl
    · obtain ⟨hnone, hsome⟩ := h.allocates he.startupLine hx
      exact ⟨hnone, hrest.globals_isSome hsome⟩
    · obtain ⟨hnone, hsome⟩ := ih hls (h.within hm.1 hm.2 he) hl
      exact ⟨(Walks.cons h (.nil _)).globals_eq_none hnone, hsome⟩

/-- The walk over a subroutine. -/
structure Crosses (name : String) (ls : List Line) (d d' : Declarations) : Prop
    extends Around d d' where
  fresh : d.known name = none
  declared : (d'.known name).isSome
  steady : ∀ l ∈ ls, l.keyword? ≠ some .startup
  allocates : ∀ {l x}, l ∈ ls → l.AllocatesGlobal x →
    d.memory.store.globals.get? x = none ∧ (d'.memory.store.globals.get? x).isSome

theorem crosses_of_passesOver (hls : IsBlock name ls) (hc : d.findings.collecting = false)
    (h : PassesOver lineOrFault d ls d') : Crosses name ls d d' := by
  obtain @⟨first, last, body, hfirst, hbody, hlast⟩ := hls
  obtain _ | @⟨_, d₁, _, _, _, hgives, hrest⟩ := h
  have hline := (gives_lineOrFault hc).mp hgives
  have htakes := takes_of_line hline
  have hout := outside_of_line hline (Line.keyword?_of_statement? hfirst)
  obtain ⟨hcurrent, hfresh, hdeclared, t, rfl⟩ := htakes.beginsSub hout hfirst
  obtain ⟨d₂, hbodies, hend⟩ := passesOver_append.mp hrest
  have hwalks := walks_of_passesOver (by exact hc) hbodies
  have hwithin : Within name d { d with subroutines := t, current := some name } :=
    ⟨rfl, hout, rfl, rfl, rfl⟩
  have hd₂ := hwalks.within hbody hwithin
  obtain _ | ⟨hgives', _ | _⟩ := hend
  have hc₂ : d₂.findings.collecting = false := hwalks.findings_eq ▸ hc
  have htakes' := takes_of_lineOrFault hc₂ hgives'
  have hdeclared' := htakes'.known_isSome (hwalks.known_isSome hdeclared)
  obtain ⟨t', rfl⟩ := htakes'.endsSub hd₂.startupLine hlast
  refine ⟨⟨hcurrent, rfl, hout, hd₂.startupLine, hd₂.startupSeen, hd₂.endMainLine, hd₂.startup⟩,
    hfresh, hdeclared', ?_, ?_⟩
  · refine List.forall_mem_cons.mpr ⟨?_, List.forall_mem_append.mpr
      ⟨hwalks.not_startup hbody hwithin, List.forall_mem_singleton.mpr ?_⟩⟩
    · rw [Line.keyword?_of_statement? hfirst]
      decide
    · rw [hlast]
      decide
  intro l x hl hx
  have hkeyword : l.keyword? = some .allocate := by
    obtain ⟨rest, type, names, hs, -⟩ := hx
    exact Line.keyword?_of_statement? hs
  rcases List.mem_cons.mp hl with rfl | hl
  · cases hkeyword.symm.trans (Line.keyword?_of_statement? hfirst)
  rcases List.mem_append.mp hl with hl | hl
  · exact hwalks.allocates hbody hwithin hl hx
  · obtain rfl := List.mem_singleton.mp hl
    cases hkeyword.symm.trans hlast

end Declarations

end CommandScript.Script
