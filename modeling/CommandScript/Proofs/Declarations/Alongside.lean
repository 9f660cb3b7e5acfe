import CommandScript.Proofs.Script.Passes
import CommandScript.Proofs.Script.Variables
import CommandScript.Proofs.Store.Operations

/-!
# The same lines in another place

What a line declares depends on what was declared of its own names. So a walk that has come to the
same lines with other declarations before it takes them in as well (`Alongside.passes`): it learns
the same of the names of the lines and keeps what it knows of others.
-/

namespace CommandScript.Script

/-- The line allocates the name as a global. -/
def Line.AllocatesGlobal (l : Line) (x : String) : Prop :=
  ∃ rest type names, l.statement? = some (.allocate, rest) ∧
    readAllocation rest = .ok (.global, type, names) ∧ x ∈ names

namespace Declarations

/-- What is known of a subroutine: nothing, or whether it has an end. -/
def known (d : Declarations) (name : String) : Option Bool :=
  (d.subroutines.get? name).map fun s => s.endLine.isSome

/-- The walk that has come to `e` knows of the variables in `vars` and the subroutines in `subs` what
the one that has come to `d` knows, and of others what was known in `z`. -/
structure Alongside (vars subs : String → Prop) (z d e : Declarations) : Prop where
  current : e.current = d.current
  startupLine : e.startupLine.isSome = d.startupLine.isSome
  startupSeen : e.startupSeen = d.startupSeen
  endMainLine : e.endMainLine.isSome = d.endMainLine.isSome
  startup : e.startup = d.startup
  owned : ∀ {name}, d.current = some name → subs name
  globals : ∀ {x}, vars x → e.memory.store.globals.get? x = d.memory.store.globals.get? x
  otherGlobals : ∀ {x}, ¬vars x → e.memory.store.globals.get? x = z.memory.store.globals.get? x
  declared : ∀ {name}, subs name → e.known name = d.known name
  otherDeclared : ∀ {name}, ¬subs name → e.known name = z.known name
  calls : ∀ {name}, e.calls.contains name → z.calls.contains name ∨ d.calls.contains name

variable {vars subs : String → Prop} {z d e d' : Declarations} {l l' : Line} {ls ls' : List Line}

namespace Alongside

/-- A name that the walks may begin a subroutine with is taken for both of them, or it is free. -/
theorem declare (h : Alongside vars subs z d e) {name : String} (hname : subs name)
    (number number' : Nat) :
    Checked.Meets (fun t t' => Alongside vars subs z
        { d with subroutines := t, current := some name }
        { e with subroutines := t', current := some name })
      (d.subroutines.declare name number) (e.subroutines.declare name number') := by
  have hknown := h.declared hname
  unfold Declarations.known at hknown
  unfold SubroutineTable.declare
  revert hknown
  cases hd : d.subroutines.get? name <;> cases he : e.subroutines.get? name <;> intro hknown
  · have hput {c : Declarations} (number : Nat) (hc : c.subroutines.get? name = none) (x : String) :
        known { c with
            subroutines := SubroutineTable.insert { name, startLine := number } c.subroutines
            current := some name } x =
          if name = x then some false else c.known x := by
      unfold Declarations.known
      rw [get?_insert hc]
      split <;> rfl
    refine .ok { h with
      current := rfl
      owned := fun hsome => Option.some.inj hsome ▸ hname
      declared := fun {x} hx => ?_
      otherDeclared := fun {x} hx => ?_ }
    · rw [hput number hd, hput number' he, h.declared hx]
    · rw [hput number' he, if_neg fun heq : name = x => hx (heq ▸ hname), h.otherDeclared hx]
  · cases hknown
  · cases hknown
  · exact Checked.meets_fail

theorem endSub (h : Alongside vars subs z d e) {name : String} (hname : subs name)
    (number number' : Nat) :
    Alongside vars subs z
      { d with
        subroutines := d.subroutines.update name fun s => { s with endLine := some number }
        current := none }
      { e with
        subroutines := e.subroutines.update name fun s => { s with endLine := some number' }
        current := none } := by
  have hput {c : Declarations} (number : Nat) (x : String) :
      known { c with
          subroutines := c.subroutines.update name fun s => { s with endLine := some number }
          current := none } x =
        (c.known x).map fun b => decide (x = name) || b := by
    unfold Declarations.known
    rw [SubroutineTable.get?_update c.subroutines name x
      (f := fun s => { s with endLine := some number }) fun _ => rfl, Option.map_map, Option.map_map]
    refine congrArg (Option.map · _) (funext fun s => ?_)
    by_cases hx : x = name
    · simp [hx]
    · simp [hx]
  refine { h with
    current := rfl
    owned := fun hsome => by cases hsome
    declared := fun {x} hx => ?_
    otherDeclared := fun {x} hx => ?_ }
  · rw [hput, hput, h.declared hx]
  · rw [hput, h.otherDeclared hx, decide_eq_false fun heq : x = name => hx (heq ▸ hname)]
    cases z.known x <;> rfl

theorem gosub (h : Alongside vars subs z d e) (name : String) (number number' : Nat) :
    Alongside vars subs z
      { d with calls := if d.calls.contains name then d.calls else d.calls.put name number }
      { e with calls := if e.calls.contains name then e.calls else e.calls.put name number' } := by
  have hput {calls : Assoc String Nat} (number : Nat) (x : String) :
      (if calls.contains name then calls else calls.put name number).contains x =
        (decide (name = x) || calls.contains x) := by
    by_cases hc : calls.contains name
    · rw [if_pos hc]
      by_cases hx : name = x
      · rw [← hx, hc, Bool.or_true]
      · rw [decide_eq_false hx, Bool.false_or]
    · rw [if_neg hc, Assoc.contains, Assoc.get?_put]
      by_cases hx : name = x
      · rw [if_pos hx, decide_eq_true hx, Bool.true_or, Option.isSome_some]
      · rw [if_neg hx, decide_eq_false hx, Bool.false_or, Assoc.contains]
  refine { h with calls := fun {x} hx => ?_ }
  rw [hput, Bool.or_eq_true] at hx ⊢
  rcases hx with hx | hx
  · exact .inr (.inl hx)
  · exact (h.calls hx).imp_right .inr

end Alongside

/-! ### Lines -/

theorem relates_allocateAll (type : ValueType) (owner : String) {xs : List String}
    (hxs : ∀ x ∈ xs, vars x) : Relates (Alongside vars subs z) Eq (allocateAll type owner xs)
      (allocateAll type owner xs) := by
  induction xs with
  | nil => exact relates_pure rfl
  | cons x xs ih =>
    obtain ⟨hx, hxs⟩ := List.forall_mem_cons.mp hxs
    refine relates_get_bind fun d e h => ?_
    refine relates_lift_bind (Memory.meets_allocate (h.globals hx) nofun) ?_
    rintro m m' ⟨hm, hm'⟩
    have hput (y : String) : m.store.globals.get? y =
        if x = y then some (.fresh type .global owner) else d.memory.store.globals.get? y := by
      rw [hm, Store.allocated, Assoc.get?_put]
    have hput' (y : String) : m'.store.globals.get? y =
        if x = y then some (.fresh type .global owner) else e.memory.store.globals.get? y := by
      rw [hm', Store.allocated, Assoc.get?_put]
    refine (couples_modify fun a b hab => ?_).bind_relates fun _ => ih hxs
    refine { hab with globals := fun {y} hy => ?_, otherGlobals := fun {y} hy => ?_ }
    · exact (hput' y).trans ((congrArg _ (h.globals hy)).trans (hput y).symm)
    · refine (hput' y).trans ((if_neg ?_).trans (h.otherGlobals hy))
      rintro rfl
      exact hy hx

theorem startup_addOption (options : List ScriptOption) (d : Declarations) :
    (options.foldl addOption d).startup = d.startup ++ options := by
  induction options generalizing d with
  | nil => exact (List.append_nil _).symm
  | cons o options ih =>
    rw [List.foldl_cons, ih]
    exact List.append_assoc ..

theorem relates_startupOptions (text : List Char) :
    Relates (Alongside vars subs z) Eq (startupOptions text) (startupOptions text) := by
  have take (arguments : List Char) : Relates (Alongside vars subs z) Eq
      (do
        let options ← ScriptOption.read (← Text.splitArguments (String.ofList arguments))
        modify fun d => options.foldl addOption d : DeclarationM Unit)
      (do
        let options ← ScriptOption.read (← Text.splitArguments (String.ofList arguments))
        modify fun d => options.foldl addOption d : DeclarationM Unit) := by
    refine couples_lift.bind_relates fun _ => couples_lift.bind_relates fun options => ?_
    refine relates_modify fun d e h => ?_
    obtain ⟨log, startup, hd⟩ := foldl_addOption options d
    obtain ⟨log', startup', he⟩ := foldl_addOption options e
    have hstartup : startup' = startup := by
      have hleft := startup_addOption options d
      have hright := startup_addOption options e
      rw [hd] at hleft
      rw [he, h.startup] at hright
      exact hright.trans hleft.symm
    rw [hd, he, hstartup]
    exact { h with startup := rfl }
  simp only [startupOptions]
  refine relates_ite Iff.rfl (fun _ => take _) fun _ => ?_
  split
  · exact relates_modify fun d e h => { h with startupLine := rfl }
  · exact take _
  · exact relates_throw rfl

/-- Only one of the walks may have seen the name called before. -/
theorem relates_gosub (number number' : Nat) (rest : String) :
    Relates (Alongside vars subs z) Eq (declare number .gosub rest)
      (declare number' .gosub rest) := by
  have run (c : Declarations) (number : Nat) : (declare number .gosub rest).run c =
      ((readSubName .gosub rest).map fun _ => (), match readSubName .gosub rest with
        | .ok name =>
          { c with calls := if c.calls.contains name then c.calls else c.calls.put name number }
        | .error _ => c) := by
    show ((liftM (readSubName .gosub rest) >>= fun name : String =>
      (if !c.calls.contains name then set { c with calls := c.calls.put name number }
      else pure () : DeclarationM Unit)) : DeclarationM Unit).run c = _
    rw [run_bind]
    cases readSubName .gosub rest with
    | error f => rfl
    | ok name =>
      show (if (!c.calls.contains name) = true then _ else _ : DeclarationM Unit).run c = _
      dsimp only
      cases c.calls.contains name <;> rfl
  intro d e h
  rw [run, run]
  cases readSubName .gosub rest with
  | error f => exact ⟨.error rfl, h⟩
  | ok name => exact ⟨.ok rfl, h.gosub name number number'⟩

theorem relates_declare (number number' : Nat) {keyword : Keyword} {rest : String}
    (hvars : keyword = .allocate → ∀ {type names}, readAllocation rest = .ok (.global, type, names) →
      ∀ x ∈ names, vars x)
    (hsubs : keyword = .sub → subs rest) :
    Relates (Alongside vars subs z) Eq (declare number keyword rest)
      (declare number' keyword rest) := by
  by_cases hgosub : keyword = .gosub
  · subst hgosub
    exact relates_gosub number number' rest
  refine relates_get_bind fun d e h => ?_
  have hcurrent := h.current
  cases keyword <;> dsimp only
  case allocate =>
    have howner : e.owner = d.owner := by rw [owner, h.current, owner]
    refine relates_same_bind ?_
    rintro ⟨scope, type, names⟩ hread
    rw [howner]
    refine relates_ite Iff.rfl (fun hscope => ?_) fun _ => relates_pure rfl
    obtain rfl : scope = .global := hscope
    exact relates_allocateAll type _ (hvars rfl hread)
  case endMain =>
    have hline := h.endMainLine
    cases hd : d.current <;> rw [hd] at hcurrent <;> rw [hcurrent]
    · cases hd' : d.endMainLine <;> cases he' : e.endMainLine <;> rw [hd', he'] at hline <;> cases hline
      · refine (couples_set ?_).relates
        exact { h with current := rfl, owned := fun hsome => (by cases hsome), endMainLine := rfl }
      · exact relates_throw_bind rfl
    · exact relates_throw_bind rfl
  case sub =>
    refine relates_same_bind fun name hname => ?_
    obtain ⟨rfl, -⟩ := readSubName_ok hname
    cases hd : d.current <;> rw [hd] at hcurrent <;> rw [hcurrent]
    · exact relates_lift_bind (h.declare (hsubs rfl) number number') fun t t' ht =>
        (couples_set ht).relates
    · exact relates_throw_bind rfl
  case endSub =>
    cases hd : d.current <;> rw [hd] at hcurrent <;> rw [hcurrent]
    · exact relates_throw rfl
    · exact (couples_set (h.endSub (h.owned hd) number number')).relates
  case gosub => exact absurd rfl hgosub
  case startup =>
    rw [hcurrent, h.startupSeen]
    refine relates_ite Iff.rfl (fun _ => relates_throw_bind rfl) fun _ => ?_
    refine relates_ite Iff.rfl (fun _ => relates_throw_bind rfl) fun _ => ?_
    exact (couples_set { h with current := rfl, startupLine := rfl, startupSeen := rfl }).relates
  all_goals first
    | exact relates_throw rfl
    | exact relates_pure rfl

theorem relates_line (htext : l'.text = l.text) (hvars : ∀ x, l.AllocatesGlobal x → vars x)
    (hsubs : ∀ name, l.statement? = some (.sub, name) → subs name) :
    Relates (Alongside vars subs z) Eq (line l) (line l') := by
  unfold line
  rw [htext]
  refine relates_get_bind fun d e h => ?_
  rw [h.startupLine]
  refine relates_ite Iff.rfl (fun _ => relates_startupOptions _) fun _ => ?_
  refine relates_ite Iff.rfl (fun _ => relates_pure rfl) fun hopt => ?_
  rcases hsplit : Keyword.split l.text.toList with ⟨word, rest⟩
  dsimp only
  cases hk : Keyword.ofWord? (String.ofList word) with
  | none => exact relates_pure rfl
  | some keyword =>
    have hstatement : l.statement? = some (keyword, String.ofList rest) :=
      Line.statement?_eq_some.mpr ⟨Bool.eq_false_iff.mpr hopt, by rw [hsplit, hk], by rw [hsplit]⟩
    refine relates_declare l.number l'.number (fun hallocate type names hread x hx => ?_) fun hsub => ?_
    · exact hvars x ⟨_, type, names, hallocate ▸ hstatement, hread, hx⟩
    · exact hsubs _ (hsub ▸ hstatement)

/-- Passing over the same lines tells both walks the same of their names. -/
theorem Alongside.passes (h : Alongside vars subs z d e) (hc : d.findings.collecting = false)
    (hc' : e.findings.collecting = false) (htexts : ls'.map (·.text) = ls.map (·.text))
    (hvars : ∀ l ∈ ls, ∀ x, l.AllocatesGlobal x → vars x)
    (hsubs : ∀ l ∈ ls, ∀ name, l.statement? = some (.sub, name) → subs name)
    (hpass : PassesOver lineOrFault d ls d') :
    ∃ e', PassesOver lineOrFault e ls' e' ∧ Alongside vars subs z d' e' := by
  induction hpass generalizing e ls' with
  | nil d =>
    obtain rfl := List.map_eq_nil_iff.mp htexts
    exact ⟨e, .nil e, h⟩
  | @cons d d₁ d' l ls hline _ ih =>
    obtain ⟨l', ls', rfl, htext, htexts⟩ := List.map_eq_cons_iff.mp htexts
    obtain ⟨hvars, hvars'⟩ := List.forall_mem_cons.mp hvars
    obtain ⟨hsubs, hsubs'⟩ := List.forall_mem_cons.mp hsubs
    have hline := (gives_lineOrFault hc).mp hline
    obtain ⟨_, e₁, hline', rfl, h₁⟩ := (relates_line htext hvars hsubs).of_gives h hline
    have hc₁ := (takes_of_line hline).findings_eq ▸ hc
    have hc₁' := (takes_of_line hline').findings_eq ▸ hc'
    obtain ⟨e', hpass', h'⟩ := ih h₁ hc₁ hc₁' htexts hvars' hsubs'
    exact ⟨e', .cons ((gives_lineOrFault hc').mpr hline') hpass', h'⟩

end Declarations

end CommandScript.Script
