import CommandScript.Proofs.Script.Lockstep

/-!
# The variables of a program

The first walk allocates the globals, the second one the locals. `GlobalsOf` and `LocalsOf` say that a
store holds what the `ALLOCATE` commands name and nothing else, none of it written; each line that both
walks take in keeps it so.
-/

namespace CommandScript.Script

/-- The command at `k` allocates the name. -/
def Allocates (es : List Entry) (k : Nat) (scope : Scope) (type : ValueType) (name : String) : Prop :=
  ∃ e names, es[k]? = some e ∧ e.command = .allocate scope type names ∧ name ∈ names

/-- The owner of the locals that the command at `k` sees. -/
def ownerAt (es : List Entry) (k : Nat) : String := (subOf? (around es k)).getD mainOwner

def GlobalsOf (s : Store) (es : List Entry) : Prop :=
  ∀ name v, s.globals.get? name = some v ↔
    ∃ k type, Allocates es k .global type name ∧ v = .fresh type .global (ownerAt es k)

def LocalsOf (s : Store) (es : List Entry) : Prop :=
  ∀ owner name v, s.locals.get? (owner, name) = some v ↔
    ∃ k type, Allocates es k .owned type name ∧ owner = ownerAt es k ∧ v = .fresh type .owned owner

/-- No local has the name of a global or of a reserved variable. -/
def Unshadowed (s : Store) : Prop :=
  ∀ owner name v, s.locals.get? (owner, name) = some v →
    s.globals.get? name = none ∧ Reserved.ofName? name = none

section Allocate

variable {s s' : Store} {m m' : Memory} {scope : Scope} {type : ValueType} {name owner : String}

theorem allocate_global_ok (h : s.allocate .global type name owner = .ok s') :
    s.globals.get? name = none ∧
      s' = { s with globals := s.globals.put name (.fresh type .global owner) } := by
  simp only [Store.allocate_eq, Checked.bind_ok, Checked.ite_ok, Checked.fail_ok, Checked.pure_ok,
    and_false, false_or, false_and, exists_false] at h
  obtain ⟨-, -, hglobal, rfl⟩ := h
  exact ⟨Option.not_isSome_iff_eq_none.mp hglobal, rfl⟩

theorem allocate_owned_ok (h : s.allocate .owned type name owner = .ok s') :
    Reserved.ofName? name = none ∧ s.globals.get? name = none ∧ s.locals.get? (owner, name) = none ∧
      s' = { s with locals := s.locals.put (owner, name) (.fresh type .owned owner) } := by
  simp only [Store.allocate_eq, Checked.bind_ok, Checked.ite_ok, Checked.fail_ok, Checked.pure_ok,
    and_false, false_or, false_and, exists_false] at h
  obtain ⟨-, hreserved, hglobal, hlocal, rfl⟩ := h
  exact ⟨Option.not_isSome_iff_eq_none.mp hreserved, Option.not_isSome_iff_eq_none.mp hglobal,
    Option.not_isSome_iff_eq_none.mp hlocal, rfl⟩

theorem memory_allocate_ok (h : m.allocate scope type name owner = .ok m') :
    m.store.allocate scope type name owner = .ok m'.store := by
  simp only [Memory.allocate_eq, Checked.bind_ok, Checked.pure_ok] at h
  obtain ⟨s, hs, rfl⟩ := h
  exact hs

variable {d d' : Declarations} {a b : Assembly} {names : List String}

theorem globals_of_allocateAll (h : Gives (Declarations.allocateAll type owner names) d () d') :
    d'.memory.store.locals = d.memory.store.locals ∧
      (∀ x ∈ names, d.memory.store.globals.get? x = none) ∧
      ∀ x, d'.memory.store.globals.get? x =
        if x ∈ names then some (.fresh type .global owner) else d.memory.store.globals.get? x := by
  induction names generalizing d with
  | nil =>
    simp only [Declarations.allocateAll, gives_pure] at h
    obtain ⟨-, rfl⟩ := h
    exact ⟨rfl, fun _ hx => absurd hx List.not_mem_nil, fun _ => rfl⟩
  | cons name names ih =>
    simp only [Declarations.allocateAll, gives_bind, gives_get, gives_lift, gives_modify] at h
    obtain ⟨_, _, ⟨rfl, rfl⟩, m, _, ⟨hm, rfl⟩, _, _, rfl, h⟩ := h
    obtain ⟨hnone, hstore⟩ := allocate_global_ok (memory_allocate_ok hm)
    obtain ⟨hlocals, hnew, hget⟩ := ih h
    simp only [hstore, Assoc.get?_put] at hlocals hnew hget
    refine ⟨hlocals, fun x hx => ?_, fun x => ?_⟩
    · rcases List.mem_cons.mp hx with rfl | hx
      · exact hnone
      · have := hnew x hx
        split at this
        · cases this
        · exact this
    · rw [hget]
      by_cases hx : x = name
      · subst hx
        simp
      · simp [hx, Ne.symm hx]

theorem locals_of_allocateAll (h : Gives (Assembly.allocateAll type names) a () b) :
    b.memory.store.globals = a.memory.store.globals ∧
      (∀ x ∈ names, Reserved.ofName? x = none ∧ a.memory.store.globals.get? x = none ∧
        a.memory.store.locals.get? (a.owner, x) = none) ∧
      ∀ o x, b.memory.store.locals.get? (o, x) =
        if o = a.owner ∧ x ∈ names then some (.fresh type .owned a.owner)
        else a.memory.store.locals.get? (o, x) := by
  induction names generalizing a with
  | nil =>
    simp only [Assembly.allocateAll, gives_pure] at h
    obtain ⟨-, rfl⟩ := h
    exact ⟨rfl, fun _ hx => absurd hx List.not_mem_nil, fun _ _ => by simp⟩
  | cons name names ih =>
    simp only [Assembly.allocateAll, gives_bind, gives_get, gives_ite, gives_throw, gives_lift,
      gives_set, false_and, exists_false, and_false, false_or] at h
    obtain ⟨_, _, ⟨rfl, rfl⟩, -, m, _, ⟨hm, rfl⟩, _, _, rfl, h⟩ := h
    obtain ⟨hreserved, hglobal, hlocal, hstore⟩ := allocate_owned_ok (memory_allocate_ok hm)
    obtain ⟨hglobals, hnew, hget⟩ := ih h
    have howner : ({ a with memory := m } : Assembly).owner = a.owner := rfl
    simp only [hstore, Assoc.get?_put, howner, Prod.mk.injEq] at hglobals hnew hget
    refine ⟨hglobals, fun x hx => ?_, fun o x => ?_⟩
    · rcases List.mem_cons.mp hx with rfl | hx
      · exact ⟨hreserved, hglobal, hlocal⟩
      · obtain ⟨hr, hg, hl⟩ := hnew x hx
        split at hl
        · cases hl
        · exact ⟨hr, hg, hl⟩
    · rw [hget]
      by_cases ho : o = a.owner
      · by_cases hx : x = name
        · subst hx
          simp [ho]
        · simp [ho, hx, Ne.symm hx]
      · simp [ho, Ne.symm ho]

end Allocate

section Concat

variable {es : List Entry} {e : Entry} {k : Nat} {scope : Scope} {type : ValueType} {name : String}

theorem allocates_lt (h : Allocates es k scope type name) : k < es.length := by
  obtain ⟨e, _, he, -⟩ := h
  exact (List.getElem?_eq_some_iff.mp he).1

theorem allocates_concat : Allocates (es ++ [e]) k scope type name ↔
    Allocates es k scope type name ∨
      k = es.length ∧ ∃ names, e.command = .allocate scope type names ∧ name ∈ names := by
  simp only [Allocates, getElem?_concat]
  constructor
  · rintro ⟨e', names, he | ⟨rfl, rfl⟩, h⟩
    · exact .inl ⟨e', names, he, h⟩
    · exact .inr ⟨rfl, names, h⟩
  · rintro (⟨e', names, he, h⟩ | ⟨rfl, names, h⟩)
    · exact ⟨e', names, .inl he, h⟩
    · exact ⟨e, names, .inr ⟨rfl, rfl⟩, h⟩

theorem ownerAt_concat (hk : k ≤ es.length) : ownerAt (es ++ [e]) k = ownerAt es k := by
  rw [ownerAt, around_append es [e] hk, ownerAt]

/-- What the commands allocate is what the last of them and those in front of it do. -/
theorem exists_allocates_concat {P : ValueType → String → Prop} :
    (∃ k type, Allocates (es ++ [e]) k scope type name ∧ P type (ownerAt (es ++ [e]) k)) ↔
      (∃ k type, Allocates es k scope type name ∧ P type (ownerAt es k)) ∨
        ∃ type names, e.command = .allocate scope type names ∧ name ∈ names ∧
          P type (ownerAt es es.length) := by
  constructor
  · rintro ⟨k, type, h, hp⟩
    rcases allocates_concat.mp h with h | ⟨rfl, names, hc, hname⟩
    · rw [ownerAt_concat (Nat.le_of_lt (allocates_lt h))] at hp
      exact .inl ⟨k, type, h, hp⟩
    · rw [ownerAt_concat (Nat.le_refl _)] at hp
      exact .inr ⟨type, names, hc, hname, hp⟩
  · rintro (⟨k, type, h, hp⟩ | ⟨type, names, hc, hname, hp⟩)
    · refine ⟨k, type, allocates_concat.mpr (.inl h), ?_⟩
      rwa [ownerAt_concat (Nat.le_of_lt (allocates_lt h))]
    · refine ⟨es.length, type, allocates_concat.mpr (.inr ⟨rfl, names, hc, hname⟩), ?_⟩
      rwa [ownerAt_concat (Nat.le_refl _)]

theorem exists_allocates_concat_of_not {P : ValueType → String → Prop}
    (hc : ∀ type names, e.command ≠ .allocate scope type names) :
    (∃ k type, Allocates (es ++ [e]) k scope type name ∧ P type (ownerAt (es ++ [e]) k)) ↔
      ∃ k type, Allocates es k scope type name ∧ P type (ownerAt es k) := by
  rw [exists_allocates_concat]
  exact or_iff_left fun ⟨type, names, h, _⟩ => hc type names h

variable {s : Store}

theorem GlobalsOf.concat (h : GlobalsOf s es)
    (hc : ∀ type names, e.command ≠ .allocate .global type names) : GlobalsOf s (es ++ [e]) :=
  fun name v => (h name v).trans (exists_allocates_concat_of_not hc
    (P := fun type owner => v = .fresh type .global owner)).symm

theorem LocalsOf.concat (h : LocalsOf s es)
    (hc : ∀ type names, e.command ≠ .allocate .owned type names) : LocalsOf s (es ++ [e]) :=
  fun owner name v => (h owner name v).trans (exists_allocates_concat_of_not hc
    (P := fun type o => owner = o ∧ v = .fresh type .owned owner)).symm

end Concat

section Steps

variable {d d' : Declarations} {a a' : Assembly} {l : Line}

/-- What both walks allocated so far is what the commands so far say. -/
structure Allocated (d : Declarations) (a : Assembly) : Prop where
  globals : GlobalsOf d.memory.store a.commands.toList
  locals : LocalsOf a.memory.store a.commands.toList
  unshadowed : Unshadowed a.memory.store

theorem Lockstep.owner_eq (h : Lockstep d a) (hc : a.Coherent) :
    d.owner = ownerAt a.commands.toList a.index ∧ a.owner = ownerAt a.commands.toList a.index := by
  rw [Declarations.owner, ← h.current, Assembly.owner, hc.current]
  exact ⟨rfl, rfl⟩

theorem Together.globals_eq (h : Together d a l d' a') :
    a'.memory.store.globals = a.memory.store.globals := by
  cases h with
  | owned _ hg _ hstore => rw [hstore, (locals_of_allocateAll hg).1]
  | silent _ _ hstore | neutral _ _ _ hstore | global _ _ hstore | sub _ _ _ _ hstore
  | endSub _ _ _ _ hstore => rw [hstore]

/-- A command that allocates nothing leaves the variables as they are. -/
theorem Allocated.concat (h : Allocated d a) {e : Entry}
    (hd : d'.memory.store = d.memory.store) (ha : a'.memory.store = a.memory.store)
    (hcommands : a'.commands.toList = a.commands.toList ++ [e])
    (hc : e.command.keyword ≠ .allocate) : Allocated d' a' := by
  have hne (scope : Scope) (type : ValueType) (names : List String) :
      e.command ≠ .allocate scope type names := fun heq => hc (by rw [heq]; rfl)
  refine ⟨?_, ?_, ?_⟩
  · rw [hd, hcommands]
    exact h.globals.concat (hne _)
  · rw [ha, hcommands]
    exact h.locals.concat (hne _)
  · rw [ha]
    exact h.unshadowed

theorem Allocated.global (h : Allocated d a) (howner : d.owner = ownerAt a.commands.toList a.index)
    {type : ValueType} {names : List String}
    (hg : Gives (Declarations.allocateAll type d.owner names) d () d')
    (hcommands : a'.commands.toList =
      a.commands.toList ++ [a.entryOf l (.allocate .global type names)])
    (hstore : a'.memory.store = a.memory.store) : Allocated d' a' := by
  obtain ⟨-, hnew, hget⟩ := globals_of_allocateAll hg
  refine ⟨fun name v => ?_, ?_, ?_⟩
  · rw [hget, hcommands, exists_allocates_concat (P := fun type owner => v = .fresh type .global owner),
      ← Assembly.index_eq_length, ← howner, ← h.globals]
    constructor
    · intro hv
      split at hv
      · rename_i hname
        exact .inr ⟨type, names, rfl, hname, (Option.some.inj hv).symm⟩
      · exact .inl hv
    · rintro (hv | ⟨_, _, heq, hname, rfl⟩)
      · rw [if_neg fun hname => by rw [hnew name hname] at hv; cases hv]
        exact hv
      · cases heq
        rw [if_pos hname]
  · rw [hstore, hcommands]
    exact h.locals.concat fun _ _ heq => by cases heq
  · rw [hstore]
    exact h.unshadowed

theorem Allocated.owned (h : Allocated d a) (howner : a.owner = ownerAt a.commands.toList a.index)
    {type : ValueType} {names : List String} {b : Assembly} (hkeep : d.Keeps d')
    (hg : Gives (Assembly.allocateAll type names) a () b)
    (hcommands : a'.commands.toList =
      a.commands.toList ++ [a.entryOf l (.allocate .owned type names)])
    (hstore : a'.memory.store = b.memory.store) : Allocated d' a' := by
  obtain ⟨hglobals, hnew, hget⟩ := locals_of_allocateAll hg
  refine ⟨?_, fun owner name v => ?_, fun owner name v hv => ?_⟩
  · rw [hkeep.store, hcommands]
    exact h.globals.concat fun _ _ heq => by cases heq
  · rw [hstore, hget, hcommands, exists_allocates_concat
      (P := fun type o => owner = o ∧ v = .fresh type .owned owner), ← Assembly.index_eq_length,
      ← howner, ← h.locals]
    constructor
    · intro hv
      split at hv
      · rename_i hname
        refine .inr ⟨type, names, rfl, hname.2, hname.1, ?_⟩
        rw [hname.1]
        exact (Option.some.inj hv).symm
      · exact .inl hv
    · rintro (hv | ⟨_, _, heq, hname, rfl, rfl⟩)
      · rw [if_neg fun hname => by rw [hname.1, (hnew name hname.2).2.2] at hv; cases hv]
        exact hv
      · cases heq
        rw [if_pos ⟨rfl, hname⟩]
  · rw [hstore, hget] at hv
    rw [hstore, hglobals]
    split at hv
    · rename_i hname
      exact ⟨(hnew name hname.2).2.1, (hnew name hname.2).1⟩
    · exact h.unshadowed owner name v hv

theorem Allocated.together (h : Allocated d a) (hl : Lockstep d a) (hc : a.Coherent)
    (ht : Together d a l d' a') : Allocated d' a' := by
  obtain ⟨hdowner, haowner⟩ := hl.owner_eq hc
  cases ht with
  | silent hkeep hcommands hstore =>
    refine ⟨?_, ?_, ?_⟩
    · rw [hkeep.store, hcommands]
      exact h.globals
    · rw [hstore, hcommands]
      exact h.locals
    · rw [hstore]
      exact h.unshadowed
  | neutral hkeep hk hcommands hstore =>
    exact h.concat hkeep.store hstore hcommands fun heq => hk (heq ▸ List.mem_cons_self)
  | global hg hcommands hstore => exact h.global hdowner hg hcommands hstore
  | owned hkeep hg hcommands hstore => exact h.owned haowner hkeep hg hcommands hstore
  | sub _ _ hstore hcommands hstore' => exact h.concat hstore hstore' hcommands nofun
  | endSub _ _ hstore hcommands hstore' => exact h.concat hstore hstore' hcommands nofun

end Steps

end CommandScript.Script
