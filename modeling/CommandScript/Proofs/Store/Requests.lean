import CommandScript.Proofs.Store.Calls

/-!
# The order of allocations

An allocation looks at the slot that it is to fill and at the global of its name, and fills its slot
(`grant_ok`). So two of them come to the same in either order unless they ask for a global and a
local of one name (`Request.Cross`): the global shuts out the local, and the local does not shut out
the global. A name that an owner finds both as a local and as a global was a local first
(`exists_request_of_hasBoth`).
-/

namespace CommandScript

namespace Store

/-- What an allocation asks for. -/
structure Request where
  scope : Scope
  type : ValueType
  name : String
  owner : String
  deriving DecidableEq

namespace Request

/-- The slot that is to be filled. -/
def slot (r : Request) : Slot :=
  .of r.scope r.name r.owner

/-- The variable that is to stand there. -/
def fresh (r : Request) : Variable :=
  .fresh r.type r.scope r.owner

def call (r : Request) : Call :=
  .operation (.allocate r.scope r.type r.name r.owner)

/-- One asks for a global and the other one for a local of the same name. -/
def Cross (a b : Request) : Prop :=
  a.name = b.name ∧ a.scope ≠ b.scope

/-- Once the first one is granted, the second one is not. -/
def Blocks (a b : Request) : Prop :=
  a.slot = .global b.name ∨ a.slot = b.slot

end Request

/-- The store after a request. -/
def grant (s : Store) (r : Request) : Checked Store :=
  s.allocate r.scope r.type r.name r.owner

/-- The store after two requests, one after the other. -/
def grantBoth (s : Store) (a b : Request) : Checked Store := do
  (← s.grant a).grant b

/-- What a request asks for may be allocated. -/
def Admits (s : Store) (r : Request) : Prop :=
  s.admits r.scope r.name r.owner = true

/-- The stores hold the same, in whatever order they keep it. -/
structure Same (s t : Store) : Prop where
  at? : ∀ slot, s.at? slot = t.at? slot
  cells : s.cells = t.cells

variable {s t u : Store} {a b r : Request} {name owner : String}

theorem grant_ok : s.grant r = .ok t ↔ s.Admits r ∧ t = s.fill r.slot r.fresh := by
  have hcases := s.allocate_cases r.scope r.type r.name r.owner
  unfold grant Admits
  split at hcases
  · rename_i hadmits
    rw [hcases, Except.ok.injEq, and_iff_right hadmits]
    exact eq_comm
  · rename_i hadmits
    obtain ⟨f, hf⟩ := hcases
    rw [hf]
    exact iff_of_false nofun fun h => hadmits h.1

/-- Filling a slot shuts out what is to stand there and, if it is that of a global, all of its name. -/
theorem admits_fill {v : Variable} {slot : Slot} : (s.fill slot v).Admits r ↔
    s.Admits r ∧ slot ≠ .global r.name ∧ slot ≠ r.slot := by
  unfold Admits admits
  rw [at?_fill, at?_fill]
  change _ ↔ _ ∧ slot ≠ .global r.name ∧ slot ≠ .of r.scope r.name r.owner
  by_cases hglobal : slot = .global r.name <;> by_cases hslot : slot = .of r.scope r.name r.owner <;>
    simp [hglobal, hslot]

theorem grantBoth_ok : s.grantBoth a b = .ok t ↔ (s.Admits a ∧ s.Admits b ∧ ¬a.Blocks b) ∧
    t = (s.fill a.slot a.fresh).fill b.slot b.fresh := by
  unfold grantBoth
  simp only [Checked.bind_ok, grant_ok]
  constructor
  · rintro ⟨_, ⟨ha, rfl⟩, hb, rfl⟩
    obtain ⟨hb, hglobal, hslot⟩ := admits_fill.mp hb
    exact ⟨⟨ha, hb, not_or.mpr ⟨hglobal, hslot⟩⟩, rfl⟩
  · rintro ⟨⟨ha, hb, hblocks⟩, rfl⟩
    exact ⟨_, ⟨ha, rfl⟩, admits_fill.mpr ⟨hb, not_or.mp hblocks⟩, rfl⟩

theorem exists_grantBoth :
    (∃ t, s.grantBoth a b = .ok t) ↔ s.Admits a ∧ s.Admits b ∧ ¬a.Blocks b := by
  simp only [grantBoth_ok, exists_and_left, exists_eq, and_true]

theorem exists_grant : (∃ t, s.grant r = .ok t) ↔ s.Admits r := by
  simp only [grant_ok, exists_and_left, exists_eq, and_true]

namespace Request

theorem slot_eq_global {name : String} :
    r.slot = .global name ↔ r.scope = .global ∧ r.name = name := by
  unfold slot Slot.of
  cases r.scope <;> simp

theorem Cross.symm (h : a.Cross b) : b.Cross a :=
  ⟨h.1.symm, h.2.symm⟩

/-- Of two requests that do not cross either one shuts out the other or neither does. -/
theorem Blocks.symm (hcross : ¬a.Cross b) (h : a.Blocks b) : b.Blocks a := by
  rcases h with hglobal | hslot
  · obtain ⟨hscope, hname⟩ := slot_eq_global.mp hglobal
    have hsame : a.scope = b.scope :=
      Decidable.not_not.mp fun hne => hcross ⟨hname, hne⟩
    exact .inl (slot_eq_global.mpr ⟨hsame ▸ hscope, hname.symm⟩)
  · exact .inr hslot.symm

theorem blocks_comm (h : ¬a.Cross b) : a.Blocks b ↔ b.Blocks a :=
  ⟨Blocks.symm h, Blocks.symm fun hcross => h hcross.symm⟩

/-- Of two requests that cross, the one for the global shuts out the other. -/
theorem Cross.blocks_iff (h : a.Cross b) : a.Blocks b ↔ a.scope = .global := by
  unfold Blocks
  rw [slot_eq_global, and_iff_left h.1, or_iff_left_iff_imp]
  intro hslot
  revert hslot
  obtain ⟨-, hscope⟩ := h
  unfold slot Slot.of
  cases ha : a.scope <;> cases hb : b.scope <;> simp_all

end Request

/-- Slots that differ may be filled in either order. -/
theorem same_fill_fill {slot slot' : Slot} (h : slot ≠ slot') (v w : Variable) :
    ((s.fill slot v).fill slot' w).Same ((s.fill slot' w).fill slot v) where
  at? other := by
    simp only [at?_fill]
    by_cases hother : slot' = other
    · subst hother
      simp [h]
    · simp [hother]
  cells := by simp

/-! ### Sequences of allocations -/

/-- A request leaves the store alone or fills its slot. -/
theorem next_call (s : Store) (r : Request) :
    r.call.next s = s ∨ s.Admits r ∧ r.call.next s = s.fill r.slot r.fresh := by
  have hrun : (Operation.allocate r.scope r.type r.name r.owner).run s =
    s.allocate r.scope r.type r.name r.owner := rfl
  unfold Request.call
  rw [Call.next_perform, hrun]
  cases h : s.allocate r.scope r.type r.name r.owner with
  | error f => exact .inl rfl
  | ok t => exact .inr (grant_ok.mp h)

/-- From inside the owner there is both a local and a global of the name. -/
def HasBoth (s : Store) (name owner : String) : Prop :=
  (s.at? (.owned owner name)).isSome ∧ (s.at? (.global name)).isSome

/-- A name is not allocated where there is a global of it. -/
theorem Admits.unshared (h : s.Admits r) : s.at? (.global r.name) = none := by
  unfold Admits admits at h
  simp only [Bool.and_eq_true, Option.isNone_iff_eq_none] at h
  exact h.1.2

/-- The request that gives an owner both a local and a global of a name is one for the global, and the
local is there already. -/
theorem hasBoth_next (hnot : ¬s.HasBoth name owner) (h : (r.call.next s).HasBoth name owner) :
    (r.scope = .global ∧ r.name = name) ∧ (s.at? (.owned owner name)).isSome := by
  rcases s.next_call r with hsame | ⟨hadmits, hfill⟩
  · rw [hsame] at h
    exact absurd h hnot
  · obtain ⟨hlocal, hglobal⟩ := h
    rw [hfill, at?_fill] at hlocal hglobal
    by_cases hshared : r.slot = .global name
    · refine ⟨Request.slot_eq_global.mp hshared, ?_⟩
      simpa [hshared] using hlocal
    · rw [if_neg hshared] at hglobal
      by_cases howned : r.slot = .owned owner name
      · have hname : r.name = name := by
          revert howned
          unfold Request.slot Slot.of
          cases r.scope <;> simp
        rw [← hname, hadmits.unshared] at hglobal
        cases hglobal
      · rw [if_neg howned] at hlocal
        exact absurd ⟨hlocal, hglobal⟩ hnot

/-- Where an owner ends up with both, the global was asked for when the local was there. -/
theorem exists_request_of_hasBoth {requests : List Request} (hnot : ¬s.HasBoth name owner)
    (h : (s.after (requests.map Request.call)).HasBoth name owner) :
    ∃ before r behind, requests = before ++ r :: behind ∧ (r.scope = .global ∧ r.name = name) ∧
      ((s.after (before.map Request.call)).at? (.owned owner name)).isSome := by
  induction requests generalizing s with
  | nil => exact absurd h hnot
  | cons r requests ih =>
    rw [List.map_cons, after_cons] at h
    by_cases hnext : (r.call.next s).HasBoth name owner
    · obtain ⟨hr, hlocal⟩ := hasBoth_next hnot hnext
      exact ⟨[], r, requests, rfl, hr, hlocal⟩
    · obtain ⟨before, r', behind, rfl, hr, hlocal⟩ := ih hnext h
      exact ⟨r :: before, r', behind, rfl, hr, hlocal⟩

/-- Two allocations that do not ask for a global and a local of one name come to the same in either
order. Of two that do, the local may be followed by the global and not the other way round, and only so
does an owner come to have both. -/
theorem order_of_requests (s : Store) (a b : Request) :
    (¬a.Cross b →
      ((∃ t, s.grantBoth a b = .ok t) ↔ ∃ t, s.grantBoth b a = .ok t) ∧
      ∀ t u, s.grantBoth a b = .ok t → s.grantBoth b a = .ok u → t.Same u) ∧
    (a.Cross b → a.scope = .global →
      (¬∃ t, s.grantBoth a b = .ok t) ∧
      ((∃ t, s.grantBoth b a = .ok t) ↔ (∃ t, s.grant a = .ok t) ∧ ∃ t, s.grant b = .ok t)) ∧
    ∀ modulus requests name owner,
      ((empty modulus).after (requests.map Request.call)).HasBoth name owner →
      ∃ before r behind, requests = before ++ r :: behind ∧ (r.scope = .global ∧ r.name = name) ∧
        (((empty modulus).after (before.map Request.call)).at? (.owned owner name)).isSome := by
  refine ⟨fun hcross => ⟨?_, fun t u ht hu => ?_⟩, fun hcross hglobal => ⟨?_, ?_⟩, ?_⟩
  · rw [exists_grantBoth, exists_grantBoth, Request.blocks_comm hcross]
    exact and_left_comm
  · obtain ⟨⟨-, -, hblocks⟩, rfl⟩ := grantBoth_ok.mp ht
    obtain ⟨-, rfl⟩ := grantBoth_ok.mp hu
    exact same_fill_fill (not_or.mp hblocks).2 _ _
  · rw [exists_grantBoth, hcross.blocks_iff]
    exact fun h => h.2.2 hglobal
  · have hnot : ¬b.Blocks a := by
      rw [hcross.symm.blocks_iff, ← hglobal]
      exact hcross.2.symm
    rw [exists_grantBoth, exists_grant, exists_grant, and_iff_left hnot]
    exact and_comm
  · intro modulus requests name owner h
    exact exists_request_of_hasBoth (fun hboth => nomatch hboth.1) h

/-- A local, a global of the same name, and a local of another name. -/
def ownedX : Request := ⟨.owned, .integer, "X", "PART"⟩

def globalX : Request := ⟨.global, .string, "X", mainOwner⟩

def ownedY : Request := ⟨.owned, .strings, "Y", "PART"⟩

/-- The global and the local of another name come to the same in either order; the global and
the local of its name do not, and where both are there the local was first. -/
theorem order_of_requests_named :
    (¬ownedY.Cross globalX ∧ ∃ t u, (empty 100).grantBoth ownedY globalX = .ok t ∧
      (empty 100).grantBoth globalX ownedY = .ok u ∧ t.Same u) ∧
    (globalX.Cross ownedX ∧ ¬∃ t, (empty 100).grantBoth globalX ownedX = .ok t) ∧
    ∃ before r behind, [ownedX, globalX] = before ++ r :: behind ∧
      (r.scope = .global ∧ r.name = "X") ∧
      (((empty 100).after (before.map Request.call)).at? (.owned "PART" "X")).isSome := by
  have happart : ¬ownedY.Cross globalX := fun h => absurd h.1 (by decide)
  have hcross : globalX.Cross ownedX := ⟨rfl, by decide⟩
  have hfirst : ∃ t, (empty 100).grantBoth ownedY globalX = .ok t := ⟨_, rfl⟩
  obtain ⟨hboth, hsame⟩ := (order_of_requests (empty 100) ownedY globalX).1 happart
  refine ⟨⟨happart, ?_⟩, ⟨hcross, ?_⟩, ?_⟩
  · obtain ⟨t, ht⟩ := hfirst
    obtain ⟨u, hu⟩ := hboth.mp ⟨t, ht⟩
    exact ⟨t, u, ht, hu, hsame t u ht hu⟩
  · exact ((order_of_requests (empty 100) globalX ownedX).2.1 hcross rfl).1
  · exact (order_of_requests (empty 100) ownedX globalX).2.2 100 [ownedX, globalX] "X" "PART"
      ⟨rfl, rfl⟩

/-- A local and then a global of its name may be allocated, which leaves the owner with both; the
global and then the local may not. -/
theorem hasBoth_of_owned_first :
    (∃ t, (empty 100).grantBoth ownedX globalX = .ok t ∧ t.HasBoth "X" "PART") ∧
      ∃ f, (empty 100).grantBoth globalX ownedX = .error f ∧ f.kind = .duplicate :=
  ⟨⟨_, rfl, rfl, rfl⟩, _, rfl, rfl⟩

end Store

end CommandScript
