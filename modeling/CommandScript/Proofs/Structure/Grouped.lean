import CommandScript.Proofs.Nesting.Program
import CommandScript.Proofs.Structure.Tree

/-!
# Where the blocks of a tree stand

Grouping keeps every command, and a nested list can be grouped. `Block.Stands` says where a block
begins and ends in the list that it was read from. What is open around a block is the same at both of
its ends, so the brackets of its nodes are those that the tables of a program know.
-/

namespace CommandScript

/-- The command that begins an arm. -/
def armCommand : Option Condition → Command
  | some c => .elseIf c
  | none => .else_

/-- A command that is neither a bracket nor the beginning of an arm. -/
structure Entry.Simple (e : Entry) : Prop where
  opening? : e.opening? = none
  closes : e.closes = false
  marks : e.marks = false

mutual

/-- The block is what stands from `k` up to `j`. -/
def Block.Stands (es : List Entry) : Block → Nat → Nat → Prop
  | .nil, k, j => k = j
  | .command entry rest, k, j => es[k]? = some entry ∧ entry.Simple ∧ rest.Stands es (k + 1) j
  | .chain c opening body arms rest, k, j =>
    ∃ a z, es[k]? = some opening ∧ opening.command = .if_ c ∧ body.Stands es (k + 1) a ∧
      arms.Stands es a z ∧ rest.Stands es z j
  | .loop id opening body ending rest, k, j =>
    ∃ z, es[k]? = some opening ∧ opening.command = .for_ id ∧ body.Stands es (k + 1) z ∧
      (es[z]? = some ending ∧ ∃ other, ending.command = .endFor other) ∧ rest.Stands es (z + 1) j
  | .sub name opening body ending rest, k, j =>
    ∃ z, es[k]? = some opening ∧ (∃ last, opening.command = .sub name last) ∧
      body.Stands es (k + 1) z ∧ (es[z]? = some ending ∧ ending.command = .endSub) ∧
      rest.Stands es (z + 1) j

def Arms.Stands (es : List Entry) : Arms → Nat → Nat → Prop
  | .ending entry, a, z => es[a]? = some entry ∧ entry.command = .endIf ∧ a + 1 = z
  | .arm c marker body arms, a, z =>
    ∃ b, es[a]? = some marker ∧ marker.command = armCommand c ∧ body.Stands es (a + 1) b ∧
      arms.Stands es b z

end

section Grouping

/-- The groups that wait are those of the openings, and stand one behind the other up to the end. -/
inductive Waits (es : List Entry) : List Opening → List Pending → Nat → Prop where
  | nil : Waits es [] [] es.length
  | chain {i j z y arms rest outer pending} : arms.Stands es j z → rest.Stands es z y →
      Waits es outer pending y → Waits es (.chain i :: outer) (.chain arms rest :: pending) j
  | loop {id j y ending rest outer pending} :
      (es[j]? = some ending ∧ ∃ other, ending.command = .endFor other) →
      rest.Stands es (j + 1) y → Waits es outer pending y →
      Waits es (.loop id :: outer) (.loop ending rest :: pending) j
  | sub {i name j y ending rest outer pending} :
      (es[j]? = some ending ∧ ending.command = .endSub) → rest.Stands es (j + 1) y →
      Waits es outer pending y → Waits es (.sub i name :: outer) (.sub ending rest :: pending) j

variable {es : List Entry} {e : Entry} {b : Block} {pending : List Pending} {k j : Nat}

theorem entries_of_mark {c : Option Condition} {read : Block × List Pending}
    (h : e.mark c b pending = some read) :
    read.1.entries ++ read.2.flatMap Pending.entries =
      e :: (b.entries ++ pending.flatMap Pending.entries) := by
  unfold Entry.mark at h
  split at h
  · cases h
    simp [Block.entries, Pending.entries, Arms.entries]
  · cases h

theorem entries_of_shift {read : Block × List Pending} (h : e.shift b pending = some read) :
    read.1.entries ++ read.2.flatMap Pending.entries =
      e :: (b.entries ++ pending.flatMap Pending.entries) := by
  unfold Entry.shift at h
  split at h
  case h_4 => exact entries_of_mark h
  case h_5 => exact entries_of_mark h
  case h_6 | h_7 | h_8 =>
    split at h
    · cases h
      simp [Block.entries, Pending.entries]
    · cases h
  all_goals
    cases h
    simp [Block.entries, Pending.entries, Arms.entries]

theorem entries_of_readGroups {read : Block × List Pending} (h : readGroups es = some read) :
    read.1.entries ++ read.2.flatMap Pending.entries = es := by
  induction es generalizing read with
  | nil =>
    cases h
    rfl
  | cons e es ih =>
    obtain ⟨before, hbefore, hshift⟩ := Option.bind_eq_some_iff.mp h
    rw [entries_of_shift hshift, ih hbefore]

/-- Grouping loses no command and changes no order. -/
theorem entries_of_group {t : Block} (h : group es = some t) : t.entries = es := by
  unfold group at h
  split at h
  · rename_i b hb
    cases h
    simpa using entries_of_readGroups hb
  · cases h

/-- The beginning of an arm in front of groups that wait: its chain waits first. -/
theorem waits_mark {c : Option Condition} (he : es[k]? = some e) (hc : e.command = armCommand c)
    (hf : ∃ i, (around es k).head? = some (.chain i)) (hb : b.Stands es (k + 1) j)
    (hw : Waits es (around es k) pending j) :
    ∃ b' pending' j', e.mark c b pending = some (b', pending') ∧ b'.Stands es k j' ∧
      Waits es (around es k) pending' j' := by
  obtain ⟨i, hi⟩ := hf
  obtain ⟨outer, houter⟩ := List.head?_eq_some_iff.mp hi
  rw [houter] at hw ⊢
  cases hw with
  | chain harms hrest hafter =>
    exact ⟨_, _, _, rfl, rfl, .chain ⟨_, he, hc, hb, harms⟩ hrest hafter⟩

/-- A command that is none of those that grouping looks for is simple. -/
theorem simple_of_not (hendIf : e.command ≠ .endIf) (hendFor : ∀ id, e.command ≠ .endFor id)
    (hendSub : e.command ≠ .endSub) (helseIf : ∀ c, e.command ≠ .elseIf c)
    (helse : e.command ≠ .else_) (hif : ∀ c, e.command ≠ .if_ c) (hfor : ∀ id, e.command ≠ .for_ id)
    (hsub : ∀ name last, e.command ≠ .sub name last) : e.Simple where
  opening? := by
    unfold Entry.opening?
    split
    case h_1 c hc => exact absurd hc (hif c)
    case h_2 id hc => exact absurd hc (hfor id)
    case h_3 name last hc => exact absurd hc (hsub name last)
    case h_4 => rfl
  closes := by
    unfold Entry.closes
    split
    case h_1 hc => exact absurd hc hendIf
    case h_2 id hc => exact absurd hc (hendFor id)
    case h_3 hc => exact absurd hc hendSub
    case h_4 => rfl
  marks := by
    unfold Entry.marks
    split
    case h_1 c hc => exact absurd hc (helseIf c)
    case h_2 hc => exact absurd hc helse
    case h_3 => rfl

/-- One more command in front of groups that wait. -/
theorem waits_shift (hn : Nested es) (he : es[k]? = some e) (hb : b.Stands es (k + 1) j)
    (hw : Waits es (around es (k + 1)) pending j) :
    ∃ b' pending' j', e.shift b pending = some (b', pending') ∧ b'.Stands es k j' ∧
      Waits es (around es k) pending' j' := by
  have hf := hn.fits he
  rw [around_succ he] at hw
  unfold Entry.Fits at hf
  unfold Entry.shift
  have opened {x : Opening} (ho : e.opening? = some x) :
      Waits es (x :: around es k) pending j := by
    rwa [nest_of_opening ho] at hw
  have closed {x : Opening} (hc : e.closes = true) (hx : (around es k).head? = some x) :
      ∃ outer, around es k = x :: outer ∧ Waits es outer pending j := by
    obtain ⟨outer, houter⟩ := List.head?_eq_some_iff.mp hx
    rw [nest_of_closes hc, houter, List.tail_cons] at hw
    exact ⟨outer, houter, hw⟩
  split
  case h_1 hc =>
    rw [hc] at hf
    obtain ⟨i, hi⟩ := hf
    obtain ⟨outer, houter, hw⟩ := closed (by rw [Entry.closes, hc]) hi
    rw [houter]
    exact ⟨_, _, _, rfl, rfl, .chain ⟨he, hc, rfl⟩ hb hw⟩
  case h_2 id hc =>
    rw [hc] at hf
    obtain ⟨outer, houter, hw⟩ := closed (by rw [Entry.closes, hc]) hf
    rw [houter]
    exact ⟨_, _, _, rfl, rfl, .loop ⟨he, _, hc⟩ hb hw⟩
  case h_3 hc =>
    rw [hc] at hf
    obtain ⟨i, name, hi⟩ := hf
    obtain ⟨outer, houter, hw⟩ := closed (by rw [Entry.closes, hc]) hi
    rw [houter]
    exact ⟨_, _, _, rfl, rfl, .sub ⟨he, hc⟩ hb hw⟩
  case h_4 c hc =>
    rw [hc] at hf
    rw [nest_of_neither (by rw [Entry.opening?, hc]) (by rw [Entry.closes, hc])] at hw
    exact waits_mark (c := some c) he hc hf hb hw
  case h_5 hc =>
    rw [hc] at hf
    rw [nest_of_neither (by rw [Entry.opening?, hc]) (by rw [Entry.closes, hc])] at hw
    exact waits_mark (c := none) he hc hf hb hw
  case h_6 c hc =>
    cases opened (x := .chain e.index) (by rw [Entry.opening?, hc]) with
    | chain harms hrest hafter => exact ⟨_, _, _, rfl, ⟨_, _, he, hc, hb, harms, hrest⟩, hafter⟩
  case h_7 id hc =>
    cases opened (x := .loop id) (by rw [Entry.opening?, hc]) with
    | loop hending hrest hafter => exact ⟨_, _, _, rfl, ⟨_, he, hc, hb, hending, hrest⟩, hafter⟩
  case h_8 name last hc =>
    cases opened (x := .sub e.index name) (by rw [Entry.opening?, hc]) with
    | sub hending hrest hafter =>
      exact ⟨_, _, _, rfl, ⟨_, he, ⟨_, hc⟩, hb, hending, hrest⟩, hafter⟩
  case h_9 h₁ h₂ h₃ h₄ h₅ h₆ h₇ h₈ =>
    have hs := simple_of_not h₁ h₂ h₃ h₄ h₅ h₆ h₇ h₈
    rw [nest_of_neither hs.opening? hs.closes] at hw
    exact ⟨_, _, _, rfl, ⟨he, hs, hb⟩, hw⟩

theorem readGroups_drop (hn : Nested es) (hend : around es es.length = []) (n : Nat) :
    ∀ k, k + n = es.length → ∃ b pending j, readGroups (es.drop k) = some (b, pending) ∧
      b.Stands es k j ∧ Waits es (around es k) pending j := by
  induction n with
  | zero =>
    intro k hk
    obtain rfl : k = es.length := hk
    rw [List.drop_length, hend]
    exact ⟨.nil, [], _, rfl, rfl, .nil⟩
  | succ n ih =>
    intro k hk
    have hlt : k < es.length := by omega
    obtain ⟨b, pending, j, hread, hb, hw⟩ := ih (k + 1) (by omega)
    obtain ⟨b', pending', j', hshift, hb', hw'⟩ :=
      waits_shift hn (List.getElem?_eq_getElem hlt) hb hw
    refine ⟨b', pending', j', ?_, hb', hw'⟩
    rw [List.drop_eq_getElem_cons hlt, readGroups, hread]
    exact hshift

end Grouping

theorem Program.IsNested.group {p : Program} (h : p.IsNested) :
    ∃ t, CommandScript.group p.entries = some t ∧ t.Stands p.entries 0 p.size := by
  have hend : CommandScript.around p.entries p.entries.length = [] := p.length_entries ▸ h.ended
  obtain ⟨t, pending, j, hread, ht, hw⟩ := readGroups_drop h.nested hend _ 0 (Nat.zero_add _)
  rw [List.drop_zero] at hread
  rw [around_zero] at hw
  cases hw with
  | nil => exact ⟨t, by rw [CommandScript.group, hread], p.length_entries ▸ ht⟩

end CommandScript
