import CommandScript.Proofs.Checked
import CommandScript.Reference
import Mathlib.Data.List.TakeDrop

/-!
# Picking from a value

What an index picks is said by the entries of a value, whatever its kind: the entry at a position, or a
value of the same type whose entries are the ones between two positions. A value is known by its type and
its entries, so slices of slices are slices (`slices_of_pick`).
-/

namespace CommandScript.Value

variable {v w : Value} {i j : Nat} {last : Option Nat}

/-- What can be picked from a value one by one: the characters of a text and the entries of an array. -/
def entries : Value → List Value
  | string s => s.toList.map fun c => string (String.singleton c)
  | strings items => items.map string
  | integers items => items.map integer
  | _ => []

/-- The value is a text or an array. -/
def HasEntries (v : Value) : Prop :=
  v.type = .string ∨ v.type = .strings ∨ v.type = .integers

/-- A text or an array is known by its entries. -/
theorem eq_of_entries (hv : v.HasEntries) (htype : v.type = w.type) (h : v.entries = w.entries) :
    v = w := by
  have hchar (c d : Char) (hcd : string (String.singleton c) = string (String.singleton d)) : c = d := by
    simpa using congrArg String.toList (string.inj hcd)
  cases v <;> cases w <;> cases htype
  case string.string s t => rw [String.toList_inj.mp ((List.map_inj_right hchar).mp h)]
  case strings.strings => rw [(List.map_inj_right fun _ _ => string.inj).mp h]
  case integers.integers => rw [(List.map_inj_right fun _ _ => integer.inj).mp h]
  all_goals rcases hv with h | h | h <;> cases h

/-- What is picked where the positions fit. -/
def cut (v : Value) (first : Nat) (last : Option Nat) : Value :=
  match v, last with
  | string s, last => string (String.ofList (slice s.toList first (last.getD first)))
  | strings items, none => string (items.getD first "")
  | strings items, some last => strings (slice items first last)
  | integers items, none => integer (items.getD first 0)
  | integers items, some last => integers (slice items first last)
  | v, _ => v

/-- Positions in order within the value fit. -/
theorem pick_of_lt (hle : i ≤ last.getD i) (hlt : last.getD i < v.entries.length) :
    v.pick i last = .ok (v.cut i last) := by
  have hin : ¬v.entries.length ≤ last.getD i := by omega
  unfold pick
  dsimp only
  rw [if_neg (by omega)]
  cases v with
  | string s =>
    rw [entries, List.length_map] at hin
    dsimp only
    rw [if_neg hin]
    rfl
  | strings items | integers items =>
    rw [entries, List.length_map] at hin
    dsimp only
    rw [if_neg hin]
    cases last <;> rfl
  | _ => cases hlt

/-- All other positions do not. -/
theorem pick_of_not (hv : v.HasEntries) (h : last.getD i < i ∨ v.entries.length ≤ last.getD i) :
    ∃ f, v.pick i last = .error f ∧ f.kind = .runtime := by
  unfold pick
  dsimp only
  rcases Nat.lt_or_ge (last.getD i) i with hlt | hge
  · rw [if_pos hlt]
    exact ⟨_, rfl, rfl⟩
  · have hout : v.entries.length ≤ last.getD i := by omega
    rw [if_neg (by omega)]
    cases v with
    | string | strings | integers =>
      rw [entries, List.length_map] at hout
      dsimp only
      rw [if_pos hout]
      exact ⟨_, rfl, rfl⟩
    | _ => rcases hv with h | h | h <;> cases h

/-- What a single position picks is the entry there. -/
theorem cut_none (h : i < v.entries.length) : v.cut i none = v.entries[i] := by
  cases v with
  | string s =>
    simp only [entries, List.length_map] at h
    simp [cut, entries, slice, List.take_one_drop_eq_of_lt_length h]
  | strings items | integers items =>
    simp only [entries, List.length_map] at h ⊢
    simp [cut, h]
  | _ => cases h

/-- What a range picks has the entries in it. -/
theorem cut_some (hle : i ≤ j) : (v.cut i (some j)).type = v.type ∧
    (v.cut i (some j)).entries = (v.entries.drop i).take (j - i + 1) := by
  have hsize : j + 1 - i = j - i + 1 := by omega
  cases v with
  | string | strings | integers => simp [cut, entries, slice, type, List.map_take, List.map_drop, hsize]
  | _ => simp [cut, entries]

theorem take_drop_take_drop {α : Type} {items : List α} {a b c d : Nat} (hcd : c ≤ d) (hd : d ≤ b - a) :
    (((items.drop a).take (b - a + 1)).drop c).take (d - c + 1) =
      (items.drop (a + c)).take (a + d - (a + c) + 1) := by
  rw [List.drop_take, List.drop_drop, List.take_take]
  congr 1
  omega

/-- Positions and ranges pick where they fit, and are runtime faults elsewhere. -/
theorem exists_pick_iff (hv : v.HasEntries) :
    (∃ w, v.pick i last = .ok w) ↔ i ≤ last.getD i ∧ last.getD i < v.entries.length := by
  constructor
  · rintro ⟨w, hw⟩
    by_contra hnot
    have hout : last.getD i < i ∨ v.entries.length ≤ last.getD i := by omega
    obtain ⟨f, hf, -⟩ := pick_of_not hv hout
    rw [hf] at hw
    cases hw
  · rintro ⟨hle, hlt⟩
    exact ⟨_, pick_of_lt hle hlt⟩

theorem kind_pick {f : Fault} (hv : v.HasEntries) (h : v.pick i last = .error f) :
    f.kind = .runtime := by
  by_cases hfits : i ≤ last.getD i ∧ last.getD i < v.entries.length
  · rw [pick_of_lt hfits.1 hfits.2] at h
    cases h
  · have hout : last.getD i < i ∨ v.entries.length ≤ last.getD i := by omega
    obtain ⟨f', hf', hkind⟩ := pick_of_not hv hout
    cases hf'.symm.trans h
    exact hkind

theorem pick_none_iff (hv : v.HasEntries) : v.pick i none = .ok w ↔ v.entries[i]? = some w := by
  by_cases hlt : i < v.entries.length
  · have hpick : v.pick i none = .ok (v.cut i none) := pick_of_lt (Nat.le_refl i) hlt
    rw [hpick, cut_none hlt, List.getElem?_eq_getElem hlt]
    simp
  · have hout : ∃ f, v.pick i none = .error f ∧ f.kind = .runtime :=
      pick_of_not hv (.inr (Nat.not_lt.mp hlt))
    obtain ⟨f, hf, -⟩ := hout
    rw [hf, List.getElem?_eq_none (Nat.not_lt.mp hlt)]
    exact iff_of_false nofun nofun

theorem HasEntries.of_type (hv : v.HasEntries) (h : w.type = v.type) : w.HasEntries := by
  rwa [HasEntries, h]

/-- What a range picks is the value of the same type with the entries of the range. -/
theorem pick_some_iff (hv : v.HasEntries) : v.pick i (some j) = .ok w ↔
    i ≤ j ∧ j < v.entries.length ∧ w.type = v.type ∧
      w.entries = (v.entries.drop i).take (j - i + 1) := by
  constructor
  · intro h
    obtain ⟨hle, hlt⟩ := (exists_pick_iff hv).mp ⟨w, h⟩
    rw [pick_of_lt hle hlt] at h
    cases h
    exact ⟨hle, hlt, cut_some hle⟩
  · rintro ⟨hle, hlt, htype, hentries⟩
    obtain ⟨hcut, hitems⟩ := cut_some (v := v) hle
    have hpick : v.pick i (some j) = .ok (v.cut i (some j)) := pick_of_lt hle hlt
    rw [hpick,
      eq_of_entries (hv.of_type htype) (htype.trans hcut.symm) (hentries.trans hitems.symm)]

theorem length_of_pick {a b : Nat} (hv : v.HasEntries) (h : v.pick a (some b) = .ok w) :
    w.entries.length = b - a + 1 := by
  obtain ⟨hle, hlt, -, hentries⟩ := (pick_some_iff hv).mp h
  rw [hentries, List.length_take, List.length_drop]
  omega

/-- A range within a slice picks what the range moved on picks from the whole. -/
theorem pick_pick {a b c d : Nat} (hv : v.HasEntries) (h : v.pick a (some b) = .ok w) (hcd : c ≤ d)
    (hd : d ≤ b - a) : w.pick c (some d) = v.pick (a + c) (some (a + d)) := by
  obtain ⟨hle, hlt, htype, hentries⟩ := (pick_some_iff hv).mp h
  have hw := hv.of_type htype
  have hfits : d < w.entries.length := by
    rw [length_of_pick hv h]
    omega
  have hexists : ∃ x, w.pick c (some d) = .ok x := (exists_pick_iff hw).mpr ⟨hcd, hfits⟩
  obtain ⟨x, hx⟩ := hexists
  obtain ⟨-, -, hxtype, hxentries⟩ := (pick_some_iff hw).mp hx
  rw [hx, eq_comm, pick_some_iff hv]
  refine ⟨by omega, by omega, hxtype.trans htype, ?_⟩
  rw [hxentries, hentries, take_drop_take_drop hcd hd]

theorem pick_pick_single {a b k : Nat} (hv : v.HasEntries) (h : v.pick a (some b) = .ok w)
    (hk : k ≤ b - a) : w.pick k none = v.pick (a + k) none := by
  obtain ⟨hle, hlt, htype, hentries⟩ := (pick_some_iff hv).mp h
  have hw := hv.of_type htype
  have hfits : k < w.entries.length := by
    rw [length_of_pick hv h]
    omega
  have hexists : ∃ x, w.pick k none = .ok x := (exists_pick_iff hw).mpr ⟨Nat.le_refl _, hfits⟩
  obtain ⟨x, hx⟩ := hexists
  rw [hx, eq_comm, pick_none_iff hv, ← (pick_none_iff hw).mp hx, hentries,
    List.getElem?_take_of_lt (by omega), List.getElem?_drop]

/-- A position within a text or an array picks its entry there, and a range within it the entries of the
range, as a value of the same type; all other positions and ranges are runtime faults. Picking from a
slice is picking from the whole, with the positions moved on by the beginning of the slice. -/
theorem slices_of_pick (v : Value) (hv : v.HasEntries) :
    (∀ i, ((∃ w, v.pick i none = .ok w) ↔ i < v.entries.length) ∧
      ∀ w, v.pick i none = .ok w → v.entries[i]? = some w) ∧
    (∀ i j, ((∃ w, v.pick i (some j) = .ok w) ↔ i ≤ j ∧ j < v.entries.length) ∧
      ∀ w, v.pick i (some j) = .ok w → w.type = v.type ∧ w.entries.length = j - i + 1 ∧
        w.entries = (v.entries.drop i).take (j - i + 1)) ∧
    (∀ i last f, v.pick i last = .error f → f.kind = .runtime) ∧
    (∀ a b w, v.pick a (some b) = .ok w →
      (∀ c d, c ≤ d → d ≤ b - a → w.pick c (some d) = v.pick (a + c) (some (a + d))) ∧
      ∀ k, k ≤ b - a → w.pick k none = v.pick (a + k) none) := by
  refine ⟨fun i => ⟨?_, fun w => (pick_none_iff hv).mp⟩,
    fun i j => ⟨exists_pick_iff hv, fun w hw => ?_⟩, fun i last f => kind_pick hv,
    fun a b w hw => ⟨fun c d => pick_pick hv hw, fun k => pick_pick_single hv hw⟩⟩
  · exact (exists_pick_iff hv).trans (and_iff_right (Nat.le_refl _))
  · obtain ⟨-, -, htype, hentries⟩ := (pick_some_iff hv).mp hw
    exact ⟨htype, length_of_pick hv hw, hentries⟩

/-- Positions count characters and not bytes. -/
theorem slices_of_pick_accents :
    (string "héllo wörld").pick 1 (some 8) = .ok (string "éllo wör") ∧
    (string "éllo wör").pick 5 (some 6) = (string "héllo wörld").pick 6 (some 7) ∧
    ∃ f, (string "héllo wörld").pick 11 none = .error f ∧ f.kind = .runtime := by
  obtain ⟨hsingle, -, hkind, hslices⟩ := slices_of_pick (string "héllo wörld") (.inl rfl)
  have hpick : (string "héllo wörld").pick 1 (some 8) = .ok (string "éllo wör") := by decide +kernel
  refine ⟨hpick, (hslices 1 8 _ hpick).1 5 6 (by decide) (by decide), ?_⟩
  cases h : (string "héllo wörld").pick 11 none with
  | ok w => exact absurd ((hsingle 11).1.mp ⟨w, h⟩) (by decide)
  | error f => exact ⟨f, rfl, hkind 11 none f h⟩

end CommandScript.Value
