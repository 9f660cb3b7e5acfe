import CommandScript.Proofs.Assembly.Blocks
import CommandScript.Proofs.Declarations.Exchange
import CommandScript.Proofs.Script.Passing

/-!
# Assembling two subroutines in either order

Where two neighbouring pieces of a program change places, `Cut.place` says where their commands stand
then. Two assemblies that mirror each other in front of two subroutines mirror each other behind them
if the one takes them in the other order (`Assembly.Mirror.exchange`).
-/

namespace CommandScript

/-- Two pieces of a program, one behind the other: from `first` up to `second` and from there up to
`behind`. -/
structure Cut where
  first : Nat
  second : Nat
  behind : Nat
  lt_second : first < second
  lt_behind : second < behind

namespace Cut

variable (c : Cut) {i j : Nat}

/-- Where a command stands if the pieces change places. -/
def place (i : Nat) : Nat :=
  if i < c.first then i
  else if i < c.second then i + (c.behind - c.second)
  else if i < c.behind then i - (c.second - c.first)
  else i

theorem place_of_lt (h : i < c.first) : c.place i = i := if_pos h

theorem place_of_first (h : c.first ≤ i) (h' : i < c.second) :
    c.place i = i + (c.behind - c.second) := by
  rw [place, if_neg (Nat.not_lt.mpr h), if_pos h']

theorem place_of_second (h : c.second ≤ i) (h' : i < c.behind) :
    c.place i = i - (c.second - c.first) := by
  have := c.lt_second
  rw [place, if_neg (by omega), if_neg (Nat.not_lt.mpr h), if_pos h']

theorem place_of_le (h : c.behind ≤ i) : c.place i = i := by
  have := c.lt_second
  have := c.lt_behind
  rw [place, if_neg (by omega), if_neg (by omega), if_neg (Nat.not_lt.mpr h)]

theorem place_inj (h : c.place i = c.place j) : i = j := by
  have := c.lt_second
  have := c.lt_behind
  grind [place]

theorem exists_place (j : Nat) : ∃ i, c.place i = j := by
  have := c.lt_second
  have := c.lt_behind
  by_cases h : j < c.first
  · exact ⟨j, c.place_of_lt h⟩
  by_cases h₁ : j < c.first + (c.behind - c.second)
  · refine ⟨j + (c.second - c.first), ?_⟩
    rw [c.place_of_second (by omega) (by omega), Nat.add_sub_cancel]
  by_cases h₂ : j < c.behind
  · refine ⟨j - (c.behind - c.second), ?_⟩
    rw [c.place_of_first (by omega) (by omega)]
    omega
  · exact ⟨j, c.place_of_le (Nat.le_of_not_lt h₂)⟩

/-- Where the other program comes to if the one comes to `i`: at the beginning of a piece it comes to
the piece that stands there instead. -/
def next (i : Nat) : Nat :=
  if i = c.first then c.place c.second
  else if i = c.second then c.place c.first
  else c.place i

theorem next_first : c.next c.first = c.place c.second := if_pos rfl

theorem next_second : c.next c.second = c.place c.first := by
  rw [next, if_neg (Nat.ne_of_gt c.lt_second), if_pos rfl]

theorem next_of_ne (h : i ≠ c.first) (h' : i ≠ c.second) : c.next i = c.place i := by
  rw [next, if_neg h, if_neg h']

theorem next_zero : c.next 0 = 0 := by
  have := c.lt_second
  have := c.lt_behind
  grind [next, place]

/-- Where no piece ends, both programs go on alike. -/
theorem next_succ (h : i + 1 ≠ c.second) (h' : i + 1 ≠ c.behind) : c.next (i + 1) = c.place i + 1 := by
  have := c.lt_second
  have := c.lt_behind
  grind [next, place]

/-- Where no border of a piece lies between two commands, they stay in order. -/
theorem place_lt_iff (h : ∀ m, m = c.first ∨ m = c.second ∨ m = c.behind → ¬(i < m ∧ m ≤ j))
    {k l : Nat} (hk : i ≤ k ∧ k ≤ j) (hl : i ≤ l ∧ l ≤ j) :
    c.place k < c.place l ↔ k < l := by
  have h₁ := h c.first (.inl rfl)
  have h₂ := h c.second (.inr (.inl rfl))
  have h₃ := h c.behind (.inr (.inr rfl))
  have := c.lt_second
  have := c.lt_behind
  grind [place]

end Cut

namespace Assembly

open Script

variable {place : Nat → Nat} {x y : String} {i k m n : Nat}
  {a b s s' s'' t t' t'' : Assembly}

/-! ### Nothing behind the last command -/

namespace Coherent

/-- Nothing is held under an index that no command has yet. -/
theorem slot_eq (h : a.Coherent) (hi : a.index ≤ i) : a.slot i = ⟨none, none, none, fun _ => none⟩ := by
  rw [index_eq_length] at hi
  have hopens {x : Opening} (hx : x.index = i) : ¬Opens a.commands.toList x := fun ho =>
    absurd (Nested.index_lt_length ho) (by omega)
  have hchain : a.chains.chains.get? i = none :=
    Option.eq_none_iff_forall_ne_some.mpr fun c hc => hopens rfl ((h.chains.chains i c).mp hc).1
  have hmember : a.chains.members.get? i = none := by
    refine Option.eq_none_iff_forall_ne_some.mpr fun j hj => ?_
    rcases (h.chains.members i j).mp hj with ⟨rfl, ho⟩ | hbranch | hend
    · exact hopens rfl ho
    · exact absurd (places_lt_length hbranch) (by omega)
    · exact absurd (Nested.endOf_lt_length hend) (by omega)
  have hloop (name : String) : Assoc.get? ⟨name, i⟩ a.loops = none := by
    refine Option.not_isSome_iff_eq_none.mp fun hsome => ?_
    exact hopens (x := .loop ⟨name, i⟩) rfl ((h.loops.opens _).mp hsome)
  have hentry : a.commands[i]? = none := by
    rw [← Array.getElem?_toList, List.getElem?_eq_none hi]
  unfold slot
  rw [hentry, hchain, hmember, funext hloop]

/-- A member does not stand in front of its chain. -/
theorem member_le (h : a.Coherent) (hm : a.chains.members.get? i = some m) : m ≤ i := by
  rcases (h.chains.members i m).mp hm with ⟨rfl, -⟩ | hbranch | hend
  · exact Nat.le_refl _
  · obtain ⟨e, -, -, hhead⟩ := Nested.mem_branchesOf.mp hbranch
    exact Nat.le_of_lt (h.nested.opens_of_mem (List.mem_of_head? hhead)).1
  · exact Nat.le_of_lt (h.nested.index_lt_of_closes ((Nested.endOf_eq_some h.nested).mp hend)).1

theorem member_eq_none (h : a.Coherent) (hi : a.index ≤ i) : a.chains.members.get? i = none :=
  congrArg Slot.member (h.slot_eq hi)

end Coherent

theorem Walks.contains_eq {ls : List Line} (h : Walks a ls b) (name : String) :
    b.subroutines.contains name = a.subroutines.contains name := by
  induction h with
  | nil => rfl
  | cons ht _ ih =>
    have hlines := get?_eq_of_linesOf (linesOf_takes ht) name
    have hsome := congrArg Option.isSome hlines
    rw [Option.isSome_map, Option.isSome_map] at hsome
    exact ih.trans hsome

/-! ### Beside a subroutine -/

/-- The walk has gone on from `a` to `b`, both between two blocks, and has touched only what lies
behind `a` or belongs to the subroutine `name`. -/
structure Leaves (name : String) (a b : Assembly) : Prop where
  before : a.Idle
  behind : b.Idle
  coherent : b.Coherent
  apart : ∀ {other}, other ≠ name → Apart a.index other a b
  declared : ∀ other, b.subroutines.contains other = a.subroutines.contains other

theorem Leaves.refl (name : String) (ha : a.Idle) (hc : a.Coherent) : Leaves name a a where
  before := ha
  behind := ha
  coherent := hc
  apart _ := by
    refine ⟨⟨Nat.le_refl _, ?_, ?_⟩, fun _ _ => rfl, rfl, rfl⟩
    · rw [ha.chains]
      exact fun _ hi => absurd hi List.not_mem_nil
    · rw [ha.loops]
      exact fun _ hi => absurd hi List.not_mem_nil
  declared _ := rfl

theorem Crosses.leaves (h : Crosses x a b) {ls : List Line} (ha : a.Coherent) (hw : Walks a ls b) :
    Leaves x a b :=
  ⟨h.before, h.behind, ha.walks hw, h.apart, hw.contains_eq⟩

/-- No name but that of the subroutine is `mainOwner`. -/
theorem Idle.owner_eq (h : a.Idle) : a.owner = mainOwner := by
  rw [owner, h.current, Option.getD_none]

/-- What stands in front of both assemblies, and what none of them holds anything under. -/
def Beside (place : Nat → Nat) (k : Nat) (s t : Assembly) (i : Nat) : Prop :=
  i < k ∨ s.index ≤ i ∧ t.index ≤ place i

/-- If each of two assemblies that mirror each other has gone on over a block, the assemblies mirror
each other as far as the blocks have touched nothing. -/
theorem Mirror.beside (h : Mirror place (fun _ => True) (fun _ => True) k k s t)
    (hplace : ∀ i < k, place i = i) (hx : x ≠ mainOwner) (hs : Leaves x s s') (ht : Leaves x t t') :
    Mirror place (Beside place k s' t') (· ≠ x) s'.index t'.index s' t' where
  left := rfl
  right := rfl
  current := hs.behind.current.symm ▸ ht.behind.current
  inStartup := hs.behind.inStartup.symm ▸ ht.behind.inStartup
  owned := by
    rw [hs.behind.owner_eq]
    exact hx.symm
  openChains := by rw [hs.behind.chains, ht.behind.chains, List.map_nil]
  openLoops := by rw [hs.behind.loops, ht.behind.loops, List.map_nil]
  chainKeys i hi := by
    rw [hs.behind.chains] at hi
    exact absurd hi List.not_mem_nil
  loopKeys id hid := by
    rw [hs.behind.loops] at hid
    exact absurd hid List.not_mem_nil
  memberKeys {i m} hi hm := by
    rcases hi with hi | ⟨hi, -⟩
    · exact .inl (Nat.lt_of_le_of_lt (hs.coherent.member_le hm) hi)
    · rw [hs.coherent.member_eq_none hi] at hm
      cases hm
  slots {i} hi := by
    rcases hi with hi | ⟨hi, hi'⟩
    · have hi' : place i < t.index := by rwa [h.right, hplace i hi]
      rw [(hs.apart hx.symm).slots i (h.left.symm ▸ hi), (ht.apart hx.symm).slots (place i) hi']
      exact h.slots trivial
    · rw [hs.coherent.slot_eq hi, ht.coherent.slot_eq hi']
      exact ⟨.none, rfl, rfl, fun _ => rfl⟩
  parts {name} hname := by
    rw [(hs.apart hname).part, (ht.apart hname).part]
    exact h.parts trivial
  globals name := by
    rw [(hs.apart hx.symm).globals, (ht.apart hx.symm).globals]
    exact h.globals name
  declared name := by
    rw [hs.declared, ht.declared]
    exact h.declared name

/-! ### Over both subroutines -/

/-- A subroutine in one script and in another one, on other lines. -/
structure Restated (name : String) (ls ls' : List Line) : Prop where
  block : IsBlock name ls
  texts : ls'.map (·.text) = ls.map (·.text)
  left : ∀ l ∈ ls, 0 < l.number
  right : ∀ l ∈ ls', 0 < l.number
  /-- The startup block does not begin in it. -/
  steady : ∀ l ∈ ls, l.keyword? ≠ some .startup

theorem Restated.steady_right {ls ls' : List Line} (h : Restated x ls ls') :
    ∀ l ∈ ls', l.keyword? ≠ some .startup := by
  intro l' hl'
  obtain ⟨l, hl, htext⟩ := List.mem_map.mp (h.texts ▸ List.mem_map_of_mem hl')
  rw [Line.keyword?_congr htext.symm]
  exact h.steady l hl

section Over

variable (hinj : ∀ {i j}, place i = place j → i = j) {ls ls' : List Line}

include hinj

/-- Beside another subroutine, a subroutine is assembled alike. -/
theorem Mirror.crosses
    (h : Mirror place (Beside place k s t) (· ≠ x) s.index t.index s t) (hx : x ≠ mainOwner)
    (hls : Restated y ls ls') (hne : y ≠ x) (ht : t.Coherent) (hin : t.inStartup = false)
    (hc : s.findings.collecting = false) (hc' : t.findings.collecting = false)
    (hplace : ∀ i, s.index ≤ i → i < s'.index → place i = t.index + (i - s.index))
    (hpass : PassesOver Assembly.line s ls s') :
    ∃ t', PassesOver Assembly.line t ls' t' ∧ Leaves y t t' ∧
      t'.index = t.index + (s'.index - s.index) ∧
      Mirror place (Beside place k s t) (· ≠ x) s'.index t'.index s' t' := by
  have hkeys (i : Nat) (hi : s.index ≤ i) (hi' : i < s'.index) :
      place i = t.index + (i - s.index) ∧ Beside place k s t i := by
    have hi' := hplace i hi hi'
    exact ⟨hi', .inr ⟨hi, by omega⟩⟩
  obtain ⟨t', hpass', h'⟩ := h.passes hinj hx.symm hc hc' hls.texts hls.left hls.right hkeys
    (fun l hl rest hs => hls.block.eq_of_sub hl hs ▸ hne) hpass
  have hcross := crosses_of_passesOver (hls.block.congr hls.texts) hls.steady_right ht hin hc' hpass'
  refine ⟨t', hpass', hcross.leaves ht (walks_of_passesOver hc' hpass'), h'.right, ?_⟩
  rw [h'.right]
  exact h'

end Over

/-- Behind two subroutines that were taken in either order nothing is left that differs. -/
theorem Mirror.join (c : Cut)
    (hfirst : Mirror c.place (Beside c.place c.first s t') (· ≠ y) c.second c.behind s' t'')
    (hsecond : Mirror c.place (Beside c.place c.first s' t) (· ≠ x) c.behind t'.index s'' t')
    (hs : Leaves y s' s'') (ht : Leaves x t' t'') (hstart : s.index = c.first)
    (hstart' : t.index = c.first) (hindex : t'.index = c.first + (c.behind - c.second))
    (hne : x ≠ y) : Mirror c.place (fun _ => True) (fun _ => True) c.behind c.behind s'' t'' where
  left := hsecond.left
  right := hfirst.right
  current := hs.behind.current.symm ▸ ht.behind.current
  inStartup := hs.behind.inStartup.symm ▸ ht.behind.inStartup
  owned := trivial
  openChains := by rw [hs.behind.chains, ht.behind.chains, List.map_nil]
  openLoops := by rw [hs.behind.loops, ht.behind.loops, List.map_nil]
  chainKeys _ _ := trivial
  loopKeys _ _ := trivial
  memberKeys _ _ := trivial
  slots {i} _ := by
    have := c.lt_second
    by_cases hi : i < c.second
    · rw [(hs.apart hne).slots i (hfirst.left.symm ▸ hi)]
      refine hfirst.slots ?_
      by_cases hlt : i < c.first
      · exact .inl hlt
      · have hplace := c.place_of_first (Nat.le_of_not_lt hlt) hi
        exact .inr ⟨by omega, by omega⟩
    by_cases hi' : i < c.behind
    · have hplace := c.place_of_second (Nat.le_of_not_lt hi) hi'
      have hleft := hfirst.left
      rw [(ht.apart hne.symm).slots _ (by omega)]
      exact hsecond.slots (.inr ⟨by omega, by omega⟩)
    · rw [c.place_of_le (Nat.le_of_not_lt hi'),
        hs.coherent.slot_eq (hsecond.left.symm ▸ Nat.le_of_not_lt hi'),
        ht.coherent.slot_eq (hfirst.right.symm ▸ Nat.le_of_not_lt hi')]
      exact ⟨.none, rfl, rfl, fun _ => rfl⟩
  parts {name} _ := by
    by_cases hname : name = y
    · subst hname
      rw [(ht.apart hne.symm).part]
      exact hsecond.parts hne.symm
    · rw [(hs.apart hname).part]
      exact hfirst.parts hname
  globals name := by
    rw [(hs.apart hne).globals]
    exact hfirst.globals name
  declared name := by
    rw [hs.declared]
    exact hfirst.declared name

/-- Assemblies that mirror each other in front of two subroutines mirror each other behind them if the
one takes them in the other order. -/
theorem Mirror.exchange (c : Cut) {t : Assembly} {ls ls' ms ms' : List Line}
    (h : Mirror c.place (fun _ => True) (fun _ => True) c.first c.first s t) (hs : s.Coherent)
    (ht : t.Coherent) (hin : s.inStartup = false) (hc : s.findings.collecting = false)
    (hc' : t.findings.collecting = false) (hls : Restated x ls ls') (hms : Restated y ms ms')
    (hne : x ≠ y) (hfirst : PassesOver Assembly.line s ls s')
    (hsecond : PassesOver Assembly.line s' ms s'')
    (hindex : s'.index = c.second) (hindex' : s''.index = c.behind) :
    ∃ t'', PassesOver Assembly.line t (ms' ++ ls') t'' ∧
      Mirror c.place (fun _ => True) (fun _ => True) c.behind c.behind s'' t'' := by
  have hlt := c.lt_second
  have hwalks := walks_of_passesOver hc hfirst
  have hs' := hs.walks hwalks
  have hc₁ : s'.findings.collecting = false := hwalks.findings_eq ▸ hc
  have hcross := crosses_of_passesOver hls.block hls.steady hs hin hc hfirst
  have hcross' :=
    crosses_of_passesOver hms.block hms.steady hs' hcross.behind.inStartup hc₁ hsecond
  have hidle : t.Idle :=
    ⟨by rw [h.openChains, hcross.before.chains, List.map_nil],
      by rw [h.openLoops, hcross.before.loops, List.map_nil],
      h.current.trans hcross.before.current, h.inStartup.trans hin⟩
  have hplace (i : Nat) (hi : i < c.first) : c.place i = i := c.place_of_lt hi
  -- the second subroutine comes first
  have hbeside := h.beside hplace hcross.named (hcross.leaves hs hwalks) (.refl x hidle ht)
  obtain ⟨t', hpass, hleaves, hcount, hmirror⟩ := hbeside.crosses c.place_inj hcross.named hms hne.symm ht
    hidle.inStartup hc₁ hc' (fun i hi hi' => by
      rw [c.place_of_second (by omega) (by omega)]
      have := h.right
      omega) hsecond
  have hc₂ : t'.findings.collecting = false := (walks_of_passesOver hc' hpass).findings_eq ▸ hc'
  have hright : t'.index = c.first + (c.behind - c.second) := by rw [hcount, h.right, hindex, hindex']
  -- then the first one
  have hbeside' := h.beside hplace hcross'.named (.refl y hcross.before hs) hleaves
  obtain ⟨t'', hpass', hleaves', hcount', hmirror'⟩ := hbeside'.crosses c.place_inj hcross'.named hls hne
    hleaves.coherent hleaves.behind.inStartup hc hc₂ (fun i hi hi' => by
      have := h.left
      rw [c.place_of_first (by omega) (by omega)]
      omega) hfirst
  have hright' : t''.index = c.behind := by
    rw [hcount', hright, hindex, h.left]
    have := c.lt_behind
    omega
  rw [hindex, hright'] at hmirror'
  rw [hindex'] at hmirror
  exact ⟨t'', hpass.append hpass', .join c hmirror' hmirror
    (hcross'.leaves hs' (walks_of_passesOver hc₁ hsecond)) hleaves' h.left h.right hright hne⟩

/-! ### The end of the script -/

/-- An assembly that mirrors one that is ready is ready. -/
theorem Mirror.ready {j : Nat} (h : Mirror place (fun _ => True) (fun _ => True) k j s t)
    (hsurj : ∀ j, ∃ i, place i = j) (hs : Ready s) : Ready t := by
  have hnone {i : Nat} (hi : s.commands[i]? = none) : t.commands[place i]? = none := by
    have hentry : Option.Rel _ s.commands[i]? t.commands[place i]? := (h.slots (i := i) trivial).entry
    rw [hi] at hentry
    generalize t.commands[place i]? = e at hentry ⊢
    cases hentry
    rfl
  refine ⟨⟨fun i hi => ?_, fun id hid => ?_, fun name hname => ?_⟩, fun e he name target hc => ?_⟩
  · obtain ⟨i, hmem, rfl⟩ := List.mem_map.mp (h.openChains ▸ hi)
    exact hnone (hs.closed.chains i hmem)
  · obtain ⟨id, hmem, rfl⟩ := List.mem_map.mp (h.openLoops ▸ hid)
    exact hnone (hs.closed.loops id hmem)
  · have hdeclared := h.declared name
    rw [SubroutineTable.contains, SubroutineTable.contains,
      hs.closed.current name (h.current.symm.trans hname)] at hdeclared
    exact Option.not_isSome_iff_eq_none.mp (by rw [hdeclared]; decide)
  · obtain ⟨l, hl⟩ := List.getElem?_of_mem he
    rw [Array.getElem?_toList] at hl
    obtain ⟨i, rfl⟩ := hsurj l
    have hentry : Option.Rel _ s.commands[i]? t.commands[place i]? := (h.slots (i := i) trivial).entry
    rw [hl] at hentry
    generalize hi : s.commands[i]? = found at hentry
    cases hentry
    rename_i e' hmoved
    have hcommand : e'.command = .gosub name target := by
      have hmoved := hmoved.command
      rw [hc] at hmoved
      generalize e'.command = command at hmoved ⊢
      cases command <;> cases hmoved
      rfl
    have hmem : e' ∈ s.commands.toList := by
      rw [← Array.getElem?_toList] at hi
      exact List.mem_of_getElem? hi
    have hjoins := hs.joins e' hmem name target hcommand
    have hrange : (t.subroutines.get? name).map rangeOf =
        ((s.subroutines.get? name).map rangeOf).map (rangeMoved place) := h.range_eq trivial
    revert hjoins hrange
    cases s.subroutines.get? name <;> cases t.subroutines.get? name <;> intro hjoins hrange
    · cases hjoins
    · cases hjoins
    · cases hrange
    · have hstart := congrArg Prod.fst (Option.some.inj hrange)
      dsimp only [rangeOf, rangeMoved] at hstart
      rw [Option.bind_some, hstart, Option.isSome_map]
      exact hjoins

end Assembly

end CommandScript
