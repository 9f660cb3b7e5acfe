import CommandScript.Proofs.Script.Exchange

/-!
# Programs with two subroutines in either order

The programs of two scripts that have two neighbouring subroutines in either order hold the same
commands, with those of the subroutines in other places (`Program.Swapped`), and the one is relocated
to the other (`Program.Swapped.relocates`).
-/

namespace CommandScript

open Assembly (rangeOf rangeMoved)
open Script (programOf)

/-- The commands are the same but for the indices in them. -/
inductive Command.Shifted (place : Nat → Nat) : Command → Command → Prop
  | sub {name : String} {last last' : Nat} : Shifted place (.sub name last) (.sub name last')
  | gosub {name : String} {target target' : Nat} :
      Shifted place (.gosub name target) (.gosub name target')
  | other {c : Command} : c.keyword ≠ .sub → c.keyword ≠ .gosub → Shifted place c (c.moved place)

structure Entry.Shifted (place : Nat → Nat) (e e' : Entry) : Prop where
  index : e'.index = place e.index
  left : 0 < e.line
  right : 0 < e'.line
  command : e.command.Shifted place e'.command

namespace Program

/-- The second program holds the commands of the first one, with the pieces on either side of the cut
in the other order; they are the subroutines `x` and `y`. -/
structure Swapped (c : Cut) (x y : String) (p q : Program) : Prop where
  left : p.IsNested
  right : q.IsNested
  commands : ∀ i, Option.Rel (Entry.Shifted c.place) p.commands[i]? q.commands[c.place i]?
  chains : ∀ {k chain}, p.chains.chainOf k = .ok chain →
    q.chains.chainOf (c.place k) = .ok (chain.moved c.place)
  loops : ∀ {id loop}, p.loops.loop id = .ok loop →
    q.loops.loop (id.moved c.place) = .ok (loop.moved c.place)
  subroutines : ∀ name, (q.subroutines.get? name).map rangeOf =
    ((p.subroutines.get? name).map rangeOf).map (rangeMoved c.place)
  first : ∃ last, c.second = last + 1 ∧ Closes p.entries (.sub c.first x) last
  second : ∃ last, c.behind = last + 1 ∧ Closes p.entries (.sub c.second y) last

namespace Swapped

variable {c : Cut} {x y name : String} {p q : Program} {i k last : Nat} {e : Entry}

/-- A subroutine that begins in one program begins at its place in the other. -/
theorem opens (h : Swapped c x y p q) (ho : Opens p.entries (.sub i name)) :
    Opens q.entries (.sub (c.place i) name) := by
  obtain ⟨s, hs⟩ := Option.isSome_iff_exists.mp (h.left.subroutines.contains i name ho)
  have hrange := h.subroutines name
  rw [hs, Option.map_some, Option.map_some] at hrange
  obtain ⟨s', hs', heq⟩ := Option.map_eq_some_iff.mp hrange
  refine (h.right.startIndex_sub hs').mp ((congrArg Prod.fst heq).trans ?_)
  show s.startIndex.map c.place = _
  rw [(h.left.startIndex_sub hs).mpr ho, Option.map_some]

/-- A subroutine that ends in one program ends at its place in the other. -/
theorem closes (h : Swapped c x y p q) (hclose : Closes p.entries (.sub i name) last) :
    Closes q.entries (.sub (c.place i) name) (c.place last) := by
  have ho := (h.left.nested.index_lt_of_closes hclose).2
  obtain ⟨s, hs⟩ := Option.isSome_iff_exists.mp (h.left.subroutines.contains i name ho)
  have hrange := h.subroutines name
  rw [hs, Option.map_some, Option.map_some] at hrange
  obtain ⟨s', hs', heq⟩ := Option.map_eq_some_iff.mp hrange
  have hend : s'.endIndex = some (c.place last) := by
    refine (congrArg Prod.snd heq).trans ?_
    show s.endIndex.map c.place = _
    rw [(h.left.endIndex_sub hs).mpr ⟨i, hclose⟩, Option.map_some]
  obtain ⟨j, hj⟩ := (h.right.endIndex_sub hs').mp hend
  obtain rfl := h.right.subroutines.unique _ _ name (h.right.nested.index_lt_of_closes hj).2 (h.opens ho)
  exact hj

/-- A `SUB` and its counterpart, which both know where their subroutine ends. -/
theorem sub (h : Swapped c x y p q) (hclose : Closes p.entries (.sub i name) last) : ∃ e e',
    p.commands[i]? = some e ∧ e.command = .sub name last ∧ q.commands[c.place i]? = some e' ∧
      e'.command = .sub name (c.place last) ∧ 0 < e.line ∧ 0 < e'.line := by
  obtain ⟨e, last', he, hc⟩ :=
    Nested.command_of_opens_sub (h.left.nested.index_lt_of_closes hclose).2
  obtain rfl := h.left.nested.closes_unique (h.left.sub i e name last' he hc) hclose
  rw [p.getElem?_entries] at he
  have hrel := h.commands i
  rw [he] at hrel
  generalize hfound : q.commands[c.place i]? = found at hrel
  cases hrel with
  | @some _ e' hshifted =>
    have hcommand := hshifted.command
    rw [hc] at hcommand
    generalize hc' : e'.command = command at hcommand
    cases hcommand with
    | @sub _ _ last =>
      have hclose' := h.right.sub _ e' name last ((q.getElem?_entries _).trans hfound) hc'
      obtain rfl := h.right.nested.closes_unique hclose' (h.closes hclose)
      exact ⟨e, e', he, hc, rfl, hc', hshifted.left, hshifted.right⟩
    | other hk => exact absurd rfl hk

/-- The entry at the beginning of a subroutine is its `SUB`, the one at its end its `ENDSUB`. -/
theorem keyword_of_closes (h : Swapped c x y p q) (hclose : Closes p.entries (.sub i name) last) :
    (∀ {e : Entry}, p.commands[i]? = some e → e.command.keyword = .sub) ∧
      ∀ {e : Entry}, p.commands[last]? = some e → e.command.keyword = .endSub := by
  obtain ⟨first, _, hfirst, hc, -⟩ := h.sub hclose
  obtain ⟨final, hfinal, hc'⟩ := h.left.nested.command_of_closes_sub hclose
  rw [p.getElem?_entries] at hfinal
  refine ⟨fun he => ?_, fun he => ?_⟩
  · cases hfirst.symm.trans he
    rw [hc]
    rfl
  · cases hfinal.symm.trans he
    rw [hc']
    rfl

/-- Only a `SUB` stands at the beginning of a piece. -/
theorem ne_of_keyword (h : Swapped c x y p q) (he : p.commands[k]? = some e)
    (hk : e.command.keyword ≠ .sub) : k ≠ c.first ∧ k ≠ c.second := by
  obtain ⟨last, -, hfirst⟩ := h.first
  obtain ⟨last', -, hsecond⟩ := h.second
  refine ⟨?_, ?_⟩
  · rintro rfl
    exact hk ((h.keyword_of_closes hfirst).1 he)
  · rintro rfl
    exact hk ((h.keyword_of_closes hsecond).1 he)

/-- Only an `ENDSUB` stands at the end of a piece. -/
theorem succ_ne_of_keyword (h : Swapped c x y p q) (he : p.commands[k]? = some e)
    (hk : e.command.keyword ≠ .endSub) : k + 1 ≠ c.second ∧ k + 1 ≠ c.behind := by
  obtain ⟨last, hlast, hfirst⟩ := h.first
  obtain ⟨last', hlast', hsecond⟩ := h.second
  refine ⟨fun heq => ?_, fun heq => ?_⟩
  · obtain rfl : k = last := Nat.succ.inj (heq.trans hlast)
    exact hk ((h.keyword_of_closes hfirst).2 he)
  · obtain rfl : k = last' := Nat.succ.inj (heq.trans hlast')
    exact hk ((h.keyword_of_closes hsecond).2 he)

/-- Where another subroutine ends, no piece ends. -/
theorem succ_ne_of_closes (h : Swapped c x y p q) (hclose : Closes p.entries (.sub i name) last)
    (hi : i ≠ c.first) (hi' : i ≠ c.second) : last + 1 ≠ c.second ∧ last + 1 ≠ c.behind := by
  obtain ⟨last₁, hlast, hfirst⟩ := h.first
  obtain ⟨last₂, hlast', hsecond⟩ := h.second
  refine ⟨fun heq => ?_, fun heq => ?_⟩
  · obtain rfl : last = last₁ := Nat.succ.inj (heq.trans hlast)
    cases Nested.opening_unique hclose hfirst
    exact hi rfl
  · obtain rfl : last = last₂ := Nat.succ.inj (heq.trans hlast')
    cases Nested.opening_unique hclose hsecond
    exact hi' rfl

theorem onward (h : Swapped c x y p q) (he : p.commands[k]? = some e)
    (hk : e.command.keyword ≠ .sub) : c.next k = c.place k ∧
      (e.command.keyword ≠ .endSub → c.next (k + 1) = c.place k + 1) := by
  obtain ⟨hfirst, hsecond⟩ := h.ne_of_keyword he hk
  refine ⟨c.next_of_ne hfirst hsecond, fun hend => ?_⟩
  obtain ⟨hne, hne'⟩ := h.succ_ne_of_keyword he hend
  exact c.next_succ hne hne'

/-- Elsewhere a command does the same at its place. -/
theorem follows_of_ne (h : Swapped c x y p q) (hfirst : k ≠ c.first) (hsecond : k ≠ c.second) :
    Option.Rel (Entry.Follows c.place c.next) p.commands[k]? q.commands[c.next k]? := by
  rw [c.next_of_ne hfirst hsecond]
  have hrel := h.commands k
  generalize he : p.commands[k]? = found at hrel ⊢
  generalize he' : q.commands[c.place k]? = found' at hrel ⊢
  cases hrel with
  | none => exact .none
  | @some e e' hshifted =>
    refine .some ⟨fun _ => hshifted.index, hshifted.left, hshifted.right, ?_⟩
    have hcommand := hshifted.command
    generalize hc : e.command = command at hcommand ⊢
    generalize hc' : e'.command = command' at hcommand ⊢
    have hentry : p.entries[k]? = some e := (p.getElem?_entries k).trans he
    have hentry' : q.entries[c.place k]? = some e' := (q.getElem?_entries _).trans he'
    cases hcommand with
    | @sub name last last' =>
      have hclose := h.left.sub k e name last hentry hc
      obtain rfl := h.right.nested.closes_unique (h.right.sub _ e' name last' hentry' hc')
        (h.closes hclose)
      obtain ⟨hne, hne'⟩ := h.succ_ne_of_closes hclose hfirst hsecond
      exact .sub (c.next_succ hne hne').symm
    | @gosub name target target' =>
      have hopen := h.left.gosub k e name target hentry hc
      obtain rfl := h.right.subroutines.unique _ _ name
        (h.right.gosub _ e' name target' hentry' hc') (h.opens hopen)
      obtain ⟨entry, last, hsub, hcsub⟩ := Nested.command_of_opens_sub hopen
      obtain ⟨hne, hne'⟩ := h.succ_ne_of_keyword ((p.getElem?_entries target).symm.trans hsub)
        (by rw [hcsub]; rintro ⟨⟩)
      exact .gosub (c.next_succ hne hne').symm
    | other hk hk' => exact .other hk hk'

/-- At the beginning of a piece, either program passes over the piece that stands there. -/
theorem follows (h : Swapped c x y p q) (k : Nat) :
    Option.Rel (Entry.Follows c.place c.next) p.commands[k]? q.commands[c.next k]? := by
  have hlt := c.lt_second
  have hlt' := c.lt_behind
  obtain ⟨last, hlast, hfirst⟩ := h.first
  obtain ⟨last', hlast', hsecond⟩ := h.second
  have hindex := (h.left.nested.index_lt_of_closes hfirst).1
  have hindex' := (h.left.nested.index_lt_of_closes hsecond).1
  dsimp only [Opening.index] at hindex hindex'
  obtain ⟨e, f, he, hce, hf, hcf, hle, hlf⟩ := h.sub hfirst
  obtain ⟨e', f', he', hce', hf', hcf', hle', hlf'⟩ := h.sub hsecond
  by_cases hk : k = c.first
  · subst hk
    rw [c.next_first, he, hf']
    refine .some ⟨fun hsub => ?_, hle, hlf', ?_⟩
    · rw [hce] at hsub
      exact absurd rfl hsub
    · rw [hce, hcf']
      refine .sub ?_
      rw [← hlast, c.next_second, c.place_of_first (Nat.le_refl _) hlt,
        c.place_of_second (by omega) (by omega)]
      omega
  by_cases hk' : k = c.second
  · subst hk'
    rw [c.next_second, he', hf]
    refine .some ⟨fun hsub => ?_, hle', hlf, ?_⟩
    · rw [hce'] at hsub
      exact absurd rfl hsub
    · rw [hce', hcf]
      refine .sub ?_
      rw [← hlast', c.next_of_ne (by omega) (by omega), c.place_of_le (Nat.le_refl _),
        c.place_of_first (by omega) (by omega)]
      omega
  · exact h.follows_of_ne hk hk'

/-- No chain goes over the border of a piece. -/
theorem border (h : Swapped c x y p q) {z : Opening} {j : Nat} (hclose : Closes p.entries z j) (m : Nat)
    (hm : m = c.first ∨ m = c.second ∨ m = c.behind) : ¬(z.index < m ∧ m ≤ j) := by
  obtain ⟨last, -, hfirst⟩ := h.first
  obtain ⟨last', hlast', hsecond⟩ := h.second
  have hn := h.left.nested
  have haround := hn.around_of_opens_sub (hn.index_lt_of_closes hsecond).2
  have hnil : CommandScript.around p.entries m = [] := by
    rcases hm with rfl | rfl | rfl
    · exact hn.around_of_opens_sub (hn.index_lt_of_closes hfirst).2
    · exact haround
    · rw [hlast']
      exact (hn.around_succ_of_closes hsecond).trans haround
  intro hbetween
  have hmem := (hn.mem_around_iff_of_closes hclose).mpr hbetween
  rw [hnil] at hmem
  cases hmem

theorem ordered (h : Swapped c x y p q) {chain : Chain} {b : Nat}
    (hchain : p.chains.chainOf k = .ok chain) (hb : b ∈ chain.branches) :
    c.place k < c.place b ↔ k < b := by
  obtain ⟨hget, hk⟩ := h.left.chainOf_ok.mp hchain
  have hopen := ((h.left.chains.chains _ chain).mp hget).1
  obtain ⟨j, hclose⟩ := h.left.exists_closes hopen
  have hindex := (h.left.nested.index_lt_of_closes hclose).1
  have member {m : Nat} (hm : m ∈ chain.branches ∨ chain.endIndex = some m) :
      chain.ifIndex ≤ m ∧ m ≤ j := by
    have haround := h.left.around_member hget hm
    have hmem : .chain chain.ifIndex ∈ CommandScript.around p.entries m := by
      rw [show CommandScript.around p.entries m = _ from haround]
      exact List.mem_cons_self
    exact ((h.left.nested.mem_around_iff_of_closes hclose).mp hmem).imp_left Nat.le_of_lt
  refine c.place_lt_iff (h.border hclose) ?_ (member (.inl hb))
  rcases hk with rfl | hk
  · exact ⟨Nat.le_refl _, Nat.le_of_lt hindex⟩
  · exact member hk

/-- The one program is relocated to the other. -/
theorem relocates (h : Swapped c x y p q) : p.Relocates q c.place c.next where
  nested := h.left
  injective := c.place_inj
  start := c.next_zero
  commands := h.follows
  onward := h.onward
  chains := h.chains
  ordered := h.ordered
  loops := h.loops

end Swapped

end Program

/-! ### The programs of the scripts -/

namespace Assembly

variable {a a' : Assembly} {ls : List Script.Line} {e e' : Entry}

theorem lastNumber_pos (ls : List Script.Line) : 0 < lastNumber ls := by
  unfold lastNumber
  split <;> omega

/-- The commands of the program: those of the assembly, joined to the subroutines, and an `EXIT`. -/
theorem Finishes.getElem? (hf : Finishes a ls a') (d : Script.Declarations) (i : Nat) :
    (programOf d a').commands[i]? =
      if i = a.index then some ⟨a.index, lastNumber ls, "EXIT", .exit⟩
      else a.commands[i]?.map (join a.subroutines) := by
  have hcommands : (programOf d a').commands[i]? = (a.commands.toList.map (join a.subroutines) ++
      [⟨a.index, lastNumber ls, "EXIT", .exit⟩])[i]? :=
    Array.getElem?_toList.symm.trans (congrArg (·[i]?) hf.commands)
  have hlength : (a.commands.toList.map (join a.subroutines)).length = a.index :=
    List.length_map ..
  rw [hcommands, ← Array.getElem?_toList, ← List.getElem?_map]
  split
  · rename_i hi
    rw [hi, ← hlength, List.getElem?_concat_length]
  · rw [List.getElem?_append]
    split
    · rfl
    · rw [List.getElem?_eq_none (by rw [List.length_singleton]; omega),
        List.getElem?_eq_none (by omega)]

/-- What is closed in the assembly is closed in the program. -/
theorem Finishes.closes (hf : Finishes a ls a') (d : Script.Declarations) {z : Opening} {k : Nat}
    (h : Closes a.commands.toList z k) : Closes (programOf d a').entries z k := by
  have hentries : (programOf d a').entries =
      a.commands.toList.map (join a.subroutines) ++ [_] := hf.commands
  rw [hentries]
  exact closes_append _ ((closes_map (join_nest _) (join_closes _)).mpr h)

/-- Joining to the subroutines changes indices only. -/
theorem shifted_join {place : Nat → Nat} (h : e.Moved place e') (t u : SubroutineTable) :
    (join t e).Shifted place (join u e') where
  index := by rw [join_index, join_index, h.index]
  left := by
    rw [join_line]
    exact h.left
  right := by
    rw [join_line]
    exact h.right
  command := by
    have hcommand := h.command
    unfold join
    cases hc : e.command <;> rw [hc] at hcommand <;> simp only [Command.moved] at hcommand <;>
      simp only [hc, hcommand]
    case sub => exact .sub
    case gosub => exact .gosub
    all_goals exact .other (by rintro ⟨⟩) (by rintro ⟨⟩)

end Assembly

/-- The programs of two such scripts have two subroutines in either order. -/
theorem Script.Exchanged.swapped {c : Cut} {x y : String} {s s' t t' : Assembly}
    {ls ls' : List Script.Line} (h : Script.Exchanged c x y s t) (hs : s.Coherent) (ht : t.Coherent)
    (hf : Assembly.Finishes s ls s') (hf' : Assembly.Finishes t ls' t') (d d' : Script.Declarations) :
    Program.Swapped c x y (programOf d s') (programOf d' t') where
  left := hf.isNested hs d
  right := hf'.isNested ht d'
  commands i := by
    have hplace : c.place s.index = s.index := c.place_of_le h.behind
    rw [hf.getElem? d, hf'.getElem? d', h.mirror.right]
    by_cases hi : i = s.index
    · rw [if_pos hi, if_pos (hi ▸ hplace)]
      refine .some ⟨hplace.symm, Assembly.lastNumber_pos _, Assembly.lastNumber_pos _, ?_⟩
      exact .other (by rintro ⟨⟩) (by rintro ⟨⟩)
    · rw [if_neg hi, if_neg fun heq => hi (c.place_inj (heq.trans hplace.symm))]
      have hentry : Option.Rel (Entry.Moved c.place) s.commands[i]? t.commands[c.place i]? :=
        (h.mirror.slots trivial).entry
      revert hentry
      generalize s.commands[i]? = found
      generalize t.commands[c.place i]? = found'
      intro hentry
      cases hentry with
      | none => exact .none
      | some hmoved => exact .some (Assembly.shifted_join hmoved _ _)
  chains {k chain} hchain := by
    have hmeets := h.mirror.meets_chainOf (i := k) trivial
    change s'.chains.chainOf k = _ at hchain
    show t'.chains.chainOf _ = _
    rw [hf.chains] at hchain
    rw [hf'.chains]
    rw [hchain] at hmeets
    generalize t.chains.chainOf (c.place k) = found at hmeets
    cases hmeets with
    | ok heq => exact congrArg Except.ok heq
  loops {id loop} hloop := by
    have hmeets : Checked.Meets (fun l l' => l' = l.moved c.place) (s.loops.loop id)
        (t.loops.loop (id.moved c.place)) := Assembly.MirrorLoops.loop h.mirror.loops trivial
    change s'.loops.loop id = _ at hloop
    show t'.loops.loop _ = _
    rw [hf.loops] at hloop
    rw [hf'.loops]
    rw [hloop] at hmeets
    generalize t.loops.loop (id.moved c.place) = found at hmeets
    cases hmeets with
    | ok heq => exact congrArg Except.ok heq
  subroutines name := by
    show (t'.subroutines.get? name).map Assembly.rangeOf =
      ((s'.subroutines.get? name).map Assembly.rangeOf).map _
    rw [hf.subroutines, hf'.subroutines]
    exact h.mirror.range_eq trivial
  first := by
    obtain ⟨last, hlast, hclose⟩ := h.first
    exact ⟨last, hlast, hf.closes d hclose⟩
  second := by
    obtain ⟨last, hlast, hclose⟩ := h.second
    exact ⟨last, hlast, hf.closes d hclose⟩

end CommandScript
