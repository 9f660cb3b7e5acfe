import CommandScript.Proofs.Structure.Grouped

/-!
# The brackets of a tree and the tables of its program

What is open around a block is the same at both of its ends. So a bracket of a node closes what the
other one opened, the arms of a node are the branches of its chain, and wherever the tables of the
program lead to, a block of the tree begins or ends.
-/

namespace CommandScript

variable {es : List Entry}

namespace Entry

variable {e : Entry} {id : LoopId}

theorem marks_of_armCommand {c : Option Condition} (h : e.command = armCommand c) :
    e.marks = true := by
  cases c with
  | none => rw [marks, h, armCommand]
  | some c => rw [marks, h, armCommand]

end Entry

mutual

/-- Behind a block what was open in front of it is open again. -/
theorem Block.around_eq (hn : Nested es) :
    ∀ {b : Block} {k j : Nat}, b.Stands es k j → around es j = around es k ∧ k ≤ j
  | .nil, _, _, rfl => ⟨rfl, Nat.le_refl _⟩
  | .command _ _, _, _, ⟨he, hs, hrest⟩ => by
    obtain ⟨hr, hle⟩ := Block.around_eq hn hrest
    exact ⟨hr.trans (Nested.around_succ_of_neither he hs.opening? hs.closes), by omega⟩
  | .chain _ opening _ _ _, _, _, ⟨_, _, he, hc, hbody, harms, hrest⟩ => by
    obtain ⟨hb, hle⟩ := Block.around_eq hn hbody
    rw [around_succ he, nest_of_opening (x := .chain opening.index) (by rw [Entry.opening?, hc])] at hb
    obtain ⟨ha, hle'⟩ := Arms.around_eq hn hb harms
    obtain ⟨hr, hle''⟩ := Block.around_eq hn hrest
    exact ⟨hr.trans ha, by omega⟩
  | .loop id _ _ ending _, _, _, ⟨_, he, hc, hbody, ⟨hend, other, hother⟩, hrest⟩ => by
    obtain ⟨hb, hle⟩ := Block.around_eq hn hbody
    rw [around_succ he, nest_of_opening (x := .loop id) (by rw [Entry.opening?, hc])] at hb
    obtain ⟨hr, hle'⟩ := Block.around_eq hn hrest
    rw [around_succ hend, nest_of_closes (by rw [Entry.closes, hother]), hb] at hr
    exact ⟨hr, by omega⟩
  | .sub name opening _ ending _, _, _, ⟨_, he, ⟨_, hc⟩, hbody, ⟨hend, hother⟩, hrest⟩ => by
    obtain ⟨hb, hle⟩ := Block.around_eq hn hbody
    rw [around_succ he,
      nest_of_opening (x := .sub opening.index name) (by rw [Entry.opening?, hc])] at hb
    obtain ⟨hr, hle'⟩ := Block.around_eq hn hrest
    rw [around_succ hend, nest_of_closes (by rw [Entry.closes, hother]), hb] at hr
    exact ⟨hr, by omega⟩

theorem Arms.around_eq (hn : Nested es) {x : Opening} {outer : List Opening} :
    ∀ {arms : Arms} {a z : Nat}, around es a = x :: outer → arms.Stands es a z →
      around es z = outer ∧ a < z
  | .ending _, _, _, ha, ⟨he, hc, rfl⟩ => by
    rw [around_succ he, nest_of_closes (by rw [Entry.closes, hc]), ha]
    exact ⟨rfl, Nat.lt_succ_self _⟩
  | .arm _ _ _ _, _, _, ha, ⟨_, he, hc, hbody, harms⟩ => by
    obtain ⟨hb, hle⟩ := Block.around_eq hn hbody
    rw [around_succ he, Entry.nest_of_marks (Entry.marks_of_armCommand hc), ha] at hb
    obtain ⟨hz, hlt⟩ := Arms.around_eq hn hb harms
    exact ⟨hz, by omega⟩

end

/-- The arms of a chain end with the command that closes it. -/
theorem Arms.closes (hn : Nested es) {x : Opening} {outer : List Opening} :
    ∀ {arms : Arms} {a z : Nat}, around es a = x :: outer → arms.Stands es a z →
      ∃ e, e + 1 = z ∧ es[e]? = some arms.last ∧ arms.last.command = .endIf ∧ Closes es x e ∧ a ≤ e
  | .ending entry, a, _, ha, ⟨he, hc, rfl⟩ =>
    ⟨a, rfl, he, hc, ⟨entry, he, by rw [Entry.closes, hc], by rw [ha, List.head?_cons]⟩, Nat.le_refl _⟩
  | .arm _ _ _ arms, _, _, ha, ⟨_, he, hc, hbody, harms⟩ => by
    obtain ⟨hb, hle⟩ := Block.around_eq hn hbody
    rw [around_succ he, Entry.nest_of_marks (Entry.marks_of_armCommand hc), ha] at hb
    obtain ⟨e, hz, hlast, hend, hclose, hle'⟩ := Arms.closes hn hb harms
    exact ⟨e, hz, hlast, hend, hclose, by omega⟩

section Spans

variable {opening ending : Entry} {c : Condition} {id other : LoopId} {name : String} {last : Nat}
  {body : Block} {arms : Arms} {k a z : Nat}

theorem around_chain_body (hn : Nested es) (he : es[k]? = some opening)
    (hc : opening.command = .if_ c) (hbody : body.Stands es (k + 1) a) :
    around es a = .chain k :: around es k := by
  have ho : opening.opening? = some (.chain k) := by rw [Entry.opening?, hc, hn.index_eq he]
  rw [(Block.around_eq hn hbody).1, around_succ he, nest_of_opening ho]

theorem closes_of_loop (hn : Nested es) (he : es[k]? = some opening)
    (hc : opening.command = .for_ id) (hbody : body.Stands es (k + 1) z)
    (hend : es[z]? = some ending) (hother : ending.command = .endFor other) :
    Closes es (.loop id) z := by
  have ho : opening.opening? = some (.loop id) := by rw [Entry.opening?, hc]
  refine ⟨ending, hend, by rw [Entry.closes, hother], ?_⟩
  rw [(Block.around_eq hn hbody).1, around_succ he, nest_of_opening ho, List.head?_cons]

theorem closes_of_sub (hn : Nested es) (he : es[k]? = some opening)
    (hc : opening.command = .sub name last) (hbody : body.Stands es (k + 1) z)
    (hend : es[z]? = some ending) (hother : ending.command = .endSub) :
    Closes es (.sub k name) z := by
  have ho : opening.opening? = some (.sub k name) := by rw [Entry.opening?, hc, hn.index_eq he]
  refine ⟨ending, hend, by rw [Entry.closes, hother], ?_⟩
  rw [(Block.around_eq hn hbody).1, around_succ he, nest_of_opening ho, List.head?_cons]

end Spans

/-- Between the brackets of a group something is open that is not open in front of it. -/
theorem around_ne_of_closes (hn : Nested es) {x : Opening} {e q : Nat} (hclose : Closes es x e)
    (hlt : x.index < q) (hle : q ≤ e) : around es q ≠ around es x.index := by
  intro heq
  have hmem := (hn.mem_around_iff_of_closes hclose).mpr ⟨hlt, hle⟩
  rw [heq] at hmem
  exact hn.not_mem_around_index hmem

/-- Where the same is open as in front of a block, a part of the block begins. -/
theorem Block.part (hn : Nested es) :
    ∀ {b : Block} {k j q : Nat}, b.Stands es k j → k ≤ q → q < j → around es q = around es k →
      ∃ part : Block, part ≠ .nil ∧ part.Stands es q j ∧
        ∀ name, (∀ i, Opens es (.sub i name) → i = q) → b.sub? name = part.sub? name
  | .nil, _, _, _, rfl, hle, hlt, _ => absurd hlt (Nat.not_lt.mpr hle)
  | .command entry rest, k, j, q, h, hle, hlt, hsame => by
    rcases Nat.eq_or_lt_of_le hle with rfl | hle
    · exact ⟨_, Block.noConfusion, h, fun _ _ => rfl⟩
    · obtain ⟨he, hs, hrest⟩ := h
      have hnest := Nested.around_succ_of_neither he hs.opening? hs.closes
      exact Block.part (b := rest) hn hrest hle hlt (hsame.trans hnest.symm)
  | .chain c opening body arms rest, k, j, q, h, hle, hlt, hsame => by
    rcases Nat.eq_or_lt_of_le hle with rfl | hle
    · exact ⟨_, Block.noConfusion, h, fun _ _ => rfl⟩
    · obtain ⟨a, z, he, hc, hbody, harms, hrest⟩ := h
      have ha := around_chain_body hn he hc hbody
      obtain ⟨e, rfl, -, -, hclose, -⟩ := Arms.closes hn ha harms
      rcases Nat.lt_or_ge e q with hqe | hqe
      · obtain ⟨hz, -⟩ := Arms.around_eq hn ha harms
        exact Block.part (b := rest) hn hrest hqe hlt (hsame.trans hz.symm)
      · exact absurd hsame (around_ne_of_closes hn hclose hle hqe)
  | .loop id opening body ending rest, k, j, q, h, hle, hlt, hsame => by
    rcases Nat.eq_or_lt_of_le hle with rfl | hle
    · exact ⟨_, Block.noConfusion, h, fun _ _ => rfl⟩
    · obtain ⟨z, he, hc, hbody, ⟨hend, other, hother⟩, hrest⟩ := h
      have hclose := closes_of_loop hn he hc hbody hend hother
      obtain rfl : id.index = k := hn.opening_index (x := .loop id) he (by rw [Entry.opening?, hc])
      rcases Nat.lt_or_ge z q with hqz | hqz
      · have hz := hn.around_succ_of_closes hclose
        exact Block.part (b := rest) hn hrest hqz hlt (hsame.trans hz.symm)
      · exact absurd hsame (around_ne_of_closes hn hclose hle hqz)
  | .sub other opening body ending rest, k, j, q, h, hle, hlt, hsame => by
    rcases Nat.eq_or_lt_of_le hle with rfl | hle
    · exact ⟨_, Block.noConfusion, h, fun _ _ => rfl⟩
    · obtain ⟨z, he, ⟨last, hc⟩, hbody, ⟨hend, hother⟩, hrest⟩ := h
      have hclose := closes_of_sub hn he hc hbody hend hother
      rcases Nat.lt_or_ge z q with hqz | hqz
      · have hz := hn.around_succ_of_closes hclose
        obtain ⟨part, hne, hpart, hsub⟩ := Block.part hn hrest hqz hlt (hsame.trans hz.symm)
        refine ⟨part, hne, hpart, fun name hname => ?_⟩
        have hother : other ≠ name := by
          rintro rfl
          have := hname k (hn.index_lt_of_closes hclose).2
          omega
        rw [Block.sub?, if_neg hother]
        exact hsub name hname
      · exact absurd hsame (around_ne_of_closes hn hclose hle hqz)

/-- A block does not begin with a branch. -/
theorem Block.not_marks {b : Block} {q j : Nat} {e : Entry} (hne : b ≠ .nil)
    (hb : b.Stands es q j) (he : es[q]? = some e) : e.marks = false := by
  have opened {opening : Entry} {x : Opening} (h : es[q]? = some opening)
      (ho : opening.opening? = some x) : e.marks = false := by
    rw [he, Option.some.injEq] at h
    exact h ▸ Entry.marks_eq_false_of_opening ho
  cases b with
  | nil => exact absurd rfl hne
  | command entry rest =>
    obtain ⟨h, hs, -⟩ := hb
    rw [he, Option.some.injEq] at h
    exact h ▸ hs.marks
  | chain c opening body arms rest =>
    obtain ⟨_, _, h, hc, -⟩ := hb
    exact opened (x := .chain opening.index) h (by rw [Entry.opening?, hc])
  | loop id opening body ending rest =>
    obtain ⟨_, h, hc, -⟩ := hb
    exact opened (x := .loop id) h (by rw [Entry.opening?, hc])
  | sub name opening body ending rest =>
    obtain ⟨_, h, ⟨_, hc⟩, -⟩ := hb
    exact opened (x := .sub opening.index name) h (by rw [Entry.opening?, hc])

/-- No branch of a chain stands in the body of another branch of it. -/
theorem Block.le_of_branch (hn : Nested es) {body : Block} {i q a b : Nat} {outer : List Opening}
    (hbody : body.Stands es (q + 1) a) (hq : around es (q + 1) = .chain i :: outer)
    (hb : b ∈ branchesOf es i) (hlt : q < b) : a ≤ b := by
  obtain ⟨e, he, hm, hx⟩ := Nested.mem_branchesOf.mp hb
  rcases Nat.lt_or_ge b a with hba | hba
  · have hhead : (around es (q + 1)).head? = some (.chain i) := by rw [hq, List.head?_cons]
    have hsame : around es b = around es (q + 1) :=
      (hn.around_head hx).trans (hn.around_head hhead).symm
    obtain ⟨part, hne, hpart, -⟩ := Block.part hn hbody hlt hba hsame
    rw [Block.not_marks hne hpart he] at hm
    cases hm
  · exact hba

/-- In a sorted list the first number above a bound is the least one. -/
theorem find?_eq_some_of_least {l : List Nat} {a q : Nat} (hs : l.Pairwise (· < ·)) (ha : a ∈ l)
    (hq : q < a) (hleast : ∀ b ∈ l, q < b → a ≤ b) : (l.find? fun b => decide (q < b)) = some a := by
  induction l with
  | nil => cases ha
  | cons b l ih =>
    rw [List.find?_cons]
    rcases Nat.lt_or_ge q b with hqb | hqb
    · have hle := hleast b List.mem_cons_self hqb
      have heq : b = a := by
        rcases List.mem_cons.mp ha with rfl | ha
        · rfl
        · have := List.rel_of_pairwise_cons hs ha
          omega
      rw [decide_eq_true hqb, heq]
    · have hmem : a ∈ l := by
        rcases List.mem_cons.mp ha with rfl | ha
        · omega
        · exact ha
      rw [decide_eq_false (Nat.not_lt.mpr hqb)]
      exact ih hs.of_cons hmem fun b hb => hleast b (List.mem_cons_of_mem _ hb)

namespace Program.IsNested

variable {p : Program} {i q a z e : Nat} {outer : List Opening} {body : Block} {arms : Arms}

/-- The arms of a chain follow the body in front of them. -/
theorem following_eq (h : p.IsNested) (hbody : body.Stands p.entries (q + 1) a)
    (hq : CommandScript.around p.entries (q + 1) = .chain i :: outer)
    (harms : arms.Stands p.entries a z) :
    (chainAt p.entries i).following q = .ok a := by
  obtain ⟨ha, hlt⟩ := Block.around_eq h.nested hbody
  rw [hq] at ha
  have hleast (b : Nat) (hb : b ∈ branchesOf p.entries i) (hqb : q < b) : a ≤ b :=
    Block.le_of_branch h.nested hbody hq hb hqb
  have hfind : ((branchesOf p.entries i).find? fun b => decide (q < b)).or
      (endOf p.entries (.chain i)) = some a := by
    cases arms with
    | ending entry =>
      obtain ⟨he, hc, -⟩ := harms
      have hclose : Closes p.entries (.chain i) a :=
        ⟨entry, he, by rw [Entry.closes, hc], by rw [ha, List.head?_cons]⟩
      have hnone : ((branchesOf p.entries i).find? fun b => decide (q < b)) = none := by
        refine List.find?_eq_none.mpr fun b hb hqb => ?_
        have := hleast b hb (of_decide_eq_true hqb)
        have := h.branch_lt_end hb hclose
        omega
      rw [hnone, Option.none_or, h.nested.endOf_eq_some.mpr hclose]
    | arm c marker body arms =>
      obtain ⟨_, he, hc, -⟩ := harms
      have hmem : a ∈ branchesOf p.entries i := Nested.mem_branchesOf.mpr
        ⟨marker, he, Entry.marks_of_armCommand hc, by rw [ha, List.head?_cons]⟩
      rw [find?_eq_some_of_least (Nested.branchesOf_pairwise _ _) hmem hlt hleast, Option.some_or]
  have hlookup : ((chainAt p.entries i).branches.find? fun b => decide (q < b)).or
      (chainAt p.entries i).endIndex = some a := hfind
  rw [Chain.following, hlookup]

/-- The tree has the subroutine that a call leads to. -/
theorem sub?_eq (h : p.IsNested) {t : Block} (ht : t.Stands p.entries 0 p.size) {name : String}
    (ho : Opens p.entries (.sub i name)) :
    ∃ body ending z, t.sub? name = some (body, ending) ∧ body.Stands p.entries (i + 1) z ∧
      p.entries[z]? = some ending ∧ ending.command = .endSub := by
  have hnil : CommandScript.around p.entries i = CommandScript.around p.entries 0 :=
    h.nested.around_of_opens_sub ho
  have hlt : i < p.size := p.length_entries ▸ Nested.index_lt_length ho
  obtain ⟨part, hne, hpart, hsub⟩ := Block.part h.nested ht (Nat.zero_le _) hlt hnil
  rw [hsub name fun j hj => h.subroutines.unique j i name hj ho]
  obtain ⟨entry, last, hentry, hcmd⟩ := Nested.command_of_opens_sub ho
  cases part with
  | nil => exact absurd rfl hne
  | command other rest =>
    obtain ⟨he, hs, -⟩ := hpart
    rw [hentry, Option.some.injEq] at he
    have hopening := hs.opening?
    rw [← he, Entry.opening?, hcmd] at hopening
    cases hopening
  | chain c opening body arms rest =>
    obtain ⟨_, _, he, hc, -⟩ := hpart
    rw [hentry, Option.some.injEq] at he
    rw [← he, hcmd] at hc
    cases hc
  | loop id opening body ending rest =>
    obtain ⟨_, he, hc, -⟩ := hpart
    rw [hentry, Option.some.injEq] at he
    rw [← he, hcmd] at hc
    cases hc
  | sub other opening body ending rest =>
    obtain ⟨z, he, ⟨_, hc⟩, hbody, ⟨hend, hcommand⟩, -⟩ := hpart
    rw [hentry, Option.some.injEq] at he
    rw [← he, hcmd] at hc
    cases hc
    exact ⟨body, ending, z, by rw [Block.sub?, if_pos rfl], hbody, hend, hcommand⟩

end Program.IsNested

end CommandScript
