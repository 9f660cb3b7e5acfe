import CommandScript.Formula.Evaluation
import CommandScript.Proofs.Ensures
import CommandScript.Proofs.Formula.Arithmetic
import CommandScript.Proofs.Formula.Tree

/-!
# The value of a formula is that of its tree

Evaluation never builds the tree: it puts a value in the place of the parentheses that close first
and goes twice over what stands between parentheses. Run in front of any tokens it turns those of a
tree into tokens without parentheses that reduce to the same value (`Derives.evaluates`), a first
pass turns the products among these into values (`Ready`), and a second pass adds up the chain that
is left (`Chain`). A fault on the way is that of a reference of the tree or of one of its operations
whose sides have values (`Tree.Fails`); the branches for tokens that are no expression are not
reached.
-/

namespace CommandScript

namespace Formula

section Trees

variable (look : Reference → Checked Int64)

/-- The value of a tree: every reference has one, and every operation succeeds. -/
def Tree.value? : Tree → Option Int64
  | value n => some n
  | reference r => (look r).toOption
  | node l op r => do (op.apply (← l.value?) (← r.value?)).toOption

/-- A fault that working out the tree may end in: that of one of its references, or that of one of
its operations whose two sides have values. -/
def Tree.Fails (e : Tree) (f : Fault) : Prop :=
  (∃ r ∈ e.references, look r = .error f) ∨
    ∃ l op r a b, (l, op, r) ∈ e.operations ∧ l.value? look = some a ∧ r.value? look = some b ∧
      op.apply a b = .error f

variable {look} {l r : Tree} {op : Operator} {f : Fault} {a b : Int64}

theorem Tree.Fails.left (h : l.Fails look f) : (node l op r).Fails look f := by
  obtain ⟨s, hs, h⟩ | ⟨l', op', r', a, b, hm, h⟩ := h
  · exact .inl ⟨s, List.mem_append_left _ hs, h⟩
  · exact .inr ⟨l', op', r', a, b, .tail _ (List.mem_append_left _ hm), h⟩

theorem Tree.Fails.right (h : r.Fails look f) : (node l op r).Fails look f := by
  obtain ⟨s, hs, h⟩ | ⟨l', op', r', a, b, hm, h⟩ := h
  · exact .inl ⟨s, List.mem_append_right _ hs, h⟩
  · exact .inr ⟨l', op', r', a, b, .tail _ (List.mem_append_right _ hm), h⟩

/-- A tree that may fail has no value. -/
theorem Tree.Fails.value?_eq_none {e : Tree} (h : e.Fails look f) : e.value? look = none := by
  induction e with
  | value n =>
    obtain ⟨s, hs, -⟩ | ⟨_, _, _, _, _, hm, -⟩ := h
    · cases hs
    · cases hm
  | reference s =>
    obtain ⟨s', hs, h⟩ | ⟨_, _, _, _, _, hm, -⟩ := h
    · obtain rfl := List.mem_singleton.mp hs
      simp [Tree.value?, h, Except.toOption]
    · cases hm
  | node l op r ihl ihr =>
    have hside : l.Fails look f ∨ r.Fails look f → (node l op r).value? look = none := by
      rintro (hl | hr)
      · simp [Tree.value?, ihl hl]
      · cases hl : l.value? look <;> simp [Tree.value?, hl, ihr hr]
    obtain ⟨s, hs, h⟩ | ⟨l', op', r', a, b, hm, ha, hb, h⟩ := h
    · exact hside ((List.mem_append.mp hs).imp (fun hs => .inl ⟨s, hs, h⟩)
        fun hs => .inl ⟨s, hs, h⟩)
    · rcases List.mem_cons.mp hm with heq | hm
      · obtain ⟨rfl, rfl, rfl⟩ := heq
        simp [Tree.value?, ha, hb, h, Except.toOption]
      · exact hside ((List.mem_append.mp hm).imp (fun hm => .inr ⟨_, _, _, a, b, hm, ha, hb, h⟩)
          fun hm => .inr ⟨_, _, _, a, b, hm, ha, hb, h⟩)

end Trees

section Settles

variable {α : Type} (look : Reference → Checked Int64) (e : Tree)

/-- The operation fails only as working out the tree may, and gives what satisfies `P` otherwise. -/
abbrev Settles (P : α → Prop) (x : Checked α) : Prop :=
  x.Yields P (e.Fails look)

/-- The operation comes to what the tree comes to. -/
abbrev Outcome (x : Checked Int64) : Prop :=
  Settles look e (fun n => e.value? look = some n) x

variable {look e} {l r : Tree} {op : Operator} {P : α → Prop} {x : Checked α}

theorem Settles.left (h : Settles look l P x) : Settles look (.node l op r) P x :=
  h.imp (fun _ ha => ha) fun _ => Tree.Fails.left

theorem Settles.right (h : Settles look r P x) : Settles look (.node l op r) P x :=
  h.imp (fun _ ha => ha) fun _ => Tree.Fails.right

theorem outcome_reference (look : Reference → Checked Int64) (r : Reference) :
    Outcome look (.reference r) (look r) := by
  rcases h : look r with f | n
  · exact .inl ⟨r, .head _, h⟩
  · simp [Outcome, Settles, Checked.Yields, Tree.value?, h, Except.toOption]

/-- Where both sides have values the tree comes to what its operation gives. -/
theorem outcome_apply {a b : Int64} (hl : l.value? look = some a) (hr : r.value? look = some b) :
    Outcome look (.node l op r) (op.apply a b) := by
  rcases h : op.apply a b with f | n
  · exact .inr ⟨l, op, r, a, b, .head _, hl, hr, h⟩
  · simp [Outcome, Settles, Checked.Yields, Tree.value?, hl, hr, h, Except.toOption]

end Settles

section Passes

section

variable {selected : Operator → Bool} {op : Operator} {done rest : List Token} {a b : Int64}

theorem applySelected_passed (h : selected op = false) :
    applySelected selected done (.operator op :: rest) =
      applySelected selected (.operator op :: done) rest := by
  rw [applySelected.eq_def]
  simp [h]

theorem applySelected_applied (h : selected op = true) :
    applySelected selected (.value a :: done) (.operator op :: .value b :: rest) =
      op.apply a b >>= fun n => applySelected selected (.value n :: done) rest := by
  rw [applySelected.eq_def]
  simp [h]

end

variable (look : Reference → Checked Int64) (e : Tree)

/-- Values joined by operators; the second pass makes one value of them. -/
def Chain (us : List Token) : Prop :=
  ∃ x, Outcome look e x ∧ ∀ rest, applySelected (fun _ => true) [] (us ++ rest) =
    x >>= fun n => applySelected (fun _ => true) [.value n] rest

/-- Tokens without references that reduce to the value of the tree. The first pass makes one value of
a product, and a chain of a sum. -/
def Ready : Level → List Token → Prop
  | .operand, us => ∃ n, e.value? look = some n ∧ us = [.value n]
  | .product, us => ∃ x, Outcome look e x ∧ ∀ done rest,
    applySelected Operator.isMultiplicative done (us ++ rest) =
      x >>= fun n => applySelected Operator.isMultiplicative (.value n :: done) rest
  | .sum, us => ∃ x, Settles look e (Chain look e) x ∧ ∀ done rest,
    applySelected Operator.isMultiplicative done (us ++ rest) =
      x >>= fun vs => applySelected Operator.isMultiplicative (vs.reverse ++ done) rest

/-- Tokens without parentheses that reduce to the value of the tree once their references have been
looked up. -/
def Reduces (level : Level) (us : List Token) : Prop :=
  Settles look e (Ready look e level) (us.mapM (lookedUp look))

variable {look e} {l r : Tree} {op : Operator} {us vs : List Token}

theorem reduces_value {n : Int64} (h : e.value? look = some n) :
    Reduces look e .operand [.value n] :=
  ⟨n, h, rfl⟩

theorem reduces_reference (r : Reference) :
    Reduces look (.reference r) .operand [.reference r] := by
  have h := outcome_reference look r
  unfold Reduces
  rw [List.mapM_cons]
  refine Checked.Yields.bind
    (Q := fun t => ∃ n, (Tree.reference r).value? look = some n ∧ t = .value n) ?_
    fun t ⟨n, hn, ht⟩ => ⟨n, hn, by rw [ht]; rfl⟩
  exact h.bind fun n hn => ⟨n, hn, rfl⟩

theorem Ready.factor (h : Ready look e .operand us) : Ready look e .product us := by
  obtain ⟨n, hn, rfl⟩ := h
  exact ⟨.ok n, hn, fun done rest => rfl⟩

theorem Ready.times (hop : op.isMultiplicative = true) (hl : Ready look l .product us)
    (hr : Ready look r .operand vs) :
    Ready look (.node l op r) .product (us ++ .operator op :: vs) := by
  obtain ⟨x, hx, hl⟩ := hl
  obtain ⟨b, hb, rfl⟩ := hr
  refine ⟨x >>= fun a => op.apply a b, hx.left.bind fun a ha => outcome_apply ha hb,
    fun done rest => ?_⟩
  simp [hl, applySelected_applied hop]

theorem Ready.term (h : Ready look e .product us) : Ready look e .sum us := by
  obtain ⟨x, hx, h⟩ := h
  refine ⟨x >>= fun n => .ok [.value n], hx.bind fun n hn => ?_, fun done rest => ?_⟩
  · exact ⟨.ok n, hn, fun rest => rfl⟩
  · rw [h, bind_assoc]
    rfl

theorem Ready.plus (hop : op.isMultiplicative = false) (hl : Ready look l .sum us)
    (hr : Ready look r .product vs) :
    Ready look (.node l op r) .sum (us ++ .operator op :: vs) := by
  obtain ⟨x, hx, hl⟩ := hl
  obtain ⟨y, hy, hr⟩ := hr
  refine ⟨x >>= fun ws => y >>= fun b => .ok (ws ++ [.operator op, .value b]), ?_,
    fun done rest => ?_⟩
  · refine hx.left.bind fun ws ⟨z, hz, hw⟩ => hy.right.bind fun b hb => ?_
    refine ⟨z >>= fun a => op.apply a b, hz.left.bind fun a ha => outcome_apply ha hb,
      fun rest => ?_⟩
    simp [hw, applySelected_applied]
  · calc applySelected Operator.isMultiplicative done (us ++ .operator op :: vs ++ rest)
        = x >>= fun ws => applySelected Operator.isMultiplicative (ws.reverse ++ done)
            (.operator op :: (vs ++ rest)) := by
          simpa using hl done (.operator op :: (vs ++ rest))
      _ = x >>= fun ws => y >>= fun b => applySelected Operator.isMultiplicative
            (.value b :: .operator op :: (ws.reverse ++ done)) rest := by
          simp [applySelected_passed hop, hr]
      _ = _ := by
          simp only [bind_assoc]
          simp [bind, Except.bind]

/-- Reducing the tokens between two parentheses comes to what their tree comes to. -/
theorem Reduces.reduceTokens (h : Reduces look e .sum us) :
    Outcome look e (reduceTokens look us) := by
  refine Checked.Yields.bind h fun vs hv => ?_
  obtain ⟨x, hx, hp⟩ := hv
  have hfirst : applySelected Operator.isMultiplicative [] vs = x := by
    have h := hp [] []
    rw [List.append_nil] at h
    rw [h]
    rcases x with f | ws <;> simp [bind, Except.bind, applySelected]
  change Settles _ _ _ (reduceValues vs)
  unfold reduceValues
  rw [hfirst]
  refine hx.bind fun ws ⟨y, hy, hw⟩ => ?_
  have hsecond : applySelected (fun _ => true) [] ws = y >>= fun n => .ok [.value n] := by
    have h := hw []
    rw [List.append_nil] at h
    rw [h]
    rfl
  rw [hsecond, bind_assoc]
  exact hy.bind fun n hn => hn

theorem Reduces.imp {level level' : Level} (hr : ∀ ts, Ready look e level ts → Ready look e level' ts)
    (h : Reduces look e level us) : Reduces look e level' us :=
  Checked.Yields.imp h hr fun _ => id

/-- The references of the left side are looked up before those of the right. -/
theorem Reduces.node {level level' : Level}
    (hj : ∀ ts ts', Ready look l level ts → Ready look r level' ts' →
      Ready look (.node l op r) level (ts ++ .operator op :: ts'))
    (hl : Reduces look l level us) (hr : Reduces look r level' vs) :
    Reduces look (.node l op r) level (us ++ .operator op :: vs) := by
  unfold Reduces
  rw [List.mapM_append, List.mapM_cons]
  refine Checked.Yields.bind (Settles.left hl) fun ts ht => ?_
  change Settles _ _ _ ((vs.mapM (lookedUp look) >>= fun ts' => pure (.operator op :: ts')) >>= _)
  rw [bind_assoc]
  exact Checked.Yields.bind (Settles.right hr) fun ts' ht' => hj ts ts' ht ht'

end Passes

section Evaluates

variable (look : Reference → Checked Int64)

/-- In front of any tokens, evaluation leaves of `ts` tokens without parentheses that reduce to the
value of the tree. -/
def Evaluates (level : Level) (ts : List Token) (e : Tree) : Prop :=
  ∃ x, Settles look e (Reduces look e level) x ∧ ∀ text outer here rest,
    evaluateFrom look text outer here (ts ++ rest) =
      x >>= fun us => evaluateFrom look text outer (us.reverse ++ here) rest

variable {look} {level level' : Level} {e l r : Tree} {op : Operator} {ts us vs : List Token}

theorem Evaluates.mono (hm : ∀ us, Ready look e level us → Ready look e level' us)
    (h : Evaluates look level ts e) : Evaluates look level' ts e := by
  obtain ⟨x, hx, h⟩ := h
  exact ⟨x, hx.imp (fun us hu => hu.imp hm) fun _ => id, h⟩

/-- Parentheses leave the value of what stands between them. -/
theorem Evaluates.parens (h : Evaluates look .sum ts e) :
    Evaluates look .operand (.opening :: ts ++ [.closing]) e := by
  obtain ⟨x, hx, h⟩ := h
  refine ⟨x >>= fun us => reduceTokens look us >>= fun n => .ok [.value n],
    hx.bind fun us hu => hu.reduceTokens.bind fun n hn => reduces_value hn,
    fun text outer here rest => ?_⟩
  calc evaluateFrom look text outer here (.opening :: ts ++ [.closing] ++ rest)
      = x >>= fun us => evaluateFrom look text (here :: outer) us.reverse (.closing :: rest) := by
        simpa [evaluateFrom] using h text (here :: outer) [] (.closing :: rest)
    _ = x >>= fun us => reduceTokens look us >>= fun n =>
          evaluateFrom look text outer (.value n :: here) rest := by
        simp [evaluateFrom]
    _ = _ := by
        simp only [bind_assoc]
        rfl

/-- Both sides of an operator are left beside it. -/
theorem Evaluates.node
    (hj : ∀ us vs, Ready look l level us → Ready look r level' vs →
      Ready look (.node l op r) level (us ++ .operator op :: vs))
    (hl : Evaluates look level us l) (hr : Evaluates look level' vs r) :
    Evaluates look level (us ++ .operator op :: vs) (.node l op r) := by
  obtain ⟨x, hx, hl⟩ := hl
  obtain ⟨y, hy, hr⟩ := hr
  refine ⟨x >>= fun us => y >>= fun vs => .ok (us ++ .operator op :: vs),
    hx.left.bind fun us hu => hy.right.bind fun vs hv => hu.node hj hv,
    fun text outer here rest => ?_⟩
  calc evaluateFrom look text outer here (us ++ .operator op :: vs ++ rest)
      = x >>= fun us => evaluateFrom look text outer (us.reverse ++ here)
          (.operator op :: (vs ++ rest)) := by
        simpa using hl text outer here (.operator op :: (vs ++ rest))
    _ = x >>= fun us => y >>= fun vs => evaluateFrom look text outer
          (vs.reverse ++ .operator op :: (us.reverse ++ here)) rest := by
        simp [evaluateFrom, hr]
    _ = _ := by
        simp only [bind_assoc]
        simp [bind, Except.bind]

theorem Derives.evaluates (h : Derives level ts e) (look : Reference → Checked Int64) :
    Evaluates look level ts e := by
  induction h with
  | value n => exact ⟨.ok [.value n], reduces_value rfl, fun _ _ _ _ => rfl⟩
  | reference r => exact ⟨.ok [.reference r], reduces_reference r, fun _ _ _ _ => rfl⟩
  | parens _ ih => exact ih.parens
  | factor _ ih => exact ih.mono fun _ => Ready.factor
  | term _ ih => exact ih.mono fun _ => Ready.term
  | times _ hop _ ihl ihr => exact ihl.node (fun _ _ => Ready.times hop) ihr
  | plus _ hop _ ihl ihr => exact ihl.node (fun _ _ => Ready.plus hop) ihr

/-- Evaluating the tokens of a tree comes to what the tree comes to; a fault that says that a
calculation is incomplete, which only a reference may bring, gains the text of the formula if it
comes up outside all parentheses. -/
theorem Derives.outcome (h : Derives .sum ts e) (look : Reference → Checked Int64) (text : String) :
    ∃ x, Outcome look e x ∧ (evaluateFrom look text [] [] ts = x ∨
      evaluateFrom look text [] [] ts =
        x.mapError fun f => if f.kind = .incomplete then .framed text f else f) := by
  obtain ⟨x, hx, h⟩ := h.evaluates look
  replace h : evaluateFrom look text [] [] ts =
      x >>= fun us => evaluateFrom look text [] us.reverse [] := by
    simpa using h text [] [] []
  rcases x with f | us
  · exact ⟨.error f, hx, .inl h⟩
  · refine ⟨reduceTokens look us, Reduces.reduceTokens hx, .inr ?_⟩
    rw [h]
    change evaluateFrom look text [] us.reverse [] = _
    rw [evaluateFrom, List.reverse_reverse]
    cases reduceTokens look us <;> rfl

end Evaluates

/-- A formula that the reader accepts has exactly one tree. Whatever its references stand for, its
value is that of the tree, and any fault is that of one of its references or that of one of the
operations of the tree; it never says by itself that the calculation is incomplete. -/
theorem evaluate_of_read {raw : String} {f : Formula} (h : read raw = .ok f)
    (look : Reference → Checked Int64) :
    ∃ e, (∀ e', Derives .sum f.tokens e' ↔ e' = e) ∧ e.references = f.references ∧
      (∀ n, f.evaluate look = .ok n ↔ e.value? look = some n) ∧
      ∀ fault, f.evaluate look = .error fault →
        (∃ r ∈ f.references, ∃ own, look r = .error own ∧
          (fault = own ∨ own.kind = .incomplete ∧ fault = .framed f.text own)) ∨
        ∃ l op r a b, (l, op, r) ∈ e.operations ∧ l.value? look = some a ∧ r.value? look = some b ∧
          op.apply a b = .error fault ∧
          (fault = .cause .divideByZero s!"{a} {op.symbol} 0" ∨
            fault = .cause .runtime s!"overflow in {a} {op.symbol} {b}") := by
  obtain ⟨e, he, hunique⟩ := exists_tree_of_check (check_of_read h)
  have hrefs : f.references = e.references := he.references
  obtain ⟨x, hx, hv⟩ := he.outcome look f.text
  change f.evaluate look = _ ∨ f.evaluate look = _ at hv
  refine ⟨e, fun e' => ⟨hunique e', fun h => h ▸ he⟩, hrefs.symm, fun n => ?_, fun fault hf => ?_⟩
  · rcases x with g | m
    · have hnone : e.value? look = none := Tree.Fails.value?_eq_none hx
      rw [hnone]
      rcases hv with hv | hv <;> rw [hv] <;> exact iff_of_false nofun nofun
    · have hsome : e.value? look = some m := hx
      have hok : f.evaluate look = .ok m := hv.elim id id
      rw [hsome, hok, Except.ok.injEq, Option.some.injEq]
  · rcases x with g | m
    · have hg : fault = g ∨ g.kind = .incomplete ∧ fault = .framed f.text g := by
        rcases hv with hv | hv <;> rw [hf] at hv
        · exact .inl (Except.error.inj hv)
        · obtain rfl := Except.error.inj hv
          dsimp only
          split
          · exact .inr ⟨‹_›, rfl⟩
          · exact .inl rfl
      obtain ⟨r, hr, hown⟩ | ⟨l, op, r, a, b, hm, ha, hb, happly⟩ := hx
      · exact .inl ⟨r, hrefs ▸ hr, g, hown, hg⟩
      · have htext := Operator.apply_error happly
        rcases hg with rfl | ⟨hkind, -⟩
        · exact .inr ⟨l, op, r, a, b, hm, ha, hb, happly, htext⟩
        · rcases htext with rfl | rfl <;> cases hkind
    · rcases hv with hv | hv <;> rw [hf] at hv <;> cases hv

/-- Behind `2 +` the product is worked out first, and inside it the parentheses. -/
theorem evaluate_of_read_nested :
    ∃ f, read "2 + 3 * ($A - 1)" = .ok f ∧ f.evaluate (m := Checked) (fun _ => .ok 5) = .ok 14 ∧
      ∃ e, Derives .sum f.tokens e ∧ e.value? (fun _ => .ok 5) = some 14 := by
  obtain ⟨f, hf⟩ : ∃ f, read "2 + 3 * ($A - 1)" = .ok f := ⟨_, rfl⟩
  have hv : (read "2 + 3 * ($A - 1)" >>= fun f => f.evaluate fun _ => .ok 5).toOption = some 14 := by
    decide +kernel
  rw [hf] at hv
  change (f.evaluate fun _ => (.ok 5 : Checked Int64)).toOption = some 14 at hv
  have hok : f.evaluate (fun _ => (.ok 5 : Checked Int64)) = .ok 14 := by
    rcases hx : f.evaluate (fun _ => (.ok 5 : Checked Int64)) with g | n <;> rw [hx] at hv
    · cases hv
    · rw [Option.some.inj hv]
  obtain ⟨e, hunique, -, hvalue, -⟩ := evaluate_of_read hf fun _ => .ok 5
  exact ⟨f, hf, hok, e, (hunique e).mpr rfl, (hvalue 14).mp hok⟩

end Formula

end CommandScript
