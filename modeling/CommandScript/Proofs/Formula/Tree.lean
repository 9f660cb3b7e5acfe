import CommandScript.Formula.Reader
import CommandScript.Proofs.Checked

/-!
# The tree of a formula

The grammar gives parentheses first, then the tight operators, then the others, each from left to
right (`Derives`). One walk over the tokens builds the tree: in front of the operand that is due
stand a sum that waits for its right side and a product that waits for its own (`Pending`), and each
open parenthesis keeps those of its outside. What the walk builds the grammar derives
(`derives_of_parse`), and what the grammar derives the walk builds (`parse_of_derives`), so a formula
has at most one tree; the check accepts the tokens that the walk builds a tree of
(`parse_isSome_of_check`), so an accepted formula has one.
-/

namespace CommandScript.Formula

/-- What a formula computes; its parentheses are gone. -/
inductive Tree where
  | value (n : Int64)
  | reference (r : Reference)
  | node (left : Tree) (op : Operator) (right : Tree)

namespace Tree

/-- The references of the tree, from left to right. -/
def references : Tree → List Reference
  | value _ => []
  | reference r => [r]
  | node l _ r => l.references ++ r.references

/-- The operations of the tree with the trees of their two sides. -/
def operations : Tree → List (Tree × Operator × Tree)
  | value _ | reference _ => []
  | node l op r => (l, op, r) :: (l.operations ++ r.operations)

end Tree

/-- How much of the grammar a run of tokens may use. -/
inductive Level where
  | operand
  | product
  | sum

/-- The tokens stand for the tree. -/
inductive Derives : Level → List Token → Tree → Prop
  | value (n) : Derives .operand [.value n] (.value n)
  | reference (r) : Derives .operand [.reference r] (.reference r)
  | parens {ts e} : Derives .sum ts e → Derives .operand (.opening :: ts ++ [.closing]) e
  | factor {ts e} : Derives .operand ts e → Derives .product ts e
  | times {us vs l r op} : Derives .product us l → op.isMultiplicative = true →
      Derives .operand vs r → Derives .product (us ++ .operator op :: vs) (.node l op r)
  | term {ts e} : Derives .product ts e → Derives .sum ts e
  | plus {us vs l r op} : Derives .sum us l → op.isMultiplicative = false →
      Derives .product vs r → Derives .sum (us ++ .operator op :: vs) (.node l op r)

theorem Derives.references {level : Level} {ts : List Token} {e : Tree} (h : Derives level ts e) :
    (ts.filterMap fun | .reference r => some r | _ => none) = e.references := by
  induction h with
  | value | reference => rfl
  | parens _ ih => simpa using ih
  | factor _ ih | term _ ih => exact ih
  | times _ _ _ ihl ihr | plus _ _ _ ihl ihr => simp [Tree.references, ihl, ihr]

/-- What stands between an open parenthesis and the operand that is due behind it. -/
structure Pending where
  sum : Option (Tree × Operator) := none
  product : Option (Tree × Operator) := none

namespace Pending

/-- The operator that waits takes `e` for its right side. -/
def joined (left : Option (Tree × Operator)) (e : Tree) : Tree :=
  match left with
  | none => e
  | some (l, op) => .node l op e

/-- The tree of everything up to the operand `e`. -/
def close (p : Pending) (e : Tree) : Tree :=
  joined p.sum (joined p.product e)

/-- What waits behind the operand `e` and the operator. -/
def before (p : Pending) (e : Tree) (op : Operator) : Pending :=
  if op.isMultiplicative then { p with product := some (joined p.product e, op) }
  else { sum := some (p.close e, op) }

end Pending

/-- Builds the tree of the tokens; `outer` holds what waits outside each open parenthesis, and `last`
the operand read last unless one is due. -/
def parseFrom (outer : List Pending) (here : Pending) : Option Tree → List Token → Option Tree
  | some e, [] => if outer.isEmpty then some (here.close e) else none
  | none, .value n :: rest => parseFrom outer here (some (.value n)) rest
  | none, .reference r :: rest => parseFrom outer here (some (.reference r)) rest
  | none, .opening :: rest => parseFrom (here :: outer) {} none rest
  | some e, .operator op :: rest => parseFrom outer (here.before e op) none rest
  | some e, .closing :: rest =>
    match outer with
    | before :: outer => parseFrom outer before (some (here.close e)) rest
    | [] => none
  | _, _ => none

/-- The tree of the tokens, if they are an expression. -/
def parse (ts : List Token) : Option Tree :=
  parseFrom [] {} none ts

section Accepted

/-- The check and the walk go through the same tokens. -/
theorem parseFrom_isSome (ts : List Token) (outer : List Pending) (here : Pending)
    (last : Option Tree) (h : checkFrom last.isNone outer.length ts = .ok ()) :
    (parseFrom outer here last ts).isSome := by
  induction ts generalizing outer here last with
  | nil =>
    rcases last with _ | e <;> rcases outer with _ | ⟨b, outer⟩ <;>
      simp_all [checkFrom, Checked.fail, parseFrom]
  | cons t rest ih =>
    rcases last with _ | e
    · cases t with
      | value n => exact ih outer here (some (.value n)) h
      | reference r => exact ih outer here (some (.reference r)) h
      | opening => exact ih (here :: outer) {} none h
      | operator op => simp [checkFrom, Checked.fail] at h
      | closing => simp [checkFrom, Checked.fail] at h
    · cases t with
      | operator op => exact ih outer (here.before e op) none h
      | closing =>
        rcases outer with _ | ⟨b, outer⟩
        · simp [checkFrom, Checked.fail] at h
        · exact ih outer b (some (here.close e)) h
      | _ => simp [checkFrom, Checked.fail] at h

/-- The walk builds a tree of every run of tokens that the check accepts. -/
theorem parse_isSome_of_check {ts : List Token} (h : check ts = .ok ()) : (parse ts).isSome := by
  rcases ts with _ | ⟨t, rest⟩
  · simp [check, Checked.fail] at h
  · exact parseFrom_isSome (t :: rest) [] {} none h

end Accepted

section Sound

/-- The tokens read behind an opening, up to an operator that waits. -/
def Waits (level : Level) (isTight : Bool) : Option (Tree × Operator) → List Token → Prop
  | none, ts => ts = []
  | some (l, op), ts =>
    ∃ us, ts = us ++ [.operator op] ∧ Derives level us l ∧ op.isMultiplicative = isTight

/-- `p` is what waits behind the tokens. -/
def Pending.After (p : Pending) (ts : List Token) : Prop :=
  ∃ us vs, ts = us ++ vs ∧ Waits .sum false p.sum us ∧ Waits .product true p.product vs

namespace Pending

variable {p : Pending} {us ts : List Token} {e : Tree}

theorem after_nil : After {} [] :=
  ⟨[], [], rfl, rfl, rfl⟩

/-- An operand ends the product it stands in. -/
theorem derives_product {left : Option (Tree × Operator)} (hw : Waits .product true left us)
    (h : Derives .operand ts e) : Derives .product (us ++ ts) (joined left e) := by
  rcases left with _ | ⟨l, op⟩
  · obtain rfl := hw
    exact .factor h
  · obtain ⟨us, rfl, hl, hop⟩ := hw
    simpa [joined] using Derives.times hl hop h

/-- An operand ends the sum it stands in. -/
theorem After.derives (hp : p.After us) (h : Derives .operand ts e) :
    Derives .sum (us ++ ts) (p.close e) := by
  obtain ⟨us, vs, rfl, hs, hm⟩ := hp
  have hv := derives_product hm h
  unfold close
  rcases hp : p.sum with _ | ⟨l, op⟩
  · rw [hp] at hs
    obtain rfl := hs
    exact .term hv
  · rw [hp] at hs
    obtain ⟨us, rfl, hl, hop⟩ := hs
    simpa [joined] using Derives.plus hl hop hv

/-- An operator behind an operand waits in turn. -/
theorem After.before (hp : p.After us) (h : Derives .operand ts e) (op : Operator) :
    (p.before e op).After (us ++ ts ++ [.operator op]) := by
  unfold Pending.before
  split
  · rename_i hop
    obtain ⟨us, vs, rfl, hs, hm⟩ := hp
    exact ⟨us, vs ++ ts ++ [.operator op], by simp, hs, vs ++ ts, rfl, derives_product hm h, hop⟩
  · rename_i hop
    exact ⟨us ++ ts ++ [.operator op], [], by simp, ⟨us ++ ts, rfl, hp.derives h, by simpa using hop⟩,
      rfl⟩

end Pending

/-- The tokens up to the opening that was read last, with what waits outside each one. -/
inductive Opened : List Pending → List Token → Prop
  | nil : Opened [] []
  | cons {outer p ts us} : Opened outer ts → p.After us → Opened (p :: outer) (ts ++ us ++ [.opening])

/-- The tokens behind an operator or an opening: none while an operand is due. -/
def Last : Option Tree → List Token → Prop
  | none, ts => ts = []
  | some e, ts => Derives .operand ts e

theorem derives_of_parseFrom (rest : List Token) {outer : List Pending} {here : Pending}
    {last : Option Tree} {e : Tree} {ts us vs : List Token} (ho : Opened outer ts)
    (hh : here.After us) (hl : Last last vs) (h : parseFrom outer here last rest = some e) :
    Derives .sum (ts ++ us ++ vs ++ rest) e := by
  induction rest generalizing outer here last ts us vs with
  | nil =>
    rcases last with _ | a <;> rcases ho with _ | ⟨ho, hp⟩ <;> simp [parseFrom] at h
    subst h
    simpa using hh.derives hl
  | cons t rest ih =>
    rcases last with _ | a
    · obtain rfl := hl
      cases t with
      | value n => simpa using ih ho hh (show Last (some _) _ from .value n) h
      | reference r => simpa using ih ho hh (show Last (some _) _ from .reference r) h
      | opening => simpa using ih (.cons ho hh) Pending.after_nil (show Last none [] from rfl) h
      | operator op => simp [parseFrom] at h
      | closing => simp [parseFrom] at h
    · cases t with
      | operator op => simpa using ih ho (hh.before hl op) (show Last none [] from rfl) h
      | closing =>
        rcases ho with _ | ⟨ho, hp⟩
        · simp [parseFrom] at h
        · simpa using ih ho hp (show Last (some _) _ from .parens (hh.derives hl)) h
      | _ => simp [parseFrom] at h

/-- What the walk builds the grammar derives. -/
theorem derives_of_parse {ts : List Token} {e : Tree} (h : parse ts = some e) :
    Derives .sum ts e :=
  derives_of_parseFrom ts .nil Pending.after_nil (show Last none [] from rfl) h

end Sound

section Complete

/-- Behind the tokens of a tree the walk stands at an operand that ends it, whatever follows. -/
def Reads (level : Level) (ts : List Token) (e : Tree) : Prop :=
  match level with
  | .operand => ∀ outer here rest,
    parseFrom outer here none (ts ++ rest) = parseFrom outer here (some e) rest
  | .product => ∀ sum, ∃ product a, Pending.joined product a = e ∧ ∀ outer rest,
    parseFrom outer ⟨sum, none⟩ none (ts ++ rest) = parseFrom outer ⟨sum, product⟩ (some a) rest
  | .sum => ∃ here a, Pending.close here a = e ∧ ∀ outer rest,
    parseFrom outer {} none (ts ++ rest) = parseFrom outer here (some a) rest

theorem Derives.reads {level : Level} {ts : List Token} {e : Tree} (h : Derives level ts e) :
    Reads level ts e := by
  induction h with
  | value | reference => exact fun _ _ _ => rfl
  | parens _ ih =>
    obtain ⟨here, a, rfl, hr⟩ := ih
    intro outer before rest
    simp [parseFrom, hr]
  | factor _ ih => exact fun sum => ⟨none, _, rfl, fun outer rest => ih outer ⟨sum, none⟩ rest⟩
  | @times us vs l r op _ hop _ ihl ihr =>
    intro sum
    obtain ⟨product, a, rfl, hl⟩ := ihl sum
    refine ⟨some (Pending.joined product a, op), r, rfl, fun outer rest => ?_⟩
    calc parseFrom outer ⟨sum, none⟩ none (us ++ .operator op :: vs ++ rest)
        = parseFrom outer ⟨sum, product⟩ (some a) (.operator op :: (vs ++ rest)) := by
          simpa using hl outer (.operator op :: (vs ++ rest))
      _ = parseFrom outer ⟨sum, some (Pending.joined product a, op)⟩ none (vs ++ rest) := by
          simp [parseFrom, Pending.before, hop]
      _ = parseFrom outer ⟨sum, some (Pending.joined product a, op)⟩ (some r) rest :=
          ihr outer _ rest
  | term _ ih =>
    obtain ⟨product, a, rfl, hr⟩ := ih none
    exact ⟨⟨none, product⟩, a, rfl, hr⟩
  | @plus us vs l r op _ hop _ ihl ihr =>
    obtain ⟨here, a, rfl, hl⟩ := ihl
    obtain ⟨product, b, rfl, hr⟩ := ihr (some (here.close a, op))
    refine ⟨⟨some (here.close a, op), product⟩, b, rfl, fun outer rest => ?_⟩
    calc parseFrom outer {} none (us ++ .operator op :: vs ++ rest)
        = parseFrom outer here (some a) (.operator op :: (vs ++ rest)) := by
          simpa using hl outer (.operator op :: (vs ++ rest))
      _ = parseFrom outer ⟨some (here.close a, op), none⟩ none (vs ++ rest) := by
          simp [parseFrom, Pending.before, hop]
      _ = parseFrom outer ⟨some (here.close a, op), product⟩ (some b) rest := hr outer rest

/-- What the grammar derives the walk builds. -/
theorem parse_of_derives {ts : List Token} {e : Tree} (h : Derives .sum ts e) :
    parse ts = some e := by
  obtain ⟨here, a, rfl, hr⟩ := h.reads
  simpa [parse, parseFrom] using hr [] []

end Complete

/-- Tokens that the check accepts stand for exactly one tree. -/
theorem exists_tree_of_check {ts : List Token} (h : check ts = .ok ()) :
    ∃ e, Derives .sum ts e ∧ ∀ e', Derives .sum ts e' → e' = e := by
  obtain ⟨e, he⟩ := Option.isSome_iff_exists.mp (parse_isSome_of_check h)
  refine ⟨e, derives_of_parse he, fun e' h' => ?_⟩
  rw [parse_of_derives h'] at he
  exact Option.some.inj he

theorem check_of_read {raw : String} {f : Formula} (h : read raw = .ok f) :
    check f.tokens = .ok () := by
  simp only [read, Checked.bind_ok, Checked.pure_ok] at h
  obtain ⟨tokens, -, u, hc, rfl⟩ := h
  unfold Checked.within at hc
  rcases hk : check tokens with e | u
  · rw [hk] at hc
    cases hc
  · rfl

/-!
## The language of formulas

A formula is an expression: operands joined by operators, an operand being a literal, a reference or an
expression in parentheses (`Phrase.Forms`). The check accepts the expressions and nothing else
(`check_iff`): where an operand is due it goes over a phrase whatever stands around it
(`checkFrom_of_forms`), and what it accepts has a tree.
-/

open Checked

/-- What the grammar has rules for. -/
inductive Phrase where
  | operand
  | expression

/-- The tokens form such a phrase. -/
inductive Phrase.Forms : Phrase → List Token → Prop
  | value (n) : Forms .operand [.value n]
  | reference (r) : Forms .operand [.reference r]
  | parens {ts} : Forms .expression ts → Forms .operand (.opening :: ts ++ [.closing])
  | single {ts} : Forms .operand ts → Forms .expression ts
  | joined {us vs} (op) : Forms .expression us → Forms .operand vs →
      Forms .expression (us ++ .operator op :: vs)

section Grammar

open Phrase

/-- Operands may be grouped behind the operator as well. -/
theorem Phrase.Forms.append {us vs : List Token} (op : Operator) (hu : Forms .expression us)
    (hv : Forms .expression vs) : Forms .expression (us ++ .operator op :: vs) := by
  generalize hp : Phrase.expression = p at hv
  induction hv with
  | value | reference | parens => cases hp
  | single hv => exact .joined op hu hv
  | joined op' hus hvs ihu =>
    simpa using Forms.joined op' (ihu hp) hvs

/-- The phrase that a part of the grammar with levels is. -/
def Level.phrase : Level → Phrase
  | .operand => .operand
  | .product | .sum => .expression

theorem Derives.forms {level : Level} {ts : List Token} {e : Tree} (h : Derives level ts e) :
    level.phrase.Forms ts := by
  induction h with
  | value n => exact .value n
  | reference r => exact .reference r
  | parens _ ih => exact .parens ih
  | factor _ ih => exact .single ih
  | times _ _ _ ihl ihr => exact .joined _ ihl ihr
  | term _ ih => exact ih
  | plus _ _ _ ihl ihr => exact ihl.append _ ihr

/-- Where an operand is due, the check goes over a phrase to the place behind it. -/
theorem checkFrom_of_forms {p : Phrase} {ts : List Token} (h : p.Forms ts) (depth : Nat)
    (rest : List Token) : checkFrom true depth (ts ++ rest) = checkFrom false depth rest := by
  induction h generalizing depth rest with
  | value | reference => rfl
  | parens _ ih => simp [checkFrom, ih]
  | single _ ih => exact ih depth rest
  | joined op _ _ ihu ihv =>
    rw [List.append_assoc, ihu]
    exact ihv depth rest

theorem check_eq_checkFrom {ts : List Token} (h : ts ≠ []) : check ts = checkFrom true 0 ts := by
  cases ts with
  | nil => contradiction
  | cons t rest => rfl

theorem Phrase.Forms.ne_nil {p : Phrase} {ts : List Token} (h : p.Forms ts) : ts ≠ [] := by
  induction h with
  | single _ ih => exact ih
  | _ => simp

/-- The check accepts the expressions and nothing else. -/
theorem check_iff {ts : List Token} : check ts = .ok () ↔ Forms .expression ts := by
  constructor
  · intro h
    obtain ⟨e, he, -⟩ := exists_tree_of_check h
    exact he.forms
  · intro h
    have hcheck := checkFrom_of_forms h 0 []
    rw [List.append_nil] at hcheck
    rw [check_eq_checkFrom h.ne_nil, hcheck]
    rfl

/-- A text is a formula when its tokens are an expression. -/
theorem read_iff {raw : String} {f : Formula} :
    read raw = .ok f ↔ lex raw = .ok f.tokens ∧ Forms .expression f.tokens ∧
      f.text = String.ofList (Text.trim raw.toList) := by
  rw [← check_iff]
  constructor
  · intro h
    have hcheck := check_of_read h
    simp only [read, bind_ok, pure_ok] at h
    obtain ⟨tokens, htokens, u, -, rfl⟩ := h
    exact ⟨htokens, hcheck, rfl⟩
  · rintro ⟨htokens, hcheck, htext⟩
    obtain ⟨text, tokens⟩ := f
    simp only at htokens hcheck htext
    refine bind_ok.mpr ⟨tokens, htokens, ?_⟩
    simp only [hcheck, htext]
    rfl

end Grammar

end CommandScript.Formula
