import CommandScript.Calendar
import CommandScript.Engine.Execution
import CommandScript.Proofs.Ensures
import CommandScript.Proofs.Formula.Value
import CommandScript.Reference

/-!
# Faults that say that bookkeeping is missing

The tables of a program and the chains and loops in progress are looked up with faults for what is
not there. `Fault.SaysMissing` tells these faults by their texts. No other operation that a command
calls has such a fault: most faults are of another kind, and those of the same kind begin otherwise.
Along with this it is shown where operations on values find a type that does not fit: an operation is
`Fair` on a condition if under this condition it does not.
-/

namespace CommandScript

/-! ### What an index and a trait make of a value

The rules that give a reference its type are the rules by which values are picked and viewed: an
index that has a type on the type of a value picks a value of that type, or its positions are at
fault, and a trait that has a type there views it as a value of that type. -/

/-- The fault of a position: it is negative, the positions of a range are the wrong way round, or
there is no such entry. -/
inductive PositionFault : Fault → Prop
  | negative (n : Int64) : PositionFault (.cause .runtime s!"index {n} is negative")
  | reversed (first last : Nat) :
      PositionFault (.cause .runtime s!"index range [{first}-{last}] is reversed")
  | outside (shown : String) (size : Nat) :
      PositionFault (.cause .runtime s!"index {shown} out of range for size {size}")

namespace Value

/-- What an index picks from a value between two positions. -/
def picked (v : Value) (index : Index) (first last : Nat) : Checked Value :=
  match index with
  | .single _ => v.pick first none
  | .range _ _ => v.pick first (some last)

theorem yields_picked (v : Value) (index : Index) (first last : Nat) :
    (v.picked index first last).Yields (fun w => index.pickedType v.type = some w.type) fun f =>
      PositionFault f ∨ f.kind = .typeMismatch ∧ index.pickedType v.type = none := by
  have inside {Q : Value → Prop} {p : Prop} {shown : String} {size stop : Nat} {w : Checked Value}
      (hw : w.Yields Q fun f => PositionFault f ∨ f.kind = .typeMismatch ∧ p) :
      Checked.Yields Q (fun f => PositionFault f ∨ f.kind = .typeMismatch ∧ p) (do
        (if size ≤ stop then
          Checked.fail .runtime s!"index {shown} out of range for size {size}" else pure () :
            Checked Unit)
        w) :=
    Checked.Yields.bind (Q := fun _ => True)
      (Checked.yields_ite (fun _ => .inl (.outside _ _)) fun _ => trivial) fun _ _ => hw
  unfold picked pick
  cases index <;> cases v <;> dsimp only <;>
    refine Checked.yields_ite (fun _ => .inl (.reversed _ _)) fun _ => ?_
  all_goals first | exact .inr ⟨rfl, rfl⟩ | exact inside rfl

end Value

namespace Trait

theorem yields_apply (t : Trait) (v : Value) :
    (t.apply v).Yields (fun w => t.resultType v.type = .ok w.type) fun f =>
      f.kind = .traitType ∧ (t = .filter ∨ t.isDate = true ∨ t.isMetadata = true ∨
        ∀ type, t.resultType v.type ≠ .ok type) := by
  cases t <;> cases v <;>
    first
      | exact rfl
      | exact ⟨rfl, .inl rfl⟩
      | exact ⟨rfl, .inr (.inl rfl)⟩
      | exact ⟨rfl, .inr (.inr (.inl rfl))⟩
      | exact ⟨rfl, .inr (.inr (.inr nofun))⟩

end Trait

/-- The date traits view a day as they would view its text. -/
theorem Day.yields_view (d : Day) (t : Trait) :
    (d.view t).Yields (fun w => t.resultType .string = .ok w.type) fun f =>
      f.kind = .traitType ∧ t.isDate = false := by
  cases t <;> first | exact rfl | exact ⟨rfl, rfl⟩

/-! ### Faults of operations -/

/-- The texts for bookkeeping that is not there. -/
inductive Bookkeeping : String → Prop
  | entry (what : String) : Bookkeeping s!"missing bookkeeping for {what}"
  | chain (ifIndex : Nat) : Bookkeeping s!"missing IF state for command {ifIndex}"
  | loop (id : LoopId) : Bookkeeping s!"loop {id} is not running"
  | file (keyword : Keyword) : Bookkeeping s!"{keyword} is not a file command"

namespace Fault

/-- The detail of the innermost cause. -/
def detail : Fault → String
  | cause _ d => d
  | framed _ source => source.detail
  | onLine _ _ source => source.detail

def SaysMissing (f : Fault) : Prop :=
  f.kind = .runtime ∧ Bookkeeping f.detail

@[simp] theorem detail_atLine (n : Nat) (text : String) (f : Fault) :
    (f.atLine n text).detail = f.detail := by
  unfold atLine
  split <;> rfl

theorem saysMissing_atLine {n : Nat} {text : String} {f : Fault} :
    (f.atLine n text).SaysMissing ↔ f.SaysMissing := by
  simp [SaysMissing]

theorem not_saysMissing_of_kind {f : Fault} (h : f.kind ≠ .runtime) : ¬f.SaysMissing :=
  fun hm => h hm.1

end Fault

/-- The first character that is not passed over is the same behind a longer text. -/
theorem head_dropWhile_append {p : Char → Bool} {s t : String} {c : Char}
    (h : (s.toList.dropWhile p).head? = some c) :
    ((s ++ t).toList.dropWhile p).head? = some c := by
  rw [String.toList_append, List.dropWhile_append]
  cases hs : s.toList.dropWhile p with
  | nil =>
    rw [hs] at h
    cases h
  | cons x rest =>
    rw [hs] at h
    exact h

theorem head_append {s t : String} {c : Char} (h : s.toList.head? = some c) :
    (s ++ t).toList.head? = some c := by
  simp [String.toList_append, List.head?_append, h]

theorem getLast_append {s t : String} {c : Char} (h : t.toList.getLast? = some c) :
    (s ++ t).toList.getLast? = some c := by
  simp [String.toList_append, List.getLast?_append, h]

namespace Bookkeeping

variable {d : String} {c : Char}

/-- Such a text begins with a word, and a blank stands behind it. -/
theorem head_dropWhile (h : Bookkeeping d) : (d.toList.dropWhile isNameChar).head? = some ' ' := by
  cases h with
  | entry what => exact head_dropWhile_append (by decide)
  | chain ifIndex => exact head_dropWhile_append (by decide)
  | loop id => exact head_dropWhile_append (head_dropWhile_append (by decide))
  | file keyword => cases keyword <;> decide +kernel

/-- How such a text may begin. -/
def isLead (c : Char) : Bool :=
  c == 'm' || c == 'l' || c.isUpper

theorem head_isLead (h : Bookkeeping d) : ∃ c, d.toList.head? = some c ∧ isLead c = true := by
  cases h with
  | entry what => exact ⟨'m', head_append (by decide), rfl⟩
  | chain ifIndex => exact ⟨'m', head_append (by decide), rfl⟩
  | loop id => exact ⟨'l', head_append (head_append (by decide)), rfl⟩
  | file keyword =>
    have hword : ∃ c, keyword.word.toList.head? = some c ∧ isLead c = true := by
      cases keyword <;> exact ⟨_, rfl, rfl⟩
    obtain ⟨c, hc, hlead⟩ := hword
    exact ⟨c, head_append hc, hlead⟩

theorem not_of_head (h : d.toList.head? = some c) (hc : isLead c = false) : ¬Bookkeeping d := by
  intro hb
  obtain ⟨c', h', hlead⟩ := hb.head_isLead
  obtain rfl := Option.some.inj (h.symm.trans h')
  rw [hc] at hlead
  cases hlead

/-- The text for a step of zero ends otherwise than that for a loop which does not run. -/
theorem not_zeroStep (name : String) : ¬Bookkeeping s!"loop {name} has a zero step" := by
  intro h
  have hhead : s!"loop {name} has a zero step".toList.head? = some 'l' :=
    head_append (head_append (by decide))
  have hlast : s!"loop {name} has a zero step".toList.getLast? = some 'p' :=
    getLast_append (by decide)
  generalize s!"loop {name} has a zero step" = d at h hhead hlast
  cases h with
  | entry what =>
    have h : s!"missing bookkeeping for {what}".toList.head? = some 'm' := head_append (by decide)
    cases hhead.symm.trans h
  | chain ifIndex =>
    have h : s!"missing IF state for command {ifIndex}".toList.head? = some 'm' :=
      head_append (by decide)
    cases hhead.symm.trans h
  | loop id =>
    have h : s!"loop {id} is not running".toList.getLast? = some 'g' := getLast_append (by decide)
    cases hlast.symm.trans h
  | file keyword =>
    have h : s!"{keyword} is not a file command".toList.getLast? = some 'd' :=
      getLast_append (by decide)
    cases hlast.symm.trans h

/-- Behind a valid name a bracket is the first character that is not part of the name. -/
theorem head_dropWhile_name {name : String} (h : isValidName name = true) :
    ((name ++ "[").toList.dropWhile isNameChar).head? = some '[' := by
  have hall : ∀ c ∈ name.toList, isNameChar c = true := by
    unfold isValidName isName at h
    split at h
    · cases h
    · rename_i c rest heq
      simp only [Bool.and_eq_true, List.all_eq_true] at h
      intro c' hc'
      rw [heq] at hc'
      rcases List.mem_cons.mp hc' with rfl | hc'
      · simp [isNameChar, Char.isAlphanum, h.1]
      · exact h.2 c' hc'
  rw [String.toList_append, List.dropWhile_append_of_pos hall]
  rfl

/-- No such text begins with a name and a bracket. -/
theorem not_of_name {name : String} (h : isValidName name = true) (a b c d : String) :
    ¬Bookkeeping (name ++ "[" ++ a ++ b ++ c ++ d) := by
  intro hb
  have hbracket := head_dropWhile_append (t := d) (head_dropWhile_append (t := c)
    (head_dropWhile_append (t := b) (head_dropWhile_append (t := a) (head_dropWhile_name h))))
  cases hbracket.symm.trans hb.head_dropWhile

end Bookkeeping

namespace Fault

/-- The fault does not say that bookkeeping is missing, and under the condition it is no mismatch of
types. -/
def Allowed (fitting : Prop) (f : Fault) : Prop :=
  ¬f.SaysMissing ∧ (fitting → f.kind ≠ .typeMismatch)

variable {p q : Prop} {f : Fault} {k : FaultKind} {d : String}

theorem Allowed.imp (h : f.Allowed p) (hq : q → p) : f.Allowed q :=
  ⟨h.1, fun hfit => h.2 (hq hfit)⟩

theorem Allowed.framed (h : f.Allowed p) (text : String) : (Fault.framed text f).Allowed p :=
  h

theorem allowed_of_kind (hk : f.kind = k) (hr : k ≠ .runtime) (hm : k ≠ .typeMismatch) :
    f.Allowed p :=
  ⟨fun h => hr (hk.symm.trans h.1), fun _ => hk ▸ hm⟩

theorem allowed_mismatch (hk : f.kind = .typeMismatch) (h : ¬p) : f.Allowed p :=
  ⟨not_saysMissing_of_kind (by rw [hk]; decide), fun hp => absurd hp h⟩

theorem allowed_runtime (h : ¬Bookkeeping d) : (cause .runtime d).Allowed p :=
  ⟨fun hm => h hm.2, fun _ => nofun⟩

theorem allowed_range : (cause .range d).Allowed p := allowed_of_kind rfl nofun nofun

end Fault

section Fair

variable {α β : Type} {p q : Prop}

/-- The operation has only faults that are allowed. -/
abbrev Checked.Fair (fitting : Prop) (x : Checked α) : Prop :=
  x.Yields (fun _ => True) (Fault.Allowed fitting)

theorem Checked.Fair.imp {x : Checked α} (h : x.Fair p) (hq : q → p) : x.Fair q :=
  Checked.Yields.imp h (fun _ => id) fun _ hf => hf.imp hq

theorem Checked.Fair.bind {x : Checked α} {k : α → Checked β} (hx : x.Fair p)
    (hk : ∀ a, (k a).Fair p) : (x >>= k).Fair p :=
  Checked.Yields.bind hx fun a _ => hk a

theorem Checked.Fair.map {x : Checked α} {g : α → β} (hx : x.Fair p) : (g <$> x).Fair p :=
  Checked.Yields.map hx fun _ _ => trivial

/-! ### Numbers and values -/

/-- A text that is no number is refused as one, whichever it was to be. -/
theorem yields_refuse (type raw : String) :
    (Numeral.refuse (α := α) type raw).Yields (fun _ => True) fun f =>
      f.kind = .format ∨ f.kind = .overflow :=
  Checked.yields_ite (fun _ => .inr rfl) fun _ => .inl rfl

theorem fair_refuse (type raw : String) : (Numeral.refuse (α := α) type raw).Fair p :=
  (yields_refuse type raw).imp (fun _ => id) fun _ hf =>
    hf.elim (Fault.allowed_of_kind · nofun nofun) (Fault.allowed_of_kind · nofun nofun)

theorem fair_readInteger (raw : String) : (Numeral.readInteger raw).Fair p := by
  unfold Numeral.readInteger
  split
  · trivial
  · exact fair_refuse _ _

theorem fair_unsigned (n : Int64) : (Numeral.unsigned n).Fair p :=
  Checked.yields_ite (fun _ => trivial) fun _ => Fault.allowed_range

theorem fair_readUnsigned (raw : String) : (Numeral.readUnsigned raw).Fair p :=
  (fair_readInteger raw).bind fair_unsigned

theorem fair_readBoolean (raw : String) : (Numeral.readBoolean raw).Fair p := by
  refine Checked.yields_ite (fun _ => trivial) fun _ =>
    Checked.yields_ite (fun _ => trivial) fun _ => ?_
  split
  · trivial
  · exact fair_refuse _ _

/-- Only a text can be at fault as a number, unless an array is asked for one. -/
theorem yields_toInteger (v : Value) :
    v.toInteger.Yields (fun _ => True) fun f =>
      (f.kind = .format ∨ f.kind = .overflow) ∧ v.type = .string ∨
        f.kind = .typeMismatch ∧ v.type.isArray = true := by
  cases v with
  | string s =>
    change (Numeral.readInteger s).Yields _ _
    unfold Numeral.readInteger
    split
    · trivial
    · exact (yields_refuse _ _).imp (fun _ => id) fun _ hf => .inl ⟨hf, rfl⟩
  | strings | integers => exact .inr ⟨rfl, rfl⟩
  | _ => trivial

theorem fair_toInteger (v : Value) : v.toInteger.Fair (v.type.isArray = false) :=
  (yields_toInteger v).imp (fun _ => id) fun f hf => by
    rcases hf with ⟨hf | hf, -⟩ | ⟨hf, ha⟩
    · exact Fault.allowed_of_kind hf nofun nofun
    · exact Fault.allowed_of_kind hf nofun nofun
    · exact Fault.allowed_mismatch hf (by simp [ha])

theorem fair_toUnsigned (v : Value) : v.toUnsigned.Fair (v.type.isArray = false) := by
  cases v with
  | unsigned n => trivial
  | string s => exact fair_readUnsigned s
  | _ => exact (fair_toInteger _).bind fair_unsigned

theorem fair_toBoolean (v : Value) : v.toBoolean.Fair (v.type.isArray = false) := by
  cases v with
  | string s => exact fair_readBoolean s
  | strings | integers => exact Fault.allowed_mismatch rfl nofun
  | _ => trivial

theorem fair_toIntegers (v : Value) : v.toIntegers.Fair p := by
  cases v with
  | integers items => trivial
  | strings items =>
    exact (Checked.yields_mapM fun s _ => fair_readInteger s).imp (fun _ _ => trivial) fun _ => id
  | _ => exact ((fair_toInteger _).imp fun _ => rfl).bind fun _ => trivial

/-- A value of the type asked for is kept. -/
theorem fair_convert (v : Value) (t : ValueType) : (v.convert t).Fair (v.type = t) := by
  refine Checked.yields_ite (fun _ => trivial) fun hne => ?_
  have any {α : Type} {x : Checked α} {q : Prop} (hx : x.Fair q) : x.Fair (v.type = t) :=
    hx.imp fun heq => absurd heq hne
  cases t with
  | integer => exact (any (fair_toInteger v)).map
  | unsigned => exact (any (fair_toUnsigned v)).map
  | boolean => exact (any (fair_toBoolean v)).map
  | integers => exact (fair_toIntegers v).map
  | _ => trivial

theorem fair_apply (op : Operator) (a b : Int64) : (op.apply a b).Fair p :=
  Checked.yields_of (fun _ _ => trivial) fun f hf => by
    rcases Operator.apply_error hf with rfl | rfl
    · exact Fault.allowed_of_kind rfl nofun nofun
    · exact Fault.allowed_runtime (Bookkeeping.not_of_head (c := 'o')
        (head_append (head_append (head_append (head_append (head_append (by decide)))))) rfl)

theorem fair_combine (op : AssignOp) (a b : Int64) : (op.combine a b).Fair p := by
  cases op <;> first | exact fair_apply _ _ _ | trivial

theorem fair_test (r : Relation) (a b : Value) : (r.test a b).Fair False := by
  have any {v : Value} {α : Type} {x : Checked α} (hx : x.Fair (v.type.isArray = false)) :
      x.Fair False := hx.imp False.elim
  refine Checked.yields_ite (fun _ => Fault.allowed_mismatch rfl id) fun _ =>
    Checked.yields_ite (fun _ => ?_) fun _ => ?_
  · refine (any (fair_toBoolean a)).bind fun x => (any (fair_toBoolean b)).bind fun y => ?_
    cases r <;> first | trivial | exact Fault.allowed_mismatch rfl id
  · split
    · trivial
    · exact (any (fair_toInteger a)).bind fun x => (any (fair_toInteger b)).bind fun y => trivial

/-! ### Entries of arrays -/

namespace Value

variable (v : Value) (name : String)

theorem yields_changeWith (item : Value) (change : {α : Type} → List α → α → List α) :
    (v.changeWith name item change).Yields (fun w => w.type = v.type) (Fault.Allowed
      (v.type.isArray = true ∧ (v.type = .integers → item.type.isArray = false))) := by
  cases v with
  | strings items => rfl
  | integers items =>
    exact Checked.Yields.bind ((fair_toInteger item).imp fun h => h.2 rfl) fun _ _ => rfl
  | _ => exact Fault.allowed_mismatch rfl fun h => by cases h.1

theorem yields_change (f : {α : Type} → List α → List α) :
    (v.change name f).Yields (fun w => w.type = v.type)
      (Fault.Allowed (v.type.isArray = true)) := by
  cases v with
  | strings | integers => rfl
  | _ => exact Fault.allowed_mismatch rfl nofun

theorem yields_extendItems (more : Value) :
    (v.extendItems name more).Yields (fun w => w.type = v.type)
      (Fault.Allowed (v.type.isArray = true)) := by
  cases v with
  | strings items => rfl
  | integers items => exact Checked.Yields.bind (fair_toIntegers more) fun _ _ => rfl
  | _ => exact Fault.allowed_mismatch rfl nofun

end Value

theorem PositionFault.allowed {f : Fault} (h : PositionFault f) : f.Allowed p := by
  cases h with
  | negative n =>
    exact Fault.allowed_runtime (Bookkeeping.not_of_head (c := 'i')
      (head_append (head_append (by decide))) rfl)
  | reversed first last =>
    exact Fault.allowed_runtime (Bookkeeping.not_of_head (c := 'i')
      (head_append (head_append (head_append (head_append (by decide))))) rfl)
  | outside shown size =>
    exact Fault.allowed_runtime (Bookkeeping.not_of_head (c := 'i')
      (head_append (head_append (head_append (by decide)))) rfl)

end Fair

end CommandScript
