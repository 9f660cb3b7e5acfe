import CommandScript.Proofs.Engine.Data

/-!
# Commands keep the types of variables

A command that does not steer changes variables only to values of their types. Its faults do not say
that bookkeeping is missing, and none is a mismatch of types where the compiler admits the command,
unless the command works out a condition: what a text refers to is known at run time only.
-/

namespace CommandScript

theorem Value.yields_convert (v : Value) (t : ValueType) :
    (v.convert t).Yields (fun w => w.type = t) (Fault.Allowed (v.type = t)) := by
  refine Checked.yields_of (fun w hw => ?_) fun f hf => (fair_convert v t).of_error hf
  unfold Value.convert at hw
  split at hw
  · rename_i heq
    cases hw
    exact heq
  · cases t <;> first
      | (obtain ⟨_, -, rfl⟩ := Checked.map_ok.mp hw; rfl)
      | (cases hw; rfl)

/-- The commands that work at the desk. -/
def Command.isFile : Command → Bool
  | fileOpen .. | fileCreate _ | fileClose | fileRead _ | fileWrite _ | fileExists .. | fileSize _
  | fileLines _ | fileDelete _ | changeDirectory _ | makeDirectory _ | removeDirectory _
  | directory .. | scan _ => true
  | _ => false

namespace Engine

variable {f : Flow} {s : Store} {scan : String → Checked String} {p : Prop}

/-! ### Assignment -/

theorem stays_store (target : String) (v : Value) (line : Nat) :
    Stays (At f s scan) (store target f.viewpoint.owner v line) (fun _ => True)
      (Fault.Allowed (s.HasType target f.viewpoint.owner (v.type = ·))) := by
  refine stays_onMemory (stays_atomic fun m hm => ?_)
  have hwrite : (m.write target f.viewpoint.owner v line).Yields (fun m' => s.Fits m'.store)
      (Fault.Allowed (s.HasType target f.viewpoint.owner (v.type = ·))) := by
    rw [Memory.write_eq]
    exact Checked.Yields.bind (hm.keeps_write target f.viewpoint.owner (m.stamp line) v) fun _ h => h
  exact (Checked.yields_map_iff.mp hwrite).imp (fun _ h => ⟨h, trivial⟩) fun _ => id

theorem stays_change (line : Nat) {change : Stamp → StoreM Unit} [∀ stamp, Atomic (change stamp)]
    (h : ∀ stamp t, s.Fits t → s.Keeps p (t.leaves (change stamp))) :
    Stays (At f s scan) (Engine.change line change) (fun _ => True) (Fault.Allowed p) :=
  stays_get_bind fun _ _ => stays_onStore fun t ht =>
    (Checked.yields_map_iff.mp (h _ t ht)).imp (fun _ hfits => ⟨hfits, trivial⟩) fun _ => id

/-- What the target of an assignment holds. -/
theorem stays_old (target : String) :
    Stays (At f s scan) (onMemory (MemoryM.read target f.viewpoint.owner))
      (fun w => s.typeOf target f.viewpoint.owner = .ok w.type) (Fault.Allowed p) :=
  stays_onMemory ((f.viewpoint.stays_read target).imp (fun _ => id) fun _ hg =>
    Fault.allowed_of_kind hg.1 nofun nofun)

theorem stays_assignedNumber (target : String) (op : AssignOp) (g : Formula) :
    Stays (At f s scan) (assignedNumber target f.viewpoint.owner op g) (fun _ => True)
      (Fault.Allowed ((f.context s).checkFormula g = .ok () ∧
        s.HasType target f.viewpoint.owner (·.isArray = false))) := by
  refine ((stays_number g).imp (fun _ => id) fun _ hf => hf.imp And.left).bind fun new _ =>
    stays_ite (fun _ => stays_pure trivial) fun _ => (stays_old target).bind fun old hold => ?_
  refine Stays.bind (stays_lift ((fair_toInteger old).imp fun h => h.2 _ hold)) fun n _ => ?_
  exact stays_lift (fair_combine op n new)

theorem stays_assignedText (target : String) (op : AssignOp) (a : Argument) :
    Stays (At f s scan) (assignedText target f.viewpoint.owner op a) (fun _ => True)
      (Fault.Allowed (∃ t, (f.context s).argumentType a = .ok t)) :=
  (stays_text a).bind fun _ _ =>
    stays_ite (fun _ => (stays_old target).bind fun _ _ => stays_pure trivial) fun _ =>
      stays_pure trivial

/-- The condition on the right-hand side fails, or types fail to fit only where the compiler does not
admit the assignment. -/
theorem ensures_assignedTruth {e : Engine} (he : At f s scan e) (target : String) (op : AssignOp)
    (c : Condition) :
    Ensures (· = e) (assignedTruth target f.viewpoint.owner op c) (fun _ e' => At f s scan e')
      fun g e' => At f s scan e' ∧ ((truth c).run e = (.error g, e') ∨
        g.Allowed ((f.context s).Admits (.set target op (.truth c)))) := by
  have fails {x : EngineM Bool} (hx : Stays (At f s scan) x (fun _ => True)
      (Fault.Allowed ((f.context s).Admits (.set target op (.truth c))))) :
      Ensures (At f s scan) x (fun _ e' => At f s scan e') fun g e' => At f s scan e' ∧
        ((truth c).run e = (.error g, e') ∨
          g.Allowed ((f.context s).Admits (.set target op (.truth c)))) :=
    Ensures.imp hx (fun _ => id) (fun _ _ h => h.1) fun _ _ h => ⟨h.1, .inr h.2⟩
  have condition : Ensures (· = e) (truth c) (fun _ e' => At f s scan e')
      fun g e' => At f s scan e' ∧ ((truth c).run e = (.error g, e') ∨
        g.Allowed ((f.context s).Admits (.set target op (.truth c)))) := by
    rintro _ rfl
    have := stays_truth c _ he
    rcases hr : (truth c).run _ with ⟨g | b, e'⟩ <;> rw [hr] at this
    · exact ⟨this.1, .inl rfl⟩
    · exact this.1
  refine condition.bind fun new => ?_
  dsimp only
  split
  · exact fails (stays_pure trivial)
  case h_5 hset hand hor hxor =>
    refine fails (stays_throw (Fault.allowed_mismatch rfl fun h => ?_))
    obtain ⟨t, -, -, rfl | rfl | rfl | rfl⟩ := h.suits
    · exact hset rfl
    · exact hand rfl
    · exact hor rfl
    · exact hxor rfl
  all_goals
    refine fails (Stays.bind (Q := fun _ => True) ((stays_old target).bind fun old hold =>
      stays_lift ?_) fun _ _ => stays_pure trivial)
    refine (fair_toBoolean old).imp fun h => ?_
    obtain ⟨t, ht, rfl, -⟩ := h.suits
    rw [Except.ok.inj (hold.symm.trans ht)]
    rfl

/-- An assignment fails as the condition on its right-hand side does, or types fail to fit only where
the compiler does not admit it. -/
theorem ensures_assign {e : Engine} (he : At f s scan e) (line : Nat) (target : String)
    (op : AssignOp) (right : RightSide) :
    Ensures (· = e) (assign line target op right) (fun _ e' => At f s scan e')
      fun g e' => At f s scan e' ∧ ((∃ c, right = .truth c ∧ (truth c).run e = (.error g, e')) ∨
        g.Allowed ((f.context s).Admits (.set target op right))) := by
  have fails {right : RightSide} {x : EngineM Unit} (hx : Stays (At f s scan) x (fun _ => True)
      (Fault.Allowed ((f.context s).Admits (.set target op right)))) :
      Ensures (· = e) x (fun _ e' => At f s scan e') fun g e' => At f s scan e' ∧
        ((∃ c, right = .truth c ∧ (truth c).run e = (.error g, e')) ∨
          g.Allowed ((f.context s).Admits (.set target op right))) :=
    Ensures.imp hx (fun _ heq => heq ▸ he) (fun _ _ h => h.1) fun _ _ h => ⟨h.1, .inr h.2⟩
  refine ensures_get_bind fun e' heq => ?_
  obtain rfl := heq
  rw [he.owner_eq]
  refine Ensures.bind (Q := fun t e₁ => e₁ = e' ∧ s.typeOf target f.viewpoint.owner = .ok t)
    (ensures_lift (Checked.yields_of (fun t ht => ?_) fun g hg => ?_) (fun t e₁ h ht => ⟨h, ht⟩)
      fun g e₁ h hg => ⟨h ▸ he, .inr hg⟩) fun t => ensures_of_and fun ht => ?_
  · rw [← he.2.memory.typeOf_eq]
    exact ht
  · exact (Store.fair_typeOf _ _ _).of_error hg
  -- the type of the target is the one that the compiler saw
  have type_eq {t' : ValueType} (ht' : (f.context s).typeOf target = .ok t') : t = t' :=
    Except.ok.inj (ht.symm.trans ht')
  have stored {v : Value} {right : RightSide}
      (hv : (f.context s).Admits (.set target op right) → v.type = t) :
      Stays (At f s scan) (store target f.viewpoint.owner v line) (fun _ => True)
        (Fault.Allowed ((f.context s).Admits (.set target op right))) :=
    (stays_store target v line).imp (fun _ => id) fun _ hg => hg.imp fun h t' ht' =>
      (hv h).trans (type_eq ht')
  cases right with
  | number g =>
    refine fails ?_
    refine ((stays_assignedNumber target op g).imp (fun _ => id) fun _ hg => hg.imp fun h =>
      ⟨h.formulas g List.mem_cons_self, fun t' ht' => ?_⟩).bind fun n _ => stays_ite (fun hu => ?_)
        fun hu => ?_
    · obtain ⟨t₁, ht₁, rfl | rfl⟩ := h.suits
      · exact Except.ok.inj (ht'.symm.trans ht₁) ▸ rfl
      · exact Except.ok.inj (ht'.symm.trans ht₁) ▸ rfl
    · exact Stays.bind (stays_lift (fair_unsigned n)) fun u _ => stored fun _ => hu.symm
    · refine stored fun h => ?_
      obtain ⟨t₁, ht₁, h₁ | h₁⟩ := h.suits
      · exact ((type_eq ht₁).trans h₁).symm
      · exact absurd ((type_eq ht₁).trans h₁) hu
  | truth c =>
    refine Ensures.bind (Ensures.imp (ensures_assignedTruth he target op c) (fun _ => id)
      (fun _ _ => id) fun g e₂ h => ⟨h.1, h.2.imp_left fun h => ⟨c, rfl, h⟩⟩) fun b => ?_
    have hstored : Stays (At f s scan) (store target f.viewpoint.owner (.boolean b) line)
        (fun _ => True) (Fault.Allowed ((f.context s).Admits (.set target op (.truth c)))) := by
      refine stored fun h => ?_
      obtain ⟨t₁, ht₁, rfl, -⟩ := h.suits
      exact (type_eq ht₁).symm
    exact Ensures.imp hstored (fun _ => id) (fun _ _ h => h.1) fun _ _ h => ⟨h.1, .inr h.2⟩
  | text a =>
    refine fails ?_
    refine ((stays_assignedText target op a).imp (fun _ => id) fun _ hg => hg.imp fun h =>
      h.arguments a List.mem_cons_self).bind fun str _ => stored fun h => ?_
    obtain ⟨t₁, ht₁, rfl⟩ := h.suits
    exact (type_eq ht₁).symm
  | entries a =>
    refine fails ?_
    refine ((stays_value a).imp (fun _ => id) fun _ hg => hg.imp fun h =>
      h.arguments a List.mem_cons_self).bind fun v hv => stays_ite (fun hop => ?_) fun hop =>
        stays_ite (fun ha => ?_) fun ha => ?_
    · refine Stays.bind (stays_lift ((v.yields_convert t).imp (fun _ => id) fun _ hg =>
        hg.imp fun h => ?_)) fun w hw => stored fun _ => hw
      obtain ⟨t₁, ht₁, -, harg⟩ := h.suits
      rw [hv t₁ (harg hop), type_eq ht₁]
    · refine (stays_change line fun stamp m hm => hm.keeps_extend target _ stamp v).imp (fun _ => id)
        fun _ hg => hg.imp fun h t' ht' => ?_
      obtain ⟨t₁, ht₁, harray, -⟩ := h.suits
      exact Except.ok.inj (ht'.symm.trans ht₁) ▸ harray
    · refine (stays_change line fun stamp m hm => hm.keeps_append target _ stamp v).imp (fun _ => id)
        fun _ hg => hg.imp fun h t' ht' => ?_
      obtain ⟨t₁, ht₁, harray, -⟩ := h.suits
      exact ⟨Except.ok.inj (ht'.symm.trans ht₁) ▸ harray, fun _ => Bool.eq_false_iff.mpr ha⟩

/-! ### Arrays and files -/

theorem stays_filterArray (line : Nat) (array : String) (spec : FilterSpec) :
    Stays (At f s scan) (filterArray line array spec) (fun _ => True)
      (Fault.Allowed ((f.context s).Admits (.filter array spec))) := by
  refine stays_get_bind fun e he => ?_
  rw [he.owner_eq]
  have select (g : Filter) : Stays (At f s scan) (do
      let n ← onStore (StoreM.filter array f.viewpoint.owner g)
      modify fun e => e.report .vars s!"FILTER {array}: {n} selected" : EngineM Unit) (fun _ => True)
      (Fault.Allowed (s.HasType array f.viewpoint.owner (· = g.target))) :=
    Stays.bind (Q := fun _ => True) (stays_onStore fun t ht =>
      (ht.keeps_filter array _ g).imp (fun _ h => ⟨h, trivial⟩) fun _ => id) fun n _ =>
        stays_report _ _
  cases spec with
  | apply =>
    refine stays_get_bind fun e' _ => Stays.bind (Q := fun _ => True) (stays_onStore fun t ht =>
      (ht.keeps_applyFilter array _ _).imp (fun _ h => ⟨h, trivial⟩) fun _ hg => hg.imp
        fun h t' ht' => ?_) fun n _ => stays_report _ _
    obtain ⟨t₁, ht₁, harray⟩ := h.suits
    exact Except.ok.inj (ht'.symm.trans ht₁) ▸ harray
  | text inverted anchor a =>
    exact ((stays_text a).imp (fun _ => id) fun _ hg => hg.imp fun h =>
      h.arguments a List.mem_cons_self).bind fun t _ => (select _).imp (fun _ => id) fun _ hg =>
        hg.imp fun h t' ht' => Except.ok.inj (ht'.symm.trans h.suits)
  | number r g =>
    exact ((stays_number g).imp (fun _ => id) fun _ hg => hg.imp fun h =>
      h.formulas g List.mem_cons_self).bind fun n _ => (select _).imp (fun _ => id) fun _ hg =>
        hg.imp fun h t' ht' => Except.ok.inj (ht'.symm.trans h.suits)

/-- The place that a bound gives, and the item, which has its type. -/
theorem stays_indexed (index : Bound) (item : Argument) :
    Stays (At f s scan) (indexed index item)
      (fun r => ∀ t, (f.context s).argumentType item = .ok t → r.2.type = t)
      (Fault.Allowed ((∀ name, index = .named name → (f.context s).Counts name) ∧
        ∃ t, (f.context s).argumentType item = .ok t)) := by
  refine stays_seen (Stays.bind ((f.viewpoint.stays_position (s := s) index).imp (fun _ => id)
    fun g ⟨name, hname, hg⟩ => hg.allowed.imp fun h => h.1 name hname) fun n _ => ?_)
  exact ((Viewpoint.stays_argument item).imp (fun _ => id) fun _ hg => hg.imp And.right).bind
    fun w hw => stays_pure hw

theorem stays_changeArray (line : Nat) {change : String → Stamp → StoreM Unit}
    [∀ owner stamp, Atomic (change owner stamp)]
    (h : ∀ stamp t, s.Fits t → s.Keeps p (t.leaves (change f.viewpoint.owner stamp))) :
    Stays (At f s scan) (changeArray line change) (fun _ => True) (Fault.Allowed p) := by
  refine Stays.bind (Q := fun _ => True) (stays_get_bind fun e he => ?_)
    fun _ _ => stays_pure trivial
  rw [he.owner_eq]
  exact stays_change line h

theorem stays_fileCommand {command : Command} (h : command.isFile = true) :
    Stays (At f s scan) (fileCommand command) (fun _ => True) fun g =>
      g.Allowed ((f.context s).Admits command) ∨
        (∃ path, command = .scan path) ∧ ScanFault scan g := by
  have plain {x : EngineM Unit} (hx : Stays (At f s scan) x (fun _ => True)
      (Fault.Allowed ((f.context s).Admits command))) :
      Stays (At f s scan) x (fun _ => True) fun g =>
        g.Allowed ((f.context s).Admits command) ∨
          (∃ path, command = .scan path) ∧ ScanFault scan g :=
    hx.imp (fun _ => id) fun _ => .inl
  have argument {a : Argument} (ha : a ∈ command.arguments) :
      Stays (At f s scan) (text a) (fun _ => True) (Fault.Allowed ((f.context s).Admits command)) :=
    (stays_text a).imp (fun _ => id) fun _ hg => hg.imp fun h => h.arguments a ha
  have told {α : Type} {path : Argument} (hp : path ∈ command.arguments)
      {action : String → Files.DeskM α}
      (hd : ∀ path, Files.Desk.FailsByIo (action path)) (g : α → Cells → Cells) :
      Stays (At f s scan) (do
        let path ← text path
        let a ← onDesk (action path)
        onCells (g a) : EngineM Unit) (fun _ => True)
        (Fault.Allowed ((f.context s).Admits command)) :=
    (argument hp).bind fun _ _ => (stays_onDesk (hd _)).bind fun _ _ => stays_onCells _
  unfold fileCommand
  cases command <;> cases h <;> dsimp only
  case fileOpen path mode =>
    exact plain ((argument List.mem_cons_self).bind fun _ _ =>
      stays_onDesk (Files.Desk.failsByIo_openFile _ _))
  case fileCreate path =>
    exact plain ((argument List.mem_cons_self).bind fun _ _ =>
      stays_onDesk (Files.Desk.failsByIo_create _))
  case fileClose => exact plain (stays_onDesk Files.Desk.failsByIo_close)
  case fileRead n =>
    have read (p : Prop) (n : Option Nat) : Stays (At f s scan) (do
        let lines ← onDesk (Files.Desk.readLines n)
        onCells fun cells => { cells with status := !lines.isEmpty, response := lines } :
          EngineM Unit) (fun _ => True) (Fault.Allowed p) :=
      (stays_onDesk (Files.Desk.failsByIo_readLines n)).bind fun _ _ => stays_onCells _
    cases n with
    | some g =>
      exact plain (Stays.bind (Q := fun _ => True) (((stays_counted g).imp (fun _ => id) fun _ hg =>
        hg.imp fun h => h.formulas g List.mem_cons_self).map fun _ _ => trivial) fun _ _ => read _ _)
    | none => exact plain (Stays.bind (Q := fun _ => True) (stays_pure trivial) fun _ _ => read _ _)
  case fileWrite a =>
    exact plain ((argument List.mem_cons_self).bind fun _ _ =>
      stays_onDesk (Files.Desk.failsByIo_writeLine _))
  case fileExists path check =>
    exact plain ((argument List.mem_cons_self).bind fun _ _ => stays_get_bind fun _ _ =>
      stays_onCells _)
  case fileSize path => exact plain (told List.mem_cons_self Files.Desk.failsByIo_size _)
  case fileLines path => exact plain (told List.mem_cons_self Files.Desk.failsByIo_lineCount _)
  case fileDelete path =>
    exact plain ((argument List.mem_cons_self).bind fun _ _ =>
      stays_onDesk (Files.Desk.failsByIo_delete _))
  case changeDirectory path =>
    exact plain ((argument List.mem_cons_self).bind fun _ _ =>
      stays_onDesk (Files.Desk.failsByIo_changeDirectory _))
  case makeDirectory path =>
    exact plain ((argument List.mem_cons_self).bind fun _ _ =>
      stays_onDesk (Files.Desk.failsByIo_makeDirectory _))
  case removeDirectory path =>
    exact plain ((argument List.mem_cons_self).bind fun _ _ =>
      stays_onDesk (Files.Desk.failsByIo_removeDirectory _))
  case directory path wanted =>
    exact plain (told List.mem_cons_self (Files.Desk.failsByIo_list · wanted) _)
  case scan path =>
    refine ((argument List.mem_cons_self).imp (fun _ => id) fun _ => .inl).bind fun path _ =>
      stays_get_bind fun e he => Stays.bind (Q := fun _ => True) (stays_lift ?_) fun found _ =>
        (stays_onCells _).imp (fun _ => id) fun _ => .inl
    exact Checked.yields_of (fun _ _ => trivial) fun g hg => .inr ⟨⟨_, rfl⟩, _, he.2.scan ▸ hg⟩

/-! ### All commands that do not steer -/

theorem stays_assign (line : Nat) (target : String) (op : AssignOp) (right : RightSide) :
    Stays (At f s scan) (assign line target op right) (fun _ => True)
      (Fault.Allowed ((f.context s).Admits (.set target op right) ∧
        (Command.set target op right).conditions = [])) := by
  intro e he
  refine Ensures.imp (ensures_assign he line target op right) (fun _ => id)
    (fun _ _ h => ⟨h, trivial⟩)
    (fun g e' h => ⟨h.1, ?_⟩) e rfl
  rcases h.2 with ⟨c, rfl, hc⟩ | h
  · exact ((stays_truth c).of_error he hc).2.imp fun h => by cases h.2
  · exact h.imp And.left

/-- What a command does to an array that the compiler saw. -/
theorem hasType_of_suits {array : String} {q : ValueType → Prop}
    (h : ∃ t, (f.context s).typeOf array = .ok t ∧ q t) : s.HasType array f.viewpoint.owner q := by
  obtain ⟨t, ht, hq⟩ := h
  exact fun t' ht' => Except.ok.inj (ht'.symm.trans ht) ▸ hq

/-- A command that does not steer and works out no condition has no fault of types where the compiler
admits it. -/
theorem stays_execute {entry : Entry} (h : entry.command.steers = false) :
    Stays (At f s scan) (execute entry) (fun _ => True) fun g =>
      g.Allowed ((f.context s).Admits entry.command ∧ entry.command.conditions = []) ∨
        (∃ path, entry.command = .scan path) ∧ ScanFault scan g := by
  have plain {x : EngineM Move} (hx : Stays (At f s scan) x (fun _ => True)
      (Fault.Allowed ((f.context s).Admits entry.command ∧ entry.command.conditions = []))) :
      Stays (At f s scan) x (fun _ => True) fun g =>
        g.Allowed ((f.context s).Admits entry.command ∧ entry.command.conditions = []) ∨
          (∃ path, entry.command = .scan path) ∧ ScanFault scan g :=
    hx.imp (fun _ => id) fun _ => .inl
  have next {x : EngineM Unit} {E : Fault → Prop} (hx : Stays (At f s scan) x (fun _ => True) E) :
      Stays (At f s scan) (andNext x) (fun _ => True) E :=
    hx.bind fun _ _ => stays_pure trivial
  have admitted {g : Fault} {q : Prop} (hg : g.Allowed q)
      (hq : (f.context s).Admits entry.command → q) :
      g.Allowed ((f.context s).Admits entry.command ∧ entry.command.conditions = []) :=
    hg.imp fun h => hq h.1
  -- an item goes into an array that takes it
  have takes {array : String} {item : Argument} {v : Value}
      (hv : ∀ t, (f.context s).argumentType item = .ok t → v.type = t)
      (h : ∃ t, (f.context s).typeOf array = .ok t ∧ t.isArray = true ∧
        ∃ found, (f.context s).argumentType item = .ok found ∧ found.isArray = false) :
      s.Takes array f.viewpoint.owner v.type := by
    obtain ⟨t, ht, harray, found, hfound, hitem⟩ := h
    exact hasType_of_suits ⟨t, ht, harray, fun _ => hv found hfound ▸ hitem⟩
  unfold execute
  cases hc : entry.command <;> rw [hc] at h plain admitted <;> cases h <;> dsimp only
  case allocate => exact stays_pure trivial
  case set target op right => exact plain (next (stays_assign _ _ _ _))
  case setRandom g =>
    refine plain (next (((stays_number g).imp (fun _ => id) fun _ hg => admitted hg fun h =>
      h.formulas g List.mem_cons_self).bind fun n _ => stays_onStore fun t ht => ?_))
    rw [Store.outcome_withModulus]
    refine Checked.Yields.bind (Q := fun _ => True) ?_ fun cells _ => ⟨ht.withCells cells, trivial⟩
    unfold Cells.withModulus
    split
    · trivial
    · exact Fault.allowed_range
  case print a =>
    refine plain (next (((stays_text a).imp (fun _ => id) fun _ hg => admitted hg fun h =>
      h.arguments a List.mem_cons_self).bind fun line _ => stays_print line))
  case run options => exact plain (next (stays_applyOptions passesOptions_at options))
  case insert array index item =>
    refine plain (((stays_indexed index item).imp (fun _ => id) fun _ hg => admitted hg fun h =>
      ⟨fun name hname => h.bounds name (hname ▸ List.mem_cons_self),
        h.arguments item List.mem_cons_self⟩).bind fun ⟨n, v⟩ hv => ?_)
    exact stays_changeArray _ fun stamp t ht => (ht.keeps_insert ..).imp (fun _ => id) fun _ hg =>
      admitted hg fun h => takes hv h.suits
  case append array item =>
    refine plain (((stays_value item).imp (fun _ => id) fun _ hg => admitted hg fun h =>
      h.arguments item List.mem_cons_self).bind fun v hv => ?_)
    exact stays_changeArray _ fun stamp t ht => (ht.keeps_append ..).imp (fun _ => id) fun _ hg =>
      admitted hg fun h => takes hv h.suits
  case modify array index item =>
    refine plain (((stays_indexed index item).imp (fun _ => id) fun _ hg => admitted hg fun h =>
      ⟨fun name hname => h.bounds name (hname ▸ List.mem_cons_self),
        h.arguments item List.mem_cons_self⟩).bind fun ⟨n, v⟩ hv => ?_)
    exact stays_changeArray _ fun stamp t ht => (ht.keeps_modify ..).imp (fun _ => id) fun _ hg =>
      admitted hg fun h => takes hv h.suits
  case remove array index =>
    refine plain (((stays_seen (Viewpoint.stays_positions (s := s) index)).imp (fun _ => id)
      fun g ⟨name, hname, hg⟩ => admitted hg.allowed fun h => h.bounds name hname).bind
        fun ⟨first, last⟩ _ => ?_)
    exact stays_changeArray _ fun stamp t ht => (ht.keeps_remove ..).imp (fun _ => id) fun _ hg =>
      admitted hg fun h => hasType_of_suits h.suits
  case truncate array g =>
    refine plain (((stays_counted g).imp (fun _ => id) fun _ hg => admitted hg fun h =>
      h.formulas g List.mem_cons_self).bind fun n _ => ?_)
    exact stays_changeArray _ fun stamp t ht => (ht.keeps_truncate ..).imp (fun _ => id) fun _ hg =>
      admitted hg fun h => hasType_of_suits h.suits
  case pop array g =>
    refine plain (((stays_counted g).imp (fun _ => id) fun _ hg => admitted hg fun h =>
      h.formulas g List.mem_cons_self).bind fun n _ => ?_)
    exact stays_changeArray _ fun stamp t ht => (ht.keeps_pop ..).imp (fun _ => id) fun _ hg =>
      admitted hg fun h => hasType_of_suits h.suits
  case clear name =>
    exact plain (stays_changeArray _ fun stamp t ht => ht.keeps_clear ..)
  case filter array spec =>
    exact plain (next ((stays_filterArray _ array spec).imp (fun _ => id) fun _ hg =>
      admitted hg id))
  case reset array =>
    exact plain (stays_changeArray _ fun stamp t ht => (ht.keeps_resetFilter ..).imp (fun _ => id)
      fun _ hg => admitted hg fun h => hasType_of_suits h.suits)
  all_goals
    exact next ((stays_fileCommand rfl).imp (fun _ => id) fun _ hg =>
      hg.imp_left fun hg => admitted hg id)

end Engine

end CommandScript
