import CommandScript.Engine.Run
import CommandScript.Proofs.Engine.Arguments
import CommandScript.Proofs.Files.Desk
import CommandScript.Proofs.Unplaced

/-!
# Executing a command attaches no line

Values, variables, files and the flow of a program are at fault without a line. The one command whose fault
may bring a line along is the one that reads a picture, and then what reads pictures gave it
(`Engine.line?_of_execute`).
-/

namespace CommandScript

open Checked Text

/-! ### Values -/

@[grind .]
instance Numeral.unplaced_refuse {α : Type} (type raw : String) :
    (refuse type raw : Checked α).Unplaced := by
  unfold refuse
  grind

@[grind .]
instance Numeral.unplaced_readBoolean (raw : String) : (readBoolean raw).Unplaced := by
  unfold readBoolean
  grind

namespace Value

variable (v : Value) (name : String) (item : Value)

@[grind .]
instance unplaced_toInteger : v.toInteger.Unplaced := by
  unfold toInteger
  grind

@[grind .]
instance unplaced_toUnsigned : v.toUnsigned.Unplaced := by
  unfold toUnsigned
  grind

@[grind .]
instance unplaced_toBoolean : v.toBoolean.Unplaced := by
  unfold toBoolean
  grind

@[grind .]
instance unplaced_toIntegers : v.toIntegers.Unplaced := by
  unfold toIntegers
  grind

@[grind .]
instance unplaced_convert (t : ValueType) : (v.convert t).Unplaced := by
  unfold convert
  grind

@[grind .]
instance unplaced_pick (first : Nat) (last : Option Nat) : (v.pick first last).Unplaced := by
  unfold pick
  grind

@[grind .]
instance unplaced_changeWith (change : {α : Type} → List α → α → List α) :
    (v.changeWith name item change).Unplaced := by
  unfold changeWith notArray
  grind

@[grind .]
instance unplaced_change (f : {α : Type} → List α → List α) : (v.change name f).Unplaced := by
  unfold change notArray
  grind

@[grind .]
instance unplaced_extendItems : (v.extendItems name item).Unplaced := by
  unfold extendItems notArray
  grind

end Value

@[grind .]
instance Operator.unplaced_apply (op : Operator) (a b : Int64) : (op.apply a b).Unplaced := by
  unfold apply
  grind

@[grind .]
instance AssignOp.unplaced_combine (op : AssignOp) (a b : Int64) : (op.combine a b).Unplaced := by
  unfold combine
  grind

@[grind .]
instance Relation.unplaced_test (r : Relation) (a b : Value) : (r.test a b).Unplaced := by
  unfold test
  grind

@[grind .]
instance Trait.unplaced_apply (view : Trait) (v : Value) : (view.apply v).Unplaced := by
  unfold apply
  grind

@[grind .]
instance Day.unplaced_view (d : Day) (t : Trait) : (d.view t).Unplaced := by
  unfold view
  grind

@[grind .]
instance Cells.unplaced_withModulus (cells : Cells) (n : Int64) : (cells.withModulus n).Unplaced := by
  unfold withModulus
  split
  · exact .ok
  · exact .fail

/-! ### Variables -/

namespace VariableM

@[grind .]
instance unplaced_put (value : Value) : Unplaced (put value) := by
  unfold put
  grind

@[grind .]
instance unplaced_dropMask : Unplaced dropMask := by
  unfold dropMask
  grind

@[grind .]
instance unplaced_touch (stamp : Stamp) : Unplaced (touch stamp) := by
  unfold touch
  grind

@[grind .]
instance unplaced_overwrite (value : Value) (stamp : Stamp) : Unplaced (overwrite value stamp) := by
  unfold overwrite
  grind

end VariableM

@[grind .]
instance Store.unplaced_writable (s : Store) (name owner : String) : (s.writable name owner).Unplaced := by
  unfold writable
  grind

namespace StoreM

variable (name owner : String) (stamp : Stamp) (item : Value) (index count : Nat)

@[grind .]
theorem unplaced_onVariable {α : Type} {action : VariableM α} (h : Unplaced action) :
    Unplaced (onVariable name owner action) where
  run s := by
    simp only [onVariable, ExceptT.run]
    rcases hv : s.writable name owner with f | v
    · exact .error ((s.unplaced_writable name owner).line?_eq f hv)
    · exact h.run v

@[grind .]
theorem unplaced_onArray {α : Type} {action : VariableM α} (h : Unplaced action) :
    Unplaced (onArray name owner action) := by
  unfold onArray
  grind

@[grind .]
instance unplaced_read (sources : Sources) : Unplaced (read sources name owner) := by
  unfold read
  grind

@[grind .]
instance unplaced_write : Unplaced (write name owner item stamp) := by
  unfold write
  grind

@[grind .]
instance unplaced_clear : Unplaced (clear name owner stamp) := by
  unfold clear
  grind

@[grind .]
instance unplaced_append : Unplaced (append name owner item stamp) := by
  unfold append Value.appendItem
  grind

@[grind .]
instance unplaced_extend : Unplaced (extend name owner item stamp) := by
  unfold extend
  grind

@[grind .]
instance unplaced_insert : Unplaced (insert name owner index item stamp) := by
  unfold insert Value.insertItem
  grind

@[grind .]
instance unplaced_checkIndex (v : Variable) : Unplaced (checkIndex name index v) := by
  unfold checkIndex
  grind

@[grind .]
instance unplaced_modify : Unplaced (StoreM.modify name owner index item stamp) := by
  unfold StoreM.modify Value.replaceItem
  grind

@[grind .]
instance unplaced_remove (first last : Nat) : Unplaced (remove name owner first last stamp) := by
  unfold remove Value.removeItems
  grind

@[grind .]
instance unplaced_arraySize : Unplaced (arraySize name owner) := by
  unfold arraySize
  grind

@[grind .]
instance unplaced_truncate : Unplaced (truncate name owner count stamp) := by
  unfold truncate
  grind

@[grind .]
instance unplaced_pop : Unplaced (pop name owner count stamp) := by
  unfold pop
  grind

@[grind .]
instance unplaced_filter (f : Filter) : Unplaced (filter name owner f) := by
  unfold filter
  grind

@[grind .]
instance unplaced_applyFilter : Unplaced (applyFilter name owner stamp) := by
  unfold applyFilter
  grind

@[grind .]
instance unplaced_resetFilter : Unplaced (resetFilter name owner) := by
  unfold resetFilter
  grind

@[grind .]
instance unplaced_withModulus (n : Int64) : Unplaced (withModulus n) := by
  unfold withModulus
  grind

end StoreM

namespace MemoryM

variable (name owner : String)

@[grind .]
theorem unplaced_onStore {α : Type} {action : StoreM α} (h : Unplaced action) :
    Unplaced (onStore action) :=
  ⟨fun m => h.run m.store⟩

@[grind .]
instance unplaced_report (c : Category) (message : String) : Unplaced (report c message) := by
  unfold report
  grind

@[grind .]
instance unplaced_read : Unplaced (read name owner) := by
  unfold read
  grind

@[grind .]
instance unplaced_write (value : Value) (line : Nat) : Unplaced (write name owner value line) := by
  unfold write
  grind

end MemoryM

/-! ### Looking up -/

namespace Viewpoint

variable (v : Viewpoint) (name : String) (r : Reference)

@[grind .]
instance unplaced_read : Unplaced (v.read name) := by
  unfold read
  grind

@[grind .]
instance unplaced_position (b : Bound) : Unplaced (v.position b) := by
  unfold position
  grind

@[grind .]
instance unplaced_positions (i : Index) : Unplaced (v.positions i) := by
  unfold positions
  grind

@[grind .]
instance unplaced_metadata (view : Trait) : Unplaced (v.metadata name view) := by
  unfold metadata
  grind

@[grind .]
instance unplaced_filtered : Unplaced (v.filtered name) := by
  unfold filtered
  grind

@[grind .]
instance unplaced_viewed (view : Option Trait) (value : Value) : (viewed view value).Unplaced := by
  unfold viewed
  grind

@[grind .]
instance unplaced_lookPlain : Unplaced (v.lookPlain r) := by
  unfold lookPlain
  refine .bind (by grind) fun value => ?_
  split
  · grind
  · exact .bind (by grind) fun ⟨first, last⟩ => by grind

@[grind .]
instance unplaced_look : Unplaced (v.look r) := by
  unfold look
  grind

end Viewpoint

namespace Formula

@[grind .]
instance unplaced_applySelected (selected : Operator → Bool) (done tokens : List Token) :
    (applySelected selected done tokens).Unplaced := by
  fun_induction applySelected selected done tokens with
  | case1 => exact .ok
  | case2 _ _ _ _ _ _ ih => exact (Operator.unplaced_apply _ _ _).bind ih
  | case3 => exact .fail
  | case4 => exact .fail
  | case5 _ _ _ _ ih => exact ih
  | case6 _ _ _ _ ih => exact ih

@[grind .]
instance unplaced_reduceValues (tokens : List Token) : (reduceValues tokens).Unplaced := by
  unfold reduceValues
  grind [incomplete]

variable {σ : Type} {look : Reference → ExceptT Fault (StateM σ) Int64} (hlook : ∀ r, Unplaced (look r))

include hlook

@[grind .]
theorem unplaced_reduceTokens (tokens : List Token) : Unplaced (reduceTokens look tokens) := by
  unfold reduceTokens
  refine .bind (.mapM fun t => ?_) fun _ => by grind
  unfold lookedUp
  grind

@[grind .]
theorem unplaced_evaluateFrom (text : String) (outer : List (List Token)) (here tokens : List Token) :
    Unplaced (evaluateFrom look text outer here tokens) := by
  fun_induction evaluateFrom look text outer here tokens <;> grind [incomplete]

@[grind .]
theorem unplaced_evaluate (f : Formula) : Unplaced (f.evaluate look) := by
  unfold evaluate
  grind

end Formula

section Lookup

variable {σ : Type} {look : Reference → ExceptT Fault (StateM σ) Value}

@[grind .]
theorem unplaced_lookInteger (hlook : ∀ r, Unplaced (look r)) (r : Reference) :
    Unplaced (lookInteger look r) := by
  unfold lookInteger
  grind

@[grind .]
theorem Operand.unplaced_evaluate (hlook : ∀ r, Unplaced (look r)) (o : Operand) :
    Unplaced (o.evaluate look) := by
  unfold evaluate
  grind

@[grind .]
theorem Argument.unplaced_evaluate (hlook : ∀ r, Unplaced (look r)) (a : Argument) :
    Unplaced (a.evaluate look) := by
  unfold evaluate
  grind

@[grind .]
theorem Argument.unplaced_evaluateText (hlook : ∀ r, Unplaced (look r)) (a : Argument) :
    Unplaced (a.evaluateText look) := by
  unfold evaluateText
  grind

@[grind .]
theorem unplaced_followed (hlook : ∀ r, Unplaced (look r)) (v : Value) :
    Unplaced (followed look v) := by
  unfold followed
  grind

@[grind .]
theorem Operand.unplaced_evaluateAs (hlook : ∀ r, Unplaced (look r)) (o : Operand) (t : ValueType) :
    Unplaced (o.evaluateAs look t) := by
  unfold evaluateAs coerced
  grind

@[grind .]
theorem Condition.unplaced_evaluate (hlook : ∀ r, Unplaced (look r)) (c : Condition) :
    Unplaced (c.evaluate look) := by
  unfold evaluate
  grind

end Lookup

/-! ### Files -/

namespace Files.Desk

@[grind .]
instance unplaced_fail {α : Type} (detail : String) : Unplaced (fail detail : DeskM α) := by
  unfold fail
  grind

@[grind .]
instance unplaced_fail_bind {α β : Type} (detail : String) (k : α → DeskM β) :
    Unplaced (fail detail >>= k) := by
  unfold fail
  grind

variable (path : String)

@[grind .]
instance unplaced_atBase : Unplaced (atBase path) := by
  unfold atBase
  grind

@[grind .]
instance unplaced_orFail {α : Type} (answer : Except Refusal α) : Unplaced (orFail path answer) := by
  unfold orFail
  grind

@[grind .]
instance unplaced_orRefused {σ α : Type} (answer : Except Refusal α) :
    Unplaced (orRefused answer : ExceptT Fault (StateM σ) α) := by
  unfold orRefused
  grind

@[grind .]
instance unplaced_ensureClosed : Unplaced ensureClosed := by
  unfold ensureClosed
  grind

@[grind .]
instance unplaced_openFile (mode : Mode) : Unplaced (openFile path mode) := by
  unfold openFile
  refine .bind (by grind) fun _ => .bind (by grind) fun path => .bind .get fun d => ?_
  dsimp only
  split <;> grind

@[grind .]
instance unplaced_create : Unplaced (create path) := by
  unfold create
  grind

@[grind .]
instance unplaced_close : Unplaced close := by
  unfold close setTree
  refine .bind .get fun d => ?_
  split
  · grind
  · grind
  · exact .bind .modify fun _ => .bind .get fun d => .bind (by grind) fun _ => .modify

@[grind .]
instance unplaced_readLines (count : Option Nat) : Unplaced (readLines count) := by
  unfold readLines
  grind

@[grind .]
instance unplaced_writeLine : Unplaced (writeLine path) := by
  unfold writeLine
  grind

@[grind .]
instance unplaced_size : Unplaced (size path) := by
  unfold size
  grind

@[grind .]
instance unplaced_lineCount : Unplaced (lineCount path) := by
  unfold lineCount
  grind

@[grind .]
instance unplaced_delete : Unplaced (delete path) := by
  unfold delete setTree
  refine .bind (by grind) fun path => .bind .get fun d => ?_
  split <;> grind

@[grind .]
instance unplaced_changeDirectory : Unplaced (changeDirectory path) := by
  unfold changeDirectory
  grind

@[grind .]
instance unplaced_makeDirectory : Unplaced (makeDirectory path) := by
  unfold makeDirectory setTree
  grind

@[grind .]
instance unplaced_removeDirectory : Unplaced (removeDirectory path) := by
  unfold removeDirectory setTree
  grind

@[grind .]
instance unplaced_list (wanted : Selection) : Unplaced (list path wanted) := by
  unfold list
  grind

end Files.Desk

namespace Files.Papers

@[grind .]
instance unplaced_copyLine (line : String) : Unplaced (copyLine line) := by
  unfold copyLine
  refine .bind .get fun p => ?_
  split
  · exact .bind .set fun _ => by grind
  · exact .pure

@[grind .]
instance unplaced_flushCopy : Unplaced flushCopy := by
  unfold flushCopy
  refine .bind .get fun p => ?_
  split
  · exact .bind (by grind) fun _ => .set
  · exact .pure

@[grind .]
instance unplaced_copyTo (path : String) : Unplaced (copyTo path) := by
  unfold copyTo
  refine .bind .get fun p => ?_
  have hflush := unplaced_flushCopy.run p
  rcases hrun : flushCopy.run p with ⟨answer, p⟩
  rw [hrun] at hflush
  exact .bind .set fun _ => .bind (.lift hflush) fun _ => by grind

@[grind .]
instance unplaced_closeFile : Unplaced closeFile where
  run p := by
    rw [run_closeFile]
    split
    · exact Desk.unplaced_close.run p.desk
    · exact .ok

@[grind .]
instance unplaced_settle : Unplaced settle := by
  unfold settle
  grind

end Files.Papers

/-! ### Flow -/

@[grind .]
instance Chain.unplaced_following (c : Chain) (index : Nat) : (c.following index).Unplaced := by
  unfold following missingEntry
  grind

@[grind .]
instance Chain.unplaced_ending (c : Chain) : c.ending.Unplaced := by
  unfold ending missingEntry
  grind

@[grind .]
instance Loop.unplaced_exitIndex (l : Loop) : l.exitIndex.Unplaced := by
  unfold exitIndex missingEntry
  grind

/-! ### Commands -/

namespace Engine

@[grind .]
theorem unplaced_onMemory {α : Type} {action : MemoryM α} (h : Unplaced action) :
    Unplaced (onMemory action) :=
  ⟨fun e => h.run e.memory⟩

@[grind .]
theorem unplaced_onDesk {α : Type} {action : Files.DeskM α} (h : Unplaced action) :
    Unplaced (onDesk action) :=
  ⟨fun e => h.run e.desk⟩

@[grind .]
theorem unplaced_onStore {α : Type} {action : StoreM α} (h : Unplaced action) :
    Unplaced (onStore action) := by
  unfold onStore
  grind

@[grind .]
theorem unplaced_onPapers {α : Type} {action : Files.PapersM α} (h : Unplaced action) :
    Unplaced (onPapers action) :=
  ⟨fun e => h.run e.papers⟩

@[grind .]
theorem unplaced_seen {α : Type} {action : Viewpoint → MemoryM α} (h : ∀ v, Unplaced (action v)) :
    Unplaced (seen action) := by
  unfold seen
  grind

variable (f : Formula) (a : Argument) (c : Condition) (op : AssignOp) (target owner : String)
  (line index : Nat) (id : LoopId)

@[grind .]
instance unplaced_onCells (f : Cells → Cells) : Unplaced (onCells f) := by
  unfold onCells
  grind

@[grind .]
instance unplaced_number : Unplaced (number f) := by
  unfold number
  grind

@[grind .]
instance unplaced_text : Unplaced (text a) := by
  unfold text
  grind

@[grind .]
instance unplaced_value : Unplaced (value a) := by
  unfold value
  grind

@[grind .]
instance unplaced_truth : Unplaced (truth c) := by
  unfold truth
  grind

@[grind .]
instance unplaced_print : Unplaced (print target) := by
  unfold print
  grind

@[grind .]
instance unplaced_applyOption (o : ScriptOption) : Unplaced (applyOption o) := by
  unfold applyOption
  grind

@[grind .]
instance unplaced_applyOptions (options : List ScriptOption) : Unplaced (applyOptions options) := by
  unfold applyOptions
  grind

@[grind .]
instance unplaced_failRuntime {α : Type} (detail : String) :
    Unplaced (failRuntime detail : EngineM α) := by
  unfold failRuntime
  grind

@[grind .]
instance unplaced_failRuntime_bind {α β : Type} (detail : String) (k : α → EngineM β) :
    Unplaced (failRuntime detail >>= k) := by
  unfold failRuntime
  grind

@[grind .]
instance unplaced_assignedNumber : Unplaced (assignedNumber target owner op f) := by
  unfold assignedNumber
  grind

@[grind .]
instance unplaced_assignedTruth : Unplaced (assignedTruth target owner op c) := by
  unfold assignedTruth
  grind

@[grind .]
instance unplaced_assignedText : Unplaced (assignedText target owner op a) := by
  unfold assignedText
  grind

@[grind .]
instance unplaced_store (v : Value) : Unplaced (store target owner v line) := by
  unfold store
  grind

@[grind .]
theorem unplaced_change {f : Stamp → StoreM Unit} (hf : ∀ stamp, Unplaced (f stamp)) :
    Unplaced (change line f) := by
  unfold change
  grind

@[grind .]
instance unplaced_assign (right : RightSide) : Unplaced (assign line target op right) := by
  unfold assign
  grind

@[grind .]
instance unplaced_isTaken : Unplaced (isTaken index) := by
  unfold isTaken
  grind

@[grind .]
instance unplaced_setTaken (b : Bool) : Unplaced (setTaken index b) := by
  unfold setTaken
  grind

@[grind .]
instance unplaced_executeIf : Unplaced (executeIf index c) := by
  unfold executeIf
  grind

@[grind .]
instance unplaced_executeBranch (c : Option Condition) : Unplaced (executeBranch index c) := by
  unfold executeBranch
  refine .bind .get fun e => .bind (by grind) fun chain => .bind (by grind) fun ending => ?_
  exact .bind (by grind) fun following => by grind

@[grind .]
instance unplaced_executeEndIf : Unplaced (executeEndIf index) := by
  unfold executeEndIf
  grind

@[grind .]
instance unplaced_beginLoop : Unplaced (beginLoop id) := by
  unfold beginLoop
  refine .bind .get fun e => .bind (by grind) fun loop => .bind .modify fun _ => ?_
  exact .bind (by grind) fun start => by grind

@[grind .]
instance unplaced_findRun : Unplaced (findRun id) := by
  unfold findRun
  grind

@[grind .]
instance unplaced_advanceLoop : Unplaced (advanceLoop id) := by
  unfold advanceLoop
  refine .bind (by grind) fun ⟨after, run, before⟩ => .bind .get fun e => ?_
  exact .bind (by grind) fun loop => .bind (by grind) fun step => by grind

@[grind .]
instance unplaced_leaveLoop : Unplaced (leaveLoop id) := by
  unfold leaveLoop
  grind

@[grind .]
instance unplaced_call : Unplaced (call index target line) := by
  unfold call
  grind

@[grind .]
instance unplaced_returnWith (v : Option String) : Unplaced (returnWith v) := by
  unfold returnWith
  refine .bind .get fun e => ?_
  split
  · grind
  · exact .bind .set fun _ => by grind

@[grind .]
instance unplaced_count (n : Int64) : (count n).Unplaced := by
  unfold count
  grind

@[grind .]
instance unplaced_counted : Unplaced (counted f) := by
  unfold counted
  grind

@[grind .]
instance unplaced_filterArray (spec : FilterSpec) : Unplaced (filterArray line target spec) := by
  unfold filterArray
  grind

@[grind .]
instance unplaced_indexed (b : Bound) : Unplaced (indexed b a) := by
  unfold indexed
  grind

theorem unplaced_fileCommand {command : Command} (h : ∀ path, command ≠ .scan path) :
    Unplaced (fileCommand command) := by
  unfold fileCommand
  grind

@[grind .]
theorem unplaced_andNext {action : EngineM Unit} (h : Unplaced action) : Unplaced (andNext action) := by
  unfold andNext
  grind

@[grind .]
theorem unplaced_changeArray {f : String → Stamp → StoreM Unit}
    (hf : ∀ owner stamp, Unplaced (f owner stamp)) : Unplaced (changeArray line f) := by
  unfold changeArray
  grind

theorem unplaced_execute {entry : Entry} (h : ∀ path, entry.command ≠ .scan path) :
    Unplaced (execute entry) := by
  unfold execute
  have := @unplaced_fileCommand
  grind

/-- What reads pictures may hand on a fault of its own, line included. -/
theorem line?_of_scan {entry : Entry} {e e' : Engine} {g : Fault} {path : Argument}
    (hpath : entry.command = .scan path) (h : (execute entry).run e = (.error g, e')) :
    g.line? = none ∨ ∃ path, e.scan path = .error g := by
  unfold execute at h
  simp only [hpath, andNext, fileCommand] at h
  simp only [bind_assoc, run_bind] at h
  have hkeep : ((text path).run e).2.scan = e.scan := rfl
  rcases htext : (text path).run e with ⟨f | resolved, e₁⟩ <;> rw [htext] at h hkeep
  · cases h
    exact .inl ((unplaced_text path).line?_eq htext)
  · dsimp only at h hkeep
    have hget : (get : EngineM Engine).run e₁ = (.ok e₁, e₁) := rfl
    rw [hget] at h
    dsimp only at h
    cases hfound : e₁.scan (e₁.desk.resolve resolved) with
    | error f =>
      rw [hfound] at h
      cases h
      exact .inr ⟨_, hkeep ▸ hfound⟩
    | ok found =>
      rw [hfound] at h
      cases h

/-- Only the command that reads a picture has a fault with a line, and then it was given one. -/
theorem line?_of_execute {entry : Entry} {e e' : Engine} {g : Fault}
    (h : (execute entry).run e = (.error g, e')) : g.line? = none ∨
      (∃ path, entry.command = .scan path) ∧ ∃ path, e.scan path = .error g := by
  by_cases hscan : ∃ path, entry.command = .scan path
  · obtain ⟨path, hpath⟩ := hscan
    exact (line?_of_scan hpath h).imp_right fun hfault => ⟨⟨path, hpath⟩, hfault⟩
  · exact .inl ((unplaced_execute fun path heq => hscan ⟨path, heq⟩).line?_eq h)

end Engine

end CommandScript
