import CommandScript.Assembly
import CommandScript.Command.Reader
import CommandScript.Proofs.Checked

/-!
# Faults without a line

A fault gets its line where a whole line or a whole command is taken in. Below that no operation has a
fault with a line: `Unplaced` says so of an operation, and the lemmas go through an operation part by
part.
-/

namespace CommandScript

variable {σ α β γ : Type}

attribute [grind =] Fault.line?

/-- No fault of the operation has a line. -/
class Checked.Unplaced (x : Checked α) : Prop where
  line?_eq : ∀ f, x = .error f → f.line? = none

/-- No fault of the operation has a line, whatever state it is run on. -/
class Unplaced (x : ExceptT Fault (StateM σ) α) : Prop where
  run : ∀ s, Checked.Unplaced (x.run s).1

namespace Checked.Unplaced

variable {x : Checked α}

@[grind .]
theorem ok {a : α} : Unplaced (Except.ok a) := ⟨nofun⟩

@[grind .]
theorem pure {a : α} : Unplaced (Pure.pure a) := ⟨nofun⟩

theorem error {f : Fault} (hf : f.line? = none) : Unplaced (Except.error f : Checked α) where
  line?_eq := by
    rintro g ⟨⟩
    exact hf

@[grind .]
theorem fail {k : FaultKind} {d : String} : (Checked.fail k d : Checked α).Unplaced :=
  error rfl

@[grind .]
theorem within {frame : String} (hx : x.Unplaced) : (within frame x).Unplaced := by
  rcases x with f | a
  · exact error (hx.line?_eq f rfl)
  · exact ok

@[grind .]
theorem bind {k : α → Checked β} (hx : x.Unplaced) (hk : ∀ a, (k a).Unplaced) :
    (x >>= k).Unplaced := by
  rcases x with f | a
  · exact error (hx.line?_eq f rfl)
  · exact hk a

/-- Nothing is done behind a fault. -/
@[grind .]
theorem fail_bind {kind : FaultKind} {d : String} {k : α → Checked β} :
    (Checked.fail kind d >>= k).Unplaced :=
  error rfl

@[grind .]
theorem map {g : α → β} (hx : x.Unplaced) : (g <$> x).Unplaced :=
  hx.bind fun _ => ok

@[grind .]
theorem discard (hx : x.Unplaced) : Unplaced (discard x) :=
  hx.map

@[grind .]
theorem mapM {k : α → Checked β} {l : List α} (hk : ∀ a, (k a).Unplaced) : (l.mapM k).Unplaced := by
  induction l with
  | nil => exact ok
  | cons a l ih =>
    rw [List.mapM_cons]
    exact (hk a).bind fun _ => ih.bind fun _ => ok

@[grind .]
theorem forM {k : α → Checked PUnit} {l : List α} (hk : ∀ a, (k a).Unplaced) :
    (l.forM k).Unplaced := by
  induction l with
  | nil => exact ok
  | cons a l ih => exact (hk a).bind fun _ => ih

end Checked.Unplaced

namespace Unplaced

variable {x : ExceptT Fault (StateM σ) α}

theorem line?_eq {s t : σ} {f : Fault} (hx : Unplaced x) (h : x.run s = (.error f, t)) :
    f.line? = none :=
  (hx.run s).line?_eq f (congrArg Prod.fst h)

@[grind .]
theorem pure {a : α} : Unplaced (Pure.pure a : ExceptT Fault (StateM σ) α) :=
  ⟨fun _ => Checked.Unplaced.ok⟩

@[grind .]
theorem throw {f : Fault} (hf : f.line? = none) :
    Unplaced (throw f : ExceptT Fault (StateM σ) α) :=
  ⟨fun _ => Checked.Unplaced.error hf⟩

@[grind .]
theorem lift {x : Checked α} (hx : x.Unplaced) :
    Unplaced (liftM x : ExceptT Fault (StateM σ) α) := by
  rcases x with f | a
  · exact throw (hx.line?_eq f rfl)
  · exact pure

@[grind .]
theorem get : Unplaced (get : ExceptT Fault (StateM σ) σ) :=
  ⟨fun _ => Checked.Unplaced.ok⟩

@[grind .]
theorem set {s : σ} : Unplaced (set s : ExceptT Fault (StateM σ) PUnit) :=
  ⟨fun _ => Checked.Unplaced.ok (a := PUnit.unit)⟩

@[grind .]
theorem modify {g : σ → σ} : Unplaced (modify g : ExceptT Fault (StateM σ) PUnit) :=
  ⟨fun _ => Checked.Unplaced.ok (a := PUnit.unit)⟩

@[grind .]
theorem bind {k : α → ExceptT Fault (StateM σ) β} (hx : Unplaced x) (hk : ∀ a, Unplaced (k a)) :
    Unplaced (x >>= k) := by
  refine ⟨fun s => ?_⟩
  rw [run_bind]
  rcases hr : x.run s with ⟨f | a, t⟩
  · exact Checked.Unplaced.error (hx.line?_eq hr)
  · exact (hk a).run t

@[grind .]
theorem throw_bind {f : Fault} {k : α → ExceptT Fault (StateM σ) β} (hf : f.line? = none) :
    Unplaced ((MonadExcept.throw f : ExceptT Fault (StateM σ) α) >>= k) :=
  throw hf

@[grind .]
theorem map {g : α → β} (hx : Unplaced x) : Unplaced (g <$> x) := by
  rw [map_eq_pure_bind]
  exact hx.bind fun _ => pure

@[grind .]
theorem mapM {k : γ → ExceptT Fault (StateM σ) β} {l : List γ} (hk : ∀ c, Unplaced (k c)) :
    Unplaced (l.mapM k) := by
  induction l with
  | nil => exact pure
  | cons c l ih =>
    rw [List.mapM_cons]
    exact (hk c).bind fun _ => ih.bind fun _ => pure

@[grind .]
theorem forM {k : γ → ExceptT Fault (StateM σ) PUnit} {l : List γ} (hk : ∀ c, Unplaced (k c)) :
    Unplaced (l.forM k) := by
  induction l with
  | nil => exact pure
  | cons c l ih => exact (hk c).bind fun _ => ih

@[grind .]
theorem tryCatch {k : Fault → ExceptT Fault (StateM σ) α} (hx : Unplaced x)
    (hk : ∀ f, f.line? = none → Unplaced (k f)) : Unplaced (tryCatch x k) := by
  refine ⟨fun s => ?_⟩
  rw [run_tryCatch]
  rcases hr : x.run s with ⟨f | a, t⟩
  · exact (hk f (hx.line?_eq hr)).run t
  · exact Checked.Unplaced.ok

end Unplaced

end CommandScript

/-!
## Reading attaches no line

Texts, references, formulas, conditions and the commands that are read in a context are refused with
faults that have no line.
-/

namespace CommandScript

open Checked Text

/-! ### Texts and words -/

namespace Text

@[grind .]
instance unplaced_splitArguments (text : String) : (splitArguments text).Unplaced := by
  unfold splitArguments unterminated
  grind

@[grind .]
instance unplaced_splitJoined (text : String) : (splitJoined text).Unplaced := by
  unfold splitJoined unterminated
  grind

@[grind .]
instance unplaced_decodeInside (token : String) (s : List Char) : (decodeInside token s).Unplaced := by
  fun_induction decodeInside token s <;> grind

@[grind .]
instance unplaced_readLiteral (token : String) : (readLiteral token).Unplaced := by
  unfold readLiteral
  grind

end Text

namespace Numeral

@[grind .]
instance unplaced_readInteger (raw : String) : (readInteger raw).Unplaced := by
  unfold readInteger refuse
  grind

@[grind .]
instance unplaced_unsigned (n : Int64) : (unsigned n).Unplaced := by
  unfold unsigned
  grind

@[grind .]
instance unplaced_readUnsigned (raw : String) : (readUnsigned raw).Unplaced := by
  unfold readUnsigned
  grind

end Numeral

@[grind .]
instance Scope.unplaced_ofWord (word : String) : (ofWord word).Unplaced := by
  unfold ofWord
  grind

@[grind .]
instance ValueType.unplaced_ofWord (word : String) : (ofWord word).Unplaced := by
  unfold ofWord
  grind

namespace ScriptOption

@[grind .]
instance unplaced_readPath (token : String) : (readPath token).Unplaced := by
  unfold readPath
  grind

theorem unplaced_maker {flag : String} {make : String → Checked ScriptOption}
    (h : lookupWord makers flag = some make) (value : String) : (make value).Unplaced := by
  obtain ⟨entry, hentry, rfl⟩ := Option.map_eq_some_iff.mp h
  have hmem := List.mem_of_find?_eq_some hentry
  simp only [makers, List.mem_cons, List.not_mem_nil, or_false] at hmem
  rcases hmem with rfl | rfl | rfl <;> grind

@[grind .]
instance unplaced_readList (tokens : List String) : (readList tokens).Unplaced := by
  fun_induction readList tokens with
  | case3 flag make hmake value more ih =>
    exact (unplaced_maker hmake value).bind fun _ => ih.bind fun _ => .pure
  | _ => grind

@[grind .]
instance unplaced_read (tokens : List String) : (read tokens).Unplaced := by
  unfold read
  grind

end ScriptOption

/-! ### References and formulas -/

@[grind .]
instance Bound.unplaced_read (raw : List Char) : (Bound.read raw).Unplaced := by
  unfold Bound.read
  grind

@[grind .]
instance Index.unplaced_read (raw : List Char) : (Index.read raw).Unplaced := by
  unfold Index.read
  grind

namespace Reference

@[grind .]
instance unplaced_readIndex (token : String) (s : List Char) : (readIndex token s).Unplaced := by
  unfold readIndex
  grind

@[grind .]
instance unplaced_readTrait (token : String) (s : List Char) : (readTrait token s).Unplaced := by
  unfold readTrait
  grind

@[grind .]
instance unplaced_checkWhole (r : Reference) : (checkWhole r).Unplaced := by
  unfold checkWhole
  grind

@[grind .]
instance unplaced_read (token : String) : (read token).Unplaced := by
  unfold read
  grind

end Reference

namespace Formula

@[grind .]
instance unplaced_readNumber (s : List Char) : (readNumber s).Unplaced := by
  unfold readNumber
  grind

@[grind .]
instance unplaced_lexFrom (formula : String) (last : Option Token) (skip : Nat) (s : List Char) :
    (lexFrom formula last skip s).Unplaced := by
  fun_induction lexFrom formula last skip s <;> grind

@[grind .]
instance unplaced_checkFrom (due : Bool) (depth : Nat) (tokens : List Token) :
    (checkFrom due depth tokens).Unplaced := by
  fun_induction checkFrom due depth tokens <;> grind

@[grind .]
instance unplaced_check (tokens : List Token) : (check tokens).Unplaced := by
  unfold check
  grind

@[grind .]
instance unplaced_read (raw : String) : (read raw).Unplaced := by
  unfold read lex
  grind

end Formula

/-! ### Operands, conditions and assignments -/

@[grind .]
instance Operand.unplaced_read (raw : String) : (Operand.read raw).Unplaced := by
  unfold Operand.read
  grind

@[grind .]
instance Argument.unplaced_read (raw : String) : (Argument.read raw).Unplaced := by
  unfold Argument.read
  grind

@[grind .]
instance Condition.unplaced_read (raw : String) : (Condition.read raw).Unplaced := by
  unfold Condition.read
  grind

@[grind .]
instance Assignment.unplaced_read (raw : String) : (Assignment.read raw).Unplaced := by
  unfold Assignment.read
  grind

/-! ### Types -/

namespace Store

variable (s : Store) (name owner : String)

@[grind .]
instance unplaced_get : (s.get name owner).Unplaced := by
  unfold get undefined
  grind

@[grind .]
instance unplaced_typeOf : (s.typeOf name owner).Unplaced := by
  unfold typeOf
  grind

end Store

@[grind .]
instance Trait.unplaced_resultType (view : Trait) (t : ValueType) : (view.resultType t).Unplaced := by
  unfold resultType
  grind

@[grind .]
instance Reference.unplaced_resultType (r : Reference) (t : ValueType) : (r.resultType t).Unplaced := by
  unfold resultType
  grind

namespace Context

variable (c : Context) (r : Reference) (text : String)

@[grind .]
instance unplaced_typeOf (name : String) : (c.typeOf name).Unplaced := by
  unfold typeOf
  grind

@[grind .]
instance unplaced_checkIndexNames : (c.checkIndexNames r).Unplaced := by
  unfold checkIndexNames
  grind

@[grind .]
instance unplaced_loopType : (loopType r).Unplaced := by
  unfold loopType
  grind

@[grind .]
instance unplaced_referenceType : (c.referenceType r).Unplaced := by
  unfold referenceType
  grind

@[grind .]
instance unplaced_checkFormula (f : Formula) : (c.checkFormula f).Unplaced := by
  unfold checkFormula
  grind

@[grind .]
instance unplaced_operandType (o : Operand) : (c.operandType o).Unplaced := by
  unfold operandType
  grind

@[grind .]
instance unplaced_argumentType (a : Argument) : (c.argumentType a).Unplaced := by
  unfold argumentType
  grind

@[grind .]
instance unplaced_checkCondition (condition : Condition) : (c.checkCondition condition).Unplaced := by
  unfold checkCondition
  grind

@[grind .]
instance unplaced_readFormula : (c.readFormula text).Unplaced := by
  unfold readFormula
  grind

@[grind .]
instance unplaced_readArgument : (c.readArgument text).Unplaced := by
  unfold readArgument
  grind

@[grind .]
instance unplaced_readCondition : (c.readCondition text).Unplaced := by
  unfold readCondition
  grind

@[grind .]
instance unplaced_readPath : (c.readPath text).Unplaced := by
  unfold readPath
  grind

/-! ### Commands -/

@[grind .]
instance unplaced_noArguments (keyword : Keyword) : (noArguments keyword text).Unplaced := by
  unfold noArguments
  grind

@[grind .]
instance unplaced_splitFirst : (splitFirst text).Unplaced := by
  unfold splitFirst
  grind

@[grind .]
instance unplaced_readRight (target : String) (t : ValueType) (op : AssignOp) :
    (c.readRight target t op text).Unplaced := by
  unfold readRight
  grind

@[grind .]
instance unplaced_readSet : (c.readSet text).Unplaced := by
  unfold readSet
  grind

@[grind .]
instance unplaced_readArray : (c.readArray text).Unplaced := by
  unfold readArray
  grind

@[grind .]
instance unplaced_readWholeArray : (c.readWholeArray text).Unplaced := by
  unfold readWholeArray
  grind

@[grind .]
instance unplaced_readItem (t : ValueType) : (c.readItem t text).Unplaced := by
  unfold readItem
  grind

@[grind .]
instance unplaced_readIndexed (keyword : Keyword) : (c.readIndexed keyword text).Unplaced := by
  unfold readIndexed
  grind

@[grind .]
instance unplaced_readAppend : (c.readAppend text).Unplaced := by
  unfold readAppend
  grind

@[grind .]
instance unplaced_readRemove : (c.readRemove text).Unplaced := by
  unfold readRemove
  grind

@[grind .]
instance unplaced_readCounted : (c.readCounted text).Unplaced := by
  unfold readCounted
  grind

@[grind .]
instance unplaced_readClear : (c.readClear text).Unplaced := by
  unfold readClear
  grind

@[grind .]
instance unplaced_readReset : (c.readReset text).Unplaced := by
  unfold readReset
  grind

@[grind .]
instance unplaced_readNumberFilter : (c.readNumberFilter text).Unplaced := by
  unfold readNumberFilter
  grind

@[grind .]
instance unplaced_readTextFilter : (c.readTextFilter text).Unplaced := by
  unfold readTextFilter
  grind

@[grind .]
instance unplaced_readFilter : (c.readFilter text).Unplaced := by
  unfold readFilter
  grind

@[grind .]
instance unplaced_readPathWord {α : Type} (meaning : String → Option α) :
    (c.readPathWord text meaning).Unplaced := by
  unfold readPathWord
  grind

@[grind .]
instance unplaced_readDirectory : (c.readDirectory text).Unplaced := by
  unfold readDirectory
  grind

@[grind .]
instance unplaced_readOptions : (readOptions text).Unplaced := by
  unfold readOptions
  grind

@[grind .]
instance unplaced_readCommand (keyword : Keyword) : (c.readCommand keyword text).Unplaced := by
  unfold readCommand
  grind

end Context

end CommandScript

/-!
## Taking in a line attaches none

What both walks do with a line of the script is refused with faults that have no line; the line is attached
where the fault is recorded.
-/

namespace CommandScript

open Checked Script Text

/-! ### Tables -/

@[grind .]
instance Store.unplaced_allocate (s : Store) (scope : Scope) (type : ValueType)
    (name owner : String) : (s.allocate scope type name owner).Unplaced := by
  rw [allocate_eq]
  grind

@[grind .]
instance Memory.unplaced_allocate (m : Memory) (scope : Scope) (type : ValueType)
    (name owner : String) : (m.allocate scope type name owner).Unplaced := by
  rw [allocate_eq]
  grind

namespace ChainTable

@[grind .]
instance unplaced_chainOf (t : ChainTable) (index : Nat) : (t.chainOf index).Unplaced := by
  unfold chainOf missingEntry
  grind

@[grind .]
instance unplaced_addBranch (t : ChainTable) (ifIndex index : Nat) (isElse : Bool) :
    (t.addBranch ifIndex index isElse).Unplaced := by
  unfold addBranch
  grind

@[grind .]
instance unplaced_finish (t : ChainTable) (ifIndex index : Nat) :
    (t.finish ifIndex index).Unplaced := by
  unfold finish
  grind

end ChainTable

namespace LoopTable

@[grind .]
instance unplaced_loop (t : LoopTable) (id : LoopId) : (t.loop id).Unplaced := by
  unfold loop missingEntry
  grind

@[grind .]
instance unplaced_finish (t : LoopTable) (id : LoopId) (index : Nat) :
    (t.finish id index).Unplaced := by
  unfold finish
  grind

end LoopTable

namespace SubroutineTable

@[grind .]
instance unplaced_get (t : SubroutineTable) (name : String) : (t.get name).Unplaced := by
  unfold get
  grind

@[grind .]
instance unplaced_declare (t : SubroutineTable) (name : String) (line : Nat) :
    (t.declare name line).Unplaced := by
  unfold declare
  grind

end SubroutineTable

/-! ### Declarations -/

namespace Script

@[grind .]
instance unplaced_readAllocation (rest : String) : (readAllocation rest).Unplaced := by
  unfold readAllocation
  grind

@[grind .]
instance unplaced_readSubName (keyword : Keyword) (rest : String) :
    (readSubName keyword rest).Unplaced := by
  unfold readSubName
  grind

namespace Declarations

@[grind .]
instance unplaced_allocateAll (type : ValueType) (owner : String) (names : List String) :
    Unplaced (allocateAll type owner names) := by
  fun_induction allocateAll type owner names <;> grind

@[grind .]
instance unplaced_startupOptions (text : List Char) : Unplaced (startupOptions text) := by
  unfold startupOptions
  grind

@[grind .]
instance unplaced_declare (number : Nat) (keyword : Keyword) (rest : String) :
    Unplaced (declare number keyword rest) := by
  unfold declare
  grind [endMainInside, nestedSub, endSubWithoutSub, endStartupWithoutStartup]

@[grind .]
instance unplaced_line (l : Line) : Unplaced (line l) := by
  unfold line
  grind

end Declarations

end Script

/-! ### Assembly -/

namespace Assembly

@[grind .]
instance unplaced_failCompile {α : Type} (detail : String) :
    Unplaced (failCompile detail : AssemblyM α) := by
  unfold failCompile
  grind

@[grind .]
instance unplaced_failCompile_bind {α β : Type} (detail : String) (k : α → AssemblyM β) :
    Unplaced (failCompile detail >>= k) :=
  .throw_bind rfl

@[grind .]
instance unplaced_allocateAll (type : ValueType) (names : List String) :
    Unplaced (allocateAll type names) := by
  fun_induction allocateAll type names <;> grind

@[grind .]
instance unplaced_readAllocate (rest : String) : Unplaced (readAllocate rest) := by
  unfold readAllocate
  grind

@[grind .]
instance unplaced_innermostChain (keyword : Keyword) : Unplaced (innermostChain keyword) := by
  unfold innermostChain
  grind

@[grind .]
instance unplaced_checkChainLevel (a : Assembly) (keyword : Keyword) (ifIndex : Nat) :
    (a.checkChainLevel keyword ifIndex).Unplaced := by
  unfold checkChainLevel
  grind

@[grind .]
instance unplaced_addBranch (keyword : Keyword) (isElse : Bool) :
    Unplaced (addBranch keyword isElse) := by
  unfold addBranch
  grind

@[grind .]
instance unplaced_endChain : Unplaced endChain := by
  unfold endChain
  grind

@[grind .]
instance unplaced_readLoopParts (rest : String) : (readLoopParts rest).Unplaced := by
  unfold readLoopParts
  dsimp only
  split <;> refine .bind (by grind) fun ⟨head, test, step⟩ => ?_ <;> grind

@[grind .]
instance unplaced_beginLoop (rest : String) : Unplaced (beginLoop rest) := by
  unfold beginLoop
  refine .bind (by grind) fun parts => .bind .get fun a => ?_
  dsimp only
  grind

@[grind .]
instance unplaced_innermostLoop (keyword : Keyword) : Unplaced (innermostLoop keyword) := by
  unfold innermostLoop
  grind

@[grind .]
instance unplaced_endLoop : Unplaced endLoop := by
  unfold endLoop
  refine .bind .get fun a => ?_
  split
  · grind
  · exact .bind .set fun _ => .bind (by grind) fun loops => by grind

@[grind .]
instance unplaced_beginSub (rest : String) : Unplaced (beginSub rest) := by
  unfold beginSub
  grind [nestedSub]

@[grind .]
instance unplaced_endSub : Unplaced endSub := by
  unfold endSub
  grind [endSubWithoutSub]

@[grind .]
instance unplaced_readGosub (rest : String) : Unplaced (readGosub rest) := by
  unfold readGosub
  grind [undefinedSub]

@[grind .]
instance unplaced_readKeyword (keyword : Keyword) (rest : String) :
    Unplaced (readKeyword keyword rest) := by
  unfold readKeyword
  grind [beginChain, endMainInside, endStartupWithoutStartup]

@[grind .]
instance unplaced_readLine (text : String) : Unplaced (readLine text) := by
  unfold readLine
  grind

@[grind .]
instance unplaced_push (l : Line) (command : Command) : Unplaced (push l command) := by
  unfold push
  grind

end Assembly

end CommandScript
