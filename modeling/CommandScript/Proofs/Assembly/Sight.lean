import CommandScript.Command.Reader

/-!
# Lines that see the same

Reading a command asks its context only which names are loops and what types names have. Where two
contexts answer alike (`Context.Sees`), every line is read alike.
-/

namespace CommandScript.Context

/-- The contexts have the same loops and give names the same types. -/
structure Sees (c c' : Context) : Prop where
  isLoop : c'.isLoop = c.isLoop
  typeOf : c'.typeOf = c.typeOf

namespace Sees

variable {c c' : Context} (h : c.Sees c')

include h

/-! ### Types -/

theorem checkIndexNames : c'.checkIndexNames = c.checkIndexNames := by
  funext r
  rw [Context.checkIndexNames, Context.checkIndexNames, h.isLoop, h.typeOf]

theorem referenceType : c'.referenceType = c.referenceType := by
  funext r
  rw [Context.referenceType, Context.referenceType, h.checkIndexNames, h.isLoop, h.typeOf]

theorem checkFormula : c'.checkFormula = c.checkFormula := by
  funext f
  rw [Context.checkFormula, Context.checkFormula, h.referenceType]

theorem operandType : c'.operandType = c.operandType := by
  funext o
  cases o with
  | literal v => rfl
  | reference r => exact congrFun h.referenceType r
  | formula f => rw [Context.operandType, Context.operandType, h.checkFormula]

theorem argumentType : c'.argumentType = c.argumentType := by
  funext a
  cases a with
  | operand o => exact congrFun h.operandType o
  | joined parts => rw [Context.argumentType, Context.argumentType, h.operandType]

theorem checkCondition : c'.checkCondition = c.checkCondition := by
  funext condition
  cases condition with
  | relation left r right => rw [Context.checkCondition, Context.checkCondition, h.operandType]
  | flag o b => rw [Context.checkCondition, Context.checkCondition, h.operandType]

/-! ### Texts -/

theorem readFormula : c'.readFormula = c.readFormula := by
  funext text
  rw [Context.readFormula, Context.readFormula, h.checkFormula]

theorem readArgument : c'.readArgument = c.readArgument := by
  funext text
  rw [Context.readArgument, Context.readArgument, h.argumentType]

theorem readCondition : c'.readCondition = c.readCondition := by
  funext text
  rw [Context.readCondition, Context.readCondition, h.checkCondition]

theorem readPath : c'.readPath = c.readPath := by
  funext text
  rw [Context.readPath, Context.readPath, h.readArgument]

theorem readPathWord {α : Type} (rest : String) (meaning : String → Option α) :
    c'.readPathWord rest meaning = c.readPathWord rest meaning := by
  rw [Context.readPathWord, Context.readPathWord, h.readPath]

/-! ### Commands -/

theorem readRight : c'.readRight = c.readRight := by
  funext target t op right
  unfold Context.readRight
  rw [h.readFormula, h.readCondition, h.readArgument, h.referenceType, h.argumentType,
    h.operandType]

theorem readSet : c'.readSet = c.readSet := by
  funext rest
  unfold Context.readSet
  rw [h.readFormula, h.isLoop, h.readRight, h.typeOf]

theorem readArray : c'.readArray = c.readArray := by
  funext token
  unfold Context.readArray
  rw [h.typeOf, h.checkIndexNames]

theorem readWholeArray : c'.readWholeArray = c.readWholeArray := by
  funext token
  rw [Context.readWholeArray, Context.readWholeArray, h.readArray]

theorem readItem : c'.readItem = c.readItem := by
  funext t text
  rw [Context.readItem, Context.readItem, h.argumentType]

theorem readIndexed : c'.readIndexed = c.readIndexed := by
  funext keyword rest
  rw [Context.readIndexed, Context.readIndexed, h.readArray, h.readItem]

theorem readAppend : c'.readAppend = c.readAppend := by
  funext rest
  rw [Context.readAppend, Context.readAppend, h.readWholeArray, h.readItem]

theorem readRemove : c'.readRemove = c.readRemove := by
  funext rest
  rw [Context.readRemove, Context.readRemove, h.readArray]

theorem readCounted : c'.readCounted = c.readCounted := by
  funext rest
  rw [Context.readCounted, Context.readCounted, h.readWholeArray, h.readFormula]

theorem readClear : c'.readClear = c.readClear := by
  funext rest
  rw [Context.readClear, Context.readClear, h.typeOf]

theorem readReset : c'.readReset = c.readReset := by
  funext rest
  rw [Context.readReset, Context.readReset, h.readWholeArray]

theorem readFilter : c'.readFilter = c.readFilter := by
  have number : c'.readNumberFilter = c.readNumberFilter := by
    funext text
    unfold Context.readNumberFilter
    rw [h.readFormula]
  have text : c'.readTextFilter = c.readTextFilter := by
    funext text
    unfold Context.readTextFilter
    rw [h.readArgument]
  funext rest
  rw [Context.readFilter, Context.readFilter, h.readWholeArray, number, text]

theorem readDirectory : c'.readDirectory = c.readDirectory := by
  funext rest
  unfold Context.readDirectory
  rw [h.readPath]

/-- The commands that neither open nor close a block are read alike. -/
theorem readCommand : c'.readCommand = c.readCommand := by
  funext keyword rest
  unfold Context.readCommand
  rw [h.readSet, h.readArgument, h.readIndexed, h.readAppend, h.readRemove, h.readCounted,
    h.readClear, h.readFilter, h.readReset, h.readPath, h.readFormula, h.readDirectory,
    h.readPathWord, h.readPathWord]

end Sees

end CommandScript.Context
