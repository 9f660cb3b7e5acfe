import CommandScript.Numeral

/-!
# Values

A value has one of six types. Numbers, truth values and texts convert into one another where the
text reads as such; an array is never taken for a single value, and a single value becomes an array
of one entry.
-/

namespace CommandScript

/-- The declared type of a variable. -/
inductive ValueType where
  | integer
  | unsigned
  | boolean
  | string
  | strings
  | integers
  deriving DecidableEq, Repr

inductive Value where
  | integer (n : Int64)
  | unsigned (n : UInt32)
  | boolean (b : Bool)
  | string (s : String)
  | strings (items : List String)
  | integers (items : List Int64)
  deriving DecidableEq

namespace ValueType

def name : ValueType → String
  | integer => "Integer"
  | unsigned => "Unsigned"
  | boolean => "Boolean"
  | string => "String"
  | strings => "StrArray"
  | integers => "IntArray"

instance : ToString ValueType := ⟨name⟩

/-- The words that name a type in a script. -/
def wordTable : List (String × ValueType) :=
  [("INTEGER", integer), ("INT", integer), ("UNSIGNED", unsigned), ("U32", unsigned),
    ("BOOLEAN", boolean), ("BOOL", boolean), ("STRING", string), ("STR", string),
    ("STRARRAY", strings), ("STRINGLIST", strings), ("INTARRAY", integers),
    ("INTEGERLIST", integers)]

def ofWord (word : String) : Checked ValueType :=
  match Text.lookupWord wordTable word with
  | some t => .ok t
  | none => .fail .malformed s!"unknown variable type '{word}'"

def isArray : ValueType → Bool
  | strings | integers => true
  | _ => false

def isNumeric : ValueType → Bool
  | integer | unsigned => true
  | _ => false

/-- The types whose values may stand for a number: numbers, and texts that hold one. -/
def mayCount (t : ValueType) : Bool :=
  t.isNumeric || t == string

/-- What a variable of this type holds before it is written. -/
def zero : ValueType → Value
  | integer => .integer 0
  | unsigned => .unsigned 0
  | boolean => .boolean false
  | string => .string ""
  | strings => .strings []
  | integers => .integers []

end ValueType

namespace Value

def type : Value → ValueType
  | integer _ => .integer
  | unsigned _ => .unsigned
  | boolean _ => .boolean
  | string _ => .string
  | strings _ => .strings
  | integers _ => .integers

/-- The text of a value; the entries of an array are joined by blanks. -/
def toText : Value → String
  | integer n => toString n.toInt
  | unsigned n => toString n.toNat
  | boolean b => if b then "true" else "false"
  | string s => s
  | strings items => " ".intercalate items
  | integers items => " ".intercalate (items.map fun n => toString n.toInt)

instance : ToString Value := ⟨toText⟩

def toInteger : Value → Checked Int64
  | integer n => .ok n
  | unsigned n => .ok (Int64.ofNat n.toNat)
  | boolean b => .ok (if b then 1 else 0)
  | string s => Numeral.readInteger s
  | v => .fail .typeMismatch s!"{v.type} cannot be used as Integer"

def toUnsigned : Value → Checked UInt32
  | unsigned n => .ok n
  | string s => Numeral.readUnsigned s
  | v => do Numeral.unsigned (← v.toInteger)

def toBoolean : Value → Checked Bool
  | boolean b => .ok b
  | integer n => .ok (n != 0)
  | unsigned n => .ok (n != 0)
  | string s => Numeral.readBoolean s
  | v => .fail .typeMismatch s!"{v.type} cannot be used as Boolean"

def toStrings : Value → List String
  | strings items => items
  | integers items => items.map fun n => toString n.toInt
  | v => [v.toText]

def toIntegers : Value → Checked (List Int64)
  | integers items => .ok items
  | strings items => items.mapM Numeral.readInteger
  | v => do return [← v.toInteger]

/-- The value as one of type `t`; a value of that type is kept as it is. -/
def convert (v : Value) (t : ValueType) : Checked Value :=
  if v.type = t then .ok v
  else match t with
    | .integer => integer <$> v.toInteger
    | .unsigned => unsigned <$> v.toUnsigned
    | .boolean => boolean <$> v.toBoolean
    | .string => .ok (string v.toText)
    | .strings => .ok (strings v.toStrings)
    | .integers => integers <$> v.toIntegers

/-- The value of type `t` that a token denotes. -/
def ofToken (raw : String) : ValueType → Checked Value
  | .integer => integer <$> Numeral.readInteger raw
  | .unsigned => unsigned <$> Numeral.readUnsigned raw
  | .boolean => boolean <$> Numeral.readBoolean raw
  | .string => .ok (string raw)
  | .strings => .ok (strings [raw])
  | .integers => do return integers [← Numeral.readInteger raw]

@[simp] theorem type_zero (t : ValueType) : t.zero.type = t := by
  cases t <;> rfl

end Value

end CommandScript

/-!
## Entries of an array value

Adding, replacing and removing entries. An item becomes an entry by conversion to the type of the
entries, which may fail; a value that is no array has no entries to change.
-/

namespace CommandScript.Value

/-- A fault for a value that is no array, which the variable `name` holds. -/
def notArray (name : String) (v : Value) : Checked α :=
  .fail .typeMismatch s!"{name} holds {v.type}, not an array"

/-- Changes the entries of an array in the same way whatever their type is; an item comes with the
change. -/
def changeWith (v : Value) (name : String) (item : Value)
    (change : {α : Type} → List α → α → List α) : Checked Value :=
  match v with
  | strings items => .ok (strings (change items item.toText))
  | integers items => do return integers (change items (← item.toInteger))
  | v => notArray name v

/-- Changes the entries of an array in the same way whatever their type is. -/
def change (v : Value) (name : String) (f : {α : Type} → List α → List α) : Checked Value :=
  match v with
  | strings items => .ok (strings (f items))
  | integers items => .ok (integers (f items))
  | v => notArray name v

def appendItem (v : Value) (name : String) (item : Value) : Checked Value :=
  v.changeWith name item fun items x => items ++ [x]

def insertItem (v : Value) (name : String) (index : Nat) (item : Value) : Checked Value :=
  v.changeWith name item fun items x => items.take index ++ x :: items.drop index

def replaceItem (v : Value) (name : String) (index : Nat) (item : Value) : Checked Value :=
  v.changeWith name item fun items x => items.set index x

/-- Removes the entries from `first` to `last`. -/
def removeItems (v : Value) (name : String) (first last : Nat) : Checked Value :=
  v.change name fun items => items.take first ++ items.drop (last + 1)

/-- Adds the entries of another array, or one value, at the end. -/
def extendItems (v : Value) (name : String) (more : Value) : Checked Value :=
  match v with
  | strings items => .ok (strings (items ++ more.toStrings))
  | integers items => do return integers (items ++ (← more.toIntegers))
  | v => notArray name v

end CommandScript.Value
