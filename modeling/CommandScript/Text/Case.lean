import CommandScript.Text.CaseTable

/-!
# Upper and lower case of a text

Full case mapping: one character may become several (`ß` in upper case is `SS`), and a capital
sigma that ends a word becomes `ς` in lower case. A sigma ends a word when the nearest character
before it that is not passed over is cased and the nearest one after it is not.
-/

namespace CommandScript.Text

open CaseTable

namespace CaseTable

/-- The shift that a table of runs gives a code point. -/
def shift? (runs : List Run) (point : Nat) : Option Int :=
  (runs.find? fun r =>
    r.first ≤ point && point ≤ r.last && (point - r.first) % r.stride == 0).map (·.shift)

/-- The characters that a code point becomes under a table of runs and a table of specials. -/
def mapped (runs : List Run) (specials : List (Nat × List Nat)) (c : Char) : List Char :=
  match specials.lookup c.toNat with
  | some points => points.map Char.ofNat
  | none =>
    match shift? runs c.toNat with
    | some d => [Char.ofNat (c.toNat + d).toNat]
    | none => [c]

def within (ranges : List (Nat × Nat)) (c : Char) : Bool :=
  ranges.any fun r => r.1 ≤ c.toNat && c.toNat ≤ r.2

end CaseTable

/-- The nearest character that is not passed over is cased. -/
def meetsCased (s : List Char) : Bool :=
  match s.dropWhile (within passedOver) with
  | [] => false
  | c :: _ => within cased c

/-- Lower case of `s` after the characters `before`, nearest first. -/
def lowerFrom (before : List Char) : List Char → List Char
  | [] => []
  | 'Σ' :: rest =>
    (if meetsCased before && !meetsCased rest then 'ς' else 'σ') :: lowerFrom ('Σ' :: before) rest
  | c :: rest =>
    mapped lowerRuns lowerSpecials c ++ lowerFrom (c :: before) rest

def lower (s : String) : String :=
  String.ofList (lowerFrom [] s.toList)

def upper (s : String) : String :=
  String.ofList (s.toList.flatMap (mapped upperRuns upperSpecials))

end CommandScript.Text
