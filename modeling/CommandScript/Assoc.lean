/-!
# Finite maps

A finite map is a list of keys and what they stand for. The first entry of a key counts; `put`
replaces it where it stands or adds an entry at the end.
-/

namespace CommandScript

abbrev Assoc (κ α : Type) := List (κ × α)

namespace Assoc

variable {κ α : Type} [DecidableEq κ]

/-- What a key stands for. -/
def get? (k : κ) : Assoc κ α → Option α
  | [] => none
  | (j, a) :: rest => if j = k then some a else get? k rest

def put (k : κ) (a : α) : Assoc κ α → Assoc κ α
  | [] => [(k, a)]
  | (j, b) :: rest => if j = k then (k, a) :: rest else (j, b) :: put k a rest

/-- The map without the entries of a key. -/
def erase (k : κ) (m : Assoc κ α) : Assoc κ α :=
  m.filter fun e => e.1 ≠ k

def contains (k : κ) (m : Assoc κ α) : Bool :=
  (get? k m).isSome

@[simp] theorem get?_nil (k : κ) : get? k ([] : Assoc κ α) = none := rfl

@[simp] theorem get?_put (k j : κ) (a : α) (m : Assoc κ α) :
    get? j (put k a m) = if k = j then some a else get? j m := by
  induction m with
  | nil => simp [put, get?]
  | cons e rest ih =>
    obtain ⟨i, b⟩ := e
    by_cases h : i = k <;> by_cases h' : i = j <;> grind [put, get?]

@[simp] theorem get?_erase (k j : κ) (m : Assoc κ α) :
    get? j (erase k m) = if k = j then none else get? j m := by
  induction m with
  | nil => simp [erase, get?]
  | cons e rest ih =>
    obtain ⟨i, b⟩ := e
    simp only [erase, List.filter_cons] at ih ⊢
    by_cases h : i = k <;> by_cases h' : i = j <;> grind [get?]

/-- Putting what a key stands for changes nothing. -/
theorem put_of_get? {k : κ} {a : α} {m : Assoc κ α} (h : m.get? k = some a) : m.put k a = m := by
  induction m with
  | nil => cases h
  | cons e m ih =>
    obtain ⟨j, b⟩ := e
    by_cases hj : j = k
    · simp_all [put, get?]
    · simp_all [put, get?]

end Assoc

end CommandScript
