import CommandScript.Assoc

/-!
# TOML trees

What a TOML document holds: scalars, lists and tables under keys. A table remembers how it came to
be, since that decides what may still be added to it: dotted keys go on in tables that dotted keys
made, a header may name a table that only headers below it implied, and a table between braces is
complete.
-/

namespace CommandScript.Toml

inductive Scalar where
  | integer (n : Int64)
  | float
  | boolean (b : Bool)
  | string (s : String)
  /-- A date, a time of day, or both. -/
  | moment
  deriving DecidableEq

/-- What made a table. -/
inductive Origin where
  /-- A header of its own; the document as a whole counts as such. -/
  | header
  /-- The header of a table below it. -/
  | implied
  | dottedKey
  deriving DecidableEq, Repr

inductive Node where
  | scalar (v : Scalar)
  | list (items : List Node)
  /-- A table between braces. -/
  | braced (fields : List (String × Node))
  | table (origin : Origin) (fields : List (String × Node))
  /-- The tables of a repeated header, the latest first. -/
  | tables (entries : List (List (String × Node)))

/-- A table that is being written. -/
structure Table where
  origin : Origin
  fields : Assoc String Node := []

namespace Table

/-- Changes the table at a path, making the tables that are missing on the way. A repeated header
leads to its latest table. A dotted key may not pass through a table that has a header. -/
def within (byDots : Bool) (change : Table → Option Table) : List String → Table → Option Table
  | [], t => change t
  | key :: path, t =>
    match t.fields.get? key with
    | none => do
      let below ← within byDots change path { origin := if byDots then .dottedKey else .implied }
      return { t with fields := t.fields.put key (.table below.origin below.fields) }
    | some (.table origin fields) =>
      if byDots && origin = .header then none
      else do
        let below ← within byDots change path { origin, fields }
        return { t with fields := t.fields.put key (.table below.origin below.fields) }
    | some (.tables (latest :: earlier)) => do
      let below ← within byDots change path { origin := .header, fields := latest }
      return { t with fields := t.fields.put key (.tables (below.fields :: earlier)) }
    | some _ => none

/-- Puts a value at a new key. Behind points the key belongs to a table that dotted keys made, and
without points to one that they did not make. -/
def withValue (t : Table) (path : List String) (key : String) (v : Node) : Option Table :=
  t.within true (fun below =>
    if (below.origin == .dottedKey) == path.isEmpty || below.fields.contains key then none
    else some { below with fields := below.fields.put key v }) path

/-- Begins the table of a header. -/
def withHeader (t : Table) (path : List String) (key : String) : Option Table :=
  t.within false (fun above =>
    match above.fields.get? key with
    | none => some { above with fields := above.fields.put key (.table .header []) }
    | some (.table .implied fields) =>
      some { above with fields := above.fields.put key (.table .header fields) }
    | some _ => none) path

/-- Begins one more table of a repeated header. -/
def withEntry (t : Table) (path : List String) (key : String) : Option Table :=
  t.within false (fun above =>
    match above.fields.get? key with
    | none => some { above with fields := above.fields.put key (.tables [[]]) }
    | some (.tables entries) =>
      some { above with fields := above.fields.put key (.tables ([] :: entries)) }
    | some _ => none) path

end Table

end CommandScript.Toml
