import Stencil.Bindings

/-!
# TOML values

The values of a TOML document.  A table remembers how it came to be, since that
decides what may still be added to it.
-/

namespace Stencil

namespace Toml

inductive Origin where
  /-- By a header of its own, or as an element of an array of tables. -/
  | header
  /-- By a header of a table below it. -/
  | implied
  /-- By a dotted key. -/
  | dotted
deriving DecidableEq, Repr

end Toml

inductive Toml where
  | string (t : Text)
  | integer (n : Int)
  | float (x : Float)
  | boolean (b : Bool)
  | moment (t : Text)
  | array (items : List Toml)
  | inline (fields : List (Text × Toml))
  | table (origin : Toml.Origin) (fields : List (Text × Toml))
  /-- An array of tables, last one first. -/
  | tables (last : List (Text × Toml)) (earlier : List (List (Text × Toml)))

namespace Toml

inductive Statement where
  /-- The lines that follow are about the table `outer.key`. -/
  | header (outer : List Text) (key : Text)
  /-- The lines that follow are about a new table of the array `outer.key`. -/
  | element (outer : List Text) (key : Text)
  /-- `outer.key`, below the table that the lines are about, has a value. -/
  | field (outer : List Text) (key : Text) (value : Toml)

abbrev Fields := Bindings Toml

def addNew (fields : Fields) (key : Text) (value : Toml) : Option Fields :=
  match fields.get? key with
  | some _ => none
  | none => some (fields ++ [(key, value)])

/-- Adds a field below a table.  Tables on the way are made if they are missing; the last of
them is for dotted keys only, and headers close those before it. -/
def addBelow (origin : Origin) :
    (outer : List Text) → (key : Text) → (value : Toml) → Fields → Option Fields
  | [], key, value, fields => if origin = .dotted then addNew fields key value else none
  | first :: outer, key, value, fields =>
    match fields.get? first with
    | none =>
      (addBelow .dotted outer key value []).map fun inner =>
        fields ++ [(first, .table .dotted inner)]
    | some (.table inner below) =>
      if inner = .header then none
      else (addBelow inner outer key value below).map fun below =>
        fields.set first (.table inner below)
    | some (.tables last earlier) =>
      (addBelow .header outer key value last).map fun last =>
        fields.set first (.tables last earlier)
    | some _ => none

def add (outer : List Text) (key : Text) (value : Toml) (fields : Fields) : Option Fields :=
  match outer with
  | [] => addNew fields key value
  | _ :: _ => addBelow .header outer key value fields

def changeAt (change : Fields → Option Fields) : List Text → Fields → Option Fields
  | [], fields => change fields
  | first :: rest, fields =>
    match fields.get? first with
    | none =>
      (changeAt change rest []).map fun inner => fields ++ [(first, .table .implied inner)]
    | some (.table origin inner) =>
      (changeAt change rest inner).map fun inner => fields.set first (.table origin inner)
    | some (.tables last earlier) =>
      (changeAt change rest last).map fun last => fields.set first (.tables last earlier)
    | some _ => none

/-- Opens a table by a header.  This can be done once for a table. -/
def openTable (key : Text) (fields : Fields) : Option Fields :=
  match fields.get? key with
  | none => some (fields ++ [(key, .table .header [])])
  | some (.table .implied inner) => some (fields.set key (.table .header inner))
  | some _ => none

def openElement (key : Text) (fields : Fields) : Option Fields :=
  match fields.get? key with
  | none => some (fields ++ [(key, .tables [] [])])
  | some (.tables last earlier) => some (fields.set key (.tables [] (last :: earlier)))
  | some _ => none

/-- The fields of a document of which the last header was `current`. -/
def build (current : List Text) : List Statement → Fields → Option Fields
  | [], fields => some fields
  | .header outer key :: statements, fields =>
    match changeAt (openTable key) outer fields with
    | some fields => build (outer ++ [key]) statements fields
    | none => none
  | .element outer key :: statements, fields =>
    match changeAt (openElement key) outer fields with
    | some fields => build (outer ++ [key]) statements fields
    | none => none
  | .field outer key value :: statements, fields =>
    match changeAt (add outer key value) current fields with
    | some fields => build current statements fields
    | none => none

def ofPairs : List (List Text × Text × Toml) → Fields → Option Fields
  | [], fields => some fields
  | (outer, key, value) :: pairs, fields =>
    match add outer key value fields with
    | some fields => ofPairs pairs fields
    | none => none

end Toml

end Stencil
