/-
# What formulas remember

Variables that are declared in a block are found before those that are not declared anywhere, the
one declared last first.  Undeclared variables keep their values from one evaluation to the next, and
so do the fields of tables; a variable or a field without a value is `nil`.

The length of a table is the least number whose successor is no key of it.
-/
import TaggedText.Formula.Operator

namespace TaggedText.Formula

/-- The fields of a table. -/
abbrev Fields := List (Value × Value)

/-- The tables by their places, the undeclared variables and the declared ones, innermost first. -/
structure Memory where
  tables : Array Fields := #[]
  globals : List (String × Value) := []
  locals : List (String × Value) := []

/-! ## 1. Fields -/

/-- A real number that is whole names the same field as the whole number. -/
def Value.key : Value → Value
  | .real x =>
    match Real.whole? x with
    | some n => .integer n
    | none => .real x
  | v => v

/-- The value cannot name a field that is to be written. -/
def Value.isBadKey : Value → Bool
  | .nil => true
  | .real x => !(x == x)
  | _ => false

namespace Fields

/-- The value under a key. -/
def get (fields : Fields) (key : Value) : Value :=
  match fields.find? fun entry => entry.1.equals key with
  | some (_, v) => v
  | none => .nil

/-- The fields with a value put under a key. -/
def put (key value : Value) : Fields → Fields
  | [] => [(key, value)]
  | (k, v) :: rest =>
    if k.equals key then (k, value) :: rest else (k, v) :: put key value rest

/-- The least number from some on whose successor is no key; no list is longer than its entries. -/
def lengthFrom (fields : Fields) : Nat → Nat → Nat
  | 0, n => n
  | fuel + 1, n =>
    match fields.get (.ofNat (n + 1)) with
    | .nil => n
    | _ => lengthFrom fields fuel (n + 1)

/-- The length of a table. -/
def length (fields : Fields) : Nat := fields.lengthFrom (List.length fields) 0

end Fields

/-! ## 2. Variables -/

/-- A variable with a new value, if it is there. -/
def assign? (name : String) (v : Value) : List (String × Value) → Option (List (String × Value))
  | [] => none
  | (n, held) :: rest =>
    if n = name then some ((n, v) :: rest)
    else (assign? name v rest).map fun rest => (n, held) :: rest

namespace Memory

/-- The value of a variable. -/
def get (m : Memory) (name : String) : Value :=
  match m.locals.lookup name with
  | some v => v
  | none => (m.globals.lookup name).getD .nil

/-- A variable gets a value: the innermost declared one of that name, or else the undeclared one. -/
def set (m : Memory) (name : String) (v : Value) : Memory :=
  match assign? name v m.locals with
  | some locals => { m with locals := locals }
  | none =>
    { m with globals := (assign? name v m.globals).getD ((name, v) :: m.globals) }

/-- A variable is declared. -/
def declare (m : Memory) (name : String) (v : Value) : Memory :=
  { m with locals := (name, v) :: m.locals }

/-! ## 3. Tables -/

/-- A new table, and its place. -/
def allocate (m : Memory) (fields : Fields) : Value × Memory :=
  (.table m.tables.size, { m with tables := m.tables.push fields })

/-- The fields of a table. -/
def fields (m : Memory) (place : Nat) : Fields := m.tables[place]?.getD []

/-- What a value holds under a key; a text holds nothing. -/
def index (m : Memory) (holder key : Value) : Except Defect Value :=
  match holder with
  | .table place => .ok ((m.fields place).get key.key)
  | .text _ => .ok .nil
  | _ => .error .tableExpected

/-- A field of a table gets a value. -/
def setIndex (m : Memory) (holder key v : Value) : Except Defect Memory :=
  match holder with
  | .table place =>
    if key.isBadKey then .error .badKey
    else .ok { m with tables := m.tables.modify place (Fields.put key.key v) }
  | _ => .error .tableExpected

/-- The length of a text or a table. -/
def length (m : Memory) : Value → Except Defect Value
  | .text bytes => .ok (.ofNat bytes.length)
  | .table place => .ok (.ofNat (m.fields place).length)
  | _ => .error .noLength

/-! ## 4. Records -/

/-- Numbers under names as a table. -/
def ofRecord (record : List (String × Nat)) : Fields :=
  record.map fun (name, n) => (.ofString name, .ofNat n)

/-- Tables for records, and their places. -/
def allocateRecords : List (List (String × Nat)) → Memory → List Value × Memory
  | [], m => ([], m)
  | record :: rest, m =>
    let (v, m) := m.allocate (ofRecord record)
    let (vs, m) := allocateRecords rest m
    (v :: vs, m)

/-- An undeclared variable gets a table of records. -/
def setRecords (m : Memory) (name : String) (records : List (List (String × Nat))) : Memory :=
  let (values, m) := allocateRecords records m
  let (list, m) := m.allocate (values.zipIdx.map fun (v, i) => (.ofNat (i + 1), v))
  { m with globals := (assign? name list m.globals).getD ((name, list) :: m.globals) }

end Memory

end TaggedText.Formula
