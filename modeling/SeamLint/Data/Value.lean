import SeamLint.Number.Binary

set_option autoImplicit false

/-! # Values of configuration and snapshot documents

A document is a value: a scalar, a list of values, or an object, which is a list of keys
with their values in the order in which they were written. The keys of an object are
distinct; `put` keeps them so. JSON only has texts as keys, YAML may have other scalars.
-/

namespace SeamLint.Data

/-- A key of an object. -/
inductive Key where
  | null
  | bool (b : Bool)
  | int (n : Int)
  | real (x : Float)
  | text (s : String)

/-- A document value. -/
inductive Value where
  | null
  | bool (b : Bool)
  | int (n : Int)
  | real (x : Float)
  | text (s : String)
  | list (items : List Value)
  | object (fields : List (Key × Value))

/-- The fields of an object. -/
abbrev Fields := List (Key × Value)

instance : Inhabited Value := ⟨.null⟩

/-! ## Keys -/

/-- The integer that a key stands for: a number without fraction, and one or zero for a
truth value. -/
def Key.integer? : Key → Option Int
  | .bool b => some (if b then 1 else 0)
  | .int n => some n
  | .real x => (Number.Binary.ofFloat x).integer?
  | _ => none

/-- Two keys name the same field. Numbers are compared by value. -/
def Key.same : Key → Key → Bool
  | .null, .null => true
  | .text s, .text t => s == t
  | .real x, .real y => x.toBits == y.toBits || x == y
  | a, b =>
      match a.integer?, b.integer? with
      | some m, some n => m == n
      | _, _ => false

/-- The value of a key on its own. -/
def Key.value : Key → Value
  | .null => .null
  | .bool b => .bool b
  | .int n => .int n
  | .real x => .real x
  | .text s => .text s

/-! ## Fields -/

/-- The value stored under a key. -/
def Fields.find? (key : Key) : Fields → Option Value
  | [] => none
  | (k, v) :: rest => if k.same key then some v else find? key rest

/-- The value stored under a name. -/
def Fields.get? (fields : Fields) (name : String) : Option Value := fields.find? (.text name)

/-- Stores a value under a key: in place if the key is there already, else at the end. -/
def Fields.put (key : Key) (value : Value) : Fields → Fields
  | [] => [(key, value)]
  | (k, v) :: rest => if k.same key then (k, value) :: rest else (k, v) :: put key value rest

/-- The object with these fields, later ones replacing earlier ones of the same key. -/
def Fields.ofList (entries : List (Key × Value)) : Fields :=
  entries.foldl (fun fields entry => fields.put entry.1 entry.2) []

/-! ## Shapes of values -/

/-- The sort of a value. -/
inductive Shape where
  | null
  | bool
  | int
  | real
  | text
  | list
  | object
deriving DecidableEq, Repr

/-- The word for a sort of value that messages use. -/
def Shape.name : Shape → String
  | .null => "NoneType"
  | .bool => "bool"
  | .int => "int"
  | .real => "float"
  | .text => "str"
  | .list => "list"
  | .object => "dict"

/-- The sort of a value. -/
def Value.shape : Value → Shape
  | .null => .null
  | .bool _ => .bool
  | .int _ => .int
  | .real _ => .real
  | .text _ => .text
  | .list _ => .list
  | .object _ => .object

/-- The value counts as given: it is neither null, false nor zero, and it is not empty. -/
def Value.isGiven : Value → Bool
  | .null => false
  | .bool b => b
  | .int n => n != 0
  | .real x => !(Number.Binary.ofFloat x).isZero
  | .text s => !s.isEmpty
  | .list items => !items.isEmpty
  | .object fields => !fields.isEmpty

/-- The value under a name, if the value is an object that has the name. -/
def Value.get? (v : Value) (name : String) : Option Value :=
  match v with
  | .object fields => Fields.get? fields name
  | _ => none

/-- The value under a name; a missing name counts as null. -/
def Fields.getD (fields : Fields) (name : String) : Value := (Fields.get? fields name).getD .null

/-- A text, given as a key. -/
def field (name : String) (value : Value) : Key × Value := (.text name, value)

end SeamLint.Data
