import SeamLint.Data.Shown

set_option autoImplicit false

/-! # Taking values apart

Configuration values may have any shape. Each way of taking one apart names the fault that
a value of the wrong shape leads to. Every value has a text, unless it holds an integer with too
many digits.
-/

namespace SeamLint.Data

/-- Why a value cannot be used as it is. -/
inductive AccessFault where
  /-- The fields of something that is no object were asked for. -/
  | noFields (shape : Shape)
  /-- A name was looked up in something that is no object. -/
  | noNames (shape : Shape)
  /-- The elements of something that has none were asked for. -/
  | noElements (shape : Shape)
  /-- A list or an object cannot be a member of a set or a key. -/
  | notHashable (shape : Shape)
  /-- An element that should be a key and a value has another number of parts. -/
  | notPair (position length : Nat)
  /-- An element that should be a key and a value has no parts at all. -/
  | notSequence (position : Nat)
  /-- An infinite number has no integer value. -/
  | infinite
  /-- The text of an integer with too many digits was asked for. -/
  | unwritable (fault : Number.Unwritable)
deriving DecidableEq, Repr

/-- The wording of a fault. -/
def AccessFault.message : AccessFault → String
  | .noFields shape => s!"'{shape.name}' object has no attribute 'items'"
  | .noNames shape => s!"'{shape.name}' object has no attribute 'get'"
  | .noElements shape => s!"'{shape.name}' object is not iterable"
  | .notHashable shape => s!"unhashable type: '{shape.name}'"
  | .notPair position length =>
      s!"dictionary update sequence element #{position} has length {length}; 2 is required"
  | .notSequence position =>
      s!"cannot convert dictionary update sequence element #{position} to a sequence"
  | .infinite => "cannot convert float infinity to integer"
  | .unwritable fault => fault.message

/-- The text of a key. -/
def Key.asText (key : Key) : Except AccessFault String :=
  if key.isShowable then .ok key.shown else .error (.unwritable {})

/-- The text of a value. -/
def Value.asText (v : Value) : Except AccessFault String :=
  if v.isShowable then .ok v.shown else .error (.unwritable {})

/-- The fields of an object. -/
def Value.fields : Value → Except AccessFault Fields
  | .object fields => .ok fields
  | v => .error (.noFields v.shape)

/-- The value under a name of an object. -/
def Value.lookUp (v : Value) (name : String) : Except AccessFault (Option Value) :=
  match v with
  | .object fields => .ok (Fields.get? fields name)
  | _ => .error (.noNames v.shape)

/-- The elements of a value: of a list its items, of a text its characters, of an object
its keys. -/
def Value.elements : Value → Except AccessFault (List Value)
  | .list items => .ok items
  | .text s => .ok (s.toList.map fun c => .text (String.singleton c))
  | .object fields => .ok (fields.map fun entry => entry.1.value)
  | v => .error (.noElements v.shape)

/-- A scalar as a key. -/
def Value.toKey : Value → Except AccessFault Key
  | .null => .ok .null
  | .bool b => .ok (.bool b)
  | .int n => .ok (.int n)
  | .real x => .ok (.real x)
  | .text s => .ok (.text s)
  | v => .error (.notHashable v.shape)

/-- Reads the elements, the first of which stands at `position`, as keys with values. -/
def pairsFrom (fields : Fields) : Nat → List Value → Except AccessFault Fields
  | _, [] => .ok fields
  | position, v :: rest =>
      match v.elements with
      | .error _ => .error (.notSequence position)
      | .ok [k, value] => do
          let key ← k.toKey
          pairsFrom (fields.put key value) (position + 1) rest
      | .ok parts => .error (.notPair position parts.length)

/-- A value as an object: an object as it is, and anything with elements as a sequence of
keys with values. -/
def Value.asFields : Value → Except AccessFault Fields
  | .object fields => .ok fields
  | v => do pairsFrom [] 0 (← v.elements)

end SeamLint.Data
