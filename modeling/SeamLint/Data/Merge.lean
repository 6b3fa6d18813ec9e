import SeamLint.Data.Value

set_option autoImplicit false

/-! # Overriding one object by another

The fields of the second object override those of the first. Where both have an object
under a key, the two objects are merged in turn; otherwise the second value replaces the
first.
-/

namespace SeamLint.Data

mutual

/-- The value that results where `base` is overridden by the second value. -/
def mergeValue (base : Option Value) : Value → Value
  | .object override =>
      match base with
      | some (.object fields) => .object (mergeFields fields override)
      | _ => .object override
  | v => v

/-- The fields of `base` overridden by the second fields, one after another. -/
def mergeFields (base : Fields) : List (Key × Value) → Fields
  | [] => base
  | (k, v) :: rest => mergeFields (base.put k (mergeValue (base.find? k) v)) rest

end

end SeamLint.Data
