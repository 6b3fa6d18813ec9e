import SeamLint.Data.Value
import SeamLint.Number.Integer
import SeamLint.Number.Written
import SeamLint.Text.Quoted

set_option autoImplicit false

/-! # Values in messages

Messages show values in a fixed notation: texts in quotes, lists in brackets, objects in
braces. A text that is shown on its own appears without quotes. A value that holds an integer
with too many digits is not shown at all, which is for `Value.isShowable` to tell.
-/

namespace SeamLint.Data

open SeamLint.Text SeamLint.Number

/-- A truth value in a message. -/
def shownBool (b : Bool) : String := if b then "True" else "False"

/-- A key inside a shown object. -/
def Key.quoted : Key → String
  | .null => "None"
  | .bool b => shownBool b
  | .int n => toString n
  | .real x => realText x
  | .text s => Text.quoted s

/-- A key on its own. -/
def Key.shown : Key → String
  | .text s => s
  | key => key.quoted

mutual

/-- A value with its texts in quotes. -/
def Value.quoted : Value → String
  | .null => "None"
  | .bool b => shownBool b
  | .int n => toString n
  | .real x => realText x
  | .text s => Text.quoted s
  | .list items => "[" ++ join ", " (quotedItems items) ++ "]"
  | .object fields => "\x7b" ++ join ", " (quotedFields fields) ++ "\x7d"

/-- The elements of a list, one by one. -/
def quotedItems : List Value → List String
  | [] => []
  | v :: rest => v.quoted :: quotedItems rest

/-- The fields of an object, one by one. -/
def quotedFields : List (Key × Value) → List String
  | [] => []
  | (k, v) :: rest => (k.quoted ++ ": " ++ v.quoted) :: quotedFields rest

end

/-- A value on its own. -/
def Value.shown : Value → String
  | .text s => s
  | v => v.quoted

/-! ## What can be shown -/

/-- The key is no integer with too many digits. -/
def Key.isShowable : Key → Bool
  | .int n => isWritable n
  | _ => true

mutual

/-- No integer in the value has too many digits. -/
def Value.isShowable : Value → Bool
  | .int n => isWritable n
  | .list items => areShowable items
  | .object fields => haveShowable fields
  | _ => true

/-- No integer in the elements has too many digits. -/
def areShowable : List Value → Bool
  | [] => true
  | v :: rest => v.isShowable && areShowable rest

/-- No integer in the fields has too many digits. -/
def haveShowable : List (Key × Value) → Bool
  | [] => true
  | (k, v) :: rest => k.isShowable && v.isShowable && haveShowable rest

end

theorem areShowable_eq_all (items : List Value) :
    areShowable items = items.all Value.isShowable := by
  induction items with
  | nil => rfl
  | cons v rest ih => rw [areShowable, ih, List.all_cons]

theorem haveShowable_eq_all (fields : List (Key × Value)) :
    haveShowable fields = fields.all fun entry => entry.1.isShowable && entry.2.isShowable := by
  induction fields with
  | nil => rfl
  | cons entry rest ih => rw [haveShowable, ih, List.all_cons]

end SeamLint.Data
