import Mathlib.Data.List.Basic
import SeamLint.Snapshot.Document

set_option autoImplicit false

/-! # The fields of a snapshot node

What a document may say about a node, field by field: the shape that a field must have
(`isText`, `isSpan`, …) and what a field of that shape means (`textOf`, `spanOf`, …). Both
are stated without reference to how documents are decoded. Every decoder of a field turns
out to be a shape test in front of a meaning, and a list of them fails with the complaint of
the first test that does not hold (`settle`).
-/

namespace SeamLint.Snapshot

open SeamLint.Code SeamLint.Data

/-! ## What fields mean -/

/-- The text that a value is. -/
def textOf : Value → Option String
  | .text s => some s
  | _ => none

/-- The integer that a value is. A truth value is none. -/
def intOf : Value → Option Int
  | .int n => some n
  | _ => none

/-- The truth value that a value is; anything else counts as false. -/
def flagOf : Value → Bool
  | .bool b => b
  | _ => false

/-- The texts of a list. -/
def textsOf : Value → List String
  | .list items => items.filterMap textOf
  | _ => []

/-- The kind that a value names. -/
def kindOf (v : Value) : Option Kind := (textOf v).bind Kind.ofName?

/-- The span with the given bounds, if all of them are integers. -/
def spanFrom (a b c d : Value) : Option Span := do
  return ⟨← intOf a, ← intOf b, ← intOf c, ← intOf d⟩

/-- The span that a value gives, as a list of four integers or under their names. -/
def spanOf : Value → Option Span
  | .list [a, b, c, d] => spanFrom a b c d
  | .object fields =>
      spanFrom (Fields.getD fields "start_line") (Fields.getD fields "start_column")
        (Fields.getD fields "end_line") (Fields.getD fields "end_column")
  | _ => none

/-- The symbol with the given fields. -/
def symbolFrom (fields : Fields) : Symbol where
  name := (textOf (Fields.getD fields "name")).getD ""
  kind := (textOf (Fields.getD fields "kind")).getD "method"
  containingType := textOf (Fields.getD fields "containing_type")
  namespaceName := textOf (Fields.getD fields "namespace")
  typeName := textOf (Fields.getD fields "type_name")
  typeKind := textOf (Fields.getD fields "type_kind")
  isStatic := flagOf (Fields.getD fields "is_static")
  isAbstract := flagOf (Fields.getD fields "is_abstract")
  isExtern := flagOf (Fields.getD fields "is_extern")
  implementsInterface := flagOf (Fields.getD fields "implements_interface")
  baseTypes := textsOf (Fields.getD fields "base_types")
  interfaces := textsOf (Fields.getD fields "interfaces")

/-- The symbol that a value describes. -/
def symbolOf : Value → Option Symbol
  | .object fields => some (symbolFrom fields)
  | _ => none

/-- The facts that the fields of a node state. A span that is not given is unknown. -/
def factsOf (fields : Fields) : Facts where
  kind := (kindOf (Fields.getD fields "kind")).getD default
  span := (spanOf (Fields.getD fields "span")).getD {}
  name := textOf (Fields.getD fields "name")
  nameSpan := spanOf (Fields.getD fields "name_span")
  operator := textOf (Fields.getD fields "operator")
  modifiers := textsOf (Fields.getD fields "modifiers")
  isDiscard := flagOf (Fields.getD fields "discard")
  symbol := symbolOf (Fields.getD fields "symbol")

/-! ## The shapes of fields -/

/-- Nothing is given. -/
def isNull : Value → Bool
  | .null => true
  | _ => false

/-- A text, or nothing. -/
def isText (v : Value) : Bool := isNull v || v.shape = .text

/-- A truth value, or nothing. -/
def isFlag (v : Value) : Bool := isNull v || v.shape = .bool

/-- A list of texts, or nothing. -/
def isTexts : Value → Bool
  | .null => true
  | .list items => items.all fun item => (textOf item).isSome
  | _ => false

/-- A span, or nothing. -/
def isSpan (v : Value) : Bool := isNull v || (spanOf v).isSome

/-- The name of a kind. -/
def isKind (v : Value) : Bool := (kindOf v).isSome

/-- A list of children, or something that does not count as given. -/
def isChildList (v : Value) : Bool := v.shape = .list || !v.isGiven

/-! ## Complaints -/

/-- The defect, unless the test holds. -/
def complaint (test : Bool) (defect : Defect) : List Defect := if test then [] else [defect]

/-- The text fields of a symbol after its name. -/
def symbolTextNames : List String :=
  ["kind", "containing_type", "namespace", "type_name", "type_kind"]

/-- The truth values of a symbol. -/
def symbolFlagNames : List String :=
  ["is_static", "is_abstract", "is_extern", "implements_interface"]

/-- The lists of texts of a symbol. -/
def symbolListNames : List String := ["base_types", "interfaces"]

/-- What the fields of a symbol with a name get wrong. -/
def symbolFieldDefects (fields : Fields) : List Defect :=
  (symbolTextNames.flatMap fun name =>
    let raw := Fields.getD fields name
    complaint (isText raw) (.badSymbolField name raw .text)) ++
  (symbolFlagNames.flatMap fun name =>
    let raw := Fields.getD fields name
    complaint (isFlag raw) (.badSymbolField name raw .bool)) ++
  (symbolListNames.flatMap fun name =>
    let raw := Fields.getD fields name
    complaint (isTexts raw) (.badTextList ("symbol." ++ name) raw))

/-- What a symbol gets wrong. Without a name, nothing else is looked at. -/
def symbolDefects (raw : Value) : List Defect :=
  match raw with
  | .null => []
  | .object fields =>
      if (textOf (Fields.getD fields "name")).isSome then symbolFieldDefects fields
      else [.namelessSymbol raw]
  | _ => [.namelessSymbol raw]

/-- What the fields of a node get wrong, in the order in which they are looked at. -/
def factDefects (fields : Fields) : List Defect :=
  let get := Fields.getD fields
  complaint (isKind (get "kind")) (.unknownKind (get "kind")) ++
  complaint (isText (get "name")) (.badText "name" (get "name")) ++
  complaint (isSpan (get "span")) (.badSpan "span" (get "span")) ++
  complaint (isSpan (get "name_span")) (.badSpan "name_span" (get "name_span")) ++
  complaint (isText (get "operator")) (.badText "operator" (get "operator")) ++
  complaint (isTexts (get "modifiers")) (.badTextList "modifiers" (get "modifiers")) ++
  complaint (isFlag (get "discard")) (.badFlag "discard" (get "discard")) ++
  symbolDefects (get "symbol")

/-! ## Failing with the first complaint -/

/-- The value if there are no complaints, and else the first complaint. -/
def settle {ε α : Type} (complaints : List ε) (value : α) : Except ε α :=
  match complaints with
  | [] => .ok value
  | first :: _ => .error first

/-- What is settled first comes first. -/
theorem settle_bind {ε α β : Type} {xs ys : List ε} {a : α} {b : β} {next : α → Except ε β}
    (h : next a = settle ys b) : (settle xs a >>= next) = settle (xs ++ ys) b := by
  cases xs with
  | nil => exact h
  | cons x xs => rfl

theorem settle_pure {ε α β : Type} {xs : List ε} {a : α} (f : α → β) :
    (settle xs a >>= fun x => pure (f x)) = settle xs (f a) := by
  cases xs <;> rfl

theorem settle_complaint {α : Type} (test : Bool) (defect : Defect) (a : α) :
    settle (complaint test defect) a = if test then .ok a else .error defect := by
  cases test <;> rfl

/-! ## Decoders of single fields -/

theorem decodeKind_eq (raw : Value) :
    decodeKind raw =
      settle (complaint (isKind raw) (.unknownKind raw)) ((kindOf raw).getD default) := by
  rw [settle_complaint]
  cases raw with
  | text name =>
      simp only [decodeKind, isKind, kindOf, textOf, Option.bind_some]
      split
      · next kind hkind => simp [hkind]
      · next hnone => simp [hnone]
  | _ => rfl

theorem decodeText_eq (field : String) (raw : Value) :
    decodeText field raw = settle (complaint (isText raw) (.badText field raw)) (textOf raw) := by
  cases raw <;> rfl

theorem decodeFlag_eq (field : String) (raw : Value) :
    decodeFlag field raw = settle (complaint (isFlag raw) (.badFlag field raw)) (flagOf raw) := by
  cases raw <;> rfl

/-- The items of a list are its texts if all of them are texts. -/
theorem textItems?_eq (items : List Value) :
    textItems? items =
      if items.all (fun item => (textOf item).isSome) then some (items.filterMap textOf)
      else none := by
  induction items with
  | nil => rfl
  | cons item items ih =>
      cases item with
      | text s =>
          have hall : (Value.text s :: items).all (fun item => (textOf item).isSome) =
              items.all (fun item => (textOf item).isSome) := rfl
          rw [textItems?, ih, hall]
          split <;> rfl
      | _ => rfl

theorem decodeTextList_eq (field : String) (raw : Value) :
    decodeTextList field raw =
      settle (complaint (isTexts raw) (.badTextList field raw)) (textsOf raw) := by
  rw [settle_complaint]
  cases raw with
  | list items =>
      rw [decodeTextList, textItems?_eq, isTexts, textsOf]
      cases items.all fun item => (textOf item).isSome <;> rfl
  | _ => rfl

/-- Four bounds are integers if and only if they make a span. -/
theorem spanFrom_eq_some {a b c d : Value} {span : Span} :
    spanFrom a b c d = some span ↔
      a = .int span.startLine ∧ b = .int span.startColumn ∧ c = .int span.endLine ∧
        d = .int span.endColumn := by
  have hint (v : Value) (n : Int) : intOf v = some n ↔ v = .int n := by
    cases v <;> simp [intOf]
  simp only [spanFrom, Option.bind_eq_bind, Option.bind_eq_some_iff, Option.pure_def,
    Option.some.injEq, hint]
  constructor
  · rintro ⟨_, rfl, _, rfl, _, rfl, _, rfl, rfl⟩
    exact ⟨rfl, rfl, rfl, rfl⟩
  · rintro ⟨rfl, rfl, rfl, rfl⟩
    exact ⟨_, rfl, _, rfl, _, rfl, _, rfl, rfl⟩

/-- A value gives a span if and only if its four numbers are integers. -/
theorem spanOf_eq_some {raw : Value} {span : Span} :
    spanOf raw = some span ↔
      spanValues raw = .list [.int span.startLine, .int span.startColumn, .int span.endLine,
        .int span.endColumn] := by
  cases raw with
  | object fields => simp [spanOf, spanValues, spanFrom_eq_some]
  | list items =>
      match items with
      | [a, b, c, d] => simp [spanOf, spanValues, spanFrom_eq_some]
      | [] | [_] | [_, _] | [_, _, _] | _ :: _ :: _ :: _ :: _ :: _ => simp [spanOf, spanValues]
  | _ => simp [spanOf, spanValues]

theorem decodeSpan_eq (field : String) (raw : Value) :
    decodeSpan field raw = settle (complaint (isSpan raw) (.badSpan field raw)) (spanOf raw) := by
  rw [settle_complaint]
  unfold decodeSpan
  split
  · rfl
  · next hgiven =>
      have hnull : isNull raw = false := by
        cases raw with
        | null => exact absurd rfl hgiven
        | _ => rfl
      split
      · next a b c d hvalues =>
          have hspan : spanOf raw = some ⟨a, b, c, d⟩ := spanOf_eq_some.mpr hvalues
          simp [isSpan, hspan]
      · next hvalues =>
          have hspan : spanOf raw = none := by
            refine Option.eq_none_iff_forall_ne_some.mpr fun span h => ?_
            exact hvalues _ _ _ _ (spanOf_eq_some.mp h)
          simp [isSpan, hspan, hnull]

/-! ## Symbols -/

theorem symbolText_eq (fields : Fields) (name : String) :
    symbolText fields name =
      settle (complaint (isText (Fields.getD fields name))
        (.badSymbolField name (Fields.getD fields name) .text))
        (textOf (Fields.getD fields name)) := by
  unfold symbolText
  cases Fields.getD fields name <;> rfl

theorem symbolFlag_eq (fields : Fields) (name : String) :
    symbolFlag fields name =
      settle (complaint (isFlag (Fields.getD fields name))
        (.badSymbolField name (Fields.getD fields name) .bool))
        (flagOf (Fields.getD fields name)) := by
  unfold symbolFlag
  cases Fields.getD fields name <;> rfl

theorem decodeSymbolFields_eq {name : String} {fields : Fields}
    (hname : Fields.getD fields "name" = .text name) :
    decodeSymbolFields name fields = settle (symbolFieldDefects fields) (symbolFrom fields) := by
  unfold decodeSymbolFields
  simp only [symbolText_eq, symbolFlag_eq, symbolTexts, decodeTextList_eq]
  simp only [symbolFieldDefects, symbolTextNames, symbolFlagNames, symbolListNames,
    List.flatMap_cons, List.flatMap_nil, List.append_nil, List.append_assoc]
  have hlast : (textOf (Fields.getD fields "name")).getD "" = name := by
    rw [hname]
    rfl
  -- one decoder after the other, each with its complaint
  iterate 10 refine settle_bind ?_
  rw [settle_pure, ← hlast]
  rfl

/-- A text under a name is not the null of a missing field. -/
theorem get?_eq_text {fields : Fields} {name s : String} :
    Fields.get? fields name = some (.text s) ↔ Fields.getD fields name = .text s := by
  unfold Fields.getD
  cases Fields.get? fields name <;> simp

theorem decodeSymbol_eq (raw : Value) :
    decodeSymbol raw = settle (symbolDefects raw) (symbolOf raw) := by
  cases raw with
  | object fields =>
      unfold decodeSymbol symbolDefects symbolOf
      dsimp only
      split
      · next name hname =>
          rw [get?_eq_text] at hname
          rw [decodeSymbolFields_eq hname, hname]
          simp only [textOf, Option.isSome_some, if_true]
          cases symbolFieldDefects fields <;> rfl
      · next hname =>
          have hnone : textOf (Fields.getD fields "name") = none := by
            cases hget : Fields.getD fields "name" with
            | text s => exact absurd (get?_eq_text.mpr hget) (hname s)
            | _ => rfl
          rw [hnone]
          rfl
  | _ => rfl

/-! ## Nodes -/

/-- **The facts of a node are decoded field by field**, up to the first complaint. -/
theorem decodeFacts_eq (fields : Fields) :
    decodeFacts fields = settle (factDefects fields) (factsOf fields) := by
  unfold decodeFacts factDefects
  simp only [decodeKind_eq, decodeText_eq, decodeSpan_eq, decodeTextList_eq, decodeFlag_eq,
    decodeSymbol_eq, List.append_assoc]
  iterate 7 refine settle_bind ?_
  rw [settle_pure]
  rfl

end SeamLint.Snapshot
