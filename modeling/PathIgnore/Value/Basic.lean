import PathIgnore.Text.Quoted
import PathIgnore.Decimal.Shortest

/-!
# Values

A setting may be supplied as any value of a data format: nothing, a truth value, a number, a text, a
list or a record of named values. Integers have no bound; a record keeps the order of its names.

`Value.display?` is the text that stands for a value where a text is wanted: a text is itself, and
anything else is spelled, with the texts inside it quoted. Only an integer with too many digits has no
text, and nothing that holds one has.
-/

namespace PathIgnore

/-- A value of a data format. -/
inductive Value where
  | null
  | bool (b : Bool)
  | integer (n : Int)
  | real (x : Binary64)
  | text (t : Text)
  | list (items : List Value)
  | record (fields : List (Text × Value))
  deriving Inhabited

namespace Value

/-- Whether the value counts as nothing: null, false, a zero, or an empty text, list or record. -/
def isEmpty : Value → Bool
  | null => true
  | bool b => !b
  | integer n => n == 0
  | real x => x.isZero
  | text t => List.isEmpty t
  | list items => items.isEmpty
  | record fields => fields.isEmpty

/-- The value under a name. -/
def field? (name : Text) (fields : List (Text × Value)) : Option Value := fields.lookup name

/-- Sets the value under a name: a name keeps the place of its first value and has its last one. -/
def setField (name : Text) (v : Value) : List (Text × Value) → List (Text × Value)
  | [] => [(name, v)]
  | (n, w) :: rest => if n = name then (n, v) :: rest else (n, w) :: setField name v rest

/-- The fields of a record. -/
def fields? : Value → Option (List (Text × Value))
  | record fields => some fields
  | _ => none

/-! ## Spelling -/

mutual

/-- The value spelled out, texts in quotes; none if an integer in it is too long. -/
def spelled? : Value → Option Text
  | null => some "None".toList
  | bool true => some "True".toList
  | bool false => some "False".toList
  | integer n => Decimal.integerText? n
  | real x => some x.toText
  | text t => some (Text.quoted t)
  | list items => (spelledItems? items).map fun t => '[' :: t ++ [']']
  | record fields => (spelledFields? fields).map fun t => '{' :: t ++ ['}']

/-- The items of a list, with commas between them. -/
def spelledItems? : List Value → Option Text
  | [] => some []
  | [v] => spelled? v
  | v :: rest => do return (← spelled? v) ++ [',', ' '] ++ (← spelledItems? rest)

/-- The fields of a record, with commas between them. -/
def spelledFields? : List (Text × Value) → Option Text
  | [] => some []
  | [(n, v)] => (spelled? v).map fun t => Text.quoted n ++ [':', ' '] ++ t
  | (n, v) :: rest => do
    return Text.quoted n ++ [':', ' '] ++ (← spelled? v) ++ [',', ' '] ++ (← spelledFields? rest)

end

/-- The text that stands for a value: a text is itself, anything else is spelled out. -/
def display? : Value → Option Text
  | text t => some t
  | v => spelled? v

end Value

end PathIgnore
