import PathIgnore.Value.Basic

/-!
# The fields of a structure

A structure is built from values that are given for its fields. Whether a value is of the right kind is the
business of a library, which refuses the others; some fields have a rule of their own besides. The faults of
all fields are kept together, in the order in which the fields are declared (`Validated`).
-/

namespace PathIgnore

/-- Why a library refuses a value: the kind of the fault, and the fault in words. -/
structure Refusal where
  kind : String
  message : String
  deriving DecidableEq, Repr

/-- Why the value of a field is not taken. -/
inductive FieldFault where
  /-- The library refuses it. -/
  | refused (refusal : Refusal)
  /-- An item holds an integer that is too long to be written. -/
  | longInteger
  | noFileName
  | separatorInFileName (name : Text)
  | emptyMarker
  deriving DecidableEq, Repr

/-- The fault in words. -/
def FieldFault.message : FieldFault → String
  | refused refusal => refusal.message
  | longInteger =>
    "Exceeds the limit (4300 digits) for integer string conversion; " ++
      "use sys.set_int_max_str_digits() to increase the limit"
  | noFileName => "IGNORE_FILENAMES must name at least one file"
  | separatorInFileName name =>
    "ignore filename must not contain a separator: " ++ String.ofList (Text.quoted name)
  | emptyMarker => "BOUNDARY_MARKER must not be empty"

/-- A field whose value is not taken. -/
structure FieldError where
  field : String
  fault : FieldFault
  deriving DecidableEq, Repr

/-- A result, or all that speaks against it. -/
inductive Validated (ε α : Type) where
  | valid (a : α)
  | invalid (errors : List ε)

namespace Validated

instance {ε : Type} : Functor (Validated ε) where
  map f
    | valid a => valid (f a)
    | invalid errors => invalid errors

/-- Errors of both sides are kept, those of the function first. -/
instance {ε : Type} : Applicative (Validated ε) where
  pure := valid
  seq f x :=
    match f, x () with
    | valid f, valid a => valid (f a)
    | valid _, invalid errors => invalid errors
    | invalid errors, valid _ => invalid errors
    | invalid errors, invalid more => invalid (errors ++ more)

/-- The result, or the list of errors. -/
def toExcept {ε α : Type} : Validated ε α → Except (List ε) α
  | valid a => .ok a
  | invalid errors => .error errors

/-- The check of one field. -/
def ofField {α : Type} (field : String) : Except FieldFault α → Validated FieldError α
  | .ok a => valid a
  | .error fault => invalid [⟨field, fault⟩]

end Validated

end PathIgnore
