import TemplateAnalysis.Decimal.Binary64
import TemplateAnalysis.Text.CodePoint

/-! # Data values

    The data of templates is kept as JSON. The members of an object keep the
    order in which their keys first appeared, and a key appears once. Keys and
    strings hold any code points, also halves of surrogate pairs.
-/

namespace TemplateAnalysis.Json

open Text

/-- A JSON value. Integers have any size. -/
inductive Value
  | null
  | bool (b : Bool)
  | integer (n : Int)
  | double (x : Decimal.Binary64)
  | string (s : CodePoints)
  | array (items : List Value)
  | object (members : List (CodePoints × Value))
  deriving Repr

/-- The members of an object. -/
abbrev Members := List (CodePoints × Value)

namespace Members

/-- The value of a key. -/
def get? (members : Members) (key : CodePoints) : Option Value :=
  members.lookup key

/-- Is there a member with this key? -/
def hasKey (members : Members) (key : CodePoints) : Bool :=
  (members.get? key).isSome

/-- Give a key a value. A key that is there keeps its place, a new one is added
    at the end. -/
def put (key : CodePoints) (value : Value) : Members → Members
  | [] => [(key, value)]
  | entry :: rest =>
    if entry.1 = key then (key, value) :: rest else entry :: Members.put key value rest

end Members

/-- Is this an object or array? -/
def Value.isContainer : Value → Bool
  | .array _ | .object _ => true
  | _ => false

/-- The name of the kind of a value. -/
def Value.kind : Value → String
  | .null => "null"
  | .bool _ => "boolean"
  | .integer _ | .double _ => "number"
  | .string _ => "string"
  | .array _ => "array"
  | .object _ => "object"

end TemplateAnalysis.Json
