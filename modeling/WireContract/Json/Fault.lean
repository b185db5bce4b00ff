import WireContract.Json.Text
import WireContract.Text.Quoted

/-!
# Why a JSON text or value is refused

A text can be malformed or end too early.  A value can fail to have the form that its reader
expects; such a `Mismatch` has a message, except where the grammar of a scalar (an identifier, a
date, a binary payload) refused its text, for which no wording is fixed.
-/

namespace WireContract.Json

/-- A value as a message names it. -/
inductive Found where
  | null
  | bool (b : Bool)
  | num (n : Number)
  | str (s : String)
  | sequence
  | map
deriving Repr

/-- How a message names the value. -/
def Found.describe : Found → String
  | .null => "null"
  | .bool b => "boolean `" ++ (if b then "true" else "false") ++ "`"
  | .num (.int n) => "integer `" ++ toString n ++ "`"
  | .num (.double x) => "floating point `" ++ x.format doubleStyle ++ "`"
  | .str s => "string " ++ Text.quoted s
  | .sequence => "sequence"
  | .map => "map"

/-- The ways in which a value differs from what its reader expects. -/
inductive Mismatch where
  | invalidType (found : Found) (expected : String)
  | invalidValue (found : Found) (expected : String)
  | invalidLength (length : Nat) (expected : String)
  | missingField (name : String)
  | duplicateField (name : String)
  | unknownVariant (name : String) (known : List String)
  | tagNotText (found : Json)
  | refusedText
deriving Repr

/-- A name between backticks. -/
def ticked (name : String) : String :=
  "`" ++ name ++ "`"

/-- The known names as the end of a message. -/
def oneOf : List String → String
  | [] => "there are no variants"
  | [a] => "expected " ++ ticked a
  | [a, b] => "expected " ++ ticked a ++ " or " ++ ticked b
  | names => "expected one of " ++ String.intercalate ", " (names.map ticked)

/-- The message of a mismatch, where its wording is fixed. -/
def Mismatch.message? : Mismatch → Option String
  | .invalidType found expected =>
    some ("invalid type: " ++ found.describe ++ ", expected " ++ expected)
  | .invalidValue found expected =>
    some ("invalid value: " ++ found.describe ++ ", expected " ++ expected)
  | .invalidLength length expected =>
    some ("invalid length " ++ toString length ++ ", expected " ++ expected)
  | .missingField name => some ("missing field " ++ ticked name)
  | .duplicateField name => some ("duplicate field " ++ ticked name)
  | .unknownVariant name known => some ("unknown variant " ++ ticked name ++ ", " ++ oneOf known)
  | .tagNotText found => some ("union tag must be a string, found " ++ found.text)
  | .refusedText => none

/-- Why a reader stops. -/
inductive Fault where
  | malformed
  | truncated
  | mismatch (m : Mismatch)
deriving Repr

end WireContract.Json
