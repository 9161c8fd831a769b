import SqlBuilder.Text.Quoted

/-!
# Values of the wrong shape

What can be wrong with a well-formed document that does not describe what it should, and how that
is worded.

Model of the texts in `ConfigError::Toml` and `ConfigError::Json`.
-/

namespace SqlBuilder

/-- What a document holds at some place. -/
inductive Found where
  | null
  | bool (b : Bool)
  | integer (n : Int)
  /-- A number with a fraction or an exponent, as it is written back. -/
  | float (text : String)
  | string (s : String)
  | sequence
  | map

def Found.describe : Found → String
  | null => "null"
  | bool b => "boolean \x60" ++ toString b ++ "\x60"
  | integer n => "integer \x60" ++ toString n ++ "\x60"
  | float text => "floating point \x60" ++ text ++ "\x60"
  | string s => "string " ++ Text.quoted s
  | sequence => "sequence"
  | map => "map"

/-- What a place should hold. -/
inductive Expected where
  | string
  | sequence
  | unit
  | record (name : String)

def Expected.describe : Expected → String
  | string => "a string"
  | sequence => "a sequence"
  | unit => "unit"
  | record name => "struct " ++ name

/-- Names in backquotes, as alternatives. -/
def alternatives : List String → String
  | [] => "there are no alternatives"
  | [a] => "expected \x60" ++ a ++ "\x60"
  | [a, b] => "expected \x60" ++ a ++ "\x60 or \x60" ++ b ++ "\x60"
  | names => "expected one of " ++ ", ".intercalate (names.map fun n => "\x60" ++ n ++ "\x60")

/-- Why a well-formed document is not what it should be. -/
inductive ShapeError where
  | missingField (name : String)
  | duplicateField (name : String)
  | unknownField (name : String) (known : List String)
  | unknownVariant (name : String) (known : List String)
  | invalidType (found : Found) (expected : Expected)
  /-- A record written as a sequence that is too short. -/
  | invalidLength (length : Nat) (record : String) (fields : Nat)
  /-- A value that is no literal. -/
  | noLiteral
  /-- A variant that is neither its name nor a table. -/
  | notStringOrTable
  /-- A variant written as a table of other than one key. -/
  | notOneElement (count : Nat)
  /-- A variant without contents, given something else than a table. -/
  | notTable (kind : String)
  /-- A variant without contents, given a table or an array that is not empty. -/
  | notEmpty (kind : String)

def ShapeError.message : ShapeError → String
  | missingField name => "missing field \x60" ++ name ++ "\x60"
  | duplicateField name => "duplicate field \x60" ++ name ++ "\x60"
  | unknownField name known => "unknown field \x60" ++ name ++ "\x60, " ++ alternatives known
  | unknownVariant name known => "unknown variant \x60" ++ name ++ "\x60, " ++ alternatives known
  | invalidType found expected =>
    "invalid type: " ++ found.describe ++ ", expected " ++ expected.describe
  | invalidLength length record fields =>
    "invalid length " ++ toString length ++ ", expected struct " ++ record ++ " with " ++
      toString fields ++ " elements"
  | noLiteral => "data did not match any variant of untagged enum Value"
  | notStringOrTable => "wanted string or table"
  | notOneElement 0 => "wanted exactly 1 element, found 0 elements"
  | notOneElement _ => "wanted exactly 1 element, more than 1 element"
  | notTable kind => "expected table, found " ++ kind
  | notEmpty kind => "expected empty " ++ kind

/-- Why a text could not be read. -/
inductive ReadError where
  /-- The text breaks the rules of its format. -/
  | malformed
  /-- The text is well-formed up to a value of the wrong shape. -/
  | shape (error : ShapeError)

end SqlBuilder
