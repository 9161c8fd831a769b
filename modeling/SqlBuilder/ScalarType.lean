import SqlBuilder.Value

/-!
# Types of columns

A `ScalarType` is what a column knows of its type when a literal is compared with it. A
`DeclaredType` is the type that a column is declared with; it fixes the scalar type and the type of
the literals that the column is compared with, and all of those are admitted
(`DeclaredType.admits_toValue`).

Model of `TypeTag`, with `TypeTag::accepts` as `admits`, and of `ColumnType`.
-/

namespace SqlBuilder

/-- What a column admits as a literal. -/
inductive ScalarType where
  | any
  | bool
  | int
  | float
  | text
deriving DecidableEq, Inhabited

namespace ScalarType

/-- The type's name in messages. -/
def name : ScalarType → String
  | any => "Any"
  | bool => "Bool"
  | int => "Int"
  | float => "Float"
  | text => "Text"

mutual

/-- Whether a literal fits the type: anything fits `any`, null fits every type, an integer fits
`float`, and an array fits as its items do. -/
def admits (type : ScalarType) : Value → Bool
  | .null => true
  | .bool _ => type == any || type == bool
  | .int _ => type == any || type == int || type == float
  | .float _ => type == any || type == float
  | .text _ => type == any || type == text
  | .array items => type == any || admitsAll type items

/-- Whether every item fits the type. -/
def admitsAll (type : ScalarType) : List Value → Bool
  | [] => true
  | item :: items => admits type item && admitsAll type items

end

theorem any_admits (v : Value) : any.admits v = true := by
  cases v <;> simp [admits]

theorem admits_null (type : ScalarType) : type.admits .null = true := by
  simp [admits]

end ScalarType

/-- The type that a column is declared with. -/
inductive DeclaredType where
  | bool
  | int16
  | int32
  | int64
  | float32
  | float64
  | text
  /-- Compares with any literal. -/
  | untyped
  | nullable (type : DeclaredType)
deriving DecidableEq, Inhabited

namespace DeclaredType

/-- The scalar type of a declared type; being nullable does not show in it. -/
def scalar : DeclaredType → ScalarType
  | bool => .bool
  | int16 | int32 | int64 => .int
  | float32 | float64 => .float
  | text => .text
  | untyped => .any
  | nullable type => type.scalar

/-- The literals that a column of this type is compared with. -/
def Operand : DeclaredType → Type
  | bool => Bool
  | int16 => Int16
  | int32 => Int32
  | int64 => Int64
  | float32 => Single
  | float64 => Double
  | text => String
  | untyped => Value
  | nullable type => Option type.Operand

/-- A literal of the type, as a value. -/
def toValue : (type : DeclaredType) → type.Operand → Value
  | bool, (b : Bool) => ToValue.toValue b
  | int16, (n : Int16) => ToValue.toValue n
  | int32, (n : Int32) => ToValue.toValue n
  | int64, (n : Int64) => ToValue.toValue n
  | float32, (x : Single) => ToValue.toValue x
  | float64, (x : Double) => ToValue.toValue x
  | text, (s : String) => ToValue.toValue s
  | untyped, (v : Value) => v
  | nullable _, none => .null
  | nullable type, some x => type.toValue x

/-- A column admits every literal of the type that it is declared with. -/
theorem admits_toValue : ∀ (type : DeclaredType) (x : type.Operand),
    type.scalar.admits (type.toValue x) = true
  | bool, _ | int16, _ | int32, _ | int64, _ | float32, _ | float64, _ | text, _ => by
    simp [scalar, toValue, ToValue.toValue, ScalarType.admits]
  | untyped, _ => ScalarType.any_admits _
  | nullable _, none => ScalarType.admits_null _
  | nullable type, some x => type.admits_toValue x

end DeclaredType
end SqlBuilder
