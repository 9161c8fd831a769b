import SqlBuilder.Double.Text

/-!
# Literal values

A `Value` is a literal that a statement binds to a placeholder. Two comparisons matter. *Literal
identity* decides which placeholders share a parameter: floats agree when their bits agree, so a
NaN is itself and the two zeros differ. Since floats are kept as bits this is plain equality
(`Value.same_iff`). *Numeric equality* (`Value.sameNumbers`) compares floats as numbers.

Model of `Value` and its conversions; `Value.same` is `same_literal`.
-/

namespace SqlBuilder

/-- A literal bound to a placeholder. -/
inductive Value where
  | null
  | bool (b : Bool)
  | int (n : Int64)
  | float (x : Double)
  | text (s : String)
  | array (items : List Value)
deriving Inhabited

namespace Value

/-- The name of the kind of literal. -/
def kind : Value → String
  | null => "null"
  | bool _ => "bool"
  | int _ => "int"
  | float _ => "float"
  | text _ => "text"
  | array _ => "array"

def isNull : Value → Bool
  | null => true
  | _ => false

/-! ## Comparison -/

mutual

/-- Literal identity: the same structure with the same leaves, floats by their bits. -/
def same : Value → Value → Bool
  | null, null => true
  | bool a, bool b => a == b
  | int a, int b => a == b
  | float a, float b => a.bits == b.bits
  | text a, text b => a == b
  | array as, array bs => sameItems as bs
  | _, _ => false

/-- Literal identity, item by item. -/
def sameItems : List Value → List Value → Bool
  | [], [] => true
  | a :: as, b :: bs => same a b && sameItems as bs
  | _, _ => false

end

mutual

/-- Numeric equality: as literal identity, but floats compare as numbers. -/
def sameNumbers : Value → Value → Bool
  | null, null => true
  | bool a, bool b => a == b
  | int a, int b => a == b
  | float a, float b => a.sameNumber b
  | text a, text b => a == b
  | array as, array bs => sameNumberItems as bs
  | _, _ => false

/-- Numeric equality, item by item. -/
def sameNumberItems : List Value → List Value → Bool
  | [], [] => true
  | a :: as, b :: bs => sameNumbers a b && sameNumberItems as bs
  | _, _ => false

end

mutual

theorem same_iff : ∀ a b : Value, same a b = true ↔ a = b
  | .null, b => by cases b <;> simp [same]
  | .bool _, b => by cases b <;> simp [same]
  | .int _, b => by cases b <;> simp [same]
  | .float ⟨_⟩, b => by cases b <;> simp [same, Double.ext_iff]
  | .text _, b => by cases b <;> simp [same]
  | .array as, b => by cases b <;> simp [same, sameItems_iff as]

theorem sameItems_iff : ∀ as bs : List Value, sameItems as bs = true ↔ as = bs
  | [], bs => by cases bs <;> simp [sameItems]
  | a :: as, bs => by cases bs <;> simp [sameItems, same_iff a, sameItems_iff as]

end

instance : DecidableEq Value := fun a b =>
  if h : same a b = true then isTrue ((same_iff a b).1 h)
  else isFalse fun e => h ((same_iff a b).2 e)

/-! ## Text -/

mutual

/-- The text of a value in messages: `NULL`, text between single quotes as it is, arrays in
brackets. -/
def display : Value → String
  | null => "NULL"
  | bool b => if b then "true" else "false"
  | int n => toString n.toInt
  | float x => x.plainText
  | text s => "'" ++ s ++ "'"
  | array items => "[" ++ ", ".intercalate (displayItems items) ++ "]"

/-- The texts of the items. -/
def displayItems : List Value → List String
  | [] => []
  | item :: items => display item :: displayItems items

end

end Value

/-! ## Conversion -/

/-- Types whose members are literals. Integers of up to 32 bits and binary32 numbers widen. -/
class ToValue (α : Type) where
  toValue : α → Value

export ToValue (toValue)

instance : ToValue Value := ⟨id⟩
instance : ToValue Bool := ⟨.bool⟩
instance : ToValue Int8 := ⟨fun n => .int n.toInt64⟩
instance : ToValue Int16 := ⟨fun n => .int n.toInt64⟩
instance : ToValue Int32 := ⟨fun n => .int n.toInt64⟩
instance : ToValue Int64 := ⟨.int⟩
instance : ToValue UInt8 := ⟨fun n => .int (Int64.ofNat n.toNat)⟩
instance : ToValue UInt16 := ⟨fun n => .int (Int64.ofNat n.toNat)⟩
instance : ToValue UInt32 := ⟨fun n => .int (Int64.ofNat n.toNat)⟩
instance : ToValue Single := ⟨fun x => .float x.toDouble⟩
instance : ToValue Double := ⟨.float⟩
instance : ToValue String := ⟨.text⟩

/-- An absent value is null. -/
instance {α : Type} [ToValue α] : ToValue (Option α) :=
  ⟨fun x => (x.map toValue).getD .null⟩

/-- A list is an array literal. -/
instance {α : Type} [ToValue α] : ToValue (List α) :=
  ⟨fun xs => .array (xs.map toValue)⟩

end SqlBuilder
