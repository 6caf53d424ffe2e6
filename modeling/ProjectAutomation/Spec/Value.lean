import Mathlib.Algebra.Group.Int.Defs
import Mathlib.Data.List.Basic
import Mathlib.Data.Rat.Defs

/-!
# JSON values

`serde_json::Value` as the plugin uses it: columns of type JSONB hold one, and
the storage layer reads them back by field name. A number that is written with a
fraction or an exponent is kept apart from one that is not, whatever its value.
-/

namespace ProjectAutomation

/-- `serde_json::Value`. -/
inductive Value where
  | null
  | bool (b : Bool)
  | number (n : ℤ)
  /-- a number with a fraction or an exponent, as 5.0 and 5e0 -/
  | decimal (q : ℚ)
  | string (s : String)
  | array (items : List Value)
  | object (fields : List (String × Value))

namespace Value

/-- `Value::get`. -/
def get (v : Value) (name : String) : Option Value :=
  match v with
  | .object fields => (fields.find? (fun f => f.1 = name)).map (·.2)
  | _ => none

/-- `Value::as_str`. -/
def asStr : Value → Option String
  | .string s => some s
  | _ => none

/-- `Value::as_i64`. -/
def asI64 : Value → Option ℤ
  | .number n => if -2 ^ 63 ≤ n ∧ n < 2 ^ 63 then some n else none
  | _ => none

/-- `Value::as_array`. -/
def asArray : Value → Option (List Value)
  | .array items => some items
  | _ => none

/-- `.get(name).and_then(Value::as_str)`. -/
def getStr (v : Value) (name : String) : Option String := (v.get name).bind asStr

/-- How serde writes an `Option`. -/
def ofOption {α : Type} (f : α → Value) : Option α → Value
  | none => .null
  | some a => f a

/-- `jsonb_typeof(v) = 'object'`. -/
def isObject : Value → Bool
  | .object _ => true
  | _ => false

/-- `jsonb_typeof(v) = 'array'`. -/
def isArray : Value → Bool
  | .array _ => true
  | _ => false

end Value

/-! ## Numbers -/

mutual

/-- No number in the value is written with a fraction or an exponent. -/
def Value.plain : Value → Bool
  | .decimal _ => false
  | .array items => plainItems items
  | .object fields => plainFields fields
  | .null | .bool _ | .number _ | .string _ => true

def plainItems : List Value → Bool
  | [] => true
  | v :: rest => v.plain && plainItems rest

def plainFields : List (String × Value) → Bool
  | [] => true
  | f :: rest => plainField f && plainFields rest

def plainField : String × Value → Bool
  | (_, v) => v.plain

end

namespace Value

@[simp] theorem plain_array (items : List Value) : (array items).plain = items.all plain := by
  rw [plain]
  induction items with
  | nil => rfl
  | cons v rest ih => rw [plainItems, ih, List.all_cons]

@[simp] theorem plain_object (fields : List (String × Value)) : (object fields).plain = fields.all (·.2.plain) := by
  rw [plain]
  induction fields with
  | nil => rfl
  | cons f rest ih => rw [plainFields, ih, List.all_cons, plainField]

end Value

end ProjectAutomation
