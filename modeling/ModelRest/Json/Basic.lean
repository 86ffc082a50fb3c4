import ModelRest.KeyMap

/-!
# JSON values

The values that documents, records and requests are made of. Numbers come in three classes: whole
numbers from zero, whole numbers below zero, and doubles; a number of one class never equals a
number of another. An object is a map from names to values in the order of the names.

Equality of values, `Json.same`, goes through arrays and objects; it is propositional equality but
for the two zeros among the doubles, which it does not tell apart.
-/

namespace ModelRest

/-- A double-precision number, by the 64 bits that stand for it. -/
structure Double where
  /-- Sign, exponent and fraction. -/
  bits : UInt64
deriving DecidableEq, Inhabited

namespace Double

/-- The number is a zero, of either sign. -/
def isZero (d : Double) : Bool := d.bits <<< 1 == 0

/-- The two numbers are equal: the same bits, or two zeros. -/
def same (a b : Double) : Bool := a == b || (a.isZero && b.isZero)

end Double

/-- A number of a JSON value. -/
inductive Number where
  /-- The whole number `n`; it fits 64 bits when it was read. -/
  | natural (n : Nat)
  /-- The whole number `-(n + 1)`; it fits 64 bits with its sign when it was read. -/
  | negative (n : Nat)
  /-- A number written with a point or an exponent, or too large for a whole number. -/
  | double (d : Double)
deriving DecidableEq, Inhabited

/-- The two numbers are of one class and equal. -/
def Number.same : Number → Number → Bool
  | .natural a, .natural b => a == b
  | .negative a, .negative b => a == b
  | .double a, .double b => a.same b
  | _, _ => false

/-- A JSON value. -/
inductive Json where
  /-- The value that stands for nothing. -/
  | null
  /-- A truth value. -/
  | bool (b : Bool)
  /-- A number. -/
  | number (n : Number)
  /-- A text. -/
  | string (s : String)
  /-- A sequence of values. -/
  | array (items : List Json)
  /-- Values under names. -/
  | object (members : List (String × Json))
deriving Inhabited

/-- The members of a JSON object. -/
abbrev Object := KeyMap Json

namespace Json

/-! ### Equality -/

mutual

/-- The two values are equal, part by part. -/
def same : Json → Json → Bool
  | .null, .null => true
  | .bool a, .bool b => a == b
  | .number a, .number b => a.same b
  | .string a, .string b => a == b
  | .array a, .array b => sameItems a b
  | .object a, .object b => sameMembers a b
  | _, _ => false

/-- The two sequences are equal, item by item. -/
def sameItems : List Json → List Json → Bool
  | [], [] => true
  | a :: as, b :: bs => same a b && sameItems as bs
  | _, _ => false

/-- The two objects have the same names with equal values. -/
def sameMembers : List (String × Json) → List (String × Json) → Bool
  | [], [] => true
  | (k, a) :: as, (l, b) :: bs => k == l && same a b && sameMembers as bs
  | _, _ => false

end

/-- The two values are equal where each may be absent. -/
def sameOption : Option Json → Option Json → Bool
  | none, none => true
  | some a, some b => same a b
  | _, _ => false

mutual

/-- Decides whether two values are the same value. -/
def decEq : (a b : Json) → Decidable (a = b)
  | .null, .null => isTrue rfl
  | .bool a, .bool b => decidable_of_iff (a = b) (by simp)
  | .number a, .number b => decidable_of_iff (a = b) (by simp)
  | .string a, .string b => decidable_of_iff (a = b) (by simp)
  | .array a, .array b =>
    match decEqItems a b with
    | isTrue h => isTrue (by rw [h])
    | isFalse h => isFalse (by simpa using h)
  | .object a, .object b =>
    match decEqMembers a b with
    | isTrue h => isTrue (by rw [h])
    | isFalse h => isFalse (by simpa using h)
  | .null, .bool _ | .null, .number _ | .null, .string _ | .null, .array _ | .null, .object _
  | .bool _, .null | .bool _, .number _ | .bool _, .string _ | .bool _, .array _
  | .bool _, .object _ | .number _, .null | .number _, .bool _ | .number _, .string _
  | .number _, .array _ | .number _, .object _ | .string _, .null | .string _, .bool _
  | .string _, .number _ | .string _, .array _ | .string _, .object _ | .array _, .null
  | .array _, .bool _ | .array _, .number _ | .array _, .string _ | .array _, .object _
  | .object _, .null | .object _, .bool _ | .object _, .number _ | .object _, .string _
  | .object _, .array _ => isFalse (by simp)

/-- Decides whether two sequences hold the same values. -/
def decEqItems : (a b : List Json) → Decidable (a = b)
  | [], [] => isTrue rfl
  | [], _ :: _ => isFalse (by simp)
  | _ :: _, [] => isFalse (by simp)
  | a :: as, b :: bs =>
    match decEq a b, decEqItems as bs with
    | isTrue h, isTrue hs => isTrue (by rw [h, hs])
    | isFalse h, _ => isFalse (by simp [h])
    | _, isFalse hs => isFalse (by simp [hs])

/-- Decides whether two objects have the same members. -/
def decEqMembers : (a b : List (String × Json)) → Decidable (a = b)
  | [], [] => isTrue rfl
  | [], _ :: _ => isFalse (by simp)
  | _ :: _, [] => isFalse (by simp)
  | (k, a) :: as, (l, b) :: bs =>
    match decEq a b, decEqMembers as bs with
    | isTrue h, isTrue hs => decidable_of_iff (k = l) (by simp [h, hs])
    | isFalse h, _ => isFalse (by simp [h])
    | _, isFalse hs => isFalse (by simp [hs])

end

instance : DecidableEq Json := decEq

/-! ### Looking into a value -/

/-- The value is `null`. -/
def isNull : Json → Bool
  | .null => true
  | _ => false

/-- The text of a value that is one. -/
def string? : Json → Option String
  | .string s => some s
  | _ => none

/-- The truth value of a value that is one. -/
def bool? : Json → Option Bool
  | .bool b => some b
  | _ => none

/-- The items of a value that is a sequence. -/
def array? : Json → Option (List Json)
  | .array items => some items
  | _ => none

/-- The members of a value that is an object. -/
def object? : Json → Option Object
  | .object members => some members
  | _ => none

/-- The member of that name, of a value that is an object. -/
def member? (v : Json) (name : String) : Option Json := v.object?.bind (KeyMap.get? · name)

/-- A text or nothing, as a value. -/
def ofString? : Option String → Json
  | some s => .string s
  | none => .null

/-- A sequence of texts, as a value. -/
def ofStrings (l : List String) : Json := .array (l.map .string)

/-- An object with these members; of several members of one name the last counts. -/
def ofMembers (members : List (String × Json)) : Json := .object (KeyMap.ofPairs members)

/-! ### Canonical values -/

mutual

/-- Puts the members of every object in the order of their names; of several members of one name
the last counts. -/
def canonical : Json → Json
  | .array items => .array (canonicalItems items)
  | .object members => .object (KeyMap.ofPairs (canonicalMembers members))
  | v => v

/-- Makes every item canonical. -/
def canonicalItems : List Json → List Json
  | [] => []
  | v :: rest => canonical v :: canonicalItems rest

/-- Makes the value of every member canonical, and leaves the members where they are. -/
def canonicalMembers : List (String × Json) → List (String × Json)
  | [] => []
  | (k, v) :: rest => (k, canonical v) :: canonicalMembers rest

end

end Json

end ModelRest
