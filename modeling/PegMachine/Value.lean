import PegMachine.Decimal
import PegMachine.Json.Printer
import PegMachine.Text.Quoted

/-!
# Values

What a parse produces: matched texts, lists for sequences and repetitions, `undefined` for
predicates, `null` for optional parts that are absent, and whatever actions build.

The executors of compiled rules work on slots. A slot holds a value, a saved input offset or the
mark of a failure; the last two never become part of a result on purpose, but a slot can always be
turned into a value.
-/

namespace PegMachine

/-- A parse result. -/
inductive Value where
  /-- The result of a predicate that held. -/
  | undefined
  /-- The result of an optional part that is absent. -/
  | null
  /-- A truth value. -/
  | bool (b : Bool)
  /-- A whole number of 64 bits. -/
  | int (n : Int64)
  /-- A floating-point number. -/
  | float (x : Float)
  /-- A text. -/
  | string (s : String)
  /-- A list of values. -/
  | array (items : List Value)
  /-- Named values, sorted by name, each name once. -/
  | object (members : List (String × Value))
  deriving Inhabited

namespace Value

/-! ## Building and taking apart -/

/-- Add a member to a sorted list of members; a member of the same name is replaced. -/
def insertMember (name : String) (v : Value) : List (String × Value) → List (String × Value)
  | [] => [(name, v)]
  | (other, w) :: rest =>
    if name < other then (name, v) :: (other, w) :: rest
    else if name = other then (name, v) :: rest
    else (other, w) :: insertMember name v rest

/-- The object with the given members; of two members with one name the last one counts. -/
def ofMembers (members : List (String × Value)) : Value :=
  .object (members.foldl (fun sorted (name, v) => insertMember name v sorted) [])

/-- Whether the value is `null`. -/
def isNull : Value → Bool
  | .null => true
  | _ => false

/-- Whether the value is `undefined`. -/
def isUndefined : Value → Bool
  | .undefined => true
  | _ => false

/-- Truth as semantic predicates see it: nothing, zero, NaN and the empty text are false. -/
def isTruthy : Value → Bool
  | .undefined => false
  | .null => false
  | .bool b => b
  | .int n => n != 0
  | .float x => x != 0.0 && !x.isNaN
  | .string s => !s.isEmpty
  | .array _ => true
  | .object _ => true

/-- The truth value, if this is one. -/
def bool? : Value → Option Bool
  | .bool b => some b
  | _ => none

/-- The whole number, if this is one. -/
def int? : Value → Option Int64
  | .int n => some n
  | _ => none

/-- The number as a floating-point number, if this is a number. -/
def float? : Value → Option Float
  | .float x => some x
  | .int n => some n.toFloat
  | _ => none

/-- The text, if this is one. -/
def string? : Value → Option String
  | .string s => some s
  | _ => none

/-- The items, if this is a list. -/
def array? : Value → Option (List Value)
  | .array items => some items
  | _ => none

/-- The member of an object with the given name. -/
def member? (name : String) : Value → Option Value
  | .object members => (members.find? (·.1 = name)).map (·.2)
  | _ => none

/-- The item of a list at the given index. -/
def item? (index : Nat) : Value → Option Value
  | .array items => items[index]?
  | _ => none

/-! ## Comparing -/

mutual

/-- Whether two values agree in kind and content; NaN differs from itself. -/
def same : Value → Value → Bool
  | .undefined, .undefined => true
  | .null, .null => true
  | .bool a, .bool b => a == b
  | .int a, .int b => a == b
  | .float a, .float b => a == b
  | .string a, .string b => a == b
  | .array a, .array b => sameItems a b
  | .object a, .object b => sameMembers a b
  | _, _ => false

/-- Whether two lists agree item by item. -/
def sameItems : List Value → List Value → Bool
  | [], [] => true
  | a :: as, b :: bs => a.same b && sameItems as bs
  | _, _ => false

/-- Whether two lists of members agree member by member. -/
def sameMembers : List (String × Value) → List (String × Value) → Bool
  | [], [] => true
  | (m, a) :: as, (n, b) :: bs => m == n && a.same b && sameMembers as bs
  | _, _ => false

end

/-! ## Text forms -/

mutual

/-- A value as it is shown to a person. -/
def describe : Value → String
  | .undefined => "undefined"
  | .null => "null"
  | .bool b => if b then "true" else "false"
  | .int n => toString n.toInt
  | .float x => Decimal.plain x
  | .string s => Text.quote s
  | .array items => "[" ++ describeItems items ++ "]"
  | .object members => "\x7b" ++ describeMembers members ++ "\x7d"

/-- Items as they are shown to a person. -/
def describeItems : List Value → String
  | [] => ""
  | [v] => v.describe
  | v :: rest => v.describe ++ ", " ++ describeItems rest

/-- Members as they are shown to a person. -/
def describeMembers : List (String × Value) → String
  | [] => ""
  | [(name, v)] => Text.quote name ++ ": " ++ v.describe
  | (name, v) :: rest => Text.quote name ++ ": " ++ v.describe ++ ", " ++ describeMembers rest

end

mutual

/-- The document of a value; what JSON has no form for becomes `null`. -/
def toJson : Value → Json
  | .undefined => .null
  | .null => .null
  | .bool b => .bool b
  | .int n => .int n.toInt
  | .float x => if x.isFinite then .num (.real (Decimal.scientific x)) else .null
  | .string s => .str s
  | .array items => .arr (itemsToJson items)
  | .object members => .obj (membersToJson members)

/-- The documents of the items of a list. -/
def itemsToJson : List Value → List Json
  | [] => []
  | v :: rest => v.toJson :: itemsToJson rest

/-- The documents of the members of an object. -/
def membersToJson : List (String × Value) → List (String × Json)
  | [] => []
  | (name, v) :: rest => (name, v.toJson) :: membersToJson rest

end

end Value

/-! ## Slots -/

/-- What an executor keeps in one place of its stack. -/
inductive Slot where
  /-- The mark of a failed match. -/
  | failed
  /-- A saved input offset. -/
  | pos (offset : Nat)
  /-- A value. -/
  | value (v : Value)
  deriving Inhabited

namespace Slot

/-- A slot with a text. -/
def text (s : String) : Slot := .value (.string s)

/-- A slot with an empty list. -/
def emptyArray : Slot := .value (.array [])

/-- Whether the slot marks a failure. -/
def isFailed : Slot → Bool
  | .failed => true
  | _ => false

/-- Truth of a slot: a failure is false, an offset true, a value as values go. -/
def isTruthy : Slot → Bool
  | .failed => false
  | .pos _ => true
  | .value v => v.isTruthy

/-- The saved offset, if there is one. -/
def pos? : Slot → Option Nat
  | .pos p => some p
  | _ => none

/-- The length of the list in the slot; zero for anything else. -/
def arrayLength : Slot → Nat
  | .value (.array items) => items.length
  | _ => 0

/-- The value that a slot stands for. -/
def toValue : Slot → Value
  | .value v => v
  | .pos p => .int (Int64.ofNat p)
  | .failed => .undefined

/-- Append the value of another slot to the list in this one; without a list nothing changes. -/
def push (s item : Slot) : Slot :=
  match s with
  | .value (.array items) => .value (.array (items ++ [item.toValue]))
  | other => other

/-- A slot with the list of the values of some slots. -/
def wrap (slots : List Slot) : Slot := .value (.array (slots.map toValue))

end Slot

end PegMachine
