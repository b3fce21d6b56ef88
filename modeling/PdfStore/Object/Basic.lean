import PdfStore.Bytes
import PdfStore.Handle
import PdfStore.OrderedMap

/-!
# Objects

The values that a store holds: leaves, arrays, dictionaries keyed by name, streams, and references to
other stored objects. Equality compares reals as numbers, so no object that holds a NaN equals itself.
-/

namespace PdfStore

/-- The text of a name, without its slash. -/
abbrev Name := String

inductive StringForm
  | literal
  | hex
deriving DecidableEq, Repr

structure ByteString where
  bytes : Bytes
  form : StringForm
deriving DecidableEq, Repr

inductive Number
  | integer (n : Int64)
  | real (x : Float)

inductive Object
  | null
  | boolean (b : Bool)
  | number (n : Number)
  | name (n : Name)
  | string (s : ByteString)
  | array (items : List Object)
  | dictionary (entries : OrderedMap Name Object)
  | stream (entries : OrderedMap Name Object) (data : Bytes)
  | indirect (r : Reference)

instance : Inhabited Object := ⟨.null⟩

abbrev Dictionary := OrderedMap Name Object

inductive Kind
  | null | boolean | number | name | string | array | dictionary | stream | indirect
deriving DecidableEq, Repr

def Kind.text : Kind → String
  | null => "null"
  | boolean => "boolean"
  | number => "number"
  | name => "name"
  | string => "string"
  | array => "array"
  | dictionary => "dictionary"
  | stream => "stream"
  | indirect => "indirect"

/-- Leaves hold no other object and no reference. -/
def Kind.isLeaf : Kind → Bool
  | null | boolean | number | name | string => true
  | _ => false

namespace Number

/-- The value as a real, integers rounded to the nearest. -/
def toReal : Number → Float
  | integer n => n.toFloat
  | real x => x

def toInteger? : Number → Option Int64
  | integer n => some n
  | real _ => none

def beq : Number → Number → Bool
  | integer m, integer n => m == n
  | real x, real y => x == y
  | _, _ => false

instance : BEq Number := ⟨beq⟩

end Number

namespace Object

def integer (n : Int64) : Object := .number (.integer n)

def real (x : Float) : Object := .number (.real x)

def kind : Object → Kind
  | null => .null
  | boolean _ => .boolean
  | number _ => .number
  | name _ => .name
  | string _ => .string
  | array _ => .array
  | dictionary _ => .dictionary
  | stream _ _ => .stream
  | indirect _ => .indirect

/-! ## Typed reading -/

def isNull : Object → Bool
  | null => true
  | _ => false

def boolean? : Object → Option Bool
  | boolean b => some b
  | _ => none

def integer? : Object → Option Int64
  | number n => n.toInteger?
  | _ => none

/-- Reals and integers both answer. -/
def real? : Object → Option Float
  | number n => some n.toReal
  | _ => none

def name? : Object → Option Name
  | name n => some n
  | _ => none

def string? : Object → Option ByteString
  | string s => some s
  | _ => none

def array? : Object → Option (List Object)
  | array items => some items
  | _ => none

def dictionary? : Object → Option Dictionary
  | dictionary entries => some entries
  | _ => none

def reference? : Object → Option Reference
  | indirect r => some r
  | _ => none

/-! ## Equality -/

mutual

def beq : Object → Object → Bool
  | null, null => true
  | boolean a, boolean b => a == b
  | number a, number b => a == b
  | name a, name b => a == b
  | string a, string b => a == b
  | array a, array b => beqItems a b
  | dictionary a, dictionary b => beqMap a b
  | stream a c, stream b d => beqMap a b && c == d
  | indirect a, indirect b => a == b
  | _, _ => false

def beqItems : List Object → List Object → Bool
  | [], [] => true
  | a :: as, b :: bs => beq a b && beqItems as bs
  | _, _ => false

def beqMap : OrderedMap Name Object → OrderedMap Name Object → Bool
  | ⟨a⟩, ⟨b⟩ => beqEntries a b

def beqEntries : List (Name × Object) → List (Name × Object) → Bool
  | [], [] => true
  | (k, a) :: as, (l, b) :: bs => k == l && beq a b && beqEntries as bs
  | _, _ => false

end

instance : BEq Object := ⟨beq⟩

/-! ## References -/

mutual

/-- Every reference in the object, in order, each as often as it stands there. -/
def references : Object → List Reference
  | indirect r => [r]
  | array items => itemReferences items
  | dictionary entries => mapReferences entries
  | stream entries _ => mapReferences entries
  | _ => []

def itemReferences : List Object → List Reference
  | [] => []
  | o :: rest => references o ++ itemReferences rest

def mapReferences : OrderedMap Name Object → List Reference
  | ⟨entries⟩ => entryReferences entries

def entryReferences : List (Name × Object) → List Reference
  | [] => []
  | (_, o) :: rest => references o ++ entryReferences rest

end

end Object

end PdfStore
