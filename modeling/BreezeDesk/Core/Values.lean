/-
  The two self-describing value types that cross a boundary of the program: CBOR payloads (worker
  messages) and JSON (columns of the database).

  Both are trees over association lists.  The source only ever uses string keys, looks a key up with
  `value` (a missing key is the undefined value) and builds maps with `insert`, so that an association
  list in insertion order is all that can be observed.
-/
import BreezeDesk.Core.Text

namespace BreezeDesk

/-! ## CBOR -/

/-- `QByteArray`. -/
abbrev QByteArray := List UInt8

inductive QCborValue where
  | undefined
  | null
  | bool (value : Bool)
  | integer (value : Int)
  | double (value : Rat)
  | byteArray (value : QByteArray)
  | string (value : QString)
  | array (values : List QCborValue)
  | map (entries : List (QString × QCborValue))

abbrev QCborMap := List (QString × QCborValue)

namespace QCborMap

def value (map : QCborMap) (key : QString) : QCborValue :=
  match map.find? (fun entry => entry.1 == key) with
  | some entry => entry.2
  | none => .undefined

end QCborMap

namespace QCborValue

/-- `isInteger` and `toInteger` in one: the integer, when there is one. -/
def integer? : QCborValue → Option Int
  | .integer value => some value
  | _ => none

/-- `toString`: anything but a string reads as the empty text. -/
def toText : QCborValue → QString
  | .string value => value
  | _ => []

def toDouble : QCborValue → Rat
  | .double value => value
  | .integer value => value
  | _ => 0

def toBool : QCborValue → Bool
  | .bool value => value
  | _ => false

def array? : QCborValue → Option (List QCborValue)
  | .array values => some values
  | _ => none

def map? : QCborValue → Option QCborMap
  | .map entries => some entries
  | _ => none

end QCborValue

/-- `readInteger(map, key, &value)`. -/
def readInteger (map : QCborMap) (key : QString) : Option Int :=
  (map.value key).integer?

/-! ## JSON -/

inductive QJsonValue where
  | null
  | bool (value : Bool)
  | number (value : Rat)
  | string (value : QString)
  | array (values : List QJsonValue)
  | object (entries : List (QString × QJsonValue))

abbrev QJsonArray := List QJsonValue

abbrev QJsonObject := List (QString × QJsonValue)

namespace QJsonValue

/-- `toObject`: anything but an object reads as the empty object. -/
def toObject : QJsonValue → QJsonObject
  | .object entries => entries
  | _ => []

def toText : QJsonValue → QString
  | .string value => value
  | _ => []

/-- `toInteger`: a number with a fractional part reads as the default `0`. -/
def toInteger : QJsonValue → Int
  | .number value => if value.den = 1 then value.num else 0
  | _ => 0

def toDouble : QJsonValue → Rat
  | .number value => value
  | _ => 0

/-- `toBool(fallback)`. -/
def toBoolOr (fallback : Bool) : QJsonValue → Bool
  | .bool value => value
  | _ => fallback

def toBool : QJsonValue → Bool := toBoolOr false

def toArray : QJsonValue → QJsonArray
  | .array values => values
  | _ => []

end QJsonValue

namespace QJsonObject

/-- A missing key reads as the undefined value, which every conversion treats like `null`. -/
def value (object : QJsonObject) (key : QString) : QJsonValue :=
  match object.find? (fun entry => entry.1 == key) with
  | some entry => entry.2
  | none => .null

end QJsonObject

/-- `QJsonObject::insert`. -/
def insertValue (object : QJsonObject) (key : QString) (value : QJsonValue) : QJsonObject :=
  (object.filter fun entry => entry.1 != key) ++ [(key, value)]

end BreezeDesk
