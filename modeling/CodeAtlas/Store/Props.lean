import CodeAtlas.Graph.Node
import CodeAtlas.Json.Reader
import CodeAtlas.Json.Writer

/-!
# Stored property bags

Rows keep the property bag of a node or edge as JSON. Two kinds of bags are found there: those that
this library has written, and texts that came from elsewhere. Reading either can fail. A float that
is no finite number has no JSON form, and any other may come back as its neighbour.
-/

set_option autoImplicit false

namespace CodeAtlas

/-- The JSON value that a property is written as. Nothing in it says of which sort the property is. -/
def PropValue.toJson : PropValue → Json
  | .bool b => .bool b
  | .int n => .int n
  | .float x => .float x
  | .text s => .str s
  | .list values => .arr (values.map .str)

/-- The JSON object that a property bag is written as. -/
def Props.toJson (props : Props) : Json :=
  .obj (props.toList.map fun (name, value) => (name, value.toJson))

/-- The value that a JSON value stands for in a property bag. Integers beyond 64 bits with a sign
are floats, and lists hold texts only. -/
def PropValue.ofJson? : Json → Option PropValue
  | .bool b => some (.bool b)
  | .int n =>
    if Int64.minValue.toInt ≤ n ∧ n ≤ Int64.maxValue.toInt then some (.int n)
    else some (.float n.toNat.toUInt64.toFloat)
  | .float x => some (.float x)
  | .str s => some (.text s)
  | .arr items => (items.mapM Json.asString?).map .list
  | _ => none

/-- The property bag of a JSON object; of several members with one name the last counts. -/
def Props.ofJson? : Json → Option Props
  | .obj members => do
    let pairs ← members.mapM fun (name, value) => do return (name, ← PropValue.ofJson? value)
    return pairs.foldl (fun props (name, value) => props.insert name value) (∅ : Props)
  | _ => none

/-- The property bag in a JSON text. -/
def Props.parse? (text : String) : Option Props := Json.parse? text >>= Props.ofJson?

/-- What a value is after it was written and read again. -/
def PropValue.reread? : PropValue → Option PropValue
  | .float x => (Json.reread? x).map .float
  | value => some value

/-- What a bag is after it was written and read again. -/
def Props.reread? (props : Props) : Option Props := do
  let pairs ← props.toList.mapM fun (name, value) => do return (name, ← value.reread?)
  return .ofList pairs

/-- A property bag in a row. -/
inductive StoredProps where
  /-- Written here. -/
  | written (props : Props)
  /-- A text from elsewhere. -/
  | foreign (json : String)

namespace StoredProps

/-- The bag that reading the row gives. -/
def read? : StoredProps → Option Props
  | written props => props.reread?
  | foreign json => Props.parse? json

/-- The text of the row. -/
def text : StoredProps → String
  | written props => props.toJson.write
  | foreign json => json

end StoredProps

end CodeAtlas
