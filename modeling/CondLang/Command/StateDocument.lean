import CondLang.Command.Error
import CondLang.Evaluation.Conditioned
import CondLang.Json
import CondLang.Project
import CondLang.Text.Blank
import CondLang.Text.Split

/-!
# State documents

A project is given as a JSON object and as assignments on the command line.  The object may have
members `properties`, an object of texts; `items`, an object of lists of items; and `base_dir`, a
text. An item is a text or an object with a text `include` and, if it has any, an object `metadata`
of texts; instead of a list there may be a single item.  A text may be written as any JSON value
that is not an array or an object, and `null` is the empty one.

Members count in the order of their keys, so of two that differ in ASCII case only, the later one
wins. Other members are ignored.
-/

namespace CondLang

namespace StateDocument

/-- The text that a JSON value stands for; `what` is the value in the message if it is none. -/
def scalar (what : String) : Json → Except CommandError String
  | .null => .ok ""
  | .bool value => .ok (if value then "true" else "false")
  | .number value => .ok value.toText
  | .string value => .ok value
  | _ => .error (.invalidState (what ++ " must be a string, number or boolean"))

/-- The members of a JSON value; `what` is the value in the message if it is no object. -/
def members (what : String) : Json → Except CommandError (List (String × Json))
  | .object members => .ok members
  | _ => .error (.invalidState (what ++ " must be an object"))

/-- Sets the metadata of an item that the members of an object give. -/
def setMetadata (item : Item) : List (String × Json) → Except CommandError Item
  | [] => .ok item
  | (name, value) :: rest => do
      let text ← scalar ("metadata '" ++ name ++ "'") value
      setMetadata (item.setMetadata name text) rest

/-- The item of a type that a JSON value gives. -/
def item (itemType : String) : Json → Except CommandError Item
  | .object given => do
      match Json.member? given "include" with
      | none =>
          .error (.invalidState ("an item of '" ++ itemType ++ "' has no \"include\""))
      | some value =>
          let plain := Item.ofIdentity (← scalar "\"include\"" value)
          match Json.member? given "metadata" with
          | none => return plain
          | some metadata => setMetadata plain (← members "\"metadata\"" metadata)
  | value => do
      return Item.ofIdentity (← scalar ("an item of '" ++ itemType ++ "'") value)

/-- Sets the properties that the members of an object give. -/
def setProperties (project : Project) : List (String × Json) → Except CommandError Project
  | [] => .ok project
  | (name, value) :: rest => do
      let text ← scalar ("property '" ++ name ++ "'") value
      setProperties (project.setProperty name text) rest

/-- The items that a JSON value lists: those of an array, or itself. -/
def listed : Json → List Json
  | .array values => values
  | value => [value]

/-- Adds items of one type. -/
def addListed (itemType : String) (project : Project) : List Json → Except CommandError Project
  | [] => .ok project
  | value :: rest => do
      addListed itemType (project.addItem itemType (← item itemType value)) rest

/-- Adds the items that the members of an object give. -/
def addItems (project : Project) : List (String × Json) → Except CommandError Project
  | [] => .ok project
  | (itemType, value) :: rest => do
      addItems (← addListed itemType project (listed value)) rest

/-- The project that a JSON document describes. -/
def project (document : Json) : Except CommandError Project := do
  let given ← members "the state document" document
  let withProperties ←
    match Json.member? given "properties" with
    | none => pure Project.empty
    | some value => setProperties .empty (← members "\"properties\"" value)
  let withItems ←
    match Json.member? given "items" with
    | none => pure withProperties
    | some value => addItems withProperties (← members "\"items\"" value)
  match Json.member? given "base_dir" with
  | none => return withItems
  | some value => return { withItems with baseDirectory := some (← scalar "\"base_dir\"" value) }

/-! ## Assignments -/

/-- The name and the value of an assignment `NAME=VALUE`.  Blanks around the name are ignored, and
it must not be empty; the value is all that follows the first equals sign. -/
def assignment (text : String) : Except CommandError (String × String) :=
  match Text.splitOnce '=' text.toList with
  | some (name, value) =>
      let name := Text.trimmed name
      if name.isEmpty then .error (.invalidAssignment text)
      else .ok (.ofList name, .ofList value)
  | none => .error (.invalidAssignment text)

/-- Sets the properties that assignments give. -/
def assignProperties (project : Project) : List String → Except CommandError Project
  | [] => .ok project
  | text :: rest => do
      let (name, value) ← assignment text
      assignProperties (project.setProperty name value) rest

/-- Adds the items that assignments of an identity to a type give. -/
def assignItems (project : Project) : List String → Except CommandError Project
  | [] => .ok project
  | text :: rest => do
      let (itemType, identity) ← assignment text
      assignItems (project.addItem itemType (.ofIdentity identity)) rest

/-! ## Writing -/

/-- The values that properties were compared with, as a JSON object. -/
def ofConditioned (register : Conditioned) : Json :=
  .ofMembers (register.entries.map fun (name, values) => (name, .ofTexts values))

end StateDocument

end CondLang
