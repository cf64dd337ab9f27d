import CondLang.Location
import CondLang.Reference.ItemList
import CondLang.Reference.Metadata

/-!
# What a condition is evaluated against

An evaluation asks for properties, item lists, metadata and paths.  An environment is the answers to
all such questions, together with the condition and its location for messages.  It holds no state:
the same question always has the same answer.
-/

namespace CondLang

/-- What a reference asks for: the property that an expression names, the texts of an item list, or
a piece of metadata. -/
inductive Query where
  | property (expression : String)
  | itemList (reference : ItemListReference)
  | metadata (reference : MetadataReference)
  deriving DecidableEq, Repr

namespace Query

/-- What the reference of a kind asks for that holds some text between its parentheses. -/
def parse (kind : ReferenceKind) (inner : List Char) : Except ExpansionError Query :=
  match kind with
  | .property => .ok (property (.ofList (Text.trimmed inner)))
  | .itemList => (ItemListReference.parse (.ofList inner)).map itemList
  | .metadata => (MetadataReference.parse (.ofList inner)).map metadata

/-- The query in a list of questions; an item list is named without its transforms. -/
def shown : Query → String
  | property expression => "$(" ++ expression ++ ")"
  | itemList reference => "@(" ++ reference.name ++ ")"
  | metadata reference => reference.shown

end Query

/-- A question an evaluation asks. -/
inductive Question where
  | query (query : Query)
  | pathExists (path : String)
  deriving DecidableEq, Repr

/-- The question in a list of questions. -/
def Question.shown : Question → String
  | query q => q.shown
  | pathExists path => "exists " ++ path

/-- Answers to everything an evaluation may ask. -/
structure Environment where
  condition : String
  location : Location
  property : String → Except ExpansionError String
  itemList : ItemListReference → Except ExpansionError (List String)
  metadata : MetadataReference → Except ExpansionError String
  pathExists : String → Bool

/-- The environment in which every property has one text, and there are no items, no metadata and no
paths. -/
def Environment.constant (text : String) : Environment where
  condition := ""
  location := .unknown
  property _ := .ok text
  itemList _ := .ok []
  metadata _ := .ok ""
  pathExists _ := false

/-- The text that answers a query. -/
def Environment.answer (env : Environment) : Query → Except ExpansionError String
  | .property expression => env.property expression
  | .itemList reference => (env.itemList reference).map reference.joiner.intercalate
  | .metadata reference => env.metadata reference

end CondLang
