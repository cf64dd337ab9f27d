/-!
# What can go wrong in an expansion
-/

namespace CondLang

/-- The causes for which a reference cannot be expanded. -/
inductive ExpansionError where
  | undefinedProperty (name : String)
  | undefinedMetadata (reference : String)
  | unsupported (text : String)
  | invalidReference (text : String)
  deriving DecidableEq, Repr

/-- The cause in words. -/
def ExpansionError.message : ExpansionError → String
  | undefinedProperty name => "property '" ++ name ++ "' is not defined"
  | undefinedMetadata reference => "metadata '" ++ reference ++ "' is not defined"
  | unsupported text => "'" ++ text ++ "' is not supported"
  | invalidReference text => "malformed reference '" ++ text ++ "'"

end CondLang
