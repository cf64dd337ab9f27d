import CondLang.NameTable

/-!
# Conditioned properties

The values that conditions compare properties with tell which configurations a project knows: from
`'$(Configuration)' == 'Debug'` one learns that there is a configuration `Debug`.  A register keeps
them under the names of the properties.  Names and values do not regard ASCII case, and both keep
the spelling in which they first came, in the order in which they came.
-/

namespace CondLang

/-- The values that properties were compared with. -/
abbrev Conditioned := NameTable (List String)

namespace Conditioned

/-- Values with one more, unless it is among them. -/
def addValue (values : List String) (value : String) : List String :=
  if values.any (Text.sameIgnoringAscii · value) then values else values ++ [value]

/-- The register with a value that a property was compared with. -/
def record (register : Conditioned) (name value : String) : Conditioned :=
  register.alter name fun values => addValue (values.getD []) value

/-- The register with several values of one property. -/
def recordAll (register : Conditioned) (name : String) (values : List String) : Conditioned :=
  values.foldl (fun register value => register.record name value) register

/-- The register with all that another one holds. -/
def merge (register other : Conditioned) : Conditioned :=
  other.entries.foldl (fun register (name, values) => register.recordAll name values) register

end Conditioned

end CondLang
