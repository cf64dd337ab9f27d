import CondLang.Text.Ascii

/-!
# Tables keyed by name

Names are compared without regard to ASCII case.  A table keeps its entries in the order in which
their names first came, each under the first spelling of its name; its observable content is what
`find?` answers.
-/

namespace CondLang

/-- Values under names, each name once. -/
structure NameTable (α : Type) where
  entries : List (String × α)
  deriving DecidableEq, Repr, Inhabited

namespace NameTable

variable {α : Type}

/-- The table without entries. -/
def empty : NameTable α := ⟨[]⟩

/-- The value under a name. -/
def find? (table : NameTable α) (name : String) : Option α :=
  (table.entries.find? fun entry => Text.sameIgnoringAscii entry.1 name).map (·.2)

/-- Entries with the value under a name changed, or with a new one at the end. -/
def alterEntries (name : String) (change : Option α → α) : List (String × α) → List (String × α)
  | [] => [(name, change none)]
  | (first, value) :: rest =>
      if Text.sameIgnoringAscii first name then (first, change (some value)) :: rest
      else (first, value) :: alterEntries name change rest

/-- The table with the value under a name changed; `change` is given the value that is there. -/
def alter (table : NameTable α) (name : String) (change : Option α → α) : NameTable α :=
  ⟨alterEntries name change table.entries⟩

/-- The table with a value under a name, in place of any that is there. -/
def insert (table : NameTable α) (name : String) (value : α) : NameTable α :=
  table.alter name fun _ => value

/-- How many names have a value. -/
def size (table : NameTable α) : Nat := table.entries.length

/-- Whether no name has a value. -/
def isEmpty (table : NameTable α) : Bool := table.entries.isEmpty

@[simp] theorem find?_empty (name : String) : (empty : NameTable α).find? name = none := rfl

/-- Changing the value under a name changes what is found under that name, in any spelling, and
nothing else. -/
theorem find?_alter (table : NameTable α) (name wanted : String) (change : Option α → α) :
    (table.alter name change).find? wanted =
      if Text.sameIgnoringAscii name wanted then some (change (table.find? wanted))
      else table.find? wanted := by
  obtain ⟨entries⟩ := table
  simp only [alter, find?]
  induction entries with
  | nil =>
    by_cases hsame : Text.sameIgnoringAscii name wanted <;> simp [alterEntries, hsame]
  | cons entry rest ih =>
    obtain ⟨first, value⟩ := entry
    simp only [alterEntries]
    by_cases hhere : Text.sameIgnoringAscii first name
    · by_cases hsame : Text.sameIgnoringAscii name wanted
      · have hfound := Text.sameIgnoringAscii_trans hhere hsame
        simp [hhere, hsame, hfound]
      · have hlost : ¬ Text.sameIgnoringAscii first wanted := fun hfound =>
          hsame (Text.sameIgnoringAscii_trans
            (by rwa [Text.sameIgnoringAscii_comm]) hfound)
        simp [hhere, hsame, hlost]
    · by_cases hfound : Text.sameIgnoringAscii first wanted
      · have hother : ¬ Text.sameIgnoringAscii name wanted := fun hsame =>
          hhere (Text.sameIgnoringAscii_trans hfound
            (by rwa [Text.sameIgnoringAscii_comm]))
        simp [hhere, hfound, hother]
      · simp only [hhere, if_false, Bool.false_eq_true, List.find?_cons, hfound] at ih ⊢
        exact ih

/-- What is found after a value was put under a name. -/
theorem find?_insert (table : NameTable α) (name wanted : String) (value : α) :
    (table.insert name value).find? wanted =
      if Text.sameIgnoringAscii name wanted then some value else table.find? wanted :=
  find?_alter ..

end NameTable

end CondLang
