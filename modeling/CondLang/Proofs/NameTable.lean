import CondLang.NameTable

/-!
# Tables that are filled entry by entry

Where entries are put into a table one after the other, the last one of a name counts
(`NameTable.find?_insertAll`).  Where they are appended to lists, each list holds the values of its
name in the order in which they came (`NameTable.find?_appendAll`).  In both cases names are the
same in any spelling, and what was in the table comes first.
-/

namespace CondLang.NameTable

variable {α β : Type}

/-- The values that come with a name, in any spelling. -/
def valuesUnder (entries : List (String × α)) (name : String) : List α :=
  (entries.filter fun entry => Text.sameIgnoringAscii entry.1 name).map (·.2)

/-- A table with entries put into it one after the other. -/
def insertAll (table : NameTable α) (entries : List (String × α)) : NameTable α :=
  entries.foldl (fun table entry => table.insert entry.1 entry.2) table

/-- A table of lists with entries appended one after the other, each to the list of its name. -/
def appendAll (table : NameTable (List α)) (entries : List (String × α)) : NameTable (List α) :=
  entries.foldl (fun table entry => table.alter entry.1 fun values => values.getD [] ++ [entry.2])
    table

theorem valuesUnder_cons (entry : String × α) (entries : List (String × α)) (name : String) :
    valuesUnder (entry :: entries) name =
      if Text.sameIgnoringAscii entry.1 name then entry.2 :: valuesUnder entries name
      else valuesUnder entries name := by
  rw [valuesUnder, List.filter_cons]
  split <;> rfl

theorem valuesUnder_map (f : α → β) (entries : List (String × α)) (name : String) :
    valuesUnder (entries.map fun entry => (entry.1, f entry.2)) name =
      (valuesUnder entries name).map f := by
  simp [valuesUnder, List.filter_map, Function.comp_def]

theorem find?_insertAll (table : NameTable α) (entries : List (String × α)) (name : String) :
    (table.insertAll entries).find? name =
      (valuesUnder entries name).getLast?.or (table.find? name) := by
  induction entries generalizing table with
  | nil => rfl
  | cons entry rest ih =>
    show ((table.insert entry.1 entry.2).insertAll rest).find? name = _
    rw [ih, find?_insert, valuesUnder_cons]
    split
    · rw [List.getLast?_cons]
      cases (valuesUnder rest name).getLast? <;> rfl
    · rfl

theorem find?_appendAll (table : NameTable (List α)) (entries : List (String × α)) (name : String) :
    ((table.appendAll entries).find? name).getD [] =
      (table.find? name).getD [] ++ valuesUnder entries name := by
  induction entries generalizing table with
  | nil => exact (List.append_nil _).symm
  | cons entry rest ih =>
    show (((table.alter entry.1 _).appendAll rest).find? name).getD [] = _
    rw [ih, find?_alter, valuesUnder_cons]
    split
    · rw [Option.getD_some, List.append_assoc, List.singleton_append]
    · rfl

end CondLang.NameTable
