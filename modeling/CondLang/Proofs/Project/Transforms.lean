import CondLang.Proofs.Project.Distinct
import CondLang.Proofs.Traversal

/-!
# Laws of transforms

A reference to an item list applies its transforms one after the other.  Every entry carries its
text and the item that it came from: a text put in place of the items reads the items alone,
`Count()` forgets them, and the other functions move or drop entries as they are.  From this follow
the laws of transforms behind any others (`listWithin_transforms`).
-/

namespace CondLang

namespace Project

variable (project : Project) (lists : ItemListReference → Except ExpansionError (List String))
  (itemType : String)

/-! ## Functions -/

/-- The name that a function is called by. -/
def ListFunction.name : ListFunction → String
  | count => "Count"
  | distinct => "Distinct"
  | reverse => "Reverse"

theorem listFunction?_of_same {name : String} {function : ListFunction}
    (h : Text.sameIgnoringAscii name function.name = true) :
    listFunction? name = some function := by
  have hsame : ∀ other, Text.sameIgnoringAscii name other =
      Text.sameIgnoringAscii function.name other := by
    intro other
    rw [Text.sameIgnoringAscii, Text.sameIgnoringAscii, Text.sameIgnoringAscii_iff.1 h]
  have hname : listFunction? name = listFunction? function.name := by
    simp only [listFunction?, hsame]
  rw [hname]
  cases function <;> decide

/-- A function may be called by its name in any case. -/
theorem applyTransform_function {name : String} {function : ListFunction}
    (h : Text.sameIgnoringAscii name function.name = true) (entries : List ListEntry) :
    project.applyTransform lists itemType entries (.function name "") =
      .ok (function.apply entries) := by
  rw [applyTransform, listFunction?_of_same h]
  rfl

/-! ## Texts in place of items -/

/-- The entry of an item behind a text that is put in its place. -/
def replaced (text : String) (item : Option Item) : Except ExpansionError ListEntry := do
  return ⟨← expand (project.transformEnvironment lists itemType item) text, item⟩

/-- Only the items of the entries count. -/
theorem applyTransform_expression (entries : List ListEntry) (text : String) :
    project.applyTransform lists itemType entries (.expression text) =
      (entries.map (·.item)).mapM (project.replaced lists itemType text) := by
  rw [List.mapM_map]
  rfl

variable {project lists itemType} {entries results : List ListEntry} {text : String}

theorem item_of_replaced {item : Option Item} {result : ListEntry}
    (h : project.replaced lists itemType text item = .ok result) : item = result.item := by
  unfold replaced at h
  cases hexpand : expand (project.transformEnvironment lists itemType item) text with
  | error e => simp [hexpand, bind, Except.bind] at h
  | ok expanded =>
    simp only [hexpand, bind, Except.bind, pure, Except.pure, Except.ok.injEq] at h
    rw [← h]

/-- The items stay behind the texts that are put in their place. -/
theorem map_item_of_applyTransform
    (h : project.applyTransform lists itemType entries (.expression text) = .ok results) :
    results.map (·.item) = entries.map (·.item) := by
  rw [applyTransform_expression, mapM_eq_ok_iff] at h
  have hitems := h.imp fun _ _ => item_of_replaced
  rw [← List.forall₂_map_right_iff, List.forall₂_eq_eq_eq] at hitems
  exact hitems.symm

/-! ## Transforms in a row -/

variable (project lists itemType)

/-- Transforms applied one after the other. -/
def applyTransforms (entries : List ListEntry) (transforms : List ItemTransform) :
    Except ExpansionError (List ListEntry) :=
  transforms.foldlM (project.applyTransform lists itemType) entries

theorem applyTransforms_nil (entries : List ListEntry) :
    project.applyTransforms lists itemType entries [] = .ok entries := rfl

theorem applyTransforms_append (entries : List ListEntry) (front behind : List ItemTransform) :
    project.applyTransforms lists itemType entries (front ++ behind) =
      (project.applyTransforms lists itemType entries front).bind
        (project.applyTransforms lists itemType · behind) :=
  List.foldlM_append

theorem applyTransforms_singleton (entries : List ListEntry) (transform : ItemTransform) :
    project.applyTransforms lists itemType entries [transform] =
      project.applyTransform lists itemType entries transform :=
  List.foldlM_cons.trans (bind_pure _)

variable {project lists itemType}

theorem applyTransforms_function {name : String} {function : ListFunction}
    (h : Text.sameIgnoringAscii name function.name = true) (entries : List ListEntry)
    (behind : List ItemTransform) :
    project.applyTransforms lists itemType entries (.function name "" :: behind) =
      project.applyTransforms lists itemType (function.apply entries) behind := by
  rw [applyTransforms, List.foldlM_cons, applyTransform_function project lists itemType h]
  rfl

/-- Of two texts that are put in place of the items the second counts. -/
theorem applyTransforms_expression_expression {first second : String}
    (h : project.applyTransform lists itemType entries (.expression first) = .ok results) :
    project.applyTransforms lists itemType entries [.expression first, .expression second] =
      project.applyTransforms lists itemType entries [.expression second] := by
  have hsecond : project.applyTransform lists itemType results (.expression second) =
      project.applyTransform lists itemType entries (.expression second) := by
    rw [applyTransform_expression, applyTransform_expression, map_item_of_applyTransform h]
  rw [← List.singleton_append, applyTransforms_append, applyTransforms_singleton, h]
  simp only [Except.bind, applyTransforms_singleton, hsecond]

/-- Texts may be put in place of the items before or after the order is reversed. -/
theorem applyTransforms_expression_reverse {reverse : String}
    (h : Text.sameIgnoringAscii reverse ListFunction.reverse.name = true) :
    project.applyTransforms lists itemType entries [.expression text, .function reverse ""] =
        .ok results ↔
      project.applyTransforms lists itemType entries [.function reverse "", .expression text] =
        .ok results := by
  rw [applyTransforms_function h, applyTransforms_singleton,
    ListFunction.apply, applyTransform_expression, List.map_reverse, mapM_reverse_eq_ok_iff,
    ← applyTransform_expression, ← List.singleton_append, applyTransforms_append,
    applyTransforms_singleton]
  cases project.applyTransform lists itemType entries (.expression text) with
  | error e => simp [Except.bind]
  | ok replaced =>
    simp only [Except.bind, applyTransforms_singleton,
      applyTransform_function project lists itemType h, ListFunction.apply, Except.ok.injEq,
      List.reverse_eq_iff]

/-! ## Lists -/

variable (project itemType)

/-- The texts of a list are those of the entries that its transforms leave. -/
theorem listWithin_succ (depth : Nat) (transforms : List ItemTransform)
    (separator : Option String) :
    project.listWithin (depth + 1) ⟨itemType, transforms, separator⟩ =
      (project.applyTransforms (project.listWithin depth) itemType (project.entriesOf itemType)
        transforms).map fun entries => entries.map (·.text) := by
  rw [listWithin]
  exact bind_pure_comp _ _

/-- Laws of transforms behind any others, for the texts of a list before they are joined: to reverse
the list twice changes nothing; of two texts that are put in place of the items the second counts;
it makes no difference whether that happens before or after the list is reversed; `Count()` leaves
the number of the texts; `Distinct()` leaves the first of each class of texts that are the same in
lower case, and a second one changes nothing. -/
theorem listWithin_transforms (depth : Nat) (separator : Option String)
    (front : List ItemTransform) {reverse count distinct : String}
    (hreverse : Text.sameIgnoringAscii reverse "Reverse" = true)
    (hcount : Text.sameIgnoringAscii count "Count" = true)
    (hdistinct : Text.sameIgnoringAscii distinct "Distinct" = true) :
    let list := fun behind => project.listWithin depth ⟨itemType, front ++ behind, separator⟩
    list [.function reverse "", .function reverse ""] = list [] ∧
      (∀ first second texts, list [.expression first] = .ok texts →
        list [.expression first, .expression second] = list [.expression second]) ∧
      (∀ text texts, list [.expression text, .function reverse ""] = .ok texts ↔
        list [.function reverse "", .expression text] = .ok texts) ∧
      list [.function count ""] = (list []).map (fun texts => [toString texts.length]) ∧
      list [.function distinct ""] = (list []).map (firstOfEach Text.lowercase) ∧
      list [.function distinct "", .function distinct ""] = list [.function distinct ""] := by
  change Text.sameIgnoringAscii reverse ListFunction.reverse.name = true at hreverse
  change Text.sameIgnoringAscii count ListFunction.count.name = true at hcount
  change Text.sameIgnoringAscii distinct ListFunction.distinct.name = true at hdistinct
  cases depth with
  | zero => exact ⟨rfl, fun _ _ _ _ => rfl, fun _ _ => Iff.rfl, rfl, rfl, rfl⟩
  | succ depth =>
    simp only [listWithin_succ, applyTransforms_append]
    generalize project.applyTransforms (project.listWithin depth) itemType
      (project.entriesOf itemType) front = entries
    cases entries with
    | error e => exact ⟨rfl, fun _ _ _ _ => rfl, fun _ _ => Iff.rfl, rfl, rfl, rfl⟩
    | ok entries =>
      simp only [Except.bind]
      refine ⟨?_, fun first second texts h => ?_, fun text texts => ?_, ?_, ?_, ?_⟩
      · rw [applyTransforms_function hreverse, applyTransforms_function hreverse,
          ListFunction.apply, ListFunction.apply, List.reverse_reverse]
      · rw [applyTransforms_singleton] at h
        obtain ⟨results, hfirst, -⟩ := map_eq_ok_iff.1 h
        rw [applyTransforms_expression_expression hfirst]
      · rw [map_eq_ok_iff, map_eq_ok_iff]
        simp only [applyTransforms_expression_reverse hreverse]
      · rw [applyTransforms_function hcount]
        simp only [applyTransforms_nil, ListFunction.apply, Except.map, List.map_cons,
          List.map_nil, List.length_map]
      · rw [applyTransforms_function hdistinct]
        simp only [applyTransforms_nil, ListFunction.apply, Except.map, map_text_distinctFrom]
      · rw [applyTransforms_function hdistinct, applyTransforms_function hdistinct,
          applyTransforms_function hdistinct, ListFunction.apply, ListFunction.apply,
          distinctFrom_distinctFrom]

/-- Three items, two of which differ in case only. -/
def spelledTwice : Project :=
  ((empty.addItem "T" (.ofIdentity "a.cs")).addItem "T" (.ofIdentity "b.cs")).addItem "T"
    (.ofIdentity "A.cs")

theorem listWithin_transforms_spelledTwice :
    let list := fun behind =>
      spelledTwice.answerItemList ⟨"T", .expression "%(Filename)" :: behind, none⟩
    list [] = .ok ["a", "b", "A"] ∧
      list [.function "REVERSE" "", .function "REVERSE" ""] = list [] ∧
      list [.expression "x", .expression "%(Identity)"] = list [.expression "%(Identity)"] ∧
      list [.function "REVERSE" "", .expression "%(Identity)"] = .ok ["A.cs", "b.cs", "a.cs"] ∧
      list [.function "count" ""] = .ok ["3"] ∧
      list [.function "Distinct" "", .function "Distinct" ""] = .ok ["a", "b"] := by
  obtain ⟨hreverse, hexpression, hswap, hcount, hdistinct, htwice⟩ :=
    spelledTwice.listWithin_transforms "T" maxListDepth none [.expression "%(Filename)"]
      (show Text.sameIgnoringAscii "REVERSE" "Reverse" = true by decide)
      (show Text.sameIgnoringAscii "count" "Count" = true by decide)
      (show Text.sameIgnoringAscii "Distinct" "Distinct" = true by decide)
  have hlist : spelledTwice.listWithin maxListDepth
      ⟨"T", [.expression "%(Filename)"] ++ [], none⟩ = .ok ["a", "b", "A"] := by decide +kernel
  refine ⟨hlist, hreverse, hexpression _ _ ["x", "x", "x"] (by decide +kernel),
    (hswap _ _).1 (by decide +kernel), ?_, ?_⟩
  · exact (hcount.trans (congrArg (Except.map _) hlist)).trans rfl
  · have hfirst : firstOfEach Text.lowercase ["a", "b", "A"] = ["a", "b"] := by decide +kernel
    exact ((htwice.trans hdistinct).trans (congrArg (Except.map _) hlist)).trans
      (congrArg Except.ok hfirst)

end Project

end CondLang
