import CondLang.Proofs.Reference.Written

/-!
# The parts of a reference are written in it

The name of an item list and the texts of its transforms stand in the characters between the
parentheses of the reference, and the name of a property is these characters without the blanks
around them.

A text in quotes holds no quote.  A reference that holds none has therefore no text to put in place
of the items and no separator (`unquoted_of_ofChars?`).
-/

namespace CondLang

namespace Text

theorem trimmed_isInfix (text : List Char) : trimmed text <:+: text := by
  have hfront := dropBlanks_suffix (dropBlanks text).reverse
  rw [← List.reverse_prefix, List.reverse_reverse] at hfront
  exact hfront.isInfix.trans (dropBlanks_suffix text).isInfix

end Text

namespace ItemListReference

theorem WrittenTransform.exists_quoted {transform : WrittenTransform} {inner : String}
    (h : transform.meaning = .expression inner) :
    ∃ quoted : Quoted, transform.text = quoted.text ∧ inner.toList = quoted.content := by
  cases transform with
  | expression quoted =>
    cases h
    exact ⟨quoted, rfl, String.toList_ofList⟩
  | function => cases h

/-- What a transform puts in place of items stands in its text. -/
theorem WrittenTransform.isInfix_of_meaning {transform : WrittenTransform} {inner : String}
    (h : transform.meaning = .expression inner) : inner.toList <:+: transform.text := by
  obtain ⟨quoted, htext, hinner⟩ := exists_quoted h
  rw [htext, hinner]
  exact ⟨['\''], ['\''], rfl⟩

theorem Written.transform_isInfix {written : Written} {step : Step} (h : step ∈ written.steps) :
    step.transform.text <:+: written.text := by
  have htransform : step.transform.text <:+: step.text :=
    ⟨step.before.text ++ '-' :: '>' :: step.behind.text, [], by simp [Step.text]⟩
  have hstep : step.text <:+: written.steps.flatMap Step.text := by
    rw [List.flatMap_def]
    exact List.infix_of_mem_flatten (List.mem_map_of_mem h)
  have hsteps : written.steps.flatMap Step.text <:+: written.text :=
    ⟨written.before.text ++ written.name.text, written.gap.text ++ written.tail, by
      simp [Written.text, Written.behind]⟩
  exact htransform.trans (hstep.trans hsteps)

/-- The name of an item list and the texts of its transforms stand in the reference. -/
theorem of_ofChars? {text : List Char} {reference : ItemListReference}
    (h : ofChars? text = some reference) :
    reference.name.toList <:+: text ∧
      ∀ inner, .expression inner ∈ reference.transforms → inner.toList <:+: text := by
  obtain ⟨written, rfl, rfl⟩ := ofChars?_eq_some_iff.1 h
  refine ⟨?_, fun inner hinner => ?_⟩
  · rw [Written.reference, String.toList_ofList]
    exact ⟨written.before.text, written.behind, by simp [Written.text]⟩
  · obtain ⟨step, hstep, hmeaning⟩ := List.mem_map.1 hinner
    exact (WrittenTransform.isInfix_of_meaning hmeaning).trans (Written.transform_isInfix hstep)

/-! ## Quotes -/

/-- A reference without any quoted text: its transforms are functions, and it has no separator. -/
structure Unquoted (reference : ItemListReference) : Prop where
  not_expression : ∀ inner, .expression inner ∉ reference.transforms
  separator_eq : reference.separator = none

theorem Quoted.quote_mem_text (quoted : Quoted) : '\'' ∈ quoted.text := List.mem_cons_self

/-- The text of a transform ends before the next quote. -/
theorem quote_not_mem_of_ofChars? {text : List Char} {reference : ItemListReference}
    {inner : String} (h : ofChars? text = some reference)
    (hinner : .expression inner ∈ reference.transforms) : '\'' ∉ inner.toList := by
  obtain ⟨written, rfl, rfl⟩ := ofChars?_eq_some_iff.1 h
  obtain ⟨step, -, hmeaning⟩ := List.mem_map.1 hinner
  obtain ⟨quoted, -, hcontent⟩ := WrittenTransform.exists_quoted hmeaning
  exact hcontent ▸ quoted.unquoted

theorem unquoted_of_ofChars? {text : List Char} {reference : ItemListReference}
    (h : ofChars? text = some reference) (hquote : '\'' ∉ text) : reference.Unquoted := by
  obtain ⟨written, rfl, rfl⟩ := ofChars?_eq_some_iff.1 h
  constructor
  · intro inner hinner
    obtain ⟨step, hstep, hmeaning⟩ := List.mem_map.1 hinner
    obtain ⟨quoted, htext, -⟩ := WrittenTransform.exists_quoted hmeaning
    have hpart := Written.transform_isInfix hstep
    rw [htext] at hpart
    exact hquote (hpart.subset quoted.quote_mem_text)
  · rw [Written.reference, Option.map_eq_none_iff, Option.eq_none_iff_forall_ne_some]
    intro ending hending
    refine hquote ?_
    simp [Written.text, Written.behind, Written.tail, hending, Ending.text,
      ending.separator.quote_mem_text]

end ItemListReference

end CondLang
