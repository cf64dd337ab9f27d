import CondLang.Proofs.Project.Reads
import CondLang.Proofs.Project.Transforms

/-!
# How deep expansions are nested

To answer for an item list, the texts of its transforms are expanded, and these may ask for item
lists again.  `ExpansionEnds` and `ListEnds` are this recursion without any limit to its depth: they
hold of a text or a reference for which all that is asked for on its account comes to an end, and
they count the expansions inside each other.

The text of a transform stands in quotes and so holds none.  What it asks for has no text to expand
(`ItemListReference.Unquoted`), so on every project each text ends after two expansions inside each
other.  What properties, items and metadata hold does not matter, as it is never expanded.
-/

namespace CondLang

namespace Expansion

variable {text : List Char} {reference : ItemListReference}

/-- The text of a transform holds no quote. -/
theorem Asks.quote_not_mem {inner : String} (h : Asks text (.itemList reference))
    (hinner : .expression inner ∈ reference.transforms) : '\'' ∉ inner.toList := by
  obtain ⟨kind, chars, -, hparse⟩ := h
  exact ItemListReference.quote_not_mem_of_ofChars? (Query.ofChars?_of_parse hparse) hinner

theorem Asks.unquoted (h : Asks text (.itemList reference)) (hquote : '\'' ∉ text) :
    reference.Unquoted := by
  obtain ⟨kind, chars, hpiece, hparse⟩ := h
  exact ItemListReference.unquoted_of_ofChars? (Query.ofChars?_of_parse hparse)
    fun hmem => hquote ((inner_isInfix hpiece).subset hmem)

/-- What a transform asks for has no text to put in place of the items, and no separator. -/
theorem Asks.unquoted_of_expression {outer : ItemListReference} {inner : String}
    (houter : Asks text (.itemList outer)) (hinner : .expression inner ∈ outer.transforms)
    (h : Asks inner.toList (.itemList reference)) : reference.Unquoted :=
  h.unquoted (houter.quote_not_mem hinner)

/-- Of the answers for item lists, those to what the text asks for count. -/
theorem ofText_itemList_congr {env : Environment} {text : String}
    {lists : ItemListReference → Except ExpansionError (List String)}
    (h : ∀ reference, Asks text.toList (.itemList reference) →
      env.itemList reference = lists reference) :
    ofText env text = ofText { env with itemList := lists } text := by
  refine ofText_congr fun query hasks => ?_
  cases query with
  | property expression => rfl
  | itemList reference =>
    show (env.itemList reference).map _ = (lists reference).map _
    rw [h reference hasks]
  | metadata reference => rfl

end Expansion

namespace Project

open Expansion (Asks)

/-- Answers to the references to item lists. -/
abbrev Lists := ItemListReference → Except ExpansionError (List String)

variable (project : Project)

/-- The texts of an item list, given the answers to the references in its transforms. -/
def listFrom (lists : Lists) (reference : ItemListReference) :
    Except ExpansionError (List String) :=
  (project.applyTransforms lists reference.name (project.entriesOf reference.name)
    reference.transforms).map fun entries => entries.map (·.text)

theorem listWithin_eq_listFrom (depth : Nat) (reference : ItemListReference) :
    project.listWithin (depth + 1) reference =
      project.listFrom (project.listWithin depth) reference :=
  project.listWithin_succ _ depth _ _

/-- A list depends on the answers to what its transforms ask for. -/
theorem listFrom_congr {lists lists' : Lists} {reference : ItemListReference}
    (h : ∀ inner, .expression inner ∈ reference.transforms →
      ∀ other, Asks inner.toList (.itemList other) → lists other = lists' other) :
    project.listFrom lists reference = project.listFrom lists' reference := by
  have hsteps : ∀ transform ∈ reference.transforms, ∀ entries,
      project.applyTransform lists reference.name entries transform =
        project.applyTransform lists' reference.name entries transform := by
    intro transform htransform
    refine applyTransform_congr fun inner hinner item => ?_
    subst hinner
    exact congrArg Expansion.text (Expansion.ofText_itemList_congr (h inner htransform))
  rw [listFrom, listFrom, applyTransforms, foldlM_congr hsteps]
  rfl

/-! ## The recursion -/

mutual

/-- The expansion of a text ends, with at most so many expansions inside each other, itself
included: each list that it asks for ends, and the environment answers with what it ends with. -/
inductive ExpansionEnds : Nat → Environment → String → Prop where
  | intro {nesting : Nat} {env : Environment} {text : String}
      (lists : ∀ reference, Asks text.toList (.itemList reference) →
        ListEnds nesting reference (env.itemList reference)) :
      ExpansionEnds (nesting + 1) env text

/-- The answer to a reference ends with some outcome: each text of its transforms ends for every
item that it may be put in place of. -/
inductive ListEnds : Nat → ItemListReference → Except ExpansionError (List String) → Prop where
  | intro {nesting : Nat} {reference : ItemListReference} (lists : Lists)
      (texts : ∀ inner, .expression inner ∈ reference.transforms → ∀ item,
        ExpansionEnds nesting (project.transformEnvironment lists reference.name item) inner) :
      ListEnds nesting reference (project.listFrom lists reference)

end

variable {project} {nesting : Nat} {env : Environment} {text : String}
  {reference : ItemListReference}

theorem ExpansionEnds.lists (h : project.ExpansionEnds (nesting + 1) env text)
    (hasks : Asks text.toList (.itemList reference)) :
    project.ListEnds nesting reference (env.itemList reference) := by
  cases h with
  | intro lists => exact lists reference hasks

theorem ExpansionEnds.exists_eq_add_one (h : project.ExpansionEnds nesting env text) :
    ∃ less, nesting = less + 1 := by
  cases h with
  | intro => exact ⟨_, rfl⟩

theorem ListEnds.exists_lists {outcome : Except ExpansionError (List String)}
    (h : project.ListEnds nesting reference outcome) :
    ∃ lists, outcome = project.listFrom lists reference ∧
      ∀ inner, .expression inner ∈ reference.transforms → ∀ item,
        project.ExpansionEnds nesting (project.transformEnvironment lists reference.name item)
          inner := by
  cases h with
  | intro lists texts => exact ⟨lists, rfl, texts⟩

/-- A list ends in one way only. -/
theorem ListEnds.unique {outcome outcome' : Except ExpansionError (List String)} {nesting' : Nat}
    (h : project.ListEnds nesting reference outcome)
    (h' : project.ListEnds nesting' reference outcome') : outcome = outcome' := by
  induction nesting using Nat.strong_induction_on generalizing nesting' reference outcome outcome'
    with
  | _ nesting ih =>
    obtain ⟨lists, rfl, texts⟩ := h.exists_lists
    obtain ⟨lists', rfl, texts'⟩ := h'.exists_lists
    refine project.listFrom_congr fun inner hinner other hasks => ?_
    -- The item does not matter: what its metadata holds is not expanded.
    have hends := texts inner hinner none
    have hends' := texts' inner hinner none
    obtain ⟨less, rfl⟩ := hends.exists_eq_add_one
    obtain ⟨less', rfl⟩ := hends'.exists_eq_add_one
    exact ih less (Nat.lt_add_one less) (hends.lists hasks) (hends'.lists hasks)

/-- Expansions of one text that end, and differ in the answers for item lists only, are the same. -/
theorem ExpansionEnds.unique {lists : Lists} {nesting' : Nat}
    (h : project.ExpansionEnds nesting env text)
    (h' : project.ExpansionEnds nesting' { env with itemList := lists } text) :
    Expansion.ofText env text = Expansion.ofText { env with itemList := lists } text := by
  obtain ⟨less, rfl⟩ := h.exists_eq_add_one
  obtain ⟨less', rfl⟩ := h'.exists_eq_add_one
  exact Expansion.ofText_itemList_congr fun reference hasks =>
    (h.lists hasks).unique (h'.lists hasks)

/-! ## Its depth -/

variable (project)

/-- Without a text to expand a list ends at once. -/
theorem listEnds_of_unquoted (h : reference.Unquoted) (depth : Nat) :
    project.ListEnds 0 reference (project.listWithin (depth + 1) reference) := by
  rw [listWithin_eq_listFrom]
  exact .intro _ fun inner hinner => absurd hinner (h.not_expression inner)

/-- Where a list is asked for by a text, the texts of its transforms end without further ones. -/
theorem listEnds_of_asks {text : List Char} (h : Asks text (.itemList reference)) :
    project.ListEnds 1 reference (project.answerItemList reference) := by
  rw [answerItemList, maxListDepth, listWithin_eq_listFrom]
  exact .intro _ fun inner hinner item => .intro fun other hother =>
    project.listEnds_of_unquoted (h.unquoted_of_expression hinner hother) 0

/-- On every project the expansion of every text ends, with at most two expansions inside each
other.  Whatever depth is allowed for, it ends in this way only.  What the text of a transform asks
for has no text to put in place of the items, and no separator. -/
theorem expansion_ends (onDisk : String → Bool) (condition : String) (location : Location)
    (text : String) :
    let env := project.environment onDisk condition location
    project.ExpansionEnds 2 env text ∧
      (∀ nesting lists, project.ExpansionEnds nesting { env with itemList := lists } text →
        Expansion.ofText { env with itemList := lists } text = Expansion.ofText env text) ∧
      ∀ outer inner reference, Asks text.toList (.itemList outer) →
        .expression inner ∈ outer.transforms → Asks inner.toList (.itemList reference) →
          (∀ other, .expression other ∉ reference.transforms) ∧ reference.separator = none := by
  intro env
  have hends : project.ExpansionEnds 2 env text :=
    .intro fun reference hasks => project.listEnds_of_asks hasks
  refine ⟨hends, fun nesting lists h => (hends.unique h).symm, ?_⟩
  intro outer inner reference houter hinner hreference
  obtain ⟨hnone, hseparator⟩ := houter.unquoted_of_expression hinner hreference
  exact ⟨hnone, hseparator⟩

/-- A list within the transform of the same list, with more depth allowed for than there is. -/
theorem expansion_ends_listWithinTransform :
    let project := empty.addItem "T" (.ofIdentity "@(T->'%(Identity)@(T)')")
    let env := project.environment (fun _ => false) "" .unknown
    let text := "@(T->'%(Identity)@(T)')"
    Asks text.toList (.itemList ⟨"T", [.expression "%(Identity)@(T)"], none⟩) ∧
      Asks "%(Identity)@(T)".toList (.itemList ⟨"T", [], none⟩) ∧
      project.ExpansionEnds 2 env text ∧
      project.ExpansionEnds 2 { env with itemList := project.listWithin 5 } text ∧
      Expansion.ofText { env with itemList := project.listWithin 5 } text =
        Expansion.ofText env text := by
  intro project env text
  obtain ⟨hends, hunique, hnone⟩ := project.expansion_ends (fun _ => false) "" .unknown text
  have hasks : Asks text.toList (.itemList ⟨"T", [.expression "%(Identity)@(T)"], none⟩) :=
    ⟨.itemList, "T->'%(Identity)@(T)'".toList, by decide +kernel, by decide +kernel⟩
  have hinner : Asks "%(Identity)@(T)".toList (.itemList ⟨"T", [], none⟩) :=
    ⟨.itemList, "T".toList, by decide +kernel, by decide +kernel⟩
  have hdeeper : project.ExpansionEnds 2 { env with itemList := project.listWithin 5 } text := by
    refine .intro fun reference hasks => ?_
    show project.ListEnds 1 reference (project.listWithin (4 + 1) reference)
    rw [listWithin_eq_listFrom]
    exact .intro _ fun inner hinner item => .intro fun other hother =>
      project.listEnds_of_unquoted (hasks.unquoted_of_expression hinner hother) 3
  exact ⟨hasks, hinner, hends, hdeeper, hunique _ _ hdeeper⟩

end Project

end CondLang
