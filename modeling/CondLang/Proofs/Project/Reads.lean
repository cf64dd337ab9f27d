import CondLang.Project.Answers
import CondLang.Proofs.Expansion.Reaches

/-!
# What an expansion reads of a project

Two projects that agree on the properties and item types that a text reaches, and on the metadata
that it asks for itself, expand it alike (`ofText_environment_congr`).  Metadata in a transform is
that of the items transformed, so the current item matters to the text itself only.
-/

namespace CondLang

namespace Project

open Expansion (Asks Reaches)

/-- Two projects agree on all that the expansion of a text reads. -/
structure AgreesOn (project project' : Project) (text : List Char) : Prop where
  strictness : project.strictness = project'.strictness
  property : ∀ expression, Reaches text (.property expression) →
    project.property? expression = project'.property? expression
  items : ∀ reference, Reaches text (.itemList reference) →
    project.itemsOf reference.name = project'.itemsOf reference.name
  current : ∀ reference, Asks text (.metadata reference) → project.current = project'.current

variable {project project' : Project} {text : List Char}

theorem foldlM_congr {α β ε : Type} {f g : β → α → Except ε β} {steps : List α}
    (h : ∀ step ∈ steps, ∀ b, f b step = g b step) (b : β) :
    steps.foldlM f b = steps.foldlM g b := by
  induction steps generalizing b with
  | nil => rfl
  | cons step steps ih =>
    obtain ⟨hstep, hsteps⟩ := List.forall_mem_cons.1 h
    rw [List.foldlM_cons, List.foldlM_cons, hstep b]
    exact congrArg _ (funext fun b => ih hsteps b)

/-- Transforms give the same list if the text of each is expanded alike for every item. -/
theorem applyTransform_congr
    {lists lists' : ItemListReference → Except ExpansionError (List String)} {itemType : String}
    {transform : ItemTransform}
    (h : ∀ inner, transform = .expression inner → ∀ item,
      expand (project.transformEnvironment lists itemType item) inner =
        expand (project'.transformEnvironment lists' itemType item) inner)
    (entries : List ListEntry) :
    project.applyTransform lists itemType entries transform =
      project'.applyTransform lists' itemType entries transform := by
  cases transform with
  | function name arguments => rfl
  | expression inner => simp only [applyTransform, h inner rfl]

namespace AgreesOn

theorem answerProperty (h : AgreesOn project project' text) {expression : String}
    (hreaches : Reaches text (.property expression)) :
    project.answerProperty expression = project'.answerProperty expression := by
  rw [Project.answerProperty, Project.answerProperty, h.property expression hreaches, h.strictness]

theorem answerMetadata (h : AgreesOn project project' text) (scope : Option (String × Item))
    (reference : MetadataReference) :
    project.answerMetadata scope reference = project'.answerMetadata scope reference := by
  rw [Project.answerMetadata, Project.answerMetadata, h.strictness]

/-- A transform gives the same list if the lists within it are the same. -/
theorem applyTransform (h : AgreesOn project project' text)
    {lists lists' : ItemListReference → Except ExpansionError (List String)}
    {reference : ItemListReference} (hreaches : Reaches text (.itemList reference))
    (hlists : ∀ other, Reaches text (.itemList other) → lists other = lists' other)
    {transform : ItemTransform} (htransform : transform ∈ reference.transforms)
    (entries : List ListEntry) :
    project.applyTransform lists reference.name entries transform =
      project'.applyTransform lists' reference.name entries transform := by
  refine applyTransform_congr (fun inner hinner item => ?_) entries
  subst hinner
  refine congrArg Expansion.text (Expansion.ofText_congr fun query hasks => ?_)
  have hquery := Reaches.within hreaches htransform hasks
  cases query with
  | property expression => exact h.answerProperty hquery
  | itemList other =>
    show (lists other).map _ = (lists' other).map _
    rw [hlists other hquery]
  | metadata other => exact h.answerMetadata _ other

theorem listWithin (h : AgreesOn project project' text) (depth : Nat)
    {reference : ItemListReference} (hreaches : Reaches text (.itemList reference)) :
    project.listWithin depth reference = project'.listWithin depth reference := by
  induction depth generalizing reference with
  | zero => rfl
  | succ depth ih =>
    have hfold := foldlM_congr (fun transform htransform entries =>
      h.applyTransform hreaches (fun other hother => ih hother) htransform entries)
      (project'.entriesOf reference.name)
    rw [Project.listWithin, Project.listWithin, entriesOf, h.items reference hreaches, ← entriesOf,
      hfold]

end AgreesOn

/-- Projects that agree on all that the expansion of a text reads expand it alike. -/
theorem ofText_environment_congr {text : String} (h : AgreesOn project project' text.toList)
    (onDisk : String → Bool) (condition : String) (location : Location) :
    Expansion.ofText (project.environment onDisk condition location) text =
      Expansion.ofText (project'.environment onDisk condition location) text := by
  refine Expansion.ofText_congr fun query hasks => ?_
  cases query with
  | property expression => exact h.answerProperty (.asked hasks)
  | itemList reference =>
    show (project.answerItemList reference).map _ = (project'.answerItemList reference).map _
    rw [answerItemList, answerItemList, h.listWithin maxListDepth (.asked hasks)]
  | metadata reference =>
    show project.answerMetadata project.current reference =
      project'.answerMetadata project'.current reference
    rw [h.current reference hasks, h.answerMetadata]

end Project

end CondLang
