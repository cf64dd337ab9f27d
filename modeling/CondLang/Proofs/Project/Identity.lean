import CondLang.Project.Answers
import CondLang.Proofs.Reference.Written
import CondLang.Proofs.Text.Escape

/-!
# The transform to identities

`%(Identity)` stands for the text an item was included under, so `@(T->'%(Identity)')` should be
`@(T)`.  Escapes keep the two apart: the text of a transform is expanded like any other, which
decodes the escapes of its items, and the text around the reference is decoded once more.  So each
item is decoded once in `@(T)` and twice in `@(T->'%(Identity)')` (`expand_identityTransform`),
which makes a difference to items whose decoded text holds an escape again.
-/

namespace CondLang

open Character (isName isNameChar)

/-! ## A text that is one reference -/

theorem expand_reference (kind : ReferenceKind) {group : List Char} {query : Query}
    (hgroup : Reference.IsGroup group)
    (hquery : Query.parse kind (ItemListReference.inside group) = .ok query) (env : Environment) :
    expand env (.ofList (kind.sigil :: group)) = (env.answer query).map Text.unescape := by
  rw [expand, Expansion.ofText, String.toList_ofList, Expansion.pieces_reference hgroup]
  simp only [Expansion.assemble, hquery]
  cases env.answer query with
  | error e => rfl
  | ok text =>
    simp only [Expansion.text, Expansion.prepend, Except.map, List.append_nil, String.ofList_toList]

/-- A reference to the items of a type, with something behind the name, expands to the answer, with
its escapes decoded. -/
theorem expand_itemList (env : Environment) {itemType : String}
    (htype : isName itemType.toList = true) (behind : String) (transforms : List ItemTransform)
    (hhead : ∀ c ∈ behind.toList.head?, isNameChar c = false)
    (hgroup : Reference.closeFrom 1 none (behind.toList ++ [')']) =
      some (behind.toList ++ [')'], []))
    (htransforms : ItemListReference.splitTransforms? behind.toList.length behind.toList =
      some (transforms, [])) :
    expand env ("@(" ++ itemType ++ behind ++ ")") =
      (env.answer (.itemList ⟨itemType, transforms, none⟩)).map Text.unescape := by
  obtain ⟨-, hall⟩ := Character.isName_iff.1 htype
  have htext : "@(" ++ itemType ++ behind ++ ")" =
      .ofList ('@' :: '(' :: (itemType.toList ++ (behind.toList ++ [')']))) := by
    simp [← String.toList_inj]
  rw [htext]
  refine expand_reference .itemList (Reference.isGroup_of_name hall hgroup) ?_ env
  have hread := ItemListReference.ofChars?_name .none ⟨_, htype⟩ hhead
  rw [ItemListReference.Blanks.none, List.nil_append] at hread
  rw [← List.append_assoc, ItemListReference.inside_cons_append, Query.parse,
    ItemListReference.parse, String.toList_ofList, hread, htransforms, String.ofList_toList]
  rfl

namespace Project

/-! ## The lists -/

variable (project : Project)

theorem listWithin_plain (depth : Nat) (itemType : String) (separator : Option String) :
    project.listWithin (depth + 1) ⟨itemType, [], separator⟩ =
      .ok ((project.itemsOf itemType).map (·.identity)) := by
  rw [listWithin, entriesOf, List.foldlM_nil]
  simp only [pure_bind, List.map_map]
  rfl

/-- In the transform of an item `%(Identity)` is its identity, with its escapes decoded. -/
theorem expand_identity (lists : ItemListReference → Except ExpansionError (List String))
    (itemType : String) (item : Item) :
    expand (project.transformEnvironment lists itemType (some item)) "%(Identity)" =
      .ok (Text.unescape item.identity) := by
  have hgroup : Reference.IsGroup "(Identity)".toList := ⟨by decide, by decide⟩
  have hquery : Query.parse .metadata (ItemListReference.inside "(Identity)".toList) =
      .ok (.metadata ⟨none, "Identity"⟩) := by decide +kernel
  exact expand_reference .metadata hgroup hquery _

theorem listWithin_identity (depth : Nat) (itemType : String) (separator : Option String) :
    project.listWithin (depth + 1) ⟨itemType, [.expression "%(Identity)"], separator⟩ =
      .ok (((project.itemsOf itemType).map (·.identity)).map Text.unescape) := by
  have hentry : ∀ item : Item,
      (do
        let env := project.transformEnvironment (project.listWithin depth) itemType (some item)
        return ⟨← expand env "%(Identity)", some item⟩ : Except ExpansionError ListEntry) =
        pure ⟨Text.unescape item.identity, some item⟩ := by
    intro item
    simp only [expand_identity]
    rfl
  rw [listWithin, entriesOf, List.foldlM_cons, applyTransform, List.mapM_map]
  simp only [hentry, Function.comp_def, List.mapM_pure, List.foldlM_nil, pure_bind, List.map_map]
  rfl

theorem answer_itemList {onDisk : String → Bool} {condition : String} {location : Location}
    {reference : ItemListReference} {texts : List String}
    (h : project.answerItemList reference = .ok texts) :
    (project.environment onDisk condition location).answer (.itemList reference) =
      .ok (reference.joiner.intercalate texts) := by
  show (project.answerItemList reference).map reference.joiner.intercalate = _
  rw [h, Except.map]

/-- The list of a type and its transform to identities: the escapes of each item are decoded once in
the one and twice in the other, so the two are the same text exactly if no item changes when it is
decoded a second time. -/
theorem expand_identityTransform (onDisk : String → Bool) (condition : String)
    (location : Location) {itemType : String} (htype : isName itemType.toList = true) :
    let env := project.environment onDisk condition location
    let identities := (project.itemsOf itemType).map (·.identity)
    let once := identities.map Text.unescape
    let twice := once.map Text.unescape
    expand env ("@(" ++ itemType ++ ")") = .ok (";".intercalate once) ∧
      expand env ("@(" ++ itemType ++ "->'%(Identity)')") = .ok (";".intercalate twice) ∧
      (expand env ("@(" ++ itemType ++ "->'%(Identity)')") =
          expand env ("@(" ++ itemType ++ ")") ↔ ∀ text ∈ once, Text.unescape text = text) := by
  intro env identities once twice
  have hseparates : Text.Separates ';' := ⟨by decide, by decide, by decide⟩
  have hplain : expand env ("@(" ++ itemType ++ ")") = .ok (";".intercalate once) := by
    have hexpand := expand_itemList env htype "" [] nofun (by decide) rfl
    rw [answer_itemList project (project.listWithin_plain 1 itemType none), String.append_empty,
      Except.map] at hexpand
    exact hexpand.trans (congrArg _ (Text.unescape_intercalate hseparates identities))
  have htransform : expand env ("@(" ++ itemType ++ "->'%(Identity)')") =
      .ok (";".intercalate twice) := by
    have hhead : ∀ c ∈ "->'%(Identity)'".toList.head?, isNameChar c = false := by
      intro c hc
      obtain rfl : '-' = c := Option.some.inj hc
      decide
    have hexpand := expand_itemList env htype "->'%(Identity)'" [.expression "%(Identity)"] hhead
      (by decide +kernel) (by decide +kernel)
    rw [answer_itemList project (project.listWithin_identity 1 itemType none),
      String.append_assoc, Except.map] at hexpand
    exact hexpand.trans (congrArg _ (Text.unescape_intercalate hseparates once))
  refine ⟨hplain, htransform, ?_⟩
  rw [hplain, htransform, Except.ok.injEq]
  exact Text.intercalate_map_unescape_eq_iff ";" once

/-- One item whose decoded text, `%41`, is the escape of a letter. -/
def escapedTwice : Project := empty.addItem "T" (.ofIdentity "%2541")

theorem expand_identityTransform_escapedTwice :
    isName "T".toList = true ∧
      let env := escapedTwice.environment (fun _ => false) "" .unknown
      expand env "@(T)" = .ok "%41" ∧ expand env "@(T->'%(Identity)')" = .ok "A" := by
  have htype : isName "T".toList = true := by decide
  obtain ⟨hplain, htransform, -⟩ :=
    escapedTwice.expand_identityTransform (fun _ => false) "" .unknown htype
  have honce : ((escapedTwice.itemsOf "T").map (·.identity)).map Text.unescape = ["%41"] := by
    decide +kernel
  rw [honce] at hplain htransform
  exact ⟨htype, hplain, htransform.trans (by decide +kernel)⟩

/-- The transform to identities is not the list. -/
theorem expand_identity_ne_expand_list :
    let env := escapedTwice.environment (fun _ => false) "" .unknown
    expand env "@(T->'%(Identity)')" ≠ expand env "@(T)" := by
  decide +kernel

end Project

end CondLang
