import CondLang.Proofs.Evaluation.Alike
import CondLang.Proofs.Evaluation.Blocks
import CondLang.Proofs.Project.Reads

/-!
# What conditions are indifferent to

Two projects are indistinct to a condition if it evaluates alike against both: to the same outcome,
through the same questions, with the same records.  It suffices that they agree on what the leaves
of the condition read (`Condition.indistinct`).

So a kind of reference that the policy forbids has no influence, with one exception
(`indistinct_of_forbidden`).  A string is searched for the references in it, but of a reference that
stands bare only the kind is checked: in the transforms of a bare item list a property is read even
where properties are forbidden (`exists_not_indistinct`).

And a name has no influence on a condition whose text does not mention it
(`evaluate_eq_of_not_mentioned`): what references are replaced by is not searched for references.
-/

namespace CondLang

open Expansion (Asks Reaches)

namespace Condition

/-- A condition evaluates alike against two projects. -/
def Indistinct (condition : Condition) (project project' : Project) : Prop :=
  ∀ (onDisk : String → Bool) (stated : String) (location : Location),
    let env := project.environment onDisk stated location
    let env' := project'.environment onDisk stated location
    condition.evaluate env = condition.evaluate env' ∧
      ∀ evaluator : Evaluator,
        evaluator.evaluate condition env = evaluator.evaluate condition env'

variable {text : String} {policy : Policy} {condition : Condition} {project project' : Project}

/-- Projects that agree on what the leaves of a condition read answer it alike. -/
theorem agrees_environment (hbase : project.baseDirectory = project'.baseDirectory)
    (h : ∀ node ∈ condition.root.leaves, node.leaf.expandable = true →
      project.AgreesOn project' node.leaf.text.toList)
    (onDisk : String → Bool) (stated : String) (location : Location) :
    (project.environment onDisk stated location).Agrees
      (project'.environment onDisk stated location) condition.root where
  location := rfl
  pathExists := by
    funext path
    show project.answerPathExists onDisk path = project'.answerPathExists onDisk path
    rw [Project.answerPathExists, Project.answerPathExists, Project.resolvePath,
      Project.resolvePath, hbase]
  expansion node hnode hexpandable :=
    Project.ofText_environment_congr (h node hnode hexpandable) onDisk stated location

theorem indistinct (hbase : project.baseDirectory = project'.baseDirectory)
    (h : ∀ node ∈ condition.root.leaves, node.leaf.expandable = true →
      project.AgreesOn project' node.leaf.text.toList) : condition.Indistinct project project' := by
  intro onDisk stated location
  have hagrees := agrees_environment hbase h onDisk stated location
  exact ⟨evaluate_congr hagrees, Evaluator.evaluate_congr hagrees⟩

/-! ## Kinds that are forbidden -/

/-- A kind of reference that is forbidden has no influence, but for properties in the transforms of
bare references to item lists. -/
theorem indistinct_of_forbidden (h : parse text policy = .ok condition) (project : Project) :
    (policy.properties = false → ∀ properties : NameTable String,
      (∀ node ∈ condition.root.leaves, ∀ list, node.leaf = .reference .itemList list →
        ∀ expression, Reaches list.toList (.property expression) →
          project.properties.find? expression = properties.find? expression) →
      condition.Indistinct project { project with properties }) ∧
    (policy.itemLists = false → ∀ items : NameTable (List Item),
      condition.Indistinct project { project with items }) ∧
    (policy.metadata = false → ∀ current : Option (String × Item),
      condition.Indistinct project { project with current }) := by
  refine ⟨fun hforbidden properties hbare => ?_, fun hforbidden items => ?_,
    fun hforbidden current => ?_⟩
  · refine indistinct rfl fun node hnode hexpandable => ⟨rfl, fun expression hreaches => ?_,
      fun _ _ => rfl, fun _ _ => rfl⟩
    rcases allows_of_reaches h hnode hexpandable hreaches with hallows | ⟨-, list, hleaf⟩
    · cases hallows.symm.trans hforbidden
    · rw [hleaf] at hreaches
      exact hbare node hnode list hleaf expression hreaches
  · refine indistinct rfl fun node hnode hexpandable => ⟨rfl, fun _ _ => rfl,
      fun reference hreaches => ?_, fun _ _ => rfl⟩
    have hallows : policy.itemLists = true :=
      (allows_of_reaches h hnode hexpandable hreaches).elim id And.left
    cases hallows.symm.trans hforbidden
  · refine indistinct rfl fun node hnode hexpandable => ⟨rfl, fun _ _ => rfl, fun _ _ => rfl,
      fun reference hasks => ?_⟩
    have hallows : policy.metadata = true := allows_of_asks h hnode hexpandable hasks
    cases hallows.symm.trans hforbidden

/-- A bare reference compared with a letter. -/
def compared (kind : ReferenceKind) (reference : String) : Condition :=
  let length := reference.length
  let left : LeafNode := ⟨⟨0, ⟨0, length⟩, false⟩, .reference kind reference⟩
  let right : LeafNode := ⟨⟨1, ⟨length + 2, length + 5⟩, false⟩, .string "x" false⟩
  { text := reference ++ "=='x'"
    root := .comparison ⟨2, ⟨0, length + 5⟩, false⟩ .equal (.leaf left) (.leaf right)
    nodeCount := 3 }

/-- A project with one item and no properties. -/
def oneItem : Project := Project.empty.addItem "S" (.ofIdentity "i")

theorem indistinct_of_forbidden_compared :
    let listed := compared .itemList "@(S->'%(F)')"
    let current := compared .metadata "%(Filename)"
    parse listed.text ⟨false, true, false⟩ = .ok listed ∧
      parse current.text ⟨true, false, true⟩ = .ok current ∧
      listed.Indistinct oneItem (oneItem.setProperty "A" "x") ∧
      current.Indistinct oneItem (oneItem.addItem "S" (.ofIdentity "x")) ∧
      listed.Indistinct oneItem { oneItem with current := some ("S", .ofIdentity "x") } := by
  intro listed current
  have hlisted : parse listed.text ⟨false, true, false⟩ = .ok listed := by decide +kernel
  have hcurrent : parse current.text ⟨true, false, true⟩ = .ok current := by decide +kernel
  have hbare : ∀ node ∈ listed.root.leaves, ∀ list, node.leaf = .reference .itemList list →
      ∀ expression, ¬ Reaches list.toList (.property expression) := by
    intro node hnode list hleaf expression hreaches
    have hopens : Policy.opens .property "@(S->'%(F)')".toList = false := by decide
    rcases List.mem_cons.1 hnode with rfl | hnode
    · cases hleaf
      exact Bool.false_ne_true (hopens.symm.trans hreaches.opens)
    · cases List.mem_singleton.1 hnode
      cases hleaf
  obtain ⟨hproperties, -, hmetadata⟩ := indistinct_of_forbidden hlisted oneItem
  obtain ⟨-, hitems, -⟩ := indistinct_of_forbidden hcurrent oneItem
  exact ⟨hlisted, hcurrent,
    hproperties rfl _ fun node hnode list hleaf expression hreaches =>
      absurd hreaches (hbare node hnode list hleaf expression),
    hitems rfl _, hmetadata rfl _⟩

/-- A property is read where properties are forbidden. -/
theorem exists_not_indistinct : ∃ condition,
    parse "@(S->'$(A)')=='x'" ⟨false, true, true⟩ = .ok condition ∧
      ¬ condition.Indistinct oneItem (oneItem.setProperty "A" "x") := by
  refine ⟨compared .itemList "@(S->'$(A)')", by decide +kernel, fun h => ?_⟩
  have houtcome := congrArg (·.outcome.toOption) (h (fun _ => false) "" .unknown).1
  revert houtcome
  decide +kernel

end Condition

/-! ## Names that are not mentioned -/

namespace Project

/-- A project in which one name stands for something else: a property was set, or an item added. -/
inductive Changes (project : Project) (name : String) : Project → Prop where
  | property (value : String) : Changes project name (project.setProperty name value)
  | item (item : Item) : Changes project name (project.addItem name item)

variable {project project' : Project} {name : String}

theorem Changes.baseDirectory_eq (h : project.Changes name project') :
    project.baseDirectory = project'.baseDirectory := by
  cases h <;> rfl

/-- The change of a name that a text does not reach makes no difference to its expansion. -/
theorem Changes.agreesOn (h : project.Changes name project') {text : List Char}
    (hname : ∀ query asked, Reaches text query → query.name? = some asked →
      Text.sameIgnoringAscii name asked = false) : project.AgreesOn project' text := by
  cases h with
  | property value =>
    refine ⟨rfl, fun expression hreaches => ?_, fun _ _ => rfl, fun _ _ => rfl⟩
    rw [property?_setProperty, hname _ expression hreaches rfl]
    rfl
  | item item =>
    refine ⟨rfl, fun _ _ => rfl, fun reference hreaches => ?_, fun _ _ => rfl⟩
    rw [itemsOf_addItem, hname _ reference.name hreaches rfl]
    rfl

end Project

namespace Condition

variable {text name : String} {policy : Policy} {condition : Condition} {node : LeafNode}
  {query : Query} {asked : String}

/-- Whatever the leaves of a condition reach, its name is mentioned in the condition. -/
theorem not_same_of_reaches (hname : ¬ Text.asciiKey name <:+: Text.asciiKey text)
    (h : parse text policy = .ok condition) (hnode : node ∈ condition.root.leaves)
    (hreaches : Reaches node.leaf.text.toList query) (hasked : query.name? = some asked) :
    Text.sameIgnoringAscii name asked = false := by
  rw [Bool.eq_false_iff]
  intro hsame
  have hmentioned := (hreaches.name_isInfix hasked).trans (leaf_isInfix h hnode)
  rw [Text.sameIgnoringAscii_iff] at hsame
  exact hname (hsame ▸ hmentioned.map Char.toLower)

/-- A name that the text of a condition does not mention has no influence on it, whatever values the
references in the text are replaced by: the evaluation has the same outcome through the same
questions with the same records, and none of the questions is about the name. -/
theorem evaluate_eq_of_not_mentioned (hname : ¬ Text.asciiKey name <:+: Text.asciiKey text)
    {project project' : Project} (hchanges : project.Changes name project') (policy : Policy)
    (onDisk : String → Bool) (stated : String) (location : Location) :
    let env := project.environment onDisk stated location
    let env' := project'.environment onDisk stated location
    evaluateCondition text policy env = evaluateCondition text policy env' ∧
      ∀ condition, parse text policy = .ok condition →
        condition.Indistinct project project' ∧
        ∀ evaluator : Evaluator, ∀ query,
          .query query ∈ Event.questions (evaluator.evaluate condition env').1.events →
            (∃ written, written <:+: text.toList ∧ Asks written query) ∧
            ∀ asked, query.name? = some asked → Text.sameIgnoringAscii name asked = false := by
  intro env env'
  have hagreesOn : ∀ condition, parse text policy = .ok condition →
      ∀ node ∈ condition.root.leaves, node.leaf.expandable = true →
        project.AgreesOn project' node.leaf.text.toList := fun condition h node hnode _ =>
    hchanges.agreesOn fun query asked => not_same_of_reaches hname h hnode
  have hbase := hchanges.baseDirectory_eq
  refine ⟨evaluateCondition_congr fun condition h => ?_, fun condition h => ⟨?_, ?_⟩⟩
  · exact agrees_environment hbase (hagreesOn condition h) onDisk stated location
  · exact indistinct hbase (hagreesOn condition h)
  · intro evaluator query hquery
    obtain ⟨node, hnode, hasks⟩ := evaluator.exists_asks_of_mem_questions h env' hquery
    exact ⟨⟨_, leaf_isInfix h hnode, hasks⟩,
      fun asked => not_same_of_reaches hname h hnode (.asked hasks)⟩

/-- A property whose value looks like a reference, as it stands and when it is unescaped. -/
def lookalike : Project := Project.empty.setProperty "A" "$(B)%24(B)"

theorem evaluate_eq_of_not_mentioned_lookalike :
    let env := lookalike.environment (fun _ => false) "" .unknown
    let env' := (lookalike.setProperty "B" "x").environment (fun _ => false) "" .unknown
    ¬ Text.asciiKey "B" <:+: Text.asciiKey "'$(A)'=='$'" ∧
      lookalike.Changes "B" (lookalike.setProperty "B" "x") ∧
      evaluateCondition "'$(A)'=='$'" .everything env =
        evaluateCondition "'$(A)'=='$'" .everything env' ∧
      Event.questions (evaluateCondition "'$(A)'=='$'" .everything env').events =
        [.query (.property "A")] := by
  intro env env'
  have hname : ¬ Text.asciiKey "B" <:+: Text.asciiKey "'$(A)'=='$'" := by decide +kernel
  have hchanges : lookalike.Changes "B" (lookalike.setProperty "B" "x") := .property "x"
  obtain ⟨hsame, -⟩ := evaluate_eq_of_not_mentioned hname hchanges .everything (fun _ => false)
    "" .unknown
  exact ⟨hname, hchanges, hsame, by decide +kernel⟩

end Condition

end CondLang
