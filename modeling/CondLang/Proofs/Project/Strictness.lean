import CondLang.Project.Answers
import CondLang.Proofs.Evaluation.Alike
import Mathlib.Control.Monad.Basic

/-!
# Strict and lenient projects

A strict project refuses names that are not defined, where a lenient one takes them for empty text.
That is all there is to it: evaluated against a strict project, a condition has the outcome that it
has against the lenient one, or it fails with a name that is not defined
(`Condition.evaluate_eq_lenient_or_refused`).

The lenient project answers on where the strict one stops, so the two are compared from answer to
answer: an answer of the strict project is that of the lenient one unless it is a refusal, and so is
whatever is put together from answers in sequence.
-/

namespace CondLang

/-! ## Outcomes that are the same unless the first one is excused -/

/-- An outcome is another one, or an error that is excused. -/
def EqUnless {ε α : Type} (excused : ε → Prop) (outcome other : Except ε α) : Prop :=
  outcome = other ∨ ∃ e, outcome = .error e ∧ excused e

namespace EqUnless

variable {ε α β : Type} {excused : ε → Prop}

theorem refl (outcome : Except ε α) : EqUnless excused outcome outcome := .inl rfl

theorem bind {outcome other : Except ε α} {next next' : α → Except ε β}
    (h : EqUnless excused outcome other) (hnext : ∀ a, EqUnless excused (next a) (next' a)) :
    EqUnless excused (outcome >>= next) (other >>= next') := by
  rcases h with rfl | ⟨e, rfl, he⟩
  · cases outcome with
    | error e => exact refl _
    | ok a => exact hnext a
  · exact .inr ⟨e, rfl, he⟩

theorem map {outcome other : Except ε α} (h : EqUnless excused outcome other) (f : α → β) :
    EqUnless excused (outcome.map f) (other.map f) := by
  rcases h with rfl | ⟨e, rfl, he⟩
  · exact refl _
  · exact .inr ⟨e, rfl, he⟩

theorem mapM {f g : α → Except ε β} (h : ∀ a, EqUnless excused (f a) (g a)) (list : List α) :
    EqUnless excused (list.mapM f) (list.mapM g) := by
  induction list with
  | nil => exact refl _
  | cons a list ih =>
    rw [List.mapM_cons, List.mapM_cons]
    exact (h a).bind fun b => ih.bind fun _ => refl _

theorem foldlM {f g : β → α → Except ε β} (h : ∀ b a, EqUnless excused (f b a) (g b a))
    (list : List α) (b : β) : EqUnless excused (list.foldlM f b) (list.foldlM g b) := by
  induction list generalizing b with
  | nil => exact refl _
  | cons a list ih =>
    rw [List.foldlM_cons, List.foldlM_cons]
    exact (h b a).bind ih

end EqUnless

/-! ## Expansions -/

namespace Expansion

variable {excused : ExpansionError → Prop} {env env' : Environment}

theorem EqUnless.prepend {expansion other : Expansion} (h : expansion.EqUnless excused other)
    (text : List Char) : (expansion.prepend text).EqUnless excused (other.prepend text) := by
  rcases h with rfl | ⟨cause, houtcome, hcause⟩
  · exact .inl rfl
  · refine .inr ⟨cause, ?_, hcause⟩
    rw [Expansion.prepend, houtcome]
    rfl

/-- If the answers are the same but for errors that are excused, so are the expansions. -/
theorem assemble_eqUnless
    (h : ∀ query, CondLang.EqUnless excused (env.answer query) (env'.answer query))
    (pieces : List Piece) : (assemble env pieces).EqUnless excused (assemble env' pieces) := by
  induction pieces with
  | nil => exact .inl rfl
  | cons piece rest ih =>
    cases piece with
    | literal c => exact ih.prepend [c]
    | reference kind inner =>
      cases hparse : Query.parse kind inner with
      | error e =>
        simp only [assemble, hparse]
        exact .inl rfl
      | ok query =>
        simp only [assemble, hparse]
        rcases h query with hsame | ⟨cause, hrefused, hcause⟩
        · rw [hsame]
          cases env'.answer query with
          | error e => exact .inl rfl
          | ok text =>
            rcases ih.prepend text.toList with hrest | ⟨cause, hrest, hcause⟩
            · left
              simp only [hrest]
            · exact .inr ⟨cause, hrest, hcause⟩
        · rw [hrefused]
          exact .inr ⟨cause, rfl, hcause⟩

theorem EqUnless.text {expansion other : Expansion} (h : expansion.EqUnless excused other) :
    CondLang.EqUnless excused expansion.text other.text := by
  rcases h with rfl | ⟨cause, houtcome, hcause⟩
  · exact .refl _
  · refine .inr ⟨cause, ?_, hcause⟩
    rw [Expansion.text, houtcome]
    rfl

end Expansion

/-! ## Refusals -/

/-- The errors with which a project refuses what is not defined. -/
inductive Strictness.Refuses (strictness : Strictness) : ExpansionError → Prop where
  | property (h : strictness.properties = true) (name : String) :
      Refuses strictness (.undefinedProperty name)
  | metadata (h : strictness.metadata = true) (shown : String) :
      Refuses strictness (.undefinedMetadata shown)

namespace Project

/-- The project with nothing refused. -/
def lenient (project : Project) : Project := { project with strictness := .lenient }

variable {project : Project}

theorem answerProperty_lenient (expression : String) :
    EqUnless project.strictness.Refuses (project.answerProperty expression)
      (project.lenient.answerProperty expression) := by
  have hsame : project.lenient.property? expression = project.property? expression := rfl
  unfold answerProperty
  rw [hsame]
  split
  · cases project.property? expression with
    | some value => exact .refl _
    | none =>
      show EqUnless _ (if project.strictness.properties then _ else _) _
      split
      · next hstrict => exact .inr ⟨_, rfl, .property hstrict expression⟩
      · exact .refl _
  · exact .refl _

theorem answerMetadata_lenient (scope : Option (String × Item)) (reference : MetadataReference) :
    EqUnless project.strictness.Refuses (project.answerMetadata scope reference)
      (project.lenient.answerMetadata scope reference) := by
  unfold answerMetadata
  cases metadataOf? scope reference with
  | some value => exact .refl _
  | none =>
    show EqUnless _ (if project.strictness.metadata then _ else _) _
    split
    · next hstrict => exact .inr ⟨_, rfl, .metadata hstrict reference.shown⟩
    · exact .refl _

/-- A transform of a strict project, given the lists that are referred to within it. -/
theorem applyTransform_lenient
    {lists lists' : ItemListReference → Except ExpansionError (List String)}
    (hlists : ∀ reference, EqUnless project.strictness.Refuses (lists reference) (lists' reference))
    (itemType : String) (entries : List ListEntry) (transform : ItemTransform) :
    EqUnless project.strictness.Refuses (project.applyTransform lists itemType entries transform)
      (project.lenient.applyTransform lists' itemType entries transform) := by
  cases transform with
  | function name arguments => exact .refl _
  | expression text =>
    refine .mapM (fun entry => ?_) entries
    have hanswer : ∀ query, EqUnless project.strictness.Refuses
        ((project.transformEnvironment lists itemType entry.item).answer query)
        ((project.lenient.transformEnvironment lists' itemType entry.item).answer query) := by
      intro query
      cases query with
      | property expression => exact answerProperty_lenient expression
      | itemList reference => exact (hlists reference).map _
      | metadata reference => exact answerMetadata_lenient _ reference
    have hexpanded := Expansion.assemble_eqUnless hanswer (Expansion.pieces text.toList)
    exact hexpanded.text.bind fun _ => .refl _

theorem listWithin_lenient (depth : Nat) (reference : ItemListReference) :
    EqUnless project.strictness.Refuses (project.listWithin depth reference)
      (project.lenient.listWithin depth reference) := by
  induction depth generalizing reference with
  | zero => exact .refl _
  | succ depth ih =>
    refine EqUnless.bind (.foldlM (fun entries transform => ?_) _ _) fun _ => .refl _
    exact applyTransform_lenient ih reference.name entries transform

/-- Each answer of a project is that of the lenient one, or a refusal. -/
theorem answer_environment_lenient (onDisk : String → Bool) (stated : String) (location : Location)
    (query : Query) :
    EqUnless project.strictness.Refuses
      ((project.environment onDisk stated location).answer query)
      ((project.lenient.environment onDisk stated location).answer query) := by
  cases query with
  | property expression => exact answerProperty_lenient expression
  | itemList reference => exact (listWithin_lenient maxListDepth reference).map _
  | metadata reference => exact answerMetadata_lenient project.current reference

theorem agreesUnless_lenient (project : Project) (onDisk : String → Bool) (stated : String)
    (location : Location) (e : Expr) :
    (project.environment onDisk stated location).AgreesUnless project.strictness.Refuses
      (project.lenient.environment onDisk stated location) e where
  location := rfl
  pathExists := rfl
  expansion _ _ _ :=
    Expansion.assemble_eqUnless (answer_environment_lenient onDisk stated location) _

end Project

/-! ## Whole conditions -/

/-- An evaluation failed with a name that is refused. -/
def Evaluated.Refused (strictness : Strictness) (condition : String) (location : Location)
    (evaluated : Evaluated) : Prop :=
  ∃ text cause,
    evaluated.outcome = .error (.failure (.expansion text cause) condition location) ∧
      strictness.Refuses cause

namespace Condition

/-- Against a strict project a condition evaluates as against the lenient one, to the same outcome
through the same questions, unless it fails with a name that is refused.  So a truth value that a
strict project gives is that of the lenient one. -/
theorem evaluate_eq_lenient_or_refused (condition : Condition) (project : Project)
    (onDisk : String → Bool) (stated : String) (location : Location) :
    let env := project.environment onDisk stated location
    let env' := project.lenient.environment onDisk stated location
    (condition.evaluate env = condition.evaluate env' ∨
      (condition.evaluate env).Refused project.strictness condition.text location) ∧
    (∀ evaluator : Evaluator,
      (evaluator.evaluate condition env).1 = (evaluator.evaluate condition env').1 ∨
        (evaluator.evaluate condition env).1.Refused project.strictness condition.text location) ∧
    ∀ value, (condition.evaluate env).outcome = .ok value →
      (condition.evaluate env').outcome = .ok value := by
  intro env env'
  have hruns : ∀ recording,
      condition.root.evaluate ⟨env, condition.text, recording⟩ .empty =
          condition.root.evaluate ⟨env', condition.text, recording⟩ .empty ∨
        (condition.root.evaluate ⟨env, condition.text, recording⟩ .empty).Excused
          project.strictness.Refuses condition.text location := fun recording =>
    Expr.evaluate_eq_or_error (project.agreesUnless_lenient onDisk stated location _)
      condition.text recording .empty
  have hfresh : condition.evaluate env = condition.evaluate env' ∨
      (condition.evaluate env).Refused project.strictness condition.text location := by
    refine (hruns false).imp_left fun hsame => ?_
    show Evaluated.mk (condition.root.evaluate ⟨env, condition.text, false⟩ .empty).outcome
      (condition.root.evaluate ⟨env, condition.text, false⟩ .empty).events = _
    rw [hsame]
    rfl
  refine ⟨hfresh, fun evaluator => ?_, fun value hvalue => ?_⟩
  · rw [evaluator.evaluate_fst, evaluator.evaluate_fst]
    refine (hruns evaluator.conditioned.isSome).imp_left fun hsame => ?_
    simp only [hsame]
  · rcases hfresh with hsame | ⟨text, cause, hfailed, -⟩
    · rwa [← hsame]
    · cases hvalue.symm.trans hfailed

/-- Two comparisons of a property with a letter, of which one is enough. -/
def either (first second : String) : Condition :=
  let leaf (id start stop : Nat) (content : Leaf) : Expr :=
    .leaf ⟨⟨id, ⟨start, stop⟩, false⟩, content⟩
  let left := leaf 0 0 6 (.string ("$(" ++ first ++ ")") true)
  let right := leaf 3 13 19 (.string ("$(" ++ second ++ ")") true)
  { text := "'$(" ++ first ++ ")'=='x'or'$(" ++ second ++ ")'=='x'"
    root := .logical ⟨6, ⟨0, 24⟩, false⟩ .or
      (.comparison ⟨2, ⟨0, 11⟩, false⟩ .equal left (leaf 1 8 11 (.string "x" false)))
      (.comparison ⟨5, ⟨13, 24⟩, false⟩ .equal right (leaf 4 21 24 (.string "x" false)))
    nodeCount := 7 }

/-- A strict project with one property. -/
def onlyA : Project := { Project.empty.setProperty "A" "x" with strictness := .strict }

/-- A name that is not defined is refused where it is read, and not where a connective is decided
before. -/
theorem evaluate_eq_lenient_or_refused_either :
    let env := onlyA.environment (fun _ => false) "" .unknown
    let env' := onlyA.lenient.environment (fun _ => false) "" .unknown
    parse (either "A" "B").text .everything = .ok (either "A" "B") ∧
      parse (either "B" "A").text .everything = .ok (either "B" "A") ∧
      ((either "A" "B").evaluate env).outcome = .ok true ∧
      ((either "A" "B").evaluate env').outcome = .ok true ∧
      ((either "B" "A").evaluate env).Refused .strict (either "B" "A").text .unknown ∧
      ((either "B" "A").evaluate env').outcome = .ok true := by
  intro env env'
  have hdecided : ((either "A" "B").evaluate env).outcome = .ok true := by decide +kernel
  have hdiffers : ((either "B" "A").evaluate env).outcome ≠
      ((either "B" "A").evaluate env').outcome := by decide +kernel
  obtain ⟨-, -, hlenient⟩ :=
    evaluate_eq_lenient_or_refused (either "A" "B") onlyA (fun _ => false) "" .unknown
  obtain ⟨hrefused, -, -⟩ :=
    evaluate_eq_lenient_or_refused (either "B" "A") onlyA (fun _ => false) "" .unknown
  refine ⟨by decide +kernel, by decide +kernel, hdecided, hlenient true hdecided, ?_,
    by decide +kernel⟩
  exact hrefused.resolve_left fun hsame => hdiffers (congrArg Evaluated.outcome hsame)

end Condition

end CondLang
