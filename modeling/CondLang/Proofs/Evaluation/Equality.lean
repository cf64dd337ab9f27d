import CondLang.Proofs.Evaluation.Transparent
import CondLang.Proofs.Value.Key
import Mathlib.Control.Monad.Basic

/-!
# Equality of leaves

Comparing two leaves by `==` never fails if they can be expanded, and is true just if the keys of
their texts are the same.  So it is an equivalence of leaves, and `!=` is its negation
(`Leaf.equality`).  For any operands `!=` takes the same steps as `==` and ends with the opposite
answer or with the same error.
-/

namespace CondLang

variable {s : Setting}

/-! ## What a leaf is read as -/

namespace Leaf

variable {leaf : Leaf} {text : String}

/-- A leaf that counts as empty is expanded to the empty text; a number is not looked at. -/
theorem exists_isEmptyIn (h : leaf.expandedIn s = .ok text) :
    ∃ empty, leaf.isEmptyIn s = .ok empty ∧ (empty = true → text = "") := by
  have hexpanded : ∀ {empty : Bool}, text.isEmpty = empty → empty = true → text = "" := by
    rintro empty rfl hempty
    exact String.isEmpty_iff.1 hempty
  rcases leaf with ⟨content, expandable⟩ | content | ⟨kind, content⟩
  · exact ⟨text.isEmpty, congrArg (·.map String.isEmpty) h, hexpanded rfl⟩
  · exact ⟨false, rfl, nofun⟩
  · exact ⟨text.isEmpty, congrArg (·.map String.isEmpty) h, hexpanded rfl⟩

theorem readIn_of_expandedIn {α : Type} {read : String → Option α} (hread : read "" = none)
    (h : leaf.expandedIn s = .ok text) : leaf.readIn s read = .ok (read text) := by
  obtain ⟨empty, hempty, htext⟩ := exists_isEmptyIn h
  rw [readIn, hempty, h]
  cases empty with
  | false => rfl
  | true =>
    rw [htext rfl, hread]
    rfl

theorem numberIn_of_expandedIn (h : leaf.expandedIn s = .ok text) :
    leaf.numberIn s = .ok (Decimal.parse? text) := readIn_of_expandedIn rfl h

theorem versionIn_of_expandedIn (h : leaf.expandedIn s = .ok text) :
    leaf.versionIn s = .ok (Version.parse? text) := readIn_of_expandedIn rfl h

end Leaf

/-! ## Comparing by keys -/

theorem Relation.test_of_isEquality {op : Relation} (h : op.isEquality = true) (order : Ordering) :
    op.test order = op.testEqual (order == .eq) := by
  cases op <;> cases order <;> first | rfl | cases h

namespace Expr

section

variable {op : Relation} {left right : LeafNode} {a b : String}

theorem compareTextsIn_eq (hop : op.isEquality = true) (ha : left.leaf.expandedIn s = .ok a)
    (hb : right.leaf.expandedIn s = .ok b) :
    compareTextsIn s op (.leaf left) (.leaf right) =
      .ok (op.testEqual (Text.sameIgnoringCase a b)) := by
  have hordering : ¬ op.isOrdering = true := by simp [Relation.isOrdering, hop]
  unfold compareTextsIn
  rw [expandedIn, ha, expandedIn, hb]
  exact if_neg hordering

/-- Leaves that are not both numbers are compared by the keys of their texts. -/
theorem compareVersionsIn_eq (hop : op.isEquality = true) (ha : left.leaf.expandedIn s = .ok a)
    (hb : right.leaf.expandedIn s = .ok b)
    (hnumbers : ∀ x y, Decimal.parse? a = some x → Decimal.parse? b = some y → False) :
    compareVersionsIn s op (.leaf left) (.leaf right) =
      .ok (op.testEqual (decide (Value.key a = Value.key b))) := by
  unfold compareVersionsIn
  rw [versionIn?, Leaf.versionIn_of_expandedIn ha, versionIn?, Leaf.versionIn_of_expandedIn hb]
  simp only [Bind.bind, Except.bind]
  split
  · next v w hv hw =>
    refine congrArg Except.ok ?_
    rw [Relation.test_of_isEquality hop, beq_eq_decide,
      decide_eq_decide.2 (Value.key_eq_iff_of_versions hnumbers hv hw)]
  · next hversions =>
    simp only [compareTextsIn_eq hop ha hb, Value.key_eq_iff_of_texts hnumbers hversions,
      Bool.decide_eq_true]

/-- Leaves are compared by the keys of their texts. -/
theorem compareLeavesIn_eq (hop : op.isEquality = true) (ha : left.leaf.expandedIn s = .ok a)
    (hb : right.leaf.expandedIn s = .ok b) :
    compareLeavesIn s op (.leaf left) (.leaf right) =
      .ok (op.testEqual (decide (Value.key a = Value.key b))) := by
  unfold compareLeavesIn
  rw [numberIn?, Leaf.numberIn_of_expandedIn ha, numberIn?, Leaf.numberIn_of_expandedIn hb]
  simp only [Bind.bind, Except.bind]
  split
  · next x y hx hy =>
    refine congrArg Except.ok ?_
    rw [Relation.test_of_isEquality hop, beq_eq_decide,
      decide_eq_decide.2 (Value.key_eq_iff_of_numbers hx hy)]
  · next hnumbers => exact compareVersionsIn_eq hop ha hb hnumbers

end

/-- An evaluation that knows nothing answers as one without a memory, if no two nodes have the same
number. -/
theorem outcome_evaluate {e : Expr} (hids : e.ids.Nodup) (s : Setting) :
    (e.evaluate s .empty).outcome = e.evaluateIn s := by
  have hfits : e.Fits e.labels True := fun node hnode => .inl (labels_eq_of_mem hids hnode)
  obtain ⟨-, houtcome⟩ := hfits.evaluate s.recording .empty .empty
  exact houtcome trivial

end Expr

/-- Two leaves compared, with the marks of the three nodes. -/
def Leaf.compared (a : Leaf) (op : Relation) (b : Leaf) (mark left right : Mark) : Expr :=
  .comparison mark op (.leaf ⟨left, a⟩) (.leaf ⟨right, b⟩)

theorem Leaf.ids_compared (a : Leaf) (op : Relation) (b : Leaf) (mark left right : Mark) :
    (a.compared op b mark left right).ids = [left.id, right.id, mark.id] := rfl

/-- Two leaves compared by `==`, in nodes that have numbers of their own and stand nowhere. -/
def Leaf.equated (a b : Leaf) : Expr :=
  a.compared .equal b ⟨2, ⟨0, 0⟩, false⟩ ⟨0, ⟨0, 0⟩, false⟩ ⟨1, ⟨0, 0⟩, false⟩

theorem Leaf.nodup_ids_equated (a b : Leaf) : (a.equated b).ids.Nodup := by
  rw [equated, ids_compared]
  decide

theorem Leaf.outcome_compared {op : Relation} (hop : op.isEquality = true) {a b : Leaf}
    {text text' : String} (ha : a.expandedIn s = .ok text) (hb : b.expandedIn s = .ok text')
    {mark left right : Mark} (hids : (a.compared op b mark left right).ids.Nodup) :
    ((a.compared op b mark left right).evaluate s .empty).outcome =
      .ok (op.testEqual (decide (Value.key text = Value.key text'))) := by
  rw [Expr.outcome_evaluate hids]
  exact Expr.compareLeavesIn_eq hop ha hb

/-! ## Negation -/

/-- A run gives the opposite answer of another one, or the same error, through the same questions
and with the same knowledge afterwards. -/
structure Run.Negates (run other : Run Bool) : Prop where
  outcome : run.outcome = other.outcome.map (!·)
  questions : Event.questions run.events = Event.questions other.events
  memo : run.memo = other.memo

namespace EvalM

/-- A step negates another one, from wherever both start. -/
def Negates (step other : EvalM Bool) : Prop := ∀ s memo, (step s memo).Negates (other s memo)

namespace Negates

variable {α : Type}

theorem fail (kind : EvalErrorKind) : Negates (fail kind) (EvalM.fail kind) :=
  fun _ _ => ⟨rfl, rfl, rfl⟩

theorem noted (n n' : Note) (value : Bool) :
    Negates (note n >>= fun _ => pure (!value)) (note n' >>= fun _ => pure value) :=
  fun _ _ => ⟨rfl, rfl, rfl⟩

/-- What comes first is the same. -/
theorem bind (step : EvalM α) {next other : α → EvalM Bool} (h : ∀ a, Negates (next a) (other a)) :
    Negates (step >>= next) (step >>= other) := by
  intro s memo
  cases hrun : step s memo with
  | mk outcome after events =>
    cases outcome with
    | error e =>
      rw [bind_of_error hrun, bind_of_error hrun]
      exact ⟨rfl, rfl, rfl⟩
    | ok a =>
      rw [bind_of_ok hrun, bind_of_ok hrun]
      obtain ⟨houtcome, hquestions, hmemo⟩ := h a s after
      refine ⟨houtcome, ?_, hmemo⟩
      rw [Event.questions_append, Event.questions_append, hquestions]

end Negates

end EvalM

namespace Expr

variable (left right : Expr)

theorem compareTexts_negates :
    EvalM.Negates (compareTexts .notEqual left right) (compareTexts .equal left right) :=
  .bind _ fun _ => .bind _ fun _ => .noted _ _ _

theorem compareVersions_negates :
    EvalM.Negates (compareVersions .notEqual left right) (compareVersions .equal left right) := by
  refine .bind _ fun l => .bind _ fun r => ?_
  cases l with
  | none => exact compareTexts_negates left right
  | some l =>
    cases r with
    | none => exact compareTexts_negates left right
    | some r => exact .noted _ _ _

theorem compareLeaves_negates :
    EvalM.Negates (compareLeaves .notEqual left right) (compareLeaves .equal left right) := by
  refine .bind _ fun l => .bind _ fun r => ?_
  cases l with
  | none => exact compareVersions_negates left right
  | some l =>
    cases r with
    | none => exact compareVersions_negates left right
    | some r => exact .noted _ _ _

/-- `!=` negates `==`, whatever the operands are. -/
theorem boolean_negates (mark : Mark) :
    EvalM.Negates (comparison mark .notEqual left right).boolean
      (comparison mark .equal left right).boolean := by
  refine .bind (recordCompared left right) fun _ => ?_
  by_cases hleaves : (left.isLeaf && right.isLeaf) = true
  · simp only [if_pos hleaves]
    exact compareLeaves_negates left right
  · simp only [if_neg hleaves]
    exact .bind _ fun _ => .bind _ fun _ => .bind _ fun _ => .bind _ fun _ => .noted _ _ _

theorem evaluate_negates (mark : Mark) :
    EvalM.Negates (comparison mark .notEqual left right).evaluate
      (comparison mark .equal left right).evaluate :=
  .bind (Pure.pure true) fun able => by
    cases able with
    | true => exact boolean_negates left right mark
    | false => exact .bind _ fun _ => .fail _

end Expr

/-! ## Equality -/

namespace Leaf

/-- Comparing two leaves by `==` is true, whatever the marks of the nodes. -/
def Same (s : Setting) (a b : Leaf) : Prop :=
  ∀ mark left right : Mark, (a.compared .equal b mark left right).ids.Nodup →
    ((a.compared .equal b mark left right).evaluate s .empty).outcome = .ok true

/-- Two leaves are the same if the keys of their texts are. -/
theorem same_iff_key_eq {a b : Leaf} {text text' : String} (ha : a.expandedIn s = .ok text)
    (hb : b.expandedIn s = .ok text') : Same s a b ↔ Value.key text = Value.key text' := by
  constructor
  · intro h
    have hids := nodup_ids_equated a b
    have hanswer := (outcome_compared rfl ha hb hids).symm.trans (h _ _ _ hids)
    exact of_decide_eq_true (Except.ok.inj hanswer)
  · intro h mark left right hids
    rw [outcome_compared rfl ha hb hids, decide_eq_true h]
    rfl

/-- Comparing leaves that can be expanded by `==` never fails, and is decided by the keys of their
texts.  So it is an equivalence, and `!=` negates it, as it does for operands of any kind. -/
theorem equality (s : Setting) :
    (∀ (a b : Leaf) (text text' : String), a.expandedIn s = .ok text → b.expandedIn s = .ok text' →
      ∀ mark left right : Mark, (a.compared .equal b mark left right).ids.Nodup →
        ((a.compared .equal b mark left right).evaluate s .empty).outcome =
          .ok (decide (Value.key text = Value.key text'))) ∧
    Equivalence (fun a b : { leaf : Leaf // ∃ text, leaf.expandedIn s = .ok text } =>
      Same s a b) ∧
    ∀ (mark : Mark) (left right : Expr),
      EvalM.Negates (Expr.comparison mark .notEqual left right).evaluate
        (Expr.comparison mark .equal left right).evaluate ∧
      EvalM.Negates (Expr.comparison mark .notEqual left right).boolean
        (Expr.comparison mark .equal left right).boolean := by
  refine ⟨fun a b text text' ha hb mark left right hids => outcome_compared rfl ha hb hids,
    ⟨?_, ?_, ?_⟩, fun mark left right => ⟨Expr.evaluate_negates left right mark,
      Expr.boolean_negates left right mark⟩⟩
  · rintro ⟨a, text, ha⟩
    exact (same_iff_key_eq ha ha).2 rfl
  · rintro ⟨a, text, ha⟩ ⟨b, text', hb⟩ hab
    exact (same_iff_key_eq hb ha).2 ((same_iff_key_eq ha hb).1 hab).symm
  · rintro ⟨a, text, ha⟩ ⟨b, text', hb⟩ ⟨c, text'', hc⟩ hab hbc
    have hkeys := ((same_iff_key_eq ha hb).1 hab).trans ((same_iff_key_eq hb hc).1 hbc)
    exact (same_iff_key_eq ha hc).2 hkeys

/-- A property that is a number and a version is equal to a number with fewer decimals, and differs
from a version with a third component; a letter in capitals is equal to one beyond ASCII. -/
theorem equality_mixed :
    let env := Environment.constant "1.10"
    let s : Setting := ⟨env, "", true⟩
    let property := Leaf.string "$(A)" true
    ((property.equated (.number "+1.1")).evaluate s .empty).outcome = .ok true ∧
    ((property.equated (.string "1.10.0" false)).evaluate s .empty).outcome = .ok false ∧
    (((string "0xS" false).equated (.string "0Xſ" false)).evaluate s .empty).outcome =
      .ok true := by
  intro env s property
  obtain ⟨hanswers, -, -⟩ := equality s
  have hproperty : property.expandedIn s = .ok "1.10" := by decide +kernel
  refine ⟨?_, ?_, ?_⟩
  · refine (hanswers _ _ "1.10" "+1.1" hproperty rfl _ _ _ (nodup_ids_equated _ _)).trans ?_
    decide +kernel
  · refine (hanswers _ _ "1.10" "1.10.0" hproperty rfl _ _ _ (nodup_ids_equated _ _)).trans ?_
    decide +kernel
  · refine (hanswers _ _ "0xS" "0Xſ" rfl rfl _ _ _ (nodup_ids_equated _ _)).trans ?_
    decide +kernel

end Leaf

end CondLang
