import CondLang.Evaluation.Context

/-!
# Operands that are not looked at

When the left operand of a connective decides, nothing of the right one can show: not its value, not
its errors, and not the questions or records that its evaluation would leave.  `Surroundings` is a
condition around a place, and `Surroundings.Reaches` says with what memo an evaluation of the whole
comes to that place.  An evaluation looks at the tree in that place only when it gets there, so two
trees which run alike from there make no difference to the whole (`boolean_fill_congr`).
-/

namespace CondLang

/-! ## Steps that run alike -/

namespace EvalM

variable {α β : Type} {s : Setting} {memo : Memo}

theorem pure_bind (a : α) (next : α → EvalM β) : (pure a >>= next) = next a := rfl

theorem bind_congr_left {step step' : EvalM α} (next : α → EvalM β)
    (h : step s memo = step' s memo) : (step >>= next) s memo = (step' >>= next) s memo := by
  show EvalM.bind step next s memo = EvalM.bind step' next s memo
  rw [EvalM.bind, EvalM.bind, h]

theorem bind_congr_right {step : EvalM α} {next next' : α → EvalM β}
    (h : ∀ a after events, step s memo = ⟨.ok a, after, events⟩ →
      next a s after = next' a s after) :
    (step >>= next) s memo = (step >>= next') s memo := by
  cases hrun : step s memo with
  | mk outcome after events =>
    cases outcome with
    | error e => rw [bind_of_error hrun, bind_of_error hrun]
    | ok a => rw [bind_of_ok hrun, bind_of_ok hrun, h a after events hrun]

end EvalM

/-- The names and values among events. -/
def Event.records (events : List Event) : List (String × String) := events.filterMap Event.record?

theorem Event.records_append (front back : List Event) :
    records (front ++ back) = records front ++ records back := List.filterMap_append

namespace Expr

/-! ## A connective whose left operand decides -/

/-- The right operand is not looked at: the evaluation of the left one is all there is, but for a
note. -/
theorem boolean_logical_of_decisive {s : Setting} {memo : Memo} {op : Connective} {left : Expr}
    (h : (operand op .left left left.boolean s memo).outcome = .ok op.decisive) (mark : Mark)
    (right : Expr) :
    (logical mark op left right).boolean s memo =
      { operand op .left left left.boolean s memo with
        events := (operand op .left left left.boolean s memo).events ++
          [.noted (.shortCircuit op op.decisive)] } := by
  cases hrun : operand op .left left left.boolean s memo with
  | mk outcome after events =>
    rw [hrun] at h
    cases h
    rw [boolean, EvalM.bind_of_ok hrun, if_pos rfl]
    rfl

/-! ## Trees that are no leaves -/

/-- A tree that is no leaf and stands for none, so it has a truth value. -/
structure Compound (e : Expr) : Prop where
  isLeaf : e.isLeaf = false
  canBoolean : e.canBoolean = pure true

namespace Compound

variable {e : Expr}

theorem logical (mark : Mark) (op : Connective) (left right : Expr) :
    (logical mark op left right).Compound := ⟨rfl, rfl⟩

theorem operand (h : e.Compound) (op : Connective) (side : Side) (boolean : EvalM Bool) :
    operand op side e boolean = boolean := by
  rw [Expr.operand, h.canBoolean, EvalM.pure_bind]
  rfl

theorem requireBoolean (h : e.Compound) : e.requireBoolean = pure () := by
  rw [Expr.requireBoolean, h.canBoolean, EvalM.pure_bind]
  rfl

theorem evaluate (h : e.Compound) : e.evaluate = e.boolean := by
  rw [Expr.evaluate, h.canBoolean, EvalM.pure_bind]
  rfl

theorem culprit (h : e.Compound) : culprit e = pure .left := by
  have hleaf := h.isLeaf
  cases e with
  | leaf node => cases hleaf
  | _ => rfl

theorem refersToProperty (h : e.Compound) : e.refersToProperty = false := by
  have hleaf := h.isLeaf
  cases e with
  | leaf node => cases hleaf
  | _ => rfl

theorem isLiteral (h : e.Compound) : e.isLiteral = false := by
  have hleaf := h.isLeaf
  cases e with
  | leaf node => cases hleaf
  | _ => rfl

/-- Nothing is recorded of a comparison unless both operands are leaves. -/
theorem recordCompared_left (h : e.Compound) (other : Expr) :
    e.recordCompared other = pure () := by
  funext s memo
  rw [Expr.recordCompared, h.refersToProperty, h.isLiteral, Bool.false_and, Bool.and_false]
  show (if s.recording = true then pure () else pure () : EvalM Unit) s memo = _
  rw [ite_self]

theorem recordCompared_right (h : e.Compound) (other : Expr) :
    other.recordCompared e = pure () := by
  funext s memo
  rw [Expr.recordCompared, h.refersToProperty, h.isLiteral, Bool.false_and, Bool.and_false]
  show (if s.recording = true then pure () else pure () : EvalM Unit) s memo = _
  rw [ite_self]

end Compound

/-- The boolean comparison of two trees of which one is no leaf. -/
theorem boolean_comparison {mark : Mark} {op : Relation} {left right : Expr}
    (hrecord : left.recordCompared right = pure ())
    (hleaves : (left.isLeaf && right.isLeaf) = false) :
    (comparison mark op left right).boolean =
      if op.isOrdering then do
        let side ← culprit left
        let source := (← EvalM.setting).source
        EvalM.fail (.notComparable op side (left.unexpanded source) (right.unexpanded source))
      else do
        left.requireBoolean
        right.requireBoolean
        let l ← left.boolean
        let r ← right.boolean
        EvalM.note (.comparedBooleans l op r)
        return op.testEqual (l == r) := by
  rw [boolean, hrecord, hleaves, EvalM.pure_bind, ite_self]
  rfl

end Expr

/-! ## Places in a condition -/

/-- A condition around a place. -/
inductive Surroundings where
  | here
  | not (mark : Mark) (inner : Surroundings)
  | logicalLeft (mark : Mark) (op : Connective) (inner : Surroundings) (right : Expr)
  | logicalRight (mark : Mark) (op : Connective) (left : Expr) (inner : Surroundings)
  | comparisonLeft (mark : Mark) (op : Relation) (inner : Surroundings) (right : Expr)
  | comparisonRight (mark : Mark) (op : Relation) (left : Expr) (inner : Surroundings)

namespace Surroundings

/-- The condition with a tree in the place. -/
def fill (e : Expr) : Surroundings → Expr
  | here => e
  | not mark inner => .not mark (inner.fill e)
  | logicalLeft mark op inner right => .logical mark op (inner.fill e) right
  | logicalRight mark op left inner => .logical mark op left (inner.fill e)
  | comparisonLeft mark op inner right => .comparison mark op (inner.fill e) right
  | comparisonRight mark op left inner => .comparison mark op left (inner.fill e)

/-- With what memo an evaluation comes to the place.  A right operand of a connective is come to
only if the left one does not decide, and an operand of a comparison only if both may be compared as
truth values. -/
inductive Reaches (s : Setting) : Surroundings → Memo → Memo → Prop
  | here {memo : Memo} : Reaches s here memo memo
  | not {mark : Mark} {inner : Surroundings} {memo at_ : Memo} (h : Reaches s inner memo at_) :
      Reaches s (not mark inner) memo at_
  | logicalLeft {mark : Mark} {op : Connective} {inner : Surroundings} {right : Expr}
      {memo at_ : Memo} (h : Reaches s inner memo at_) :
      Reaches s (logicalLeft mark op inner right) memo at_
  | logicalRight {mark : Mark} {op : Connective} {left : Expr} {inner : Surroundings}
      {memo after at_ : Memo} {value : Bool} {events : List Event}
      (hleft : Expr.operand op .left left left.boolean s memo = ⟨.ok value, after, events⟩)
      (hvalue : value ≠ op.decisive) (h : Reaches s inner after at_) :
      Reaches s (logicalRight mark op left inner) memo at_
  | comparisonLeft {mark : Mark} {op : Relation} {inner : Surroundings} {right : Expr}
      {memo after at_ : Memo} {events : List Event} (hop : op.isOrdering = false)
      (hright : right.requireBoolean s memo = ⟨.ok (), after, events⟩)
      (h : Reaches s inner after at_) :
      Reaches s (comparisonLeft mark op inner right) memo at_
  | comparisonRight {mark : Mark} {op : Relation} {left : Expr} {inner : Surroundings}
      {memo after after' at_ : Memo} {value : Bool} {events events' : List Event}
      (hop : op.isOrdering = false)
      (hleft : left.requireBoolean s memo = ⟨.ok (), after, events⟩)
      (hvalue : left.boolean s after = ⟨.ok value, after', events'⟩)
      (h : Reaches s inner after' at_) :
      Reaches s (comparisonRight mark op left inner) memo at_

theorem compound_fill {e : Expr} (h : e.Compound) (place : Surroundings) :
    (place.fill e).Compound := by
  induction place with
  | here => exact h
  | not mark inner ih => exact ⟨rfl, ih.canBoolean⟩
  | logicalLeft | logicalRight | comparisonLeft | comparisonRight => exact ⟨rfl, rfl⟩

/-- Messages show of a condition what stands in its text, by the marks of its nodes. -/
theorem unexpanded_fill {e e' : Expr} {source : String}
    (h : e.unexpanded source = e'.unexpanded source) (place : Surroundings) :
    (place.fill e).unexpanded source = (place.fill e').unexpanded source := by
  induction place with
  | here => exact h
  | not mark inner ih =>
    show "!" ++ _ = "!" ++ _
    rw [ih]
  | logicalLeft | logicalRight | comparisonLeft | comparisonRight => rfl

/-- An evaluation of the whole looks at the tree in a place only when it comes there. -/
theorem boolean_fill_congr {s : Setting} {e e' : Expr} (he : e.Compound) (he' : e'.Compound)
    (hunexpanded : e.unexpanded s.source = e'.unexpanded s.source) (place : Surroundings) :
    ∀ memo : Memo, (∀ at_, place.Reaches s memo at_ → e.boolean s at_ = e'.boolean s at_) →
      (place.fill e).boolean s memo = (place.fill e').boolean s memo := by
  induction place with
  | here => exact fun memo h => h memo .here
  | not mark inner ih =>
    intro memo h
    exact EvalM.bind_congr_left _ (ih memo fun at_ hat => h at_ (.not hat))
  | logicalLeft mark op inner right ih =>
    intro memo h
    have hinner := ih memo fun at_ hat => h at_ (.logicalLeft hat)
    rw [fill, fill, Expr.boolean, Expr.boolean, (inner.compound_fill he).operand,
      (inner.compound_fill he').operand]
    exact EvalM.bind_congr_left _ hinner
  | logicalRight mark op left inner ih =>
    intro memo h
    rw [fill, fill, Expr.boolean, Expr.boolean, (inner.compound_fill he).operand,
      (inner.compound_fill he').operand]
    refine EvalM.bind_congr_right fun value after events hleft => ?_
    by_cases hvalue : value = op.decisive
    · rw [if_pos hvalue, if_pos hvalue]
    · rw [if_neg hvalue, if_neg hvalue]
      exact ih after fun at_ hat => h at_ (.logicalRight hleft hvalue hat)
  | comparisonLeft mark op inner right ih =>
    intro memo h
    have hfill := inner.compound_fill he
    have hfill' := inner.compound_fill he'
    have hleaf : ((inner.fill e).isLeaf && right.isLeaf) = false := by rw [hfill.isLeaf]; rfl
    have hleaf' : ((inner.fill e').isLeaf && right.isLeaf) = false := by rw [hfill'.isLeaf]; rfl
    rw [fill, fill, Expr.boolean_comparison (hfill.recordCompared_left right) hleaf,
      Expr.boolean_comparison (hfill'.recordCompared_left right) hleaf']
    by_cases hop : op.isOrdering = true
    · rw [if_pos hop, if_pos hop, hfill.culprit, hfill'.culprit, EvalM.pure_bind, EvalM.pure_bind]
      refine EvalM.bind_congr_right fun setting after events hsetting => ?_
      cases hsetting
      show EvalM.fail (.notComparable op .left ((inner.fill e).unexpanded s.source) _) s memo =
        EvalM.fail (.notComparable op .left ((inner.fill e').unexpanded s.source) _) s memo
      rw [inner.unexpanded_fill hunexpanded]
    · rw [if_neg hop, if_neg hop, hfill.requireBoolean, hfill'.requireBoolean, EvalM.pure_bind,
        EvalM.pure_bind]
      refine EvalM.bind_congr_right fun _ after events hright => ?_
      rw [Bool.not_eq_true] at hop
      exact EvalM.bind_congr_left _
        (ih after fun at_ hat => h at_ (.comparisonLeft hop hright hat))
  | comparisonRight mark op left inner ih =>
    intro memo h
    have hfill := inner.compound_fill he
    have hfill' := inner.compound_fill he'
    have hleaf : (left.isLeaf && (inner.fill e).isLeaf) = false := by
      rw [hfill.isLeaf, Bool.and_false]
    have hleaf' : (left.isLeaf && (inner.fill e').isLeaf) = false := by
      rw [hfill'.isLeaf, Bool.and_false]
    rw [fill, fill, Expr.boolean_comparison (hfill.recordCompared_right left) hleaf,
      Expr.boolean_comparison (hfill'.recordCompared_right left) hleaf']
    by_cases hop : op.isOrdering = true
    · rw [if_pos hop, if_pos hop]
      refine EvalM.bind_congr_right fun side after events _ => ?_
      refine EvalM.bind_congr_right fun setting after' events' hsetting => ?_
      cases hsetting
      show EvalM.fail (.notComparable op side _ ((inner.fill e).unexpanded s.source)) s after =
        EvalM.fail (.notComparable op side _ ((inner.fill e').unexpanded s.source)) s after
      rw [inner.unexpanded_fill hunexpanded]
    · rw [if_neg hop, if_neg hop, hfill.requireBoolean, hfill'.requireBoolean]
      rw [Bool.not_eq_true] at hop
      refine EvalM.bind_congr_right fun _ after events hleft => ?_
      rw [EvalM.pure_bind, EvalM.pure_bind]
      refine EvalM.bind_congr_right fun value after' events' hvalue => ?_
      exact EvalM.bind_congr_left _
        (ih after' fun at_ hat => h at_ (.comparisonRight hop hleft hvalue hat))

end Surroundings

/-- Where the left operand of a connective decides whenever an evaluation of a condition comes to
the connective, its right operand has no influence.  There the connective has the deciding value
whatever its right operand is, and the questions, the records and the memo are those of its left
operand as an operand alone.  The whole evaluation, its outcome, its events and the context after it
are the same for any two right operands. -/
theorem Expr.run_fill_of_decisive (env : Environment) (context : Context) (place : Surroundings)
    (mark : Mark) (op : Connective) (left right right' : Expr)
    (hleft : ∀ memo, place.Reaches (context.setting env) context.memo memo →
      (operand op .left left left.boolean (context.setting env) memo).outcome =
        .ok op.decisive) :
    (∀ memo, place.Reaches (context.setting env) context.memo memo → ∀ other : Expr,
      let run := (logical mark op left other).boolean (context.setting env) memo
      let alone := operand op .left left left.boolean (context.setting env) memo
      run.outcome = .ok op.decisive ∧
        Event.questions run.events = Event.questions alone.events ∧
        Event.records run.events = Event.records alone.events ∧ run.memo = alone.memo) ∧
    context.run env (place.fill (logical mark op left right)).evaluate =
      context.run env (place.fill (logical mark op left right')).evaluate := by
  refine ⟨fun memo hmemo other => ?_, ?_⟩
  · have hdecided := hleft memo hmemo
    show (boolean _ _ _).outcome = _ ∧ Event.questions (boolean _ _ _).events = _ ∧
      Event.records (boolean _ _ _).events = _ ∧ (boolean _ _ _).memo = _
    rw [boolean_logical_of_decisive hdecided, Event.questions, Event.records, List.filterMap_append,
      List.filterMap_append]
    exact ⟨hdecided, List.append_nil _, List.append_nil _, rfl⟩
  · have hcompound := Compound.logical mark op left right
    have hcompound' := Compound.logical mark op left right'
    have hsame := place.boolean_fill_congr hcompound hcompound' rfl context.memo
      fun memo hmemo => by
        have hdecided := hleft memo hmemo
        rw [boolean_logical_of_decisive hdecided, boolean_logical_of_decisive hdecided]
    rw [(place.compound_fill hcompound).evaluate, (place.compound_fill hcompound').evaluate,
      Context.run, Context.run, hsame]

/-- An environment that answers nothing. -/
def Environment.silent : Environment :=
  { constant "" with property := fun name => .error (.undefinedProperty name) }

/-- A leaf that is false. -/
def LeafNode.no : LeafNode := ⟨default, .string "no" false⟩

/-- The place of the right operand in a disjunction. -/
def Surroundings.orElse : Surroundings := .logicalRight default .or (.leaf .no) .here

/-- Neither an unknown function nor an undefined property shows. -/
theorem Expr.run_fill_of_decisive_unknown :
    (∀ memo, (operand .and .left (.leaf .no) (boolean (.leaf .no))
      ((Context.ofEnvironment .silent).recording.setting .silent) memo).outcome = .ok false) ∧
    (Context.ofEnvironment .silent).recording.run .silent (Surroundings.orElse.fill
        (.logical default .and (.leaf .no) (.call default "NoSuch" []))).evaluate =
      (Context.ofEnvironment .silent).recording.run .silent (Surroundings.orElse.fill
        (.logical default .and (.leaf .no)
          (.leaf ⟨default, .reference .property "$(NoSuch)"⟩))).evaluate := by
  have hleft : ∀ memo, (operand .and .left (.leaf .no) (boolean (.leaf .no))
      ((Context.ofEnvironment .silent).recording.setting .silent) memo).outcome =
        .ok Connective.and.decisive := fun _ => rfl
  exact ⟨hleft, (run_fill_of_decisive .silent _ .orElse default .and (.leaf .no) _ _
    fun memo _ => hleft memo).2⟩

end CondLang
