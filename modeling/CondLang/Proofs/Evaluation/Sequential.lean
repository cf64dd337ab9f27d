import CondLang.Proofs.Evaluation.Aligned

/-!
# Connectives as sequential logic

What shows of the evaluation of an operand is its behaviour: its truth value unless it failed, the
questions it asked and the values it recorded, in order, and what is known after it.  `Truth` is a
truth value that takes such an evaluation to find out, so it is one of three: true, false or an
error.

Negation and the connectives are operations on such truths, `Truth.negated` and `Truth.joined`, and
know nothing else of their operands (`Expr.truth_not`, `Expr.truth_logical`).  The laws of
conditions are laws of these operations: double negation, both laws of De Morgan and associativity
hold (`Expr.truth_laws`).  Commutativity does not, since the left operand is always looked at
first.
-/

namespace CondLang

/-! ## Behaviours -/

/-- What shows of a run: its answer, unless it failed, what it asked and recorded, and what is known
after it. -/
structure Behaviour (α : Type) where
  answer : Option α
  questions : List Question
  records : List (String × String)
  memo : Memo

/-- What shows of a run. -/
def Run.behaviour {α : Type} (run : Run α) : Behaviour α :=
  ⟨run.outcome.toOption, Event.questions run.events, Event.records run.events, run.memo⟩

namespace Behaviour

variable {α β γ : Type}

/-- The behaviour with another answer, if there is one. -/
def map (f : α → β) (behaviour : Behaviour α) : Behaviour β :=
  { behaviour with answer := behaviour.answer.map f }

/-- The behaviour after another one. -/
def behind (behaviour : Behaviour α) (first : Behaviour β) : Behaviour α :=
  { behaviour with
    questions := first.questions ++ behaviour.questions
    records := first.records ++ behaviour.records }

theorem map_behind (f : α → β) (behaviour : Behaviour α) (first : Behaviour γ) :
    (behaviour.behind first).map f = (behaviour.map f).behind first := rfl

theorem behind_behind {δ : Type} (last : Behaviour α) (second : Behaviour β) (first : Behaviour δ) :
    (last.behind second).behind first = last.behind (second.behind first) := by
  simp only [behind, List.append_assoc]

end Behaviour

namespace EvalM

variable {α β γ : Type} {s : Setting} {memo after : Memo} {events : List Event}

theorem behaviour_bind_of_ok {step : EvalM α} {next : α → EvalM β} {a : α}
    (hrun : step s memo = ⟨.ok a, after, events⟩) :
    ((step >>= next) s memo).behaviour =
      (next a s after).behaviour.behind (step s memo).behaviour := by
  rw [bind_of_ok hrun, hrun]
  simp only [Run.behaviour, Behaviour.behind, Event.questions_append, Event.records_append]

theorem behaviour_bind_of_error {step : EvalM α} {next : α → EvalM β} {e : EvalError}
    (hrun : step s memo = ⟨.error e, after, events⟩) :
    ((step >>= next) s memo).behaviour = ⟨none, (step s memo).behaviour.questions,
      (step s memo).behaviour.records, (step s memo).behaviour.memo⟩ := by
  rw [bind_of_error hrun, hrun]
  rfl

/-- If what is done after a step behaves the same but for the answer, so does the whole. -/
theorem behaviour_bind_map (f : β → γ) (step : EvalM α) {next : α → EvalM β}
    {next' : α → EvalM γ}
    (h : ∀ a memo, (next' a s memo).behaviour = (next a s memo).behaviour.map f) :
    ((step >>= next') s memo).behaviour = ((step >>= next) s memo).behaviour.map f := by
  cases hrun : step s memo with
  | mk outcome after events =>
    cases outcome with
    | error e =>
      rw [behaviour_bind_of_error hrun, behaviour_bind_of_error hrun]
      rfl
    | ok a =>
      rw [behaviour_bind_of_ok hrun, behaviour_bind_of_ok hrun, h, Behaviour.map_behind]

theorem behaviour_bind_congr (step : EvalM α) {next next' : α → EvalM β}
    (h : ∀ a memo, (next' a s memo).behaviour = (next a s memo).behaviour) :
    ((step >>= next') s memo).behaviour = ((step >>= next) s memo).behaviour := by
  have hid : ∀ behaviour : Behaviour β, behaviour.map id = behaviour := by
    intro behaviour
    rw [Behaviour.map, Option.map_id]
    rfl
  rw [behaviour_bind_map id step fun a memo => (h a memo).trans (hid _).symm, hid]

end EvalM

/-! ## Three truth values -/

namespace Connective

/-- The connective that a negation turns this one into. -/
def dual : Connective → Connective
  | and => or
  | or => and

theorem decisive_dual (op : Connective) : op.dual.decisive = !op.decisive := by cases op <;> rfl

end Connective

/-- A truth value, which may be an error, and what it takes to find it out. -/
def Truth : Type := Memo → Behaviour Bool

namespace Truth

/-- What is false where a truth is true, and an error where it is one. -/
def negated (truth : Truth) : Truth := fun memo => (truth memo).map (!·)

/-- The left operand decides if it is an error or has the deciding value.  Otherwise the right one
is looked at, with what is known by then, and decides. -/
def joined (op : Connective) (left right : Truth) : Truth := fun memo =>
  match (left memo).answer with
  | none => left memo
  | some value =>
      if value = op.decisive then left memo else (right (left memo).memo).behind (left memo)

variable {op : Connective} {left right : Truth} {memo : Memo}

theorem joined_of_error (h : (left memo).answer = none) :
    joined op left right memo = left memo := by
  rw [joined, h]

theorem joined_of_decisive (h : (left memo).answer = some op.decisive) :
    joined op left right memo = left memo := by
  rw [joined, h]
  exact if_pos rfl

theorem joined_of_open {value : Bool} (h : (left memo).answer = some value)
    (hopen : value ≠ op.decisive) :
    joined op left right memo = (right (left memo).memo).behind (left memo) := by
  rw [joined, h]
  exact if_neg hopen

/-- The left operand decides or leaves it to the right one. -/
theorem joined_cases (op : Connective) (left : Truth) (memo : Memo) :
    (left memo).answer = none ∨ (left memo).answer = some op.decisive ∨
      ∃ value, (left memo).answer = some value ∧ value ≠ op.decisive := by
  cases (left memo).answer with
  | none => exact .inl rfl
  | some value =>
    by_cases h : value = op.decisive
    · exact .inr (.inl (congrArg some h))
    · exact .inr (.inr ⟨value, rfl, h⟩)

theorem negated_negated (truth : Truth) : truth.negated.negated = truth := by
  funext memo
  show (⟨((truth memo).answer.map (!·)).map (!·), _, _, _⟩ : Behaviour Bool) = truth memo
  have hanswer : ((truth memo).answer.map (!·)).map (!·) = (truth memo).answer := by
    cases (truth memo).answer <;> simp
  rw [hanswer]
  rfl

/-- De Morgan's laws. -/
theorem negated_joined (op : Connective) (left right : Truth) :
    (joined op left right).negated = joined op.dual left.negated right.negated := by
  funext memo
  show (joined op left right memo).map (!·) = _
  rcases joined_cases op left memo with hleft | hleft | ⟨value, hleft, hopen⟩
  · have hnegated : (left.negated memo).answer = none := congrArg (Option.map (!·)) hleft
    rw [joined_of_error hleft, joined_of_error hnegated]
    rfl
  · have hnegated : (left.negated memo).answer = some op.dual.decisive := by
      rw [op.decisive_dual]
      exact congrArg (Option.map (!·)) hleft
    rw [joined_of_decisive hleft, joined_of_decisive hnegated]
    rfl
  · have hnegated : (left.negated memo).answer = some !value :=
      congrArg (Option.map (!·)) hleft
    have hopen' : (!value) ≠ op.dual.decisive := by
      rw [op.decisive_dual]
      exact fun h => hopen (Bool.not_inj h)
    rw [joined_of_open hleft hopen, joined_of_open hnegated hopen']
    rfl

theorem joined_assoc (op : Connective) (left middle right : Truth) :
    joined op (joined op left middle) right = joined op left (joined op middle right) := by
  funext memo
  rcases joined_cases op left memo with hleft | hleft | ⟨value, hleft, hopen⟩
  · have hjoined : (joined op left middle memo).answer = none := by
      rw [joined_of_error hleft, hleft]
    rw [joined_of_error hjoined, joined_of_error hleft, joined_of_error hleft]
  · have hjoined : (joined op left middle memo).answer = some op.decisive := by
      rw [joined_of_decisive hleft, hleft]
    rw [joined_of_decisive hjoined, joined_of_decisive hleft, joined_of_decisive hleft]
  · -- The left operand leaves it to the others, and the middle one is looked at after it.
    have hfirst : joined op left middle memo = (middle (left memo).memo).behind (left memo) :=
      joined_of_open hleft hopen
    have hanswer : (joined op left middle memo).answer = (middle (left memo).memo).answer := by
      rw [hfirst]
      rfl
    have hwhole : joined op left (joined op middle right) memo =
        (joined op middle right (left memo).memo).behind (left memo) := joined_of_open hleft hopen
    rw [hwhole]
    rcases joined_cases op middle (left memo).memo with
      hmiddle | hmiddle | ⟨value', hmiddle, hopen'⟩
    · rw [joined_of_error (hanswer.trans hmiddle), hfirst, joined_of_error hmiddle]
    · rw [joined_of_decisive (hanswer.trans hmiddle), hfirst, joined_of_decisive hmiddle]
    · rw [joined_of_open (hanswer.trans hmiddle) hopen', hfirst, joined_of_open hmiddle hopen',
        Behaviour.behind_behind]
      rfl

end Truth

/-! ## The truths of conditions -/

namespace Expr

variable {s : Setting} {memo : Memo}

/-- The truth of a tree. -/
def truth (s : Setting) (e : Expr) : Truth := fun memo => (e.evaluate s memo).behaviour

/-- An operand of a connective shows the same as the tree by itself. -/
theorem behaviour_operand (op : Connective) (side : Side) (e : Expr) (memo : Memo) :
    (operand op side e e.boolean s memo).behaviour = e.truth s memo := by
  refine EvalM.behaviour_bind_congr e.canBoolean fun able after => ?_
  cases able with
  | true => rfl
  | false => exact EvalM.behaviour_bind_congr e.expanded fun _ _ => rfl

theorem truth_not (mark : Mark) (e : Expr) : (not mark e).truth s = (e.truth s).negated := by
  funext memo
  refine EvalM.behaviour_bind_map (!·) e.canBoolean fun able after => ?_
  cases able with
  | true =>
    show ((e.boolean >>= fun value => pure !value) s after).behaviour =
      (e.boolean s after).behaviour.map (!·)
    cases hrun : e.boolean s after with
    | mk outcome last events =>
      cases outcome with
      | error error => rw [EvalM.behaviour_bind_of_error hrun, hrun]; rfl
      | ok value =>
        rw [EvalM.bind_of_ok hrun, EvalM.pure_apply, List.append_nil]
        rfl
  | false =>
    -- Both fail once the text of the operand is known.
    show (((e.expanded >>= fun text => pure ("!" ++ text)) >>= fun text =>
      (EvalM.fail (.notBoolean text) : EvalM Bool)) s after).behaviour =
        ((e.expanded >>= fun text => (EvalM.fail (.notBoolean text) : EvalM Bool)) s
          after).behaviour.map (!·)
    cases hrun : e.expanded s after with
    | mk outcome last events =>
      cases outcome with
      | error error =>
        rw [EvalM.bind_of_error (EvalM.bind_of_error hrun), EvalM.bind_of_error hrun]
        rfl
      | ok text =>
        rw [EvalM.bind_of_ok (EvalM.bind_of_ok hrun), EvalM.bind_of_ok hrun, EvalM.pure_apply,
          List.append_nil]
        rfl

theorem truth_logical (mark : Mark) (op : Connective) (left right : Expr) :
    (logical mark op left right).truth s = .joined op (left.truth s) (right.truth s) := by
  funext memo
  rw [truth, (Compound.logical mark op left right).evaluate, boolean]
  have hleft := behaviour_operand (s := s) op .left left memo
  cases hrun : operand op .left left left.boolean s memo with
  | mk outcome after events =>
    rw [hrun] at hleft
    cases outcome with
    | error e =>
      have hanswer : (left.truth s memo).answer = none := by rw [← hleft]; rfl
      rw [EvalM.bind_of_error hrun, Truth.joined_of_error hanswer, ← hleft]
    | ok value =>
      have hanswer : (left.truth s memo).answer = some value := by rw [← hleft]; rfl
      have hafter : (left.truth s memo).memo = after := by rw [← hleft]; rfl
      rw [EvalM.behaviour_bind_of_ok hrun, hrun]
      by_cases hvalue : value = op.decisive
      · subst hvalue
        rw [if_pos rfl, Truth.joined_of_decisive hanswer, ← hleft]
        show Behaviour.mk _ (_ ++ []) (_ ++ []) _ = _
        rw [List.append_nil, List.append_nil]
        rfl
      · rw [if_neg hvalue, Truth.joined_of_open hanswer hvalue, hafter, behaviour_operand, hleft]

/-! ## A tree behind other nodes -/

/-- Numbers correspond to those behind some others. -/
def numbersBehind (count : ℕ) : ℕ ≃. ℕ where
  toFun n := some (n + count)
  invFun n := if count ≤ n then some (n - count) else none
  inv n n' := by
    simp only [Option.ite_none_right_eq_some, Option.some.injEq]
    omega

theorem corresponds_numbersBehind {count : ℕ} {mark mark' : Mark}
    (h : mark'.id = mark.id + count) : Mark.Corresponds (numbersBehind count) mark mark' :=
  congrArg some h.symm

/-- The tree of `!$(A) or $(B)` behind some nodes and characters, but for the mark of the whole. -/
def negatedOr (first start : ℕ) (mark : Mark) : Expr :=
  logical mark .or
    (not ⟨first + 1, ⟨start, start + 5⟩, false⟩
      (leaf ⟨⟨first, ⟨start + 1, start + 5⟩, false⟩, .reference .property "$(A)"⟩))
    (leaf ⟨⟨first + 2, ⟨start + 9, start + 13⟩, false⟩, .reference .property "$(B)"⟩)

theorem twins_negatedOr {count first first' start start' : ℕ} {mark mark' : Mark}
    (hfirst : first' = first + count) (hmark : mark'.id = mark.id + count) :
    (negatedOr first start mark).Twins (Mark.Corresponds (numbersBehind count))
      (negatedOr first' start' mark') := by
  subst hfirst
  refine .logical (corresponds_numbersBehind hmark) .or ?_ ?_
  · refine .not (corresponds_numbersBehind ?_) (.leaf ⟨corresponds_numbersBehind rfl, .same _⟩)
    exact Nat.add_right_comm first count 1
  · refine .leaf ⟨corresponds_numbersBehind ?_, .same _⟩
    exact Nat.add_right_comm first count 2

/-! ## The laws -/

/-- Whatever is evaluated as an operand, on either side of either connective, behaves as the tree by
itself.  What shows of a negation is the negation of what shows of its operand, and what shows of a
connective is what shows of its operands joined from left to right, where an error is a third truth
value.  So a double negation behaves as its operand, a negated connective as the other connective of
the negated operands, and a connective of three operands is grouped either way: with the same truth
value or an error on both sides, the same questions and records in the same order, and the same
known afterwards.  It makes no difference how the nodes are numbered or where they stand: trees of
the same shape and texts, whose numbers correspond one to one, behave alike. -/
theorem truth_laws (env : Environment) (source : String) (recording : Bool) :
    let s : Setting := ⟨env, source, recording⟩
    (∀ op side e memo, (operand op side e e.boolean s memo).behaviour = e.truth s memo) ∧
    (∀ mark e, (not mark e).truth s = (e.truth s).negated) ∧
    (∀ mark op left right,
      (logical mark op left right).truth s = .joined op (left.truth s) (right.truth s)) ∧
    (∀ mark mark' a, (not mark (not mark' a)).truth s = a.truth s) ∧
    (∀ mark mark' op a b markA markB mark'',
      (not mark (logical mark' op a b)).truth s =
        (logical mark'' op.dual (not markA a) (not markB b)).truth s) ∧
    (∀ mark markL mark' markR op a b c,
      (logical mark op (logical markL op a b) c).truth s =
        (logical mark' op a (logical markR op b c)).truth s) ∧
    ∀ (numbering : ℕ ≃. ℕ) (e e' : Expr), e.Twins (Mark.Corresponds numbering) e' →
      ∀ (source' : String) (memo memo' : Memo), memo.Aligned numbering memo' →
        let behaviour := e.truth s memo
        let behaviour' := e'.truth ⟨env, source', recording⟩ memo'
        behaviour.answer = behaviour'.answer ∧ behaviour.questions = behaviour'.questions ∧
          behaviour.records = behaviour'.records ∧
          behaviour.memo.Aligned numbering behaviour'.memo := by
  intro s
  refine ⟨fun op side e memo => behaviour_operand op side e memo, truth_not, truth_logical, ?_, ?_,
    ?_, ?_⟩
  · intro mark mark' a
    rw [truth_not, truth_not, Truth.negated_negated]
  · intro mark mark' op a b markA markB mark''
    rw [truth_not, truth_logical, truth_logical, truth_not, truth_not, Truth.negated_joined]
  · intro mark markL mark' markR op a b c
    rw [truth_logical, truth_logical, truth_logical, truth_logical, Truth.joined_assoc]
  · intro numbering e e' htwins source' memo memo' hmemo
    have haligned : EvalM.Aligned env recording numbering e.evaluate e'.evaluate := htwins.evaluate
    obtain ⟨houtcome, hquestions, hrecords, hafter⟩ := haligned source source' memo memo' hmemo
    exact ⟨houtcome.toOption, hquestions, hrecords, hafter⟩

/-- A condition by itself, and the same one in parentheses behind another node, where the text of
one property is known already: both ask for the other property, and are true. -/
theorem truth_laws_renumbered :
    let env := Environment.constant "yes"
    let text := "!$(A) or $(B)"
    let text' := "no or (!$(A) or $(B))"
    let e := negatedOr 0 0 ⟨3, ⟨0, 13⟩, false⟩
    let e' := negatedOr 1 7 ⟨4, ⟨6, 21⟩, true⟩
    let no := leaf ⟨⟨0, ⟨0, 2⟩, false⟩, .string "no" false⟩
    let memo := Memo.empty.modify 0 fun slot => { slot with expanded := some "yes" }
    let memo' := Memo.empty.modify 1 fun slot => { slot with expanded := some "yes" }
    Condition.parse text .everything = .ok ⟨text, e, 4⟩ ∧
      Condition.parse text' .everything = .ok ⟨text', logical ⟨5, ⟨0, 21⟩, false⟩ .or no e', 6⟩ ∧
      e.Twins (Mark.Corresponds (numbersBehind 1)) e' ∧ memo.Aligned (numbersBehind 1) memo' ∧
      (e.truth ⟨env, text, true⟩ memo).answer = some true ∧
      (e'.truth ⟨env, text', true⟩ memo').answer = some true ∧
      (e.truth ⟨env, text, true⟩ memo).questions = [.query (.property "B")] ∧
      (e'.truth ⟨env, text', true⟩ memo').questions = [.query (.property "B")] := by
  intro env text text' e e' no memo memo'
  have htwins : e.Twins (Mark.Corresponds (numbersBehind 1)) e' := twins_negatedOr rfl rfl
  have hempty : Memo.empty.Aligned (numbersBehind 1) .empty := fun _ _ _ => by
    rw [Memo.get_empty, Memo.get_empty]
  have hmemo : memo.Aligned (numbersBehind 1) memo' := hempty.modify rfl _
  have hanswer : (e.truth ⟨env, text, true⟩ memo).answer = some true := by decide +kernel
  have hquestions : (e.truth ⟨env, text, true⟩ memo).questions = [.query (.property "B")] := by
    decide +kernel
  obtain ⟨-, -, -, -, -, -, hrenumbered⟩ := truth_laws env text true
  obtain ⟨hanswer', hquestions', -, -⟩ :=
    hrenumbered (numbersBehind 1) e e' htwins text' memo memo' hmemo
  exact ⟨by decide +kernel, by decide +kernel, htwins, hmemo, hanswer, hanswer'.symm.trans hanswer,
    hquestions, hquestions'.symm.trans hquestions⟩

end Expr

end CondLang
