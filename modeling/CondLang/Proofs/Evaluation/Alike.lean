import CondLang.Evaluation.Context
import CondLang.Proofs.Evaluation.Law

/-!
# What an evaluation depends on

An evaluation reads of its environment the location for messages, whether paths exist, and the
expansions of its leaves.  Two environments that agree on these give the same run: the same outcome,
the same questions and records in the same order, and the same notes (`Expr.evaluate_congr`).

An environment may be excused from agreeing with another one where its expansions fail for certain
causes.  Then the runs are the same unless one of these failures ends the first one
(`Expr.evaluate_eq_or_error`).
-/

namespace CondLang

/-- An expansion is another one, or it fails for a cause that is excused. -/
def Expansion.EqUnless (excused : ExpansionError → Prop) (expansion other : Expansion) : Prop :=
  expansion = other ∨ ∃ cause, expansion.outcome = .error cause ∧ excused cause

/-- Two environments agree on all that the evaluation of a tree reads, but for expansions that fail
in the first one for a cause that is excused. -/
structure Environment.AgreesUnless (excused : ExpansionError → Prop) (env env' : Environment)
    (e : Expr) : Prop where
  location : env.location = env'.location
  pathExists : env.pathExists = env'.pathExists
  expansion : ∀ node ∈ e.leaves, node.leaf.expandable = true →
    (Expansion.ofText env node.leaf.text).EqUnless excused (Expansion.ofText env' node.leaf.text)

/-- Two environments agree on all that the evaluation of a tree reads. -/
structure Environment.Agrees (env env' : Environment) (e : Expr) : Prop where
  location : env.location = env'.location
  pathExists : env.pathExists = env'.pathExists
  expansion : ∀ node ∈ e.leaves, node.leaf.expandable = true →
    Expansion.ofText env node.leaf.text = Expansion.ofText env' node.leaf.text

/-- A run ended because an expansion failed for a cause that is excused. -/
def Run.Excused (excused : ExpansionError → Prop) (source : String) (location : Location)
    {α : Type} (run : Run α) : Prop :=
  ∃ text cause, run.outcome = .error (.failure (.expansion text cause) source location) ∧
    excused cause

namespace EvalM

/-- A step runs alike in two environments, unless in the first one it ends with a failure that is
excused. -/
def Alike (excused : ExpansionError → Prop) (env env' : Environment) (α : Type)
    (_ : List LeafNode) (step : EvalM α) : Prop :=
  ∀ source recording memo,
    step ⟨env, source, recording⟩ memo = step ⟨env', source, recording⟩ memo ∨
      (step ⟨env, source, recording⟩ memo).Excused excused source env.location

namespace Alike

variable {excused : ExpansionError → Prop} {env env' : Environment} {α β : Type}
  {front back : List LeafNode}

theorem of_eq {step : EvalM α}
    (h : ∀ source recording memo,
      step ⟨env, source, recording⟩ memo = step ⟨env', source, recording⟩ memo) :
    Alike excused env env' α back step :=
  fun source recording memo => .inl (h source recording memo)

theorem bind {step : EvalM α} {next : α → EvalM β} (hstep : Alike excused env env' α front step)
    (hnext : ∀ a, Alike excused env env' β back (next a)) :
    Alike excused env env' β (front ++ back) (step >>= next) := by
  intro source recording memo
  cases hrun : step ⟨env, source, recording⟩ memo with
  | mk outcome after events =>
    rcases hstep source recording memo with hsame | ⟨text, cause, houtcome, hcause⟩
    · have hrun' := hsame.symm.trans hrun
      cases outcome with
      | error e =>
        left
        rw [bind_of_error hrun, bind_of_error hrun']
      | ok a =>
        rw [bind_of_ok hrun, bind_of_ok hrun']
        rcases hnext a source recording after with hsame | hexcused
        · left
          rw [hsame]
        · exact .inr hexcused
    · rw [hrun] at houtcome
      cases houtcome
      rw [bind_of_error hrun]
      exact .inr ⟨text, cause, rfl, hcause⟩

/-- What a step reads of the environment may be used alike. -/
theorem setting_bind {next : Setting → EvalM α}
    (hnext : ∀ s, Alike excused env env' α back (next s))
    (hsame : ∀ source recording, next ⟨env, source, recording⟩ = next ⟨env', source, recording⟩) :
    Alike excused env env' α back (setting >>= next) := by
  intro source recording memo
  rw [bind_of_ok rfl, bind_of_ok rfl, hsame]
  exact hnext ⟨env', source, recording⟩ source recording memo

theorem emit (events : List Event) : Alike excused env env' Unit [] (emit events) :=
  of_eq fun _ _ _ => rfl

theorem law (h : env.location = env'.location) : Law (Alike excused env env') where
  weaken h := h
  pure _ := of_eq fun _ _ _ => rfl
  fail kind := of_eq fun _ _ _ => by rw [EvalM.fail, EvalM.fail, h]
  bind := bind
  setting hnext hsame := setting_bind hnext fun _ _ => hsame _ _ rfl rfl
  known _ := of_eq fun _ _ _ => rfl
  keepNumber _ _ := of_eq fun _ _ _ => rfl
  keepVersion _ _ := of_eq fun _ _ _ => rfl
  note _ := emit _
  recorded _ := emit _

theorem expanded {node : LeafNode} (hlocation : env.location = env'.location)
    (h : node.leaf.expandable = true → (Expansion.ofText env node.leaf.text).EqUnless excused
      (Expansion.ofText env' node.leaf.text)) :
    Alike excused env env' String [] node.expanded := by
  have hlaw : Law (Alike excused env env') := law hlocation
  unfold LeafNode.expanded
  split
  · next hexpandable =>
    refine hlaw.bind_right (hlaw.known _) fun slot => ?_
    split
    · exact hlaw.pure _
    · rcases h hexpandable with hsame | ⟨cause, houtcome, hcause⟩
      · refine setting_bind (fun s => ?_) fun source recording => ?_
        · refine hlaw.bind_right (emit _) fun _ => ?_
          split
          · exact hlaw.fail _
          · exact hlaw.bind_right (of_eq fun _ _ _ => rfl) fun _ => hlaw.pure _
        · simp only [hsame]
      · intro source recording memo
        right
        rw [bind_of_ok rfl, bind_of_ok rfl, Expansion.text, houtcome]
        exact ⟨node.leaf.text, cause, rfl, hcause⟩
  · exact hlaw.pure _

theorem askPath (hlocation : env.location = env'.location)
    (hpath : env.pathExists = env'.pathExists) (path : String) :
    Alike excused env env' Bool [] (Expr.askPath path) := by
  have hlaw : Law (Alike excused env env') := law hlocation
  refine hlaw.askPath (emit _) (setting_bind (fun _ => hlaw.pure _) fun _ _ => ?_)
  rw [hpath]

end Alike

end EvalM

variable {excused : ExpansionError → Prop} {env env' : Environment}

namespace Expr

theorem obeys_alike {e : Expr} (h : env.AgreesUnless excused env' e) :
    e.Obeys (EvalM.Alike excused env env') := by
  have hleaf : ∀ node ∈ e.leaves, EvalM.Alike excused env env' String [] node.expanded :=
    fun node hnode => .expanded h.location (h.expansion node hnode)
  refine obeys_of (fun node hnode => hleaf node ?_) fun mark name arguments hcall => ?_
  · exact e.leaves_perm.symm.subset (List.mem_append_left _ hnode)
  · have hsubset := leaves_subset_of_mem_nodes hcall
    exact (EvalM.Alike.law h.location).call_of_expanded name
      (fun node hnode => hleaf node (hsubset hnode)) (.askPath h.location h.pathExists)

/-- Environments that agree on what the evaluation of a tree reads, but for failures of the first
one that are excused, give the same run unless such a failure ends the first run. -/
theorem evaluate_eq_or_error {e : Expr} (h : env.AgreesUnless excused env' e) (source : String)
    (recording : Bool) (memo : Memo) :
    e.evaluate ⟨env, source, recording⟩ memo = e.evaluate ⟨env', source, recording⟩ memo ∨
      (e.evaluate ⟨env, source, recording⟩ memo).Excused excused source env.location := by
  have hlaw : EvalM.Law (EvalM.Alike excused env env') := EvalM.Alike.law h.location
  exact hlaw.evaluate (hlaw.follows (obeys_alike h)) source recording memo

/-- Environments that agree on what the evaluation of a tree reads give the same run. -/
theorem evaluate_congr {e : Expr} (h : env.Agrees env' e) (source : String) (recording : Bool)
    (memo : Memo) :
    e.evaluate ⟨env, source, recording⟩ memo = e.evaluate ⟨env', source, recording⟩ memo := by
  have hagrees : env.AgreesUnless (fun _ => False) env' e :=
    ⟨h.location, h.pathExists,
      fun node hnode hexpandable => .inl (h.expansion node hnode hexpandable)⟩
  refine (evaluate_eq_or_error hagrees source recording memo).resolve_right ?_
  rintro ⟨-, -, -, hfalse⟩
  exact hfalse

end Expr

/-! ## Whole conditions -/

/-- An evaluation starts with a memo that knows nothing. -/
theorem Evaluator.evaluate_fst (evaluator : Evaluator) (condition : Condition) (env : Environment) :
    let run := condition.root.evaluate
      ⟨env, condition.text, evaluator.conditioned.isSome⟩ .empty
    (evaluator.evaluate condition env).1 = ⟨run.outcome, run.events⟩ := by
  obtain ⟨_ | register⟩ := evaluator <;> rfl

theorem Condition.evaluate_congr {condition : Condition} (h : env.Agrees env' condition.root) :
    condition.evaluate env = condition.evaluate env' := by
  simp only [Condition.evaluate, Context.run, Context.setting, Expr.evaluate_congr h]

theorem Evaluator.evaluate_congr {condition : Condition} (h : env.Agrees env' condition.root)
    (evaluator : Evaluator) :
    evaluator.evaluate condition env = evaluator.evaluate condition env' := by
  simp only [Evaluator.evaluate, Context.run, Context.setting, Expr.evaluate_congr h]

/-- A text that does not parse asks nothing of the environment. -/
theorem evaluateCondition_congr {text : String} {policy : Policy}
    (h : ∀ condition, Condition.parse text policy = .ok condition →
      env.Agrees env' condition.root) :
    evaluateCondition text policy env = evaluateCondition text policy env' := by
  unfold evaluateCondition
  split
  · rfl
  · split
    · rfl
    · next condition hparse => rw [Condition.evaluate_congr (h condition hparse)]

end CondLang
