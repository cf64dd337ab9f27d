import CondLang.Project.Answers
import CondLang.Proofs.Evaluation.Alike
import CondLang.Proofs.Evaluation.Trace
import CondLang.Proofs.Evaluation.Transparent
import CondLang.Proofs.Parser.Leaves

/-!
# Each leaf is expanded once

However often an evaluation comes back to a leaf, there is one block of questions for it at most,
and no other block begins before one has ended (`Condition.evaluate_inBlocks`).  An operand is asked
about once because the memo keeps its text.  The argument of a call is asked about once because the
call is made once; behind its block a call may ask whether a path exists.
-/

namespace CondLang

/-! ## Leaves -/

namespace LeafNode

variable {s : Setting} {memo : Memo} {node : LeafNode}

/-- What is known is not asked again. -/
theorem expanded_of_known
    (h : node.leaf.expandable = false ∨ (memo.get node.mark.id).expanded ≠ none) :
    ∃ text, node.expanded s memo = ⟨.ok text, memo, []⟩ := by
  unfold expanded
  split
  · next hexpandable =>
    cases hknown : (memo.get node.mark.id).expanded with
    | none =>
      rw [hexpandable, hknown] at h
      rcases h with h | h
      · cases h
      · exact absurd rfl h
    | some text =>
      refine ⟨text, ?_⟩
      rw [EvalM.bind_of_ok rfl]
      simp only [hknown]
      rfl
  · exact ⟨_, rfl⟩

/-- What is not known is asked for, and kept unless the expansion fails. -/
theorem expanded_of_unknown (hexpandable : node.leaf.expandable = true)
    (hnone : (memo.get node.mark.id).expanded = none) {expansion : Expansion}
    (hexpansion : Expansion.ofText s.environment node.leaf.text = expansion) :
    node.expanded s memo =
      { outcome := expansion.text.mapError fun cause => s.failure (.expansion node.leaf.text cause)
        memo := match expansion.text with
          | .error _ => memo
          | .ok text => memo.modify node.mark.id fun slot => { slot with expanded := some text }
        events := expansion.asked.map fun query => .asked (.query query) } := by
  unfold expanded
  rw [if_pos hexpandable, EvalM.bind_of_ok rfl]
  simp only [hnone]
  rw [EvalM.bind_of_ok rfl, EvalM.bind_of_ok rfl, hexpansion]
  cases expansion.text with
  | error cause => exact congrArg (Run.mk _ _) (List.append_nil _)
  | ok text => exact congrArg (Run.mk _ _) (List.append_nil _)

/-- The first expansion of a leaf asks for its references, up to one that fails, and changes what is
known of the leaf only. -/
theorem exists_asked (hplain : node.leaf.expandable = false →
      Expansion.references node.leaf.text.toList = [])
    (hnone : (memo.get node.mark.id).expanded = none) :
    let run := node.expanded s memo
    let refs := Expansion.references node.leaf.text.toList
    ∃ asked : List Query, Event.questions run.events = asked.map .query ∧
      (∀ id, id ≠ node.mark.id → (run.memo.get id).expanded = (memo.get id).expanded) ∧
      ((∃ text, run.outcome = .ok text ∧ asked.map .ok = refs ∧
          (node.leaf.expandable = true → (run.memo.get node.mark.id).expanded ≠ none)) ∨
        ∃ cause, run.outcome = .error (s.failure (.expansion node.leaf.text cause)) ∧
          Expansion.CutShort s.environment refs asked cause) := by
  intro run refs
  cases hexpandable : node.leaf.expandable with
  | false =>
    obtain ⟨text, hrun⟩ := @expanded_of_known s memo node (.inl hexpandable)
    rw [show run = _ from hrun]
    refine ⟨[], rfl, fun _ _ => rfl, .inl ⟨text, rfl, (hplain hexpandable).symm, ?_⟩⟩
    exact fun h => absurd h Bool.false_ne_true
  | true =>
    obtain ⟨expansion, hexpansion⟩ :
      ∃ expansion, Expansion.ofText s.environment node.leaf.text = expansion := ⟨_, rfl⟩
    have hrun : run = _ := expanded_of_unknown hexpandable hnone hexpansion
    have hquestions : Event.questions (expansion.asked.map fun query => .asked (.query query)) =
        expansion.asked.map .query := by
      rw [Event.questions, List.filterMap_map]
      exact congrFun List.filterMap_eq_map _
    refine ⟨expansion.asked, ?_⟩
    rw [hrun, Expansion.text]
    cases houtcome : expansion.outcome with
    | error cause =>
      have hcut := Expansion.cutShort_of_error (hexpansion ▸ houtcome)
      exact ⟨hquestions, fun _ _ => rfl, .inr ⟨cause, rfl, hexpansion ▸ hcut⟩⟩
    | ok chars =>
      have hasked := Expansion.asked_of_ok (hexpansion ▸ houtcome)
      refine ⟨hquestions, fun id hid => ?_, .inl ⟨_, rfl, hexpansion ▸ hasked, fun _ => ?_⟩⟩
      · show ((memo.modify _ _).get id).expanded = _
        rw [Memo.get_modify, if_neg (Ne.symm hid)]
      · show ((memo.modify _ _).get _).expanded ≠ _
        rw [Memo.get_modify, if_pos rfl]
        exact Option.some_ne_none _

end LeafNode

namespace Expr

/-- A function asks for one path at most, and only one function does. -/
theorem exists_path (function : Builtin) (text : String) (s : Setting) (memo : Memo) :
    ∃ result path, function.apply text s memo =
        ⟨.ok result, memo, (path.map fun path => .asked (.pathExists path)).toList⟩ ∧
      (path ≠ none → function = .pathExists) := by
  cases function with
  | hasTrailingSlash => exact ⟨_, none, rfl, fun h => absurd rfl h⟩
  | pathExists =>
    by_cases hempty : (Text.trim text).isEmpty = true
    · refine ⟨false, none, ?_, fun _ => rfl⟩
      show askPath (Text.trim text) s memo = _
      rw [askPath, if_pos hempty]
      rfl
    · refine ⟨s.environment.pathExists (Text.trim text), some (Text.trim text), ?_, fun _ => rfl⟩
      show askPath (Text.trim text) s memo = _
      rw [askPath, if_neg hempty]
      rfl

/-- Calling a function asks for its argument, and then perhaps for a path. -/
theorem exists_callFunction {function : Builtin} {name : String} {argument : LeafNode}
    {s : Setting} {memo after : Memo} {text : String} {events : List Event}
    (hfunction : builtin? name = some function)
    (hrun : argument.expanded s memo = ⟨.ok text, after, events⟩) :
    ∃ result path, (callFunction name [argument] s memo).outcome = .ok result ∧
      (callFunction name [argument] s memo).memo = after ∧
      Event.questions (callFunction name [argument] s memo).events =
        Event.questions events ++ (path.map .pathExists).toList ∧
      (path ≠ none → function = .pathExists) := by
  obtain ⟨result, path, happly, hpath⟩ := exists_path function text s after
  have hcall : callFunction name [argument] s memo = ⟨.ok result, after, events ++
      ((path.map fun path => .asked (.pathExists path)).toList ++
        [.noted (.called name text result)])⟩ := by
    unfold callFunction
    rw [hfunction]
    simp only
    rw [EvalM.bind_of_ok hrun, EvalM.bind_of_ok happly]
    rfl
  rw [hcall]
  refine ⟨result, path, rfl, rfl, ?_, hpath⟩
  rw [Event.questions_append]
  cases path <;> rfl

/-- A call fails if its argument does. -/
theorem callFunction_of_error {function : Builtin} {name : String} {argument : LeafNode}
    {s : Setting} {memo after : Memo} {e : EvalError} {events : List Event}
    (hfunction : builtin? name = some function)
    (hrun : argument.expanded s memo = ⟨.error e, after, events⟩) :
    callFunction name [argument] s memo = ⟨.error e, after, events⟩ := by
  unfold callFunction
  rw [hfunction]
  exact EvalM.bind_of_error hrun

end Expr

namespace EvalM.Asks

variable {s : Setting} {root : Expr}

/-- An operand has a block unless it is known. -/
theorem operand {node : LeafNode} (hnode : node ∈ root.leaves)
    (hnot : node.mark.id ∉ root.argumentIds)
    (hplain : node.leaf.expandable = false →
      Expansion.references node.leaf.text.toList = []) :
    Asks s root String [] node.expanded := by
  intro memo _ _
  by_cases hknown : node.leaf.expandable = false ∨ (memo.get node.mark.id).expanded ≠ none
  · obtain ⟨text, hrun⟩ := LeafNode.expanded_of_known (s := s) hknown
    rw [hrun]
    exact ⟨[], .nil rfl fun _ => rfl⟩
  · rw [not_or, Bool.not_eq_false, not_not] at hknown
    obtain ⟨hexpandable, hnone⟩ := hknown
    obtain ⟨asked, hquestions, hmemo, hend⟩ := LeafNode.exists_asked (s := s) hplain hnone
    have hof : (⟨node, asked, none⟩ : Block).Of root :=
      ⟨hnode, fun h => absurd rfl h, .inl hexpandable⟩
    have hblock : Event.questions (node.expanded s memo).events =
        Block.questions ⟨node, asked, none⟩ := hquestions.trans (List.append_nil _).symm
    refine ⟨[⟨node, asked, none⟩], ?_⟩
    rcases hend with ⟨text, hok, hwhole, hexpanded⟩ | ⟨cause, herror, hcut⟩
    · exact .single hblock (.single hwhole) hof hnone
        (.inr ⟨hnot, fun _ _ => hexpanded hexpandable⟩) hmemo
    · have hcomplete : Block.Complete s [⟨node, asked, none⟩] (node.expanded s memo).outcome := by
        rw [herror]
        exact .single_cut rfl hcut
      refine .single hblock hcomplete hof hnone (.inr ⟨hnot, fun text hok => ?_⟩) hmemo
      rw [herror] at hok
      cases hok

/-- A call has the block of its argument, and asks for the path behind it. -/
theorem call_single {mark : Mark} {name : String} {function : Expr.Builtin} {argument : LeafNode}
    (hfunction : Expr.builtin? name = some function)
    (hcall : .call mark name [argument] ∈ root.nodes)
    (hplain : argument.leaf.expandable = false →
      Expansion.references argument.leaf.text.toList = []) :
    Asks s root Bool [argument] (Expr.callFunction name [argument]) := by
  intro memo _ hfresh
  have hmem : argument.mark.id ∈ [argument].map (·.mark.id) := List.mem_singleton_self _
  obtain ⟨-, hnone⟩ := hfresh _ hmem
  have hnode : argument ∈ root.leaves :=
    Expr.leaves_subset_of_mem_nodes hcall (List.mem_singleton_self argument)
  obtain ⟨asked, hquestions, hmemo, hend⟩ := LeafNode.exists_asked (s := s) hplain hnone
  cases hrun : argument.expanded s memo with
  | mk outcome after events =>
    rw [hrun] at hquestions hmemo hend
    rcases hend with ⟨text, rfl, hwhole, -⟩ | ⟨cause, rfl, hcut⟩
    · obtain ⟨result, path, -, hafter, hevents, hpath⟩ := Expr.exists_callFunction hfunction hrun
      rw [hquestions] at hevents
      by_cases hsite : argument.leaf.expandable = true ∨ function = .pathExists
      · have hlooksUp : function = .pathExists → root.LooksUp argument :=
          fun h => ⟨mark, name, hcall, h ▸ hfunction⟩
        exact ⟨[⟨argument, asked, path⟩], .single hevents (.single hwhole)
          ⟨hnode, fun h => hlooksUp (hpath h), hsite.imp_right hlooksUp⟩ hnone (.inl hmem)
          (hafter ▸ hmemo)⟩
      -- The argument is plain and the function asks for no path, so there is nothing to tell.
      · rw [not_or, Bool.not_eq_true] at hsite
        obtain ⟨text', hknown⟩ := @LeafNode.expanded_of_known s memo argument (.inl hsite.1)
        cases hrun.symm.trans hknown
        obtain rfl : path = none := by
          by_contra h
          exact hsite.2 (hpath h)
        refine ⟨[], .nil ?_ fun id => by rw [hafter]⟩
        rw [hevents, ← hquestions]
        rfl
    · have hexpandable : argument.leaf.expandable = true := by
        by_contra hnot
        exact hcut.ne_nil (hplain (Bool.not_eq_true _ ▸ hnot))
      rw [Expr.callFunction_of_error hfunction hrun]
      exact ⟨[⟨argument, asked, none⟩], .single (hquestions.trans (List.append_nil _).symm)
        (.single_cut rfl hcut) ⟨hnode, fun h => absurd rfl h, .inl hexpandable⟩ hnone
        (.inl hmem) hmemo⟩

theorem call {mark : Mark} {name : String} {arguments : List LeafNode}
    (hcall : .call mark name arguments ∈ root.nodes)
    (hplain : ∀ node ∈ root.leaves, node.leaf.expandable = false →
      Expansion.references node.leaf.text.toList = []) :
    Asks s root Bool arguments (Expr.callFunction name arguments) := by
  refine law.call fun function argument hfunction harguments => ?_
  subst harguments
  exact call_single hfunction hcall (hplain argument
    (Expr.leaves_subset_of_mem_nodes hcall (List.mem_singleton_self argument)))

end EvalM.Asks

/-! ## Whole conditions -/

/-- An evaluation of a tree whose leaves are told apart by their numbers asks in blocks. -/
theorem Expr.exists_trace {s : Setting} {root : Expr}
    (hnodup : (root.leaves.map (·.mark.id)).Nodup)
    (hplain : ∀ node ∈ root.leaves, node.leaf.expandable = false →
      Expansion.references node.leaf.text.toList = []) :
    ∃ blocks, Trace s root root.argumentIds .empty (root.evaluate s .empty) blocks := by
  rw [(root.leaves_perm.map _).nodup_iff, List.map_append] at hnodup
  obtain ⟨-, harguments, hdisjoint⟩ := List.nodup_append.1 hnodup
  have hobeys : root.Obeys (EvalM.Asks s root) := by
    refine obeys_of (fun node hnode => ?_) fun mark name arguments hcall => .call hcall hplain
    have hleaf := root.leaves_perm.symm.subset (List.mem_append_left _ hnode)
    refine .operand hleaf (fun hargument => ?_) (hplain node hleaf)
    exact hdisjoint _ (List.mem_map_of_mem hnode) _ hargument rfl
  have hasks := EvalM.Asks.law.evaluate (EvalM.Asks.law.follows hobeys)
  refine hasks .empty harguments fun id hid => ⟨hid, ?_⟩
  rw [Memo.get_empty]
  rfl

/-- The leaves of an accepted condition are told apart by their numbers, and hold no references
where they are not expanded. -/
theorem Condition.exists_trace {text : String} {policy : Policy} {condition : Condition}
    (h : parse text policy = .ok condition) (s : Setting) :
    ∃ blocks, Trace s condition.root condition.root.argumentIds .empty
      (condition.root.evaluate s .empty) blocks := by
  have hids : (condition.root.leaves.map (·.mark.id)).Nodup :=
    (nodup_ids h).sublist condition.root.leaves_sublist_ids
  exact Expr.exists_trace hids fun node hnode hexpandable =>
    references_of_not_expandable h hnode hexpandable

/-- Whatever is asked for is a reference in the text of the condition. -/
theorem Evaluator.exists_asks_of_mem_questions {text : String} {policy : Policy}
    {condition : Condition} (h : Condition.parse text policy = .ok condition)
    (evaluator : Evaluator) (env : Environment) {query : Query}
    (hquery : .query query ∈ Event.questions (evaluator.evaluate condition env).1.events) :
    ∃ node ∈ condition.root.leaves, Expansion.Asks node.leaf.text.toList query := by
  obtain ⟨blocks, htrace⟩ :=
    Condition.exists_trace h ⟨env, condition.text, evaluator.conditioned.isSome⟩
  rw [evaluator.evaluate_fst, htrace.questions] at hquery
  obtain ⟨block, hblock, hasked⟩ := List.mem_flatMap.1 hquery
  have hmem : query ∈ block.asked := by
    rcases List.mem_append.1 hasked with hasked | hpath
    · obtain ⟨other, hother, heq⟩ := List.mem_map.1 hasked
      cases heq
      exact hother
    · cases hsome : block.path <;> simp [hsome] at hpath
  exact ⟨block.node, (htrace.of block hblock).mem, htrace.complete.asks hblock hmem⟩

/-- The questions of an evaluation are blocks, one behind the other, each about a leaf of its own.
A block asks for all references of its leaf in the order of the text, and behind the last one, if
the leaf is the argument of a call that looks up a path, perhaps for that path.  Only the last block
may be cut short, at a reference whose failure is the error of the evaluation. -/
def Evaluated.InBlocks (s : Setting) (root : Expr) (evaluated : Evaluated) : Prop :=
  ∃ blocks : List Block, Event.questions evaluated.events = blocks.flatMap Block.questions ∧
    (blocks.map Block.id).Nodup ∧ (∀ block ∈ blocks, block.Of root) ∧
    Block.Complete s blocks evaluated.outcome

theorem Trace.inBlocks {s : Setting} {root : Expr} {ids : List Nat} {memo : Memo} {run : Run Bool}
    {blocks : List Block} (h : Trace s root ids memo run blocks) :
    Evaluated.InBlocks s root ⟨run.outcome, run.events⟩ :=
  ⟨blocks, h.questions, h.nodup, h.of, h.complete⟩

/-- Each leaf is expanded once at most, however often its value is asked for. -/
theorem Condition.evaluate_inBlocks {text : String} {policy : Policy} {condition : Condition}
    (h : parse text policy = .ok condition) (env : Environment) :
    (condition.evaluate env).InBlocks ⟨env, condition.text, false⟩ condition.root ∧
      ∀ evaluator : Evaluator, (evaluator.evaluate condition env).1.InBlocks
        ⟨env, condition.text, evaluator.conditioned.isSome⟩ condition.root := by
  constructor
  · obtain ⟨blocks, htrace⟩ := exists_trace h ⟨env, condition.text, false⟩
    exact htrace.inBlocks
  · intro evaluator
    obtain ⟨blocks, htrace⟩ := exists_trace h ⟨env, condition.text, evaluator.conditioned.isSome⟩
    rw [evaluator.evaluate_fst]
    exact htrace.inBlocks

namespace Condition

/-- A condition with a call that looks up a path, and a text that is read as a number. -/
def probed : Condition :=
  let call : Expr := .call ⟨1, ⟨0, 16⟩, false⟩ "Exists"
    [⟨⟨0, ⟨7, 15⟩, false⟩, .string "$(A)/f" true⟩]
  let left : Expr := .leaf ⟨⟨2, ⟨19, 29⟩, false⟩, .string "$(C)%(D)" true⟩
  let right : Expr := .leaf ⟨⟨3, ⟨30, 31⟩, false⟩, .number "2"⟩
  { text := "Exists('$(A)/f')and'$(C)%(D)'<2"
    root := .logical ⟨5, ⟨0, 31⟩, false⟩ .and call
      (.comparison ⟨4, ⟨19, 31⟩, false⟩ .less left right)
    nodeCount := 6 }

/-- A project with what the condition refers to. -/
def probedProject : Project := (Project.empty.setProperty "A" "dir").setProperty "C" "1.5"

theorem evaluate_inBlocks_probed :
    let env := probedProject.environment (· == "dir/f") probed.text .unknown
    parse probed.text .everything = .ok probed ∧
      (probed.evaluate env).InBlocks ⟨env, probed.text, false⟩ probed.root ∧
      (probed.evaluate env).outcome.toOption = some true ∧
      Event.questions (probed.evaluate env).events =
        [.query (.property "A"), .pathExists "dir/f",
          .query (.property "C"), .query (.metadata ⟨none, "D"⟩)] := by
  intro env
  have hparse : parse probed.text .everything = .ok probed := by decide +kernel
  have houtcome : (probed.evaluate env).outcome.toOption = some true := by decide +kernel
  have hquestions : Event.questions (probed.evaluate env).events =
      [.query (.property "A"), .pathExists "dir/f",
        .query (.property "C"), .query (.metadata ⟨none, "D"⟩)] := by decide +kernel
  exact ⟨hparse, (evaluate_inBlocks hparse env).1, houtcome, hquestions⟩

end Condition

end CondLang
