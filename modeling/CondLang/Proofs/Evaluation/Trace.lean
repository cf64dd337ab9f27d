import CondLang.Proofs.Evaluation.Law
import CondLang.Proofs.Evaluation.Pure
import CondLang.Proofs.Expansion.Asked
import Mathlib.Tactic.ByContra

/-!
# The questions of a step

The questions of an evaluation fall into blocks, each on account of one leaf.  A `Trace` says of a
step into what blocks its questions fall, and what it does to the memo so that no later step has a
block for the same leaf: an operand that was asked about is known from then on, and the arguments of
calls are left alone, but for those that the step uses up.  Traces of steps in sequence are joined
(`Trace.append`), so to have a trace is a law of evaluation (`EvalM.Asks.law`).
-/

namespace CondLang

/-- The questions asked on account of one leaf: those for its references, and then perhaps whether a
path exists. -/
structure Block where
  node : LeafNode
  asked : List Query
  path : Option String

namespace Block

/-- The number of the leaf. -/
def id (block : Block) : Nat := block.node.mark.id

/-- The questions in the order in which they are asked. -/
def questions (block : Block) : List Question :=
  block.asked.map .query ++ (block.path.map .pathExists).toList

/-- All references of the leaf are asked for, in the order of the text. -/
def Whole (block : Block) : Prop :=
  block.asked.map .ok = Expansion.references block.node.leaf.text.toList

/-- Blocks are whole, but for the last one if the evaluation fails in it.  That one ends with the
reference whose failure is the error of the evaluation. -/
inductive Complete (s : Setting) {α : Type} : List Block → Except EvalError α → Prop where
  | whole {blocks : List Block} {outcome : Except EvalError α} (h : ∀ block ∈ blocks, block.Whole) :
      Complete s blocks outcome
  | cut {front : List Block} {last : Block} {cause : ExpansionError}
      (hfront : ∀ block ∈ front, block.Whole) (hpath : last.path = none)
      (hlast : Expansion.CutShort s.environment
        (Expansion.references last.node.leaf.text.toList) last.asked cause) :
      Complete s (front ++ [last]) (.error (s.failure (.expansion last.node.leaf.text cause)))

end Block

namespace Expr

/-- A leaf is the argument of a call that asks whether a path exists. -/
def LooksUp (e : Expr) (node : LeafNode) : Prop :=
  ∃ mark name, call mark name [node] ∈ e.nodes ∧ builtin? name = some .pathExists

/-- The numbers of the arguments of calls. -/
def argumentIds (e : Expr) : List Nat := e.arguments.map (·.mark.id)

end Expr

/-- A block is about a leaf of a tree, and asks for a path if the leaf is to name one. -/
structure Block.Of (root : Expr) (block : Block) : Prop where
  mem : block.node ∈ root.leaves
  path : block.path ≠ none → root.LooksUp block.node
  expandable : block.node.leaf.expandable = true ∨ root.LooksUp block.node

/-- The questions of a step that started with a memo fall into blocks.  Each is about an operand
that had not been expanded and now has, or about one of the arguments given. -/
structure Trace (s : Setting) (root : Expr) {α : Type} (ids : List Nat) (memo : Memo) (run : Run α)
    (blocks : List Block) : Prop where
  questions : Event.questions run.events = blocks.flatMap Block.questions
  complete : Block.Complete s blocks run.outcome
  of : ∀ block ∈ blocks, block.Of root
  nodup : (blocks.map Block.id).Nodup
  fresh : ∀ block ∈ blocks, (memo.get block.id).expanded = none
  site : ∀ block ∈ blocks, block.id ∈ ids ∨ block.id ∉ root.argumentIds ∧
    ∀ a, run.outcome = .ok a → (run.memo.get block.id).expanded ≠ none
  grows : ∀ id, (memo.get id).expanded ≠ none → (run.memo.get id).expanded ≠ none
  untouched : ∀ id ∈ root.argumentIds, id ∉ ids →
    (run.memo.get id).expanded = (memo.get id).expanded

namespace Block.Complete

variable {s : Setting} {α β : Type} {blocks front : List Block}

theorem of_error {e : EvalError} (h : Complete s blocks (.error e : Except EvalError α)) :
    Complete s blocks (.error e : Except EvalError β) := by
  generalize houtcome : (.error e : Except EvalError α) = outcome at h
  cases h with
  | whole h => exact .whole h
  | cut hfront hpath hlast =>
    cases houtcome
    exact .cut hfront hpath hlast

theorem whole_of_ok {a : α} (h : Complete s blocks (.ok a : Except EvalError α)) :
    ∀ block ∈ blocks, block.Whole := by
  generalize houtcome : (.ok a : Except EvalError α) = outcome at h
  cases h with
  | whole h => exact h
  | cut => cases houtcome

theorem single {block : Block} {outcome : Except EvalError α} (h : block.Whole) :
    Complete s [block] outcome := .whole (List.forall_mem_singleton.2 h)

theorem single_cut {block : Block} {cause : ExpansionError} (hpath : block.path = none)
    (h : Expansion.CutShort s.environment
      (Expansion.references block.node.leaf.text.toList) block.asked cause) :
    Complete s [block] (.error (s.failure (.expansion block.node.leaf.text cause)) :
      Except EvalError α) :=
  @cut s α [] block cause nofun hpath h

/-- Whatever a block asks for is a reference of its leaf. -/
theorem asks {outcome : Except EvalError α} (h : Complete s blocks outcome) {block : Block}
    (hblock : block ∈ blocks) {query : Query} (hquery : query ∈ block.asked) :
    Expansion.Asks block.node.leaf.text.toList query := by
  have hwhole : block.Whole → Expansion.Asks block.node.leaf.text.toList query := fun h =>
    Expansion.mem_references_iff.1 (h ▸ List.mem_map_of_mem hquery)
  cases h with
  | whole h => exact hwhole (h block hblock)
  | cut hfront hpath hlast =>
    rcases List.mem_append.1 hblock with hblock | hblock
    · exact hwhole (hfront block hblock)
    · rw [List.mem_singleton.1 hblock] at hquery ⊢
      exact Expansion.mem_references_iff.1 (hlast.mem hquery)

theorem append {outcome : Except EvalError α} (hfront : ∀ block ∈ front, block.Whole)
    (h : Complete s blocks outcome) : Complete s (front ++ blocks) outcome := by
  cases h with
  | whole h => exact .whole (List.forall_mem_append.2 ⟨hfront, h⟩)
  | cut hothers hpath hlast =>
    rw [← List.append_assoc]
    exact .cut (List.forall_mem_append.2 ⟨hfront, hothers⟩) hpath hlast

end Block.Complete

namespace Trace

variable {s : Setting} {root : Expr} {α β : Type} {ids ids' : List Nat} {memo after : Memo}
  {blocks blocks' : List Block} {events : List Event}

theorem nil {run : Run α} (hquestions : Event.questions run.events = [])
    (hmemo : ∀ id, (run.memo.get id).expanded = (memo.get id).expanded) :
    Trace s root ids memo run [] where
  questions := hquestions
  complete := .whole nofun
  of := nofun
  nodup := .nil
  fresh := nofun
  site := nofun
  grows id hid := by rwa [hmemo]
  untouched id _ _ := hmemo id

theorem single {run : Run α} {block : Block}
    (hquestions : Event.questions run.events = block.questions)
    (hcomplete : Block.Complete s [block] run.outcome) (hof : block.Of root)
    (hfresh : (memo.get block.id).expanded = none)
    (hsite : block.id ∈ ids ∨ block.id ∉ root.argumentIds ∧
      ∀ a, run.outcome = .ok a → (run.memo.get block.id).expanded ≠ none)
    (hmemo : ∀ id, id ≠ block.id → (run.memo.get id).expanded = (memo.get id).expanded) :
    Trace s root ids memo run [block] where
  questions := by rw [hquestions, List.flatMap_singleton]
  complete := hcomplete
  of := List.forall_mem_singleton.2 hof
  nodup := by simp
  fresh := List.forall_mem_singleton.2 hfresh
  site := List.forall_mem_singleton.2 hsite
  grows id hid := by
    rw [hmemo id fun hsame => hid (hsame ▸ hfresh)]
    exact hid
  untouched id hargument hid := by
    refine hmemo id fun hsame => ?_
    rcases hsite with hmem | ⟨hnot, -⟩
    · exact hid (hsame ▸ hmem)
    · exact hnot (hsame ▸ hargument)

/-- A step that fails may be given more arguments. -/
theorem of_error {e : EvalError}
    (h : Trace s root ids memo (⟨.error e, after, events⟩ : Run α) blocks) (hids : ids ⊆ ids') :
    Trace s root ids' memo (⟨.error e, after, events⟩ : Run β) blocks where
  questions := h.questions
  complete := h.complete.of_error
  of := h.of
  nodup := h.nodup
  fresh := h.fresh
  site block hblock := (h.site block hblock).imp (fun hid => hids hid) fun hid => ⟨hid.1, nofun⟩
  grows := h.grows
  untouched id hid hnot := h.untouched id hid fun hmem => hnot (hids hmem)

/-- The blocks of two steps in sequence are about different leaves: the first step has expanded its
operands and left alone the arguments of the second one. -/
theorem id_ne {a : α} {run : Run β}
    (h : Trace s root ids memo (⟨.ok a, after, events⟩ : Run α) blocks)
    (h' : Trace s root ids' after run blocks') (hids : ids ⊆ root.argumentIds)
    (hdisjoint : ∀ id ∈ ids, id ∉ ids') {block block' : Block} (hblock : block ∈ blocks)
    (hblock' : block' ∈ blocks') : block.id ≠ block'.id := by
  intro hsame
  rcases h.site block hblock with hid | ⟨-, hexpanded⟩
  · rcases h'.site block' hblock' with hid' | ⟨hnot, -⟩
    · exact hdisjoint _ hid (hsame ▸ hid')
    · exact hnot (hsame ▸ hids hid)
  · exact hexpanded a rfl (hsame ▸ h'.fresh block' hblock')

theorem append {a : α} {run : Run β}
    (h : Trace s root ids memo (⟨.ok a, after, events⟩ : Run α) blocks)
    (h' : Trace s root ids' after run blocks') (hids : ids ⊆ root.argumentIds)
    (hdisjoint : ∀ id ∈ ids, id ∉ ids') :
    Trace s root (ids ++ ids') memo { run with events := events ++ run.events }
      (blocks ++ blocks') where
  questions := by
    have hquestions := h.questions
    simp only at hquestions ⊢
    rw [Event.questions_append, hquestions, h'.questions, List.flatMap_append]
  complete := h'.complete.append h.complete.whole_of_ok
  of := List.forall_mem_append.2 ⟨h.of, h'.of⟩
  nodup := by
    rw [List.map_append, List.nodup_append]
    refine ⟨h.nodup, h'.nodup, ?_⟩
    intro id hid id' hid'
    obtain ⟨block, hblock, rfl⟩ := List.mem_map.1 hid
    obtain ⟨block', hblock', rfl⟩ := List.mem_map.1 hid'
    exact h.id_ne h' hids hdisjoint hblock hblock'
  fresh := by
    refine List.forall_mem_append.2 ⟨h.fresh, fun block hblock => ?_⟩
    by_contra hknown
    exact h.grows _ hknown (h'.fresh block hblock)
  site := by
    refine List.forall_mem_append.2 ⟨fun block hblock => ?_, fun block hblock => ?_⟩
    · rcases h.site block hblock with hid | ⟨hnot, hexpanded⟩
      · exact .inl (List.mem_append_left _ hid)
      · exact .inr ⟨hnot, fun _ _ => h'.grows _ (hexpanded a rfl)⟩
    · exact (h'.site block hblock).imp_left fun hid => List.mem_append_right _ hid
  grows id hid := h'.grows id (h.grows id hid)
  untouched id hid hnot := by
    rw [List.mem_append, not_or] at hnot
    exact (h'.untouched id hid hnot.2).trans (h.untouched id hid hnot.1)

end Trace

namespace EvalM

/-- The questions of a step fall into blocks, if the arguments that it uses up have not been
expanded before. -/
def Asks (s : Setting) (root : Expr) (α : Type) (arguments : List LeafNode) (step : EvalM α) :
    Prop :=
  ∀ memo : Memo, (arguments.map (·.mark.id)).Nodup →
    (∀ id ∈ arguments.map (·.mark.id), id ∈ root.argumentIds ∧ (memo.get id).expanded = none) →
    ∃ blocks, Trace s root (arguments.map (·.mark.id)) memo (step s memo) blocks

namespace Asks

variable {s : Setting} {root : Expr} {α β : Type} {arguments front back : List LeafNode}

/-- A step that asks nothing and expands nothing. -/
theorem of_silent {step : EvalM α}
    (hquestions : ∀ memo, Event.questions (step s memo).events = [])
    (hmemo : ∀ memo id, ((step s memo).memo.get id).expanded = (memo.get id).expanded) :
    Asks s root α [] step := by
  intro memo _ _
  exact ⟨[], .nil (hquestions memo) (hmemo memo)⟩

theorem weaken {step : EvalM α} (h : Asks s root α [] step) : Asks s root α arguments step := by
  intro memo _ _
  obtain ⟨blocks, htrace⟩ := h memo .nil nofun
  refine ⟨blocks, { htrace with
    site := fun block hblock => .inr ((htrace.site block hblock).resolve_left nofun)
    untouched := fun id hid _ => htrace.untouched id hid nofun }⟩

theorem bind {step : EvalM α} {next : α → EvalM β} (hstep : Asks s root α front step)
    (hnext : ∀ a, Asks s root β back (next a)) : Asks s root β (front ++ back) (step >>= next) := by
  intro memo hnodup hfresh
  rw [List.map_append] at hnodup hfresh ⊢
  obtain ⟨hfront, hback, hdisjoint⟩ := List.nodup_append.1 hnodup
  obtain ⟨hfreshFront, hfreshBack⟩ := List.forall_mem_append.1 hfresh
  obtain ⟨blocks, htrace⟩ := hstep memo hfront hfreshFront
  cases hrun : step s memo with
  | mk outcome after events =>
    rw [hrun] at htrace
    cases outcome with
    | error e =>
      rw [bind_of_error hrun]
      exact ⟨blocks, htrace.of_error (List.subset_append_left _ _)⟩
    | ok a =>
      have hapart : ∀ id ∈ front.map (·.mark.id), id ∉ back.map (·.mark.id) :=
        fun id hid hid' => hdisjoint id hid id hid' rfl
      obtain ⟨blocks', htrace'⟩ := hnext a after hback fun id hid => by
        obtain ⟨hargument, hnone⟩ := hfreshBack id hid
        refine ⟨hargument, (htrace.untouched id hargument fun hid' => ?_).trans hnone⟩
        exact hapart id hid' hid
      rw [bind_of_ok hrun]
      exact ⟨_, htrace.append htrace' (fun id hid => (hfreshFront id hid).1) hapart⟩

/-- Keeping something else than the text of a leaf asks and expands nothing. -/
theorem keep {id : Nat} {change : NodeMemo → NodeMemo}
    (h : ∀ slot, (change slot).expanded = slot.expanded) :
    Asks s root Unit [] (keep id change) := by
  refine of_silent (fun _ => rfl) fun memo other => ?_
  show ((memo.modify id change).get other).expanded = _
  rw [Memo.get_modify]
  split
  · exact h _
  · rfl

theorem law : Law (Asks s root) where
  weaken := weaken
  pure _ := of_silent (fun _ => rfl) fun _ _ => rfl
  fail _ := of_silent (fun _ => rfl) fun _ _ => rfl
  bind := bind
  setting hnext _ memo := hnext s memo
  known _ := of_silent (fun _ => rfl) fun _ _ => rfl
  keepNumber _ _ := keep fun _ => rfl
  keepVersion _ _ := keep fun _ => rfl
  note _ := of_silent (fun _ => rfl) fun _ _ => rfl
  recorded records := by
    refine of_silent (fun _ => ?_) fun _ _ => rfl
    show Event.questions (records.map _) = []
    rw [Event.questions, List.filterMap_map]
    exact List.filterMap_eq_nil_iff.2 fun _ _ => rfl

end Asks

end EvalM

end CondLang
