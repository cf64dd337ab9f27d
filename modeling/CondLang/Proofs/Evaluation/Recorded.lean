import CondLang.Proofs.Evaluation.Alike
import CondLang.Proofs.Evaluation.ShortCircuit
import CondLang.Proofs.Evaluation.Transparent
import CondLang.Proofs.Expansion.Bars
import CondLang.Proofs.Parser.Exact

/-!
# What evaluations record

An evaluation records a property and a value only if a comparison by `==` or `!=` has a literal on
one side and a text that may hold references on the other, and only what stands in the same place
between bars on both sides (`Expr.Pairs`).  The bars of the text are looked for without regard to
its references.  So the property is one that the text asks for, or its reference stands between two
bars inside another one (`Evaluator.compares_of_recorded`), and then the text may ask for something
else (`Evaluator.exists_recorded_unasked`).

What the literal is expanded to may come from the memo, so the memo has to be faithful along the
way: `EvalM.Records` says both, that a step keeps it so and that all it records is allowed.
-/

namespace CondLang

namespace Expr

/-- A tree compares a leaf that may hold references with one that holds none. -/
structure Compares (e : Expr) (pattern literal : LeafNode) : Prop where
  node : ∃ mark op, op.isEquality = true ∧
    (comparison mark op (leaf pattern) (leaf literal) ∈ e.nodes ∨
      comparison mark op (leaf literal) (leaf pattern) ∈ e.nodes)
  expandable : pattern.leaf.expandable = true
  literal : holdsReference literal.leaf.text = false

theorem Compares.mem_leaves {e : Expr} {pattern literal : LeafNode}
    (h : e.Compares pattern literal) : pattern ∈ e.leaves := by
  obtain ⟨mark, op, -, hnode | hnode⟩ := h.node
  · exact leaves_subset_of_mem_nodes hnode List.mem_cons_self
  · exact leaves_subset_of_mem_nodes hnode (List.mem_cons_of_mem _ List.mem_cons_self)

/-- A tree compares a property with a value: in a leaf and in what the literal is expanded to that
the leaf is compared with, they stand in the same place between bars. -/
def Pairs (s : Setting) (e : Expr) (name value : String) : Prop :=
  ∃ pattern literal, e.Compares pattern literal ∧ ∃ text, literal.leaf.expandedIn s = .ok text ∧
    (name, value) ∈ matchParts pattern.leaf.text text

theorem exists_of_shape {left right : Expr}
    (h : (left.refersToProperty && right.isLiteral) = true) :
    ∃ pattern literal, left = leaf pattern ∧ right = leaf literal ∧
      pattern.leaf.expandable = true ∧ holdsReference literal.leaf.text = false := by
  obtain ⟨hpattern, hliteral⟩ := Bool.and_eq_true_iff.1 h
  cases left with
  | leaf pattern =>
    cases right with
    | leaf literal =>
      exact ⟨pattern, literal, rfl, rfl, (Bool.and_eq_true_iff.1 hpattern).1,
        by simpa [isLiteral] using hliteral⟩
    | _ => cases hliteral
  | _ => cases hpattern

end Expr

/-! ## Steps that record nothing -/

theorem Event.records_asked (queries : List Query) :
    records (queries.map fun query => .asked (.query query)) = [] := by
  rw [records, List.filterMap_map]
  exact List.filterMap_eq_nil_iff.2 fun _ _ => rfl

theorem Event.records_recorded (pairs : List (String × String)) :
    records (pairs.map fun (name, value) => .recorded name value) = pairs := by
  rw [records, List.filterMap_map]
  exact List.filterMap_some

/-- A step records nothing. -/
def EvalM.Quiet : StepProperty := fun _ _ step =>
  ∀ s memo, Event.records (step s memo).events = []

namespace EvalM.Quiet

variable {α β : Type} {arguments : List LeafNode}

theorem bind {step : EvalM α} {next : α → EvalM β} (hstep : Quiet α arguments step)
    (hnext : ∀ a, Quiet β arguments (next a)) : Quiet β arguments (step >>= next) := by
  intro s memo
  rcases hrun : step s memo with ⟨outcome | a, after, events⟩
  all_goals have hevents : Event.records events = [] := by simpa only [hrun] using hstep s memo
  · rw [bind_of_error hrun]
    exact hevents
  · rw [bind_of_ok hrun, Event.records_append, hevents]
    exact hnext a s after

theorem setting_bind {next : Setting → EvalM α} (h : ∀ s, Quiet α arguments (next s)) :
    Quiet α arguments (setting >>= next) := bind (fun _ _ => rfl) h

theorem compositional : Compositional Quiet where
  weaken h := h
  pure _ _ _ := rfl
  fail _ _ _ := rfl
  bind hstep hnext := bind hstep hnext
  source hnext _ := setting_bind hnext
  note _ _ _ := rfl

theorem expanded (node : LeafNode) : Quiet String arguments node.expanded := by
  unfold LeafNode.expanded
  split
  · refine bind (fun _ _ => rfl) fun known => ?_
    split
    · exact fun _ _ => rfl
    · refine setting_bind fun s => bind (fun _ _ => ?_) fun _ => ?_
      · exact Event.records_asked _
      · split
        · exact fun _ _ => rfl
        · exact bind (fun _ _ => rfl) fun _ _ _ => rfl
  · exact fun _ _ => rfl

theorem leaf (node : LeafNode) : node.Follows Quiet :=
  compositional.leaf_follows (expanded node) (fun _ _ => rfl) (fun _ _ _ => rfl) fun _ _ _ => rfl

theorem call (name : String) (arguments : List LeafNode) :
    Quiet Bool arguments (Expr.callFunction name arguments) :=
  compositional.call_of_expanded name (fun argument _ => expanded argument) fun _ =>
    compositional.askPath (fun _ _ => rfl) (setting_bind fun _ _ _ => rfl)

end EvalM.Quiet

/-! ## Steps that record what is allowed -/

/-- A step leaves faithful memos faithful, and from them it records only what is allowed. -/
def EvalM.Records (s : Setting) (labels : Labels) (allowed : String → String → Prop) :
    StepProperty := fun _ _ step =>
  ∀ (recording : Bool) (memo : Memo), memo.Faithful s labels →
    (step { s with recording } memo).memo.Faithful s labels ∧
      ∀ name value, (name, value) ∈ Event.records (step { s with recording } memo).events →
        allowed name value

namespace EvalM.Records

variable {s : Setting} {labels : Labels} {allowed : String → String → Prop} {α β : Type}
  {front back arguments : List LeafNode}

/-- A step that answers and records nothing. -/
theorem of_answers {step : EvalM α} {answer : Except EvalError α}
    (h : Answers s labels True step answer) (hquiet : Quiet α arguments step) :
    Records s labels allowed α arguments step := by
  intro recording memo hmemo
  refine ⟨(h recording memo hmemo).1, fun name value hpair => ?_⟩
  rw [hquiet] at hpair
  cases hpair

theorem emit {pairs : List (String × String)}
    (h : ∀ name value, (name, value) ∈ pairs → allowed name value) :
    Records s labels allowed Unit arguments
      (emit (pairs.map fun (name, value) => .recorded name value)) := by
  intro recording memo hmemo
  refine ⟨hmemo, fun name value hpair => h name value ?_⟩
  exact Event.records_recorded pairs ▸ hpair

/-- A step may be followed by one that records what is allowed after an answer it can have. -/
theorem bind_of_outcome {step : EvalM α} {next : α → EvalM β}
    (hstep : Records s labels allowed α front step)
    (hnext : ∀ a, (∃ recording memo, memo.Faithful s labels ∧
      (step { s with recording } memo).outcome = .ok a) →
      Records s labels allowed β back (next a)) :
    Records s labels allowed β (front ++ back) (step >>= next) := by
  intro recording memo hmemo
  obtain ⟨hafter, hfirst⟩ := hstep recording memo hmemo
  rcases hrun : step { s with recording } memo with ⟨outcome | a, after, events⟩
  all_goals rw [hrun] at hafter hfirst
  · rw [bind_of_error hrun]
    exact ⟨hafter, hfirst⟩
  · rw [bind_of_ok hrun]
    obtain ⟨hend, hlast⟩ := hnext a ⟨recording, memo, hmemo, by rw [hrun]⟩ recording after hafter
    refine ⟨hend, fun name value hpair => ?_⟩
    rw [Event.records_append, List.mem_append] at hpair
    exact hpair.elim (hfirst name value) (hlast name value)

theorem setting_bind {next : Setting → EvalM α}
    (hnext : ∀ recording, Records s labels allowed α arguments (next { s with recording })) :
    Records s labels allowed α arguments (setting >>= next) :=
  fun recording memo hmemo => hnext recording recording memo hmemo

theorem compositional : Compositional (Records s labels allowed) where
  weaken h := h
  pure a := of_answers (.pure a) fun _ _ => rfl
  fail kind := of_answers (.fail kind) fun _ _ => rfl
  bind hstep hnext := bind_of_outcome hstep fun a _ => hnext a
  source hnext _ := setting_bind fun _ => hnext _
  note n := of_answers (.note n) fun _ _ => rfl

theorem leaf {node : LeafNode} (h : node.Fits labels True) :
    node.Follows (Records s labels allowed) where
  expanded := of_answers h.expanded (Quiet.leaf node).expanded
  number? := of_answers h.number? (Quiet.leaf node).number?
  version? := of_answers h.version? (Quiet.leaf node).version?

theorem record {root pattern literal : Expr} (hfits : literal.Fits labels True)
    (hshape : (pattern.refersToProperty && literal.isLiteral) = true)
    (hnode : ∃ mark op, op.isEquality = true ∧
      (.comparison mark op pattern literal ∈ root.nodes ∨
        .comparison mark op literal pattern ∈ root.nodes)) :
    Records s labels (root.Pairs s) Unit [] (Expr.recordCompared.record pattern literal) := by
  obtain ⟨pattern, literal, rfl, rfl, hexpandable, hliteral⟩ := Expr.exists_of_shape hshape
  have hexpanded : Records s labels (root.Pairs s) String [] literal.expanded :=
    (leaf hfits.leaf_node).expanded
  refine setting_bind fun _ => bind_of_outcome hexpanded ?_
  rintro text ⟨recording, memo, hmemo, houtcome⟩
  have hanswer := (hfits.leaf_node.expanded recording memo hmemo).2 trivial
  refine emit fun name value hpair => ?_
  exact ⟨pattern, literal, ⟨hnode, hexpandable, hliteral⟩, text, hanswer.symm.trans houtcome, hpair⟩

/-- A comparison by `==` or `!=` records what it compares properties with. -/
theorem recordCompared {root left right : Expr} {mark : Mark} {op : Relation}
    (hleft : left.Fits labels True) (hright : right.Fits labels True) (hop : op.isEquality = true)
    (hnode : .comparison mark op left right ∈ root.nodes) :
    Records s labels (root.Pairs s) Unit [] (Expr.recordCompared left right) := by
  refine setting_bind fun recording => ?_
  split
  · split
    · next hshape => exact record hright hshape ⟨mark, op, hop, .inl hnode⟩
    · split
      · next hshape => exact record hleft hshape ⟨mark, op, hop, .inr hnode⟩
      · exact compositional.pure ()
  · exact compositional.pure ()

/-- All that an evaluation is put together from records only what the tree compares. -/
theorem follows {root e : Expr} (h : e.Fits labels True) (hnodes : e.nodes ⊆ root.nodes) :
    e.Follows (Records s labels (root.Pairs s)) := by
  induction e with
  | leaf node => exact leaf h.leaf_node
  | call mark name arguments => exact of_answers h.call (Quiet.call name arguments)
  | not mark operand ih => exact ih h (List.subset_of_cons_subset hnodes)
  | logical mark op left right ihl ihr =>
    obtain ⟨hleft, hright⟩ := List.append_subset.1 (List.subset_of_cons_subset hnodes)
    exact ⟨ihl h.logical_left hleft, ihr h.logical_right hright⟩
  | comparison mark op left right ihl ihr =>
    obtain ⟨hleft, hright⟩ := List.append_subset.1 (List.subset_of_cons_subset hnodes)
    exact ⟨ihl h.comparison_left hleft, ihr h.comparison_right hright, fun hop =>
      recordCompared h.comparison_left h.comparison_right hop (hnodes List.mem_cons_self)⟩

end EvalM.Records

/-! ## Pieces of the leaves of a tree -/

/-- Whether a piece is a reference with a bar in it. -/
def Piece.holdsBar : Piece → Bool
  | .reference _ inner => inner.contains '|'
  | .literal _ => false

/-- Whether a piece is a reference to a property. -/
def Piece.isProperty : Piece → Bool
  | .reference .property _ => true
  | _ => false

theorem Expansion.Encloses.exists_holdsBar {text part : List Char} (h : Encloses text part) :
    ∃ piece ∈ pieces text, piece.holdsBar = true := by
  obtain ⟨kind, front, back, hpiece⟩ := h
  exact ⟨_, hpiece, by simp [Piece.holdsBar]⟩

theorem Expansion.Asks.exists_isProperty {text : List Char} {name : String}
    (h : Asks text (.property name)) : ∃ piece ∈ pieces text, piece.isProperty = true := by
  obtain ⟨kind, inner, hpiece, hquery⟩ := h
  obtain rfl : ReferenceKind.property = kind := Query.kind_of_parse hquery
  exact ⟨_, hpiece, rfl⟩

namespace Expr

/-- Whether the text of some leaf of a tree has a piece of some sort. -/
def anyPiece (e : Expr) (sort : Piece → Bool) : Bool :=
  e.leaves.any fun node => (Expansion.pieces node.leaf.text.toList).any sort

theorem Compares.eq_false_of_anyPiece {e : Expr} {pattern literal : LeafNode}
    {sort : Piece → Bool} {piece : Piece} (h : e.Compares pattern literal)
    (hnone : e.anyPiece sort = false)
    (hpiece : piece ∈ Expansion.pieces pattern.leaf.text.toList) : sort piece = false := by
  have hpattern := List.any_eq_false.1 hnone pattern h.mem_leaves
  exact Bool.eq_false_iff.2 (List.any_eq_false.1 (Bool.eq_false_iff.2 hpattern) piece hpiece)

end Expr

/-! ## Whole evaluations -/

/-- What is matched with a literal is a property that a text asks for, or whose reference stands
between two bars inside another one. -/
theorem Expr.asks_or_encloses_of_mem_matchParts {pattern literal name value : String}
    (h : (name, value) ∈ matchParts pattern literal) :
    Expansion.Asks pattern.toList (.property name) ∨
      ∃ part, soleProperty? part = some name ∧ Expansion.Encloses pattern.toList part := by
  dsimp only [matchParts] at h
  split at h
  · obtain ⟨⟨part, chars⟩, hzip, hpair⟩ := List.mem_filterMap.1 h
    obtain ⟨found, hname, heq⟩ := Option.map_eq_some_iff.1 hpair
    cases heq
    obtain ⟨others, behind, hparts⟩ := List.append_of_mem (List.of_mem_zip hzip).1
    obtain ⟨before, after, htext, hcut⟩ := Text.exists_cut_of_splitOn hparts
    obtain ⟨inner, hsole⟩ := Expansion.exists_sole_of_soleProperty? hname
    rw [htext]
    exact (Expansion.asks_or_encloses hsole hcut).imp_right fun hencloses =>
      ⟨part, hname, hencloses⟩
  · cases h

/-- Whatever is recorded in an evaluation, the condition compares it by `==` or `!=`: one side is a
text that may hold references and the other one a literal, and the property and the value stand in
the same place between bars.  The text asks for the property, so that its expansion does if it
succeeds, or the reference to the property stands between two bars inside another reference of the
text. -/
theorem Evaluator.compares_of_recorded {text : String} {policy : Policy} {condition : Condition}
    (hparse : Condition.parse text policy = .ok condition) (evaluator : Evaluator)
    (env : Environment) {name value : String}
    (hrecorded : .recorded name value ∈ (evaluator.evaluate condition env).1.events) :
    ∃ pattern literal shown,
      condition.root.Compares pattern literal ∧
      literal.leaf.expandedIn ⟨env, condition.text, true⟩ = .ok shown ∧
      (name, value) ∈ Expr.matchParts pattern.leaf.text shown ∧
      ((Expansion.Asks pattern.leaf.text.toList (.property name) ∧
          ∀ result, (Expansion.ofText env pattern.leaf.text).outcome = .ok result →
            .property name ∈ (Expansion.ofText env pattern.leaf.text).asked) ∨
        ∃ part, Expr.soleProperty? part = some name ∧
          Expansion.Encloses pattern.leaf.text.toList part) := by
  let s : Setting := ⟨env, condition.text, true⟩
  have hfits := Condition.fits_labels hparse (Expr.self_mem_nodes condition.root) True
  have hrecords : EvalM.Records s condition.root.labels (condition.root.Pairs s) Bool
      condition.root.arguments condition.root.evaluate :=
    EvalM.Records.compositional.evaluate (EvalM.Records.follows hfits (List.Subset.refl _))
  have hpair : (name, value) ∈ Event.records (evaluator.evaluate condition env).1.events :=
    List.mem_filterMap.2 ⟨_, hrecorded, rfl⟩
  rw [evaluator.evaluate_fst] at hpair
  obtain ⟨pattern, literal, hcompares, shown, hshown, hmem⟩ :=
    (hrecords evaluator.conditioned.isSome .empty .empty).2 name value hpair
  refine ⟨pattern, literal, shown, hcompares, hshown, hmem, ?_⟩
  refine (Expr.asks_or_encloses_of_mem_matchParts hmem).imp_left fun hasks => ?_
  exact ⟨hasks, fun result hresult => hasks.mem_asked hresult⟩

/-- Of two references between bars the second one is recorded, and the text asks for it. -/
theorem Evaluator.compares_of_recorded_second :
    let env := Environment.constant ""
    ∃ condition, Condition.parse "'$(A)|$(B)' == 'x|y'" .everything = .ok condition ∧
      .recorded "B" "y" ∈ (recording.evaluate condition env).1.events ∧
      ∃ pattern literal, condition.root.Compares pattern literal ∧
        Expansion.Asks pattern.leaf.text.toList (.property "B") := by
  intro env
  have hrun : (Condition.parse "'$(A)|$(B)' == 'x|y'" .everything).toOption.map (fun condition =>
      (decide (.recorded "B" "y" ∈ (recording.evaluate condition env).1.events),
        condition.root.anyPiece Piece.holdsBar)) = some (true, false) := by
    decide +kernel
  obtain ⟨condition, hparse, hcondition⟩ := Condition.exists_of_map_parse_eq_some hrun
  obtain ⟨hrecorded, hbars⟩ := Prod.mk.inj hcondition
  have hrecorded := of_decide_eq_true hrecorded
  obtain ⟨pattern, literal, shown, hcompares, -, -, ⟨hasks, -⟩ | ⟨part, -, hencloses⟩⟩ :=
    compares_of_recorded hparse recording env hrecorded
  · exact ⟨condition, hparse, hrecorded, pattern, literal, hcompares, hasks⟩
  · obtain ⟨piece, hpiece, hbar⟩ := hencloses.exists_holdsBar
    rw [hcompares.eq_false_of_anyPiece hbars hpiece] at hbar
    cases hbar

/-- It is not true that a text asks for all that is recorded of it. -/
theorem Evaluator.exists_recorded_unasked :
    ¬∀ (text : String) (policy : Policy) (condition : Condition) (env : Environment)
      (name value : String), Condition.parse text policy = .ok condition →
      .recorded name value ∈ (recording.evaluate condition env).1.events →
      ∃ pattern literal, condition.root.Compares pattern literal ∧
        Expansion.Asks pattern.leaf.text.toList (.property name) := by
  intro hall
  let env := Environment.constant ""
  have hrun : (Condition.parse "@(S->'a|$(A)|b') == 'x|y|z'" .everything).toOption.map
      (fun condition => (decide (.recorded "A" "y" ∈ (recording.evaluate condition env).1.events),
        condition.root.anyPiece Piece.isProperty)) = some (true, false) := by
    decide +kernel
  obtain ⟨condition, hparse, hcondition⟩ := Condition.exists_of_map_parse_eq_some hrun
  obtain ⟨hrecorded, hpieces⟩ := Prod.mk.inj hcondition
  obtain ⟨pattern, literal, hcompares, hasks⟩ :=
    hall _ _ condition env "A" "y" hparse (of_decide_eq_true hrecorded)
  obtain ⟨piece, hpiece, hproperty⟩ := hasks.exists_isProperty
  rw [hcompares.eq_false_of_anyPiece hpieces hpiece] at hproperty
  cases hproperty

end CondLang
