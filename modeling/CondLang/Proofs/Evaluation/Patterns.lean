import CondLang.Proofs.Evaluation.Conditioned
import CondLang.Proofs.Evaluation.Recorded
import CondLang.Proofs.Reference.Named
import CondLang.Proofs.Requoted
import CondLang.Proofs.Text.PercentEncoding

/-!
# Patterns of properties

A pattern is a string of references to properties with bars between them, such as `$(A)|$(B)`.
Whoever compares it with a literal means one value for each property, and that is what is recorded:
the parts of the literal in their order if there are as many of them as there are properties, and
nothing otherwise (`Evaluator.records_pattern`).  The values are recorded before either side is
expanded, so how the comparison ends does not matter.
-/

namespace CondLang

open Character (isName isNameChar)

/-! ## Trimming -/

namespace Text

/-- What has no blanks at its ends is not trimmed. -/
theorem trimmed_of_ends {text : List Char} (hhead : ∀ c ∈ text.head?, isBlank c = false)
    (hlast : ∀ c ∈ text.getLast?, isBlank c = false) : trimmed text = text := by
  have hdrop : ∀ {text : List Char}, (∀ c ∈ text.head?, isBlank c = false) →
      dropBlanks text = text := by
    intro text hhead
    cases text with
    | nil => rfl
    | cons c rest => exact List.dropWhile_cons_of_neg (Bool.eq_false_iff.1 (hhead c rfl))
  rw [trimmed, hdrop hhead, hdrop, List.reverse_reverse]
  rwa [List.head?_reverse]

end Text

/-! ## Patterns -/

namespace Conditioned

/-- The reference to a property. -/
def reference (name : String) : String := "$(" ++ name ++ ")"

/-- References to properties with bars between them. -/
def pattern (names : List String) : String := "|".intercalate (names.map reference)

variable {name : String} {names : List String}

theorem toList_reference (name : String) :
    (reference name).toList = '$' :: '(' :: (name.toList ++ [')']) := by
  rw [reference, String.toList_append, String.toList_append]
  rfl

theorem toList_pattern (names : List String) :
    (pattern names).toList = ['|'].intercalate (names.map fun name => (reference name).toList) := by
  rw [pattern, String.toList_intercalate, List.map_map]
  rfl

/-- The parts of a pattern are its references. -/
theorem splitOn_pattern (hne : names ≠ []) (hnames : ∀ name ∈ names, isName name.toList = true) :
    Text.splitOn '|' (pattern names).toList =
      names.map fun name => (reference name).toList := by
  refine (Text.splitOn_eq_iff (by simpa using hne) fun part hpart hbar => ?_).2
    (toList_pattern names)
  obtain ⟨name, hname, rfl⟩ := List.mem_map.1 hpart
  have hchars := (Character.isName_iff.1 (hnames name hname)).2
  rw [toList_reference, List.mem_cons, List.mem_cons, List.mem_append, List.mem_singleton] at hbar
  rcases hbar with hbar | hbar | hbar | hbar
  · cases hbar
  · cases hbar
  · exact absurd (hchars _ hbar) (by decide +kernel)
  · cases hbar

/-- A reference of a pattern is one to its property. -/
theorem soleProperty?_reference (hname : isName name.toList = true) :
    Expr.soleProperty? (reference name).toList = some name := by
  obtain ⟨-, hchars⟩ := Character.isName_iff.1 hname
  have hblank : ∀ c ∈ name.toList, Text.isBlank c = false := fun c hc =>
    Character.isBlank_of_isNameChar (hchars c hc)
  have htrimmed : Text.trimmed (reference name).toList = '$' :: '(' :: (name.toList ++ [')']) := by
    rw [toList_reference]
    refine Text.trimmed_of_ends ?_ ?_
    · rintro c ⟨⟩
      decide
    · intro c hc
      rw [← List.cons_append, ← List.cons_append, List.getLast?_concat] at hc
      cases hc
      decide
  have hinner : Text.trimmed name.toList = name.toList :=
    Text.trimmed_of_ends (fun c hc => hblank c (List.mem_of_mem_head? hc))
      fun c hc => hblank c (List.mem_of_mem_getLast? hc)
  unfold Expr.soleProperty?
  rw [htrimmed]
  simp [hinner, hname]

/-- A pattern is matched with a text that has as many parts. -/
theorem matchParts_pattern (hne : names ≠ [])
    (hnames : ∀ name ∈ names, isName name.toList = true) (value : String) :
    Expr.matchParts (pattern names) value =
      if (Text.splitText '|' value).length = names.length then
        names.zip (Text.splitText '|' value)
      else [] := by
  have hpairs : ∀ (pair? : List Char × List Char → Option (String × String)),
      (∀ part value, pair? (part, value) =
        (Expr.soleProperty? part).map (·, String.ofList value)) →
      ∀ (names : List String) (values : List (List Char)),
        (∀ name ∈ names, isName name.toList = true) →
        ((names.map fun name => (reference name).toList).zip values).filterMap pair? =
          names.zip (values.map .ofList) := by
    intro pair? hpair names values hnames
    induction names generalizing values with
    | nil => rfl
    | cons name names ih =>
      obtain ⟨hname, hothers⟩ := List.forall_mem_cons.1 hnames
      cases values with
      | nil => rfl
      | cons value values =>
        have hfirst : pair? ((reference name).toList, value) = some (name, .ofList value) := by
          rw [hpair, soleProperty?_reference hname]
          rfl
        rw [List.map_cons, List.zip_cons_cons, List.filterMap_cons_some hfirst,
          ih values hothers]
        rfl
  dsimp only [Expr.matchParts]
  rw [splitOn_pattern hne hnames, hpairs _ (fun _ _ => rfl) _ _ hnames, Text.splitText,
    List.length_map, List.length_map]
  simp only [eq_comm]

/-- A pattern starts with a reference to a property. -/
theorem front_pattern (hne : names ≠ []) (hnames : ∀ name ∈ names, isName name.toList = true) :
    ∃ group left, Reference.front (pattern names).toList = .closed .property group left := by
  obtain ⟨name, others, rfl⟩ := List.exists_cons_of_ne_nil hne
  obtain ⟨hname, -⟩ := List.forall_mem_cons.1 hnames
  have hchars := (Character.isName_iff.1 hname).2
  have hgroup : Reference.IsGroup ('(' :: (name.toList ++ [')'])) :=
    Reference.isGroup_of_name hchars rfl
  have hstart : ∃ left, (pattern (name :: others)).toList = (reference name).toList ++ left := by
    rw [toList_pattern, List.map_cons]
    cases others with
    | nil => exact ⟨[], by simp⟩
    | cons next others =>
      exact ⟨_, by rw [List.map_cons, List.intercalate_cons_cons, List.append_assoc]⟩
  obtain ⟨left, hleft⟩ := hstart
  refine ⟨_, left, Reference.front_eq_closed_iff.2 ⟨hgroup, ?_⟩⟩
  rw [hleft, toList_reference]
  rfl

/-- A pattern holds references, and opens one to a property. -/
theorem holdsReference_pattern (hne : names ≠ [])
    (hnames : ∀ name ∈ names, isName name.toList = true) :
    holdsReference (pattern names) = true ∧
      Policy.opens .property (pattern names).toList = true ∧
      (Expansion.pieces (pattern names).toList).any Piece.expandable = true := by
  obtain ⟨group, left, hfront⟩ := front_pattern hne hnames
  obtain ⟨hgroup, htext⟩ := Reference.front_eq_closed_iff.1 hfront
  obtain ⟨inner, hinner⟩ := hgroup.exists_eq
  refine ⟨?_, ?_, ?_⟩
  · rw [holdsReference, htext, Expansion.holdsReference, ← htext, hfront]
  · rw [htext, hinner]
    rfl
  · rw [htext, Expansion.pieces_group hgroup]
    rfl

/-- A pattern may stand in quotes. -/
theorem quotable_pattern (hnames : ∀ name ∈ names, isName name.toList = true) :
    Lexeme.Quotable (pattern names).toList := by
  have hreference : ∀ {name : String} {rest : List Char}, isName name.toList = true →
      Lexeme.Quotable rest → Lexeme.Quotable ((reference name).toList ++ rest) := by
    intro name rest hname hrest
    rw [toList_reference]
    show Lexeme.Quotable (ReferenceKind.property.sigil :: _)
    exact .reference (Reference.isGroup_of_name (Character.isName_iff.1 hname).2 rfl) hrest
  have hbar : ∀ rest, Reference.opening? ('|' :: rest) = none := fun rest =>
    Reference.opening?_cons_eq_none_iff.2 fun _ => rfl
  rw [toList_pattern]
  induction names with
  | nil => exact .nil
  | cons name others ih =>
    obtain ⟨hname, hothers⟩ := List.forall_mem_cons.1 hnames
    cases others with
    | nil =>
      rw [List.map_singleton, List.intercalate_singleton]
      have hsingle := hreference hname .nil
      rwa [List.append_nil] at hsingle
    | cons next others =>
      rw [List.map_cons, List.map_cons, List.intercalate_cons_cons, List.append_assoc]
      exact hreference hname (.literal (by decide) (hbar _) (ih hothers))

end Conditioned

/-! ## Recording -/

namespace Expr

variable {s : Setting} {labels : Labels} {memo : Memo} {pattern literal : LeafNode}

/-- A tree compares two leaves by `==` or `!=`, and nothing else; the first one of them may stand on
either side. -/
def IsComparison (e : Expr) (pattern literal : LeafNode) : Prop :=
  ∃ mark op, op.isEquality = true ∧
    (e = comparison mark op (leaf pattern) (leaf literal) ∨
      e = comparison mark op (leaf literal) (leaf pattern))

/-- What is recorded of a pattern and a literal are the parts that match. -/
theorem records_record (hliteral : literal.Fits labels True) (hmemo : memo.Faithful s labels)
    {value : String} (hvalue : literal.leaf.expandedIn s = .ok value) :
    Event.records (recordCompared.record (leaf pattern) (leaf literal) s memo).events =
      matchParts pattern.leaf.text value := by
  have hexpanded : (literal.expanded s memo).outcome = .ok value :=
    ((hliteral.expanded s.recording memo hmemo).2 trivial).trans hvalue
  have hsilent : EvalM.Quiet String [] literal.expanded := .expanded literal
  have hquiet := hsilent s memo
  rcases hrun : literal.expanded s memo with ⟨outcome, after, events⟩
  rw [hrun] at hexpanded hquiet
  obtain rfl : outcome = .ok value := hexpanded
  show Event.records ((literal.expanded >>= fun value =>
    EvalM.emit ((matchParts pattern.leaf.text value).map _)) s memo).events = _
  rw [EvalM.bind_of_ok hrun, Event.records_append, hquiet]
  exact Event.records_recorded _

/-- Comparing leaves by `==` or `!=` records what there is to record and compares them. -/
theorem boolean_leaves {mark : Mark} {op : Relation} (hop : op.isEquality = true)
    (left right : LeafNode) :
    (comparison mark op (leaf left) (leaf right)).boolean =
      recordCompared (leaf left) (leaf right) >>= fun _ =>
        compareLeaves op (leaf left) (leaf right) := by
  rw [boolean, if_pos hop]
  rfl

/-- A recording evaluation looks for a pattern on the left side first. -/
theorem recordCompared_apply (hrecording : s.recording = true) (left right : Expr) :
    recordCompared left right s memo =
      (if left.refersToProperty && right.isLiteral then recordCompared.record left right
        else if right.refersToProperty && left.isLiteral then recordCompared.record right left
        else pure ()) s memo := by
  show (if s.recording then _ else _ : EvalM Unit) s memo = _
  rw [if_pos hrecording]

/-- Of two leaves that are compared by `==` or `!=` the properties of the one that refers to some
are recorded with the values of the other one, if that is a literal; and that is all that is
recorded. -/
theorem records_boolean {e : Expr} (he : e.IsComparison pattern literal)
    (hrecording : s.recording = true) (hpattern : (leaf pattern).refersToProperty = true)
    (hnot : (leaf pattern).isLiteral = false) (hliteral : (leaf literal).isLiteral = true)
    (hfits : literal.Fits labels True) (hmemo : memo.Faithful s labels) {value : String}
    (hvalue : literal.leaf.expandedIn s = .ok value) :
    Event.records (e.boolean s memo).events = matchParts pattern.leaf.text value := by
  have hbind : ∀ (op : Relation) (left right : LeafNode),
      Event.records ((recordCompared (leaf left) (leaf right) >>= fun _ =>
        compareLeaves op (leaf left) (leaf right)) s memo).events =
      Event.records (recordCompared (leaf left) (leaf right) s memo).events := by
    intro op left right
    -- Whatever comes behind the recording records nothing.
    have hquiet : EvalM.Quiet Bool [] (compareLeaves op (leaf left) (leaf right)) :=
      EvalM.Quiet.compositional.compareLeaves op (EvalM.Quiet.leaf left) (EvalM.Quiet.leaf right)
    rcases hrun : recordCompared (leaf left) (leaf right) s memo with ⟨outcome | a, after, events⟩
    · rw [EvalM.bind_of_error hrun]
    · rw [EvalM.bind_of_ok hrun, Event.records_append, hquiet s after]
      exact List.append_nil _
  have hrecord : Event.records (recordCompared.record (leaf pattern) (leaf literal) s memo).events =
      _ := records_record hfits hmemo hvalue
  obtain ⟨mark, op, hop, rfl | rfl⟩ := he
  · rw [boolean_leaves hop, hbind, recordCompared_apply hrecording, hpattern, hliteral]
    exact hrecord
  · rw [boolean_leaves hop, hbind, recordCompared_apply hrecording, hpattern, hliteral, hnot,
      Bool.and_false]
    exact hrecord

end Expr

/-! ## Conditions that compare a pattern -/

namespace Evaluator

variable {text : String} {policy : Policy} {condition : Condition} {names : List String}
  {pattern literal : LeafNode}

/-- The values of a literal that are recorded of a pattern: there must be one for each property. -/
def matched (names : List String) (literal : Leaf) : List (String × String) :=
  let values := Text.splitText '|' (Text.unescape literal.text)
  if values.length = names.length then names.zip values else []

/-- A literal of a condition is expanded to its text without escapes. -/
theorem expandedIn_literal (hparse : Condition.parse text policy = .ok condition)
    (hnode : literal ∈ condition.root.leaves) (hliteral : holdsReference literal.leaf.text = false)
    (s : Setting) : literal.leaf.expandedIn s = .ok (Text.unescape literal.leaf.text) := by
  unfold Leaf.expandedIn
  split
  · rw [expand_of_not_holdsReference _ hliteral]
    rfl
  · next hplain =>
    rw [Bool.not_eq_true] at hplain
    rw [Text.unescape_of_not_mem]
    exact Expansion.not_mem_of_any_expandable
      (Condition.pieces_of_not_expandable hparse hnode hplain)

theorem records_evaluate (hparse : Condition.parse text policy = .ok condition)
    (hroot : condition.root.IsComparison pattern literal) (hne : names ≠ [])
    (hnames : ∀ name ∈ names, isName name.toList = true)
    (hpattern : pattern.leaf.text = Conditioned.pattern names)
    (hliteral : holdsReference literal.leaf.text = false) (env : Environment) :
    Event.records (condition.root.evaluate ⟨env, condition.text, true⟩ .empty).events =
      matched names literal.leaf := by
  obtain ⟨hholds, hopens, hexpandable⟩ := Conditioned.holdsReference_pattern hne hnames
  have hleaves : pattern ∈ condition.root.leaves ∧ literal ∈ condition.root.leaves := by
    obtain ⟨mark, op, -, hroot | hroot⟩ := hroot <;> simp [hroot, Expr.leaves]
  have hfits := Condition.fits_labels hparse (Expr.self_mem_nodes condition.root) True
  have hrefers : (Expr.leaf pattern).refersToProperty = true := by
    rw [Expr.refersToProperty, hpattern, hopens, Bool.and_true]
    refine Bool.of_not_eq_false fun hplain => ?_
    have hpieces := Condition.pieces_of_not_expandable hparse hleaves.1 hplain
    rw [hpattern, hexpandable] at hpieces
    cases hpieces
  have hnot : (Expr.leaf pattern).isLiteral = false := by
    rw [Expr.isLiteral, hpattern, hholds]
    rfl
  have hlit : (Expr.leaf literal).isLiteral = true := by
    rw [Expr.isLiteral, hliteral]
    rfl
  have hboolean := Expr.records_boolean hroot (s := ⟨env, condition.text, true⟩) rfl hrefers hnot
    hlit (hfits literal hleaves.2) .empty (expandedIn_literal hparse hleaves.2 hliteral _)
  rw [hpattern, Conditioned.matchParts_pattern hne hnames] at hboolean
  rw [matched, ← hboolean]
  obtain ⟨mark, op, -, hroot | hroot⟩ := hroot <;> rw [hroot] <;> rfl

/-- A pattern in quotes. -/
def quoted (names : List String) : String := "'" ++ Conditioned.pattern names ++ "'"

theorem spells_quoted (hne : names ≠ []) (hnames : ∀ name ∈ names, isName name.toList = true)
    (rest : List Char) :
    Lexeme.Spells (quoted names).toList (.text .string (Conditioned.pattern names) true) rest := by
  have hspells : Lexeme.Spells _ _ rest := .quoted (Conditioned.quotable_pattern hnames)
  rw [(Conditioned.holdsReference_pattern hne hnames).2.2, String.ofList_toList] at hspells
  rwa [quoted, String.toList_append, String.toList_append]

/-- Whatever is written as a literal can be compared with a pattern, on either side. -/
theorem exists_isComparison (hne : names ≠ [])
    (hnames : ∀ name ∈ names, isName name.toList = true) {op : Relation}
    (hop : op.isEquality = true) {written : String} {lexeme : Lexeme} {leaf : Leaf}
    (hspells : Lexeme.Spells written.toList lexeme []) (hdenotes : lexeme.Denotes leaf) :
    ∀ text ∈ [quoted names ++ " " ++ op.symbol ++ " " ++ written,
      written ++ " " ++ op.symbol ++ " " ++ quoted names],
      ∃ condition pattern literal, Condition.parse text .everything = .ok condition ∧
        condition.root.IsComparison pattern literal ∧
        pattern.leaf = .string (Conditioned.pattern names) true ∧ literal.leaf = leaf := by
  have hpattern := spells_quoted hne hnames
  have hstring := Lexeme.Denotes.string (Conditioned.pattern names) true
  intro text htext
  rcases List.mem_pair.1 htext with rfl | rfl
  · obtain ⟨condition, mark, first, second, hparse, hroot⟩ :=
      Condition.parse_comparison op (hpattern _) hspells hstring hdenotes
        (Policy.violation?_everything _) (Policy.violation?_everything _)
    exact ⟨condition, _, _, hparse, ⟨mark, op, hop, .inl hroot⟩, rfl, rfl⟩
  · obtain ⟨condition, mark, first, second, hparse, hroot⟩ :=
      Condition.parse_comparison op (hspells.before_relation hdenotes.ne_endOfInput op _)
        (hpattern _) hdenotes hstring (Policy.violation?_everything _)
        (Policy.violation?_everything _)
    exact ⟨condition, _, _, hparse, ⟨mark, op, hop, .inr hroot⟩, rfl, rfl⟩

/-- A condition that compares a pattern with a literal by `==` or `!=`, on either side, records the
properties of the pattern with the values of the literal, each with the one in its place, if there
are as many of both, and records nothing otherwise.  An evaluator that keeps a register adds just
these to it, whatever the comparison comes to and even if it fails.  All such comparisons can be
written: a pattern in quotes and anything that is read as a literal are accepted in both orders. -/
theorem records_pattern (hne : names ≠ []) (hnames : ∀ name ∈ names, isName name.toList = true) :
    (∀ (text : String) (policy : Policy) (condition : Condition) (pattern literal : LeafNode),
      Condition.parse text policy = .ok condition →
      condition.root.IsComparison pattern literal →
      pattern.leaf.text = Conditioned.pattern names →
      holdsReference literal.leaf.text = false →
      ∀ (evaluator : Evaluator) (register : Conditioned) (env : Environment),
        evaluator.conditioned = some register →
        reports (evaluator.evaluate condition env).1 = matched names literal.leaf ∧
          (evaluator.evaluate condition env).2.conditioned =
            some (register.merge (.ofPairs (matched names literal.leaf)))) ∧
    ∀ (op : Relation) (written : String) (lexeme : Lexeme) (leaf : Leaf), op.isEquality = true →
      Lexeme.Spells written.toList lexeme [] → lexeme.Denotes leaf →
      ∀ text ∈ [quoted names ++ " " ++ op.symbol ++ " " ++ written,
        written ++ " " ++ op.symbol ++ " " ++ quoted names],
        ∃ condition pattern literal, Condition.parse text .everything = .ok condition ∧
          condition.root.IsComparison pattern literal ∧
          pattern.leaf = .string (Conditioned.pattern names) true ∧ literal.leaf = leaf := by
  refine ⟨?_, fun op written lexeme leaf hop hspells hdenotes =>
    exists_isComparison hne hnames hop hspells hdenotes⟩
  intro text policy condition pattern literal hparse hroot hpattern hliteral evaluator register env
    hregister
  have hrecords := records_evaluate hparse hroot hne hnames hpattern hliteral env
  have hreports : reports (evaluator.evaluate condition env).1 = matched names literal.leaf := by
    rw [evaluator.evaluate_fst, hregister]
    exact hrecords
  refine ⟨hreports, ?_⟩
  rw [evaluator.evaluate_snd, hregister, ← hreports]
  rfl

/-- Where no property is defined the comparison fails, but both properties of the pattern have been
recorded by then, with values that a bar in the text of the literal separates once its escape is
decoded. -/
theorem records_pattern_undefined :
    let env := Environment.silent
    let text := "'x%7cy' != '$(A)|$(B)'"
    ∃ condition, Condition.parse text .everything = .ok condition ∧
      (recording.evaluate condition env).1.outcome =
        .error (.failure (.expansion "$(A)|$(B)" (.undefinedProperty "A")) text .unknown) ∧
      reports (recording.evaluate condition env).1 = [("A", "x"), ("B", "y")] ∧
      (recording.evaluate condition env).2.conditioned = some ⟨[("A", ["x"]), ("B", ["y"])]⟩ := by
  intro env text
  let pattern : LeafNode := ⟨⟨1, ⟨11, 22⟩, false⟩, .string "$(A)|$(B)" true⟩
  let literal : LeafNode := ⟨⟨0, ⟨0, 7⟩, false⟩, .string "x%7cy" true⟩
  let mark : Mark := ⟨2, ⟨0, 22⟩, false⟩
  have hrun : (Condition.parse text .everything).toOption.map (fun condition =>
      (condition.root, (recording.evaluate condition env).1.outcome)) =
        some (.comparison mark .notEqual (.leaf literal) (.leaf pattern),
          .error (.failure (.expansion "$(A)|$(B)" (.undefinedProperty "A")) text .unknown)) := by
    decide +kernel
  obtain ⟨condition, hparse, hcondition⟩ := Condition.exists_of_map_parse_eq_some hrun
  obtain ⟨hroot, houtcome⟩ := Prod.mk.inj hcondition
  have hnames : ∀ name ∈ ["A", "B"], isName name.toList = true := by decide +kernel
  obtain ⟨hrecords, -⟩ := records_pattern (List.cons_ne_nil _ _) hnames
  obtain ⟨hreports, hregister⟩ := hrecords text .everything condition pattern literal hparse
    ⟨mark, .notEqual, rfl, .inr hroot⟩ rfl (by decide +kernel) recording .empty env rfl
  have hmatched : matched ["A", "B"] literal.leaf = [("A", "x"), ("B", "y")] := by decide +kernel
  rw [hmatched] at hreports hregister
  exact ⟨condition, hparse, houtcome, hreports, hregister⟩

end Evaluator

end CondLang
