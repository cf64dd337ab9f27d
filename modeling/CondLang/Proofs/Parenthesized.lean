import CondLang.Proofs.Evaluation.Aligned
import CondLang.Proofs.Grammar.Grouped
import CondLang.Proofs.Grammar.Spans
import CondLang.Proofs.Lexing.Exchange
import CondLang.Proofs.Parser.Levels

/-!
# Redundant parentheses

The characters of any node of a condition that is no argument of a call may be put in parentheses.
The tokens in front are read as before, those of the node one character later, and those behind it
two (`Command.allTokens_parenthesize`).  So the tree is the same but for the spans and for which
nodes stand in parentheses, and it evaluates in the same way, unless the parentheses take a level
that there is not (`Condition.parse_parenthesize`).
-/

namespace CondLang

namespace Span

/-- The text with parentheses around the characters under a span. -/
def parenthesize (span : Span) (text : String) : String :=
  .ofList (text.toList.take span.start ++
    '(' :: ((span.slice text).toList ++ ')' :: text.toList.drop span.stop))

/-- The place of a token once the characters under `inner` are in parentheses. -/
def movedAround (inner span : Span) : Span :=
  if span.start < inner.start then span
  else if span.stop ≤ inner.stop then span.moved 1
  else span.moved 2

end Span

/-! ## Reading -/

namespace Lexeme

theorem not_opensCall_rightParen (rest : List Char) : ¬OpensCall (')' :: rest) := by
  have hblank : Text.isBlank ')' = false := by decide
  simp [OpensCall, Text.dropBlanks, hblank]

end Lexeme

namespace Cursor

variable {cursor left : Cursor} {token : Token} {tokens : List Token} {text : List Char}

/-- Nothing but blanks stands between a cursor and the token that it reads next. -/
theorem Takes.exists_gap (h : cursor.Takes (token :: tokens) left) (hcursor : cursor.Within text) :
    ∃ gap, (∀ c ∈ gap, Text.isBlank c = true) ∧
      cursor.rest = gap ++ text.drop token.span.start ∧
      cursor.position + gap.length = token.span.start := by
  cases h with
  | cons hnext _ _ =>
    obtain ⟨blanks, front, hcuts⟩ := next_eq_ok_iff.1 hnext
    refine ⟨blanks, hcuts.blank, ?_, hcuts.start.symm⟩
    rw [hcuts.drop_start hcursor, hcuts.rest]

variable {others : List Token} {rest rest' gap taken : List Char}

/-- An opening parenthesis may be put behind tokens the last of which is a symbol. -/
theorem Takes.reads_leftParen (h : cursor.Takes tokens left) (hleft : left.rest = gap ++ rest)
    (hgap : ∀ c ∈ gap, Text.isBlank c = true) {start : Nat}
    (hstart : left.position + gap.length = start) (hrest : cursor.rest = taken ++ rest)
    (hopens : Token.Opens tokens) (hothers : Reads ⟨start + 1, rest'⟩ others) :
    Reads ⟨cursor.position, taken ++ '(' :: rest'⟩
      (tokens ++ ⟨.symbol .leftParen, start, start + 1⟩ :: others) := by
  subst hstart
  have hseparates : Lexeme.Separates ('(' :: rest') := Lexeme.separates_cons (by decide) rest'
  have hfront := h.exchange hleft hrest hseparates fun t ht => by
    obtain ⟨s, hs⟩ := hopens t ht
    rw [hs]
    exact Lexeme.keeps_symbol s _ _
  have hopening : next ⟨left.position, gap ++ (['('] ++ rest')⟩ = _ :=
    next_of_spells left.position hgap .leftParen
  exact hfront.append (.step hopening rfl hothers)

/-- A closing parenthesis may be put behind tokens the last of which is not the name of a function,
and moves those behind it. -/
theorem Takes.reads_rightParen (h : cursor.Takes tokens left)
    (hrest : cursor.rest = taken ++ left.rest)
    (hlast : ∀ t ∈ tokens.getLast?, t.lexeme.kind ≠ .text .function) (hothers : left.Reads others) :
    Reads ⟨cursor.position, taken ++ ')' :: left.rest⟩
      (tokens ++ ⟨.symbol .rightParen, left.position, left.position + 1⟩ ::
        others.map (·.mapSpan (Span.moved 1))) := by
  have hleft : left.rest = [] ++ left.rest := rfl
  have hseparates : Lexeme.Separates (')' :: left.rest) :=
    Lexeme.separates_cons (by decide) left.rest
  have hinside := h.exchange hleft hrest hseparates fun t ht =>
    Lexeme.keeps_of_not_opensCall (hlast t ht) (Lexeme.not_opensCall_rightParen _) _
  have hclosing : next ⟨left.position, [] ++ ([')'] ++ left.rest)⟩ = _ :=
    next_of_spells left.position (fun _ h => absurd h List.not_mem_nil) .rightParen
  exact hinside.append (.step hclosing rfl (hothers.moved 1))

/-- Where the tokens in front, those in parentheses and those behind them come to stand. -/
theorem Takes.map_movedAround {front part back : List Token} {span : Span}
    (h : cursor.Takes (front ++ (part ++ back)) left) (hspan : span.Covers part) :
    front.map (·.mapSpan span.movedAround) = front ∧
      part.map (·.mapSpan span.movedAround) = part.map (·.mapSpan (Span.moved 1)) ∧
      back.map (·.mapSpan span.movedAround) = back.map (·.mapSpan (Span.moved 2)) := by
  obtain ⟨next, hfront, hrest⟩ := h.split
  obtain ⟨after, hpart, hback⟩ := hrest.split
  obtain ⟨first, hfirst, hstart⟩ := hspan.first
  obtain ⟨last, hlast, hstop⟩ := hspan.last
  obtain ⟨others, rfl⟩ := List.head?_eq_some_iff.1 hfirst
  have hposition : after.position = span.stop := (hpart.position_eq last hlast).trans hstop
  obtain ⟨-, hnext, hspanned, hafter⟩ := hpart.bounds first List.mem_cons_self
  refine ⟨?_, List.map_congr_left fun t ht => ?_, List.map_congr_left fun t ht => ?_⟩
  · refine (List.map_congr_left fun t ht => ?_).trans (List.map_id front)
    obtain ⟨-, -, hlt, hle⟩ := hfront.bounds t ht
    rw [Token.mapSpan, Span.movedAround, if_pos (by omega)]
    rfl
  · obtain ⟨-, -, hlt, hle⟩ := hpart.bounds t ht
    have hbehind : span.start ≤ t.span.start := by
      rcases List.mem_cons.1 ht with rfl | hothers
      · exact hstart.ge
      · have hgap := (List.pairwise_cons.1 hpart.pairwise).1 t hothers
        omega
    rw [Token.mapSpan, Span.movedAround, if_neg (by omega), if_pos (by omega)]
    rfl
  · obtain ⟨-, hle, hlt, -⟩ := hback.bounds t ht
    rw [Token.mapSpan, Span.movedAround, if_neg (by omega), if_neg (by omega)]
    rfl

end Cursor

namespace Command

variable {text : String} {front part back : List Token} {span : Span}

/-- The tokens of a text with some of them in parentheses. -/
theorem allTokens_parenthesize (htokens : allTokens text = .ok (front ++ (part ++ back)))
    (hback : back ≠ []) (hspan : span.Covers part) (hopens : Token.Opens front)
    (hlast : ∀ t ∈ part.getLast?, t.lexeme.kind ≠ .text .function) :
    allTokens (span.parenthesize text) = .ok (front ++
      ⟨.symbol .leftParen, span.start, span.start + 1⟩ :: (part.map (·.mapSpan (Span.moved 1)) ++
        ⟨.symbol .rightParen, span.stop + 1, span.stop + 2⟩ ::
          back.map (·.mapSpan (Span.moved 2)))) := by
  obtain ⟨next, hfront, hrest⟩ := (allTokens_eq_ok_iff.1 htokens).split (by simp [hback])
  obtain ⟨after, hpart, hbehind⟩ := hrest.split hback
  have hnext := hfront.within (Cursor.within_ofText text)
  obtain ⟨first, hfirst, hstart⟩ := hspan.first
  obtain ⟨last, hmem, hstop⟩ := hspan.last
  obtain ⟨others, rfl⟩ := List.head?_eq_some_iff.1 hfirst
  obtain ⟨gap, hgap, hgapRest, hgapLength⟩ := hpart.exists_gap hnext
  have hposition : after.position = span.stop := (hpart.position_eq last hmem).trans hstop
  have hafter : after.rest = text.toList.drop span.stop := by
    rw [(hpart.within hnext).rest, hposition]
  -- The tokens of the part are read from where its span starts, and one character later.
  have hplace := hpart.of_start hnext
  rw [hstart] at hgapRest hgapLength hplace
  have hslice : text.toList.drop span.start = (span.slice text).toList ++ after.rest := by
    have hbounds := (hplace.bounds first List.mem_cons_self).2
    rw [hafter, Span.drop_start (by omega)]
  have hinside : Cursor.Reads
      ⟨span.start, (span.slice text).toList ++ ')' :: text.toList.drop span.stop⟩
      ((first :: others) ++ ⟨.symbol .rightParen, span.stop, span.stop + 1⟩ ::
        back.map (·.mapSpan (Span.moved 1))) := by
    rw [← hafter, ← hposition]
    exact hplace.reads_rightParen hslice hlast hbehind
  have htext : text.toList = text.toList.take span.start ++ text.toList.drop span.start := by
    rw [List.take_append_drop]
  have hall := hfront.reads_leftParen hgapRest hgap hgapLength htext hopens (hinside.moved 1)
  have htwice : back.map (·.mapSpan (Span.moved 2)) =
      (back.map (·.mapSpan (Span.moved 1))).map (·.mapSpan (Span.moved 1)) := by
    rw [List.map_map]
    rfl
  rw [List.map_append] at hall
  refine allTokens_eq_ok_iff.2 ?_
  rw [Cursor.ofText, Span.parenthesize, String.toList_ofList, htwice]
  exact hall

end Command

namespace Condition

variable {text : String} {policy : Policy} {condition : Condition} {n : Expr}

/-- The tokens of a text with a node in parentheses are those of a phrase that stands for the same
tree but for places.  All but the parentheses have the lexemes of tokens of the text. -/
theorem exists_parenthesized {d : Derivation .expression} {stop : Token}
    (htokens : Command.allTokens text = .ok (d.yield ++ [stop]))
    (hn : n ∈ (d.tree () 0).operandNodes) :
    ∃ d' : Derivation .expression, d.Resembles d' ∧
      Command.allTokens (n.span.parenthesize text) =
        .ok (d'.yield ++ [stop.mapSpan (Span.moved 2)]) ∧
      ∀ token ∈ d'.yield, (∃ t ∈ d.yield, token.lexeme = t.lexeme) ∨
        ∃ s, token.lexeme = .symbol s := by
  obtain ⟨front, e, back, id, hyield, rfl, hopens, hgroup⟩ :=
    Derivation.groups_of_mem_operandNodes n.span.movedAround hn
  obtain ⟨span, hspan⟩ : ∃ span, (e.tree () id).span = span := ⟨_, rfl⟩
  rw [hspan] at hgroup ⊢
  obtain ⟨left, htakes, -⟩ :=
    (Command.allTokens_eq_ok_iff.1 htokens).split (List.cons_ne_nil stop [])
  rw [hyield] at htakes htokens ⊢
  rw [List.append_assoc, List.append_assoc] at htokens
  have hordered : Token.Ordered e.yield := htakes.ordered.sublist
    ((List.sublist_append_left _ _).trans (List.sublist_append_right _ _))
  have hcovers := Derivation.covers_span_expression hordered id
  rw [hspan] at hcovers
  have hagain := Command.allTokens_parenthesize htokens (by simp) hcovers (hopens [] nofun)
    e.kind_getLast?_ne_function
  obtain ⟨d', hresembles, hyield'⟩ :=
    hgroup ⟨span.start, span.start + 1⟩ ⟨span.stop + 1, span.stop + 2⟩
  obtain ⟨hfront, hinside, hback⟩ := htakes.map_movedAround hcovers
  rw [hfront, hinside, hback] at hyield'
  refine ⟨d', hresembles, by simp [hagain, hyield'], ?_⟩
  simp only [hyield', List.forall_mem_append, List.forall_mem_cons, List.forall_mem_map]
  refine ⟨fun t ht => .inl ⟨t, by simp [ht], rfl⟩, .inr ⟨_, rfl⟩,
    fun t ht => .inl ⟨t, by simp [ht], rfl⟩, .inr ⟨_, rfl⟩, fun t ht => .inl ⟨t, by simp [ht], rfl⟩⟩

/-- Parentheses around any part of an accepted condition that is no argument of a call change
nothing.  If the text with the parentheses does not nest too deep, it is accepted under the same
policy, and its tree is the same but for the spans and for which nodes stand in parentheses.  In
every environment, and whether values are recorded or not, both conditions have the same value or
the same kind of error, ask the same questions and record the same values, in the same order. -/
theorem parse_parenthesize (h : parse text policy = .ok condition) (hn : n ∈ condition.root.nodes)
    (hargument : ¬condition.root.HasArgument n) :
    (∃ again, parse (n.span.parenthesize text) policy = .ok again ∧
      again.root.bare = condition.root.bare ∧ again.nodeCount = condition.nodeCount ∧
      ∀ (evaluator : Evaluator) (env : Environment),
        (evaluator.evaluate condition env).1.Aligned (evaluator.evaluate again env).1 ∧
          (evaluator.evaluate condition env).2 = (evaluator.evaluate again env).2) ∨
    ∃ e, parse (n.span.parenthesize text) policy = .error e ∧
      e.kind = .nestingTooDeep maxNesting := by
  obtain ⟨d, stop, hstop, htokens, hallowed, -, rfl⟩ := exists_derivation_of_parse h
  have hnode := (Expr.mem_operandNodes_or_hasArgument hn).resolve_right hargument
  obtain ⟨d', hresembles, htokens', hlexemes⟩ := exists_parenthesized htokens hnode
  have hstop' : (stop.mapSpan (Span.moved 2)).is .endOfInput = true := hstop
  have hallowed' : ∀ token ∈ d'.yield, policy.violation? token.lexeme = none := by
    intro token htoken
    rcases hlexemes token htoken with ⟨t, ht, heq⟩ | ⟨s, heq⟩
    · rw [heq]
      exact hallowed t ht
    · rw [heq]
      rfl
  rcases Nat.lt_or_ge maxNesting d'.need with hdeep | hneed
  · exact .inr (parse_of_need_gt d' hstop' htokens' hallowed' hdeep)
  · have hbare : (d'.tree () 0).bare = (d.tree () 0).bare := hresembles.tree () () trivial 0
    have htwins : (d.tree () 0).Twins (Mark.Corresponds (.refl ℕ)) (d'.tree () 0) :=
      (Expr.twins_of_bare_eq hbare.symm).mono fun _ _ => Mark.corresponds_refl
    exact .inl ⟨_, parse_of_derivation d' hstop' htokens' hallowed' hneed, hbare, hresembles.size,
      fun evaluator env => evaluator.evaluate_twins htwins env⟩

/-- A negated string right behind the word that negates it, and a call. -/
def negatedText : String := "A and not'B'or Is(C)"

/-- The string in `negatedText`. -/
def negatedString : Expr := .leaf ⟨⟨1, ⟨9, 12⟩, false⟩, .string "B" false⟩

/-- The tree of `negatedText`. -/
def negatedTree : Expr :=
  .logical ⟨6, ⟨0, 20⟩, false⟩ .or
    (.logical ⟨3, ⟨0, 12⟩, false⟩ .and (.leaf ⟨⟨0, ⟨0, 1⟩, false⟩, .string "A" false⟩)
      (.not ⟨2, ⟨6, 12⟩, false⟩ negatedString))
    (.call ⟨5, ⟨15, 20⟩, false⟩ "Is" [⟨⟨4, ⟨18, 19⟩, false⟩, .string "C" false⟩])

/-- The word in front of the parentheses is no name of a function. -/
theorem parse_parenthesize_negated :
    parse negatedText .everything = .ok ⟨negatedText, negatedTree, 7⟩ ∧
      negatedString ∈ negatedTree.nodes ∧ ¬negatedTree.HasArgument negatedString ∧
      ∃ again, parse "A and not('B')or Is(C)" .everything = .ok again ∧
        again.root.bare = negatedTree.bare ∧
        (Evaluator.recording.evaluate ⟨negatedText, negatedTree, 7⟩ .silent).1.Aligned
          (Evaluator.recording.evaluate again .silent).1 := by
  have hparse : parse negatedText .everything = .ok ⟨negatedText, negatedTree, 7⟩ := by
    decide +kernel
  have hmem : negatedString ∈ negatedTree.nodes := by simp [negatedTree, Expr.nodes]
  have hargument : ¬negatedTree.HasArgument negatedString := by
    simp [Expr.HasArgument, negatedTree, negatedString, Expr.nodes]
  have htext : negatedString.span.parenthesize negatedText = "A and not('B')or Is(C)" := by
    decide +kernel
  have hagain : (parse "A and not('B')or Is(C)" .everything).toOption.isSome = true := by
    decide +kernel
  rcases parse_parenthesize hparse hmem hargument with
    ⟨again, hparsed, hbare, -, haligned⟩ | ⟨e, herror, -⟩
  · rw [htext] at hparsed
    exact ⟨hparse, hmem, hargument, again, hparsed, hbare, (haligned _ _).1⟩
  · rw [htext] at herror
    rw [herror] at hagain
    cases hagain

end Condition

end CondLang
