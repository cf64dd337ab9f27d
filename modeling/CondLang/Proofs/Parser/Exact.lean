import CondLang.Condition
import CondLang.Proofs.Parser.Complete
import CondLang.Proofs.Parser.Sound

/-!
# Which conditions are accepted

A text is accepted exactly when its tokens are those of an expression of the grammar, the policy
allows each of its literals and references and the expression takes no more levels than there are.
The result is the tree of that expression, of which there is only one.
-/

namespace CondLang

/-! ## Tokens of a text and tokens gone over -/

/-- What is no literal or reference is allowed everywhere. -/
theorem Policy.violation?_of_forall_denotes {policy : Policy} {lexeme : Lexeme}
    (h : ∀ leaf, lexeme.Denotes leaf → policy.violation? lexeme = none) :
    policy.violation? lexeme = none := by
  cases hviolation : policy.violation? lexeme with
  | none => rfl
  | some kind =>
    rw [hviolation] at h
    unfold Policy.violation? at hviolation
    split at hviolation
    · exact absurd (h _ (.reference _ _ _)) nofun
    · exact absurd (h _ (.string _ _)) nofun
    · cases hviolation

theorem Derivation.is_endOfInput_of_mem_yield {c : Category} (d : Derivation c) :
    ∀ token ∈ d.yield, token.is .endOfInput = false := by
  induction d with
  | leaf token => simpa [yield] using token.is_symbol _
  | call name expandable span opening arguments closing =>
    have harguments : ∀ token ∈ arguments.elim [] Arguments.yield,
        token.is .endOfInput = false := by
      intro token htoken
      cases arguments with
      | none => cases htoken
      | some a => exact Arguments.is_endOfInput_of_mem_yield htoken
    simpa [yield, Token.is, or_imp, forall_and] using harguments
  | group opening inner closing ih => simpa [yield, Token.is, or_imp, forall_and] using ih
  | single only ih => exact ih
  | compared left op sign right ihl ihr =>
    simpa [yield, Token.is, or_imp, forall_and] using And.intro ihl ihr
  | plain inner ih => exact ih
  | negated sign inner ih => simpa [yield, Token.is] using ih
  | conjunct inner ih => exact ih
  | disjunct inner ih => exact ih
  | chain first others ihf iho => simpa [yield, or_imp, forall_and] using And.intro ihf iho
  | done =>
    intro token htoken
    cases htoken
  | more op word next others ihn iho =>
    simpa [yield, Token.is, or_imp, forall_and] using And.intro ihn iho

namespace Parser

variable {policy : Policy}

theorem Passes.allowed {token stop : Token} {cursor left : Cursor} {tokens : List Token}
    (h : Passes policy token cursor tokens stop left) :
    ∀ t ∈ tokens, policy.violation? t.lexeme = none := by
  induction h with
  | nil => exact nofun
  | cons hallowed _ _ ih => exact List.forall_mem_cons.2 ⟨hallowed, ih⟩

/-- Tokens gone over up to the end of the input are all that can be read. -/
theorem Passes.reads {start cursor left : Cursor} {token stop : Token} {tokens : List Token}
    (h : Passes policy token cursor tokens stop left) (hstart : start.next = (.ok token, cursor))
    (hstop : stop.is .endOfInput = true)
    (htokens : ∀ t ∈ tokens, t.is .endOfInput = false) : start.Reads (tokens ++ [stop]) := by
  induction h generalizing start with
  | nil => exact .stop hstart hstop
  | cons _ hnext _ ih =>
    obtain ⟨htoken, htokens⟩ := List.forall_mem_cons.1 htokens
    exact .step hstart htoken (ih hnext hstop htokens)

/-- All that can be read may be gone over if it is allowed. -/
theorem passes_of_reads {start : Cursor} {stop : Token} {tokens : List Token}
    (h : start.Reads (tokens ++ [stop]))
    (hallowed : ∀ t ∈ tokens, policy.violation? t.lexeme = none) :
    ∃ token cursor left, start.next = (.ok token, cursor) ∧
      Passes policy token cursor tokens stop left := by
  induction tokens generalizing start with
  | nil =>
    cases h with
    | stop hnext _ => exact ⟨stop, _, _, hnext, .nil⟩
    | step hnext _ _ => exact ⟨stop, _, _, hnext, .nil⟩
  | cons token tokens ih =>
    obtain ⟨htoken, htokens⟩ := List.forall_mem_cons.1 hallowed
    generalize hall : (token :: tokens) ++ [stop] = all at h
    cases h with
    | stop _ _ => simp at hall
    | step hnext _ hleft =>
      cases hall
      obtain ⟨next, cursor, left, hfirst, hpasses⟩ := ih hleft htokens
      exact ⟨token, _, left, hnext, .cons htoken hfirst hpasses⟩

theorem ofCursor_eq_ok {source : String} {cursor : Cursor} {p : Parser} :
    ofCursor source cursor policy = .ok p ↔
      ∃ token left, cursor.next = (.ok token, left) ∧ p = ⟨source, policy, left, token, 0, 0⟩ := by
  unfold ofCursor
  split
  · next token left hnext =>
    rw [hnext]
    constructor
    · intro h
      cases h
      exact ⟨token, left, rfl, rfl⟩
    · intro h
      rcases h with ⟨_, _, ⟨⟩, rfl⟩
      rfl
  · next e left hnext => simp [hnext]

/-- A whole condition is an expression and the end of the input. -/
theorem whole_eq_ok {p q : Parser} {e : Expr} (hdepth : p.depth = 0) :
    whole p = .ok e q ↔
      Category.expression.parser maxNesting () p = .ok e q ∧ q.current.is .endOfInput = true := by
  have hexpression : expression p = Category.expression.parser maxNesting () p := by
    rw [expression, get_bind, hdepth]
    rfl
  rw [whole, bind_eq_ok, hexpression]
  constructor
  · intro h
    rcases h with ⟨e', q', he, h⟩
    rw [get_bind] at h
    split at h
    · next hend =>
      obtain ⟨rfl, rfl⟩ := pure_eq_ok.1 h
      exact ⟨he, hend⟩
    · exact absurd h unexpected_ne_ok
  · intro h
    rcases h with ⟨he, hend⟩
    refine ⟨e, q, he, ?_⟩
    rw [get_bind, if_pos hend]
    rfl

end Parser

/-! ## Whole conditions -/

namespace Condition

theorem parse_eq_ok {text : String} {policy : Policy} {condition : Condition} :
    parse text policy = .ok condition ↔
      ∃ p q root, Parser.ofCursor text (.ofText text) policy = .ok p ∧
        Parser.whole p = .ok root q ∧ condition = ⟨text, root, q.nextId⟩ := by
  unfold parse
  split
  · next e hstart => simp [hstart]
  · next p hstart =>
    rw [hstart]
    split
    · next root q hwhole =>
      constructor
      · intro h
        cases h
        exact ⟨p, q, root, rfl, hwhole, rfl⟩
      · intro h
        rcases h with ⟨_, _, _, ⟨⟩, hwhole', rfl⟩
        cases hwhole.symm.trans hwhole'
        rfl
    · next e q hwhole =>
      refine ⟨nofun, ?_⟩
      intro h
      rcases h with ⟨_, _, _, ⟨⟩, hwhole', -⟩
      cases hwhole.symm.trans hwhole'

/-- A text of which something is found out once it is parsed is accepted. -/
theorem exists_of_map_parse_eq_some {text : String} {policy : Policy} {α : Type}
    {f : Condition → α} {a : α} (h : (parse text policy).toOption.map f = some a) :
    ∃ condition, parse text policy = .ok condition ∧ f condition = a := by
  cases hparse : parse text policy with
  | error e =>
    rw [hparse] at h
    cases h
  | ok condition =>
    rw [hparse] at h
    exact ⟨condition, rfl, Option.some.inj h⟩

/-- A text that is accepted is that of an expression, of which the condition is the tree. -/
theorem exists_derivation_of_parse {text : String} {policy : Policy} {condition : Condition}
    (h : parse text policy = .ok condition) :
    ∃ (d : Derivation .expression) (stop : Token), stop.is .endOfInput = true ∧
      Command.allTokens text = .ok (d.yield ++ [stop]) ∧
      (∀ token ∈ d.yield, policy.violation? token.lexeme = none) ∧ d.need ≤ maxNesting ∧
      condition = ⟨text, d.tree () 0, d.size⟩ := by
  obtain ⟨p, q, root, hstart, hwhole, rfl⟩ := parse_eq_ok.1 h
  obtain ⟨token, cursor, hnext, rfl⟩ := Parser.ofCursor_eq_ok.1 hstart
  obtain ⟨hparsed, hend⟩ := (Parser.whole_eq_ok rfl).1 hwhole
  obtain ⟨d, hneed, rfl, htakes⟩ := Category.expression.soundAt maxNesting () _ _ _ hparsed
  refine ⟨d, q.current, hend, ?_, htakes.passes.allowed, hneed, ?_⟩
  · exact Command.allTokens_eq_ok_iff.2
      (htakes.passes.reads hnext hend d.is_endOfInput_of_mem_yield)
  · rw [htakes.nextId_eq, Nat.zero_add]

/-- A parser at the start of a text can go over the tokens of an expression, which are all, if they
are allowed. -/
theorem exists_takes_of_derivation {text : String} {policy : Policy}
    (d : Derivation .expression) {stop : Token} (hstop : stop.is .endOfInput = true)
    (htokens : Command.allTokens text = .ok (d.yield ++ [stop]))
    (hallowed : ∀ token ∈ d.yield, policy.violation? token.lexeme = none) :
    ∃ token cursor left,
      Parser.ofCursor text (.ofText text) policy = .ok ⟨text, policy, cursor, token, 0, 0⟩ ∧
      Parser.Takes ⟨text, policy, cursor, token, 0, 0⟩ d.yield d.size
        ⟨text, policy, left, stop, 0 + d.size, 0⟩ ∧
      Category.expression.EndsBefore [stop] := by
  obtain ⟨token, cursor, left, hnext, hpasses⟩ :=
    Parser.passes_of_reads (Command.allTokens_eq_ok_iff.1 htokens) hallowed
  have hends : Category.expression.extendedBy stop.lexeme = false := by
    rw [Parser.is_iff.1 hstop]
    rfl
  exact ⟨token, cursor, left, Parser.ofCursor_eq_ok.2 ⟨token, cursor, hnext, rfl⟩, ⟨hpasses, rfl⟩,
    .cons hends⟩

/-- An expression whose tokens are allowed is accepted if there are levels enough for it. -/
theorem parse_of_derivation {text : String} {policy : Policy} (d : Derivation .expression)
    {stop : Token} (hstop : stop.is .endOfInput = true)
    (htokens : Command.allTokens text = .ok (d.yield ++ [stop]))
    (hallowed : ∀ token ∈ d.yield, policy.violation? token.lexeme = none)
    (hneed : d.need ≤ maxNesting) :
    parse text policy = .ok ⟨text, d.tree () 0, d.size⟩ := by
  obtain ⟨token, cursor, left, hstart, htakes, hends⟩ :=
    exists_takes_of_derivation d hstop htokens hallowed
  have hparsed := d.parser_eq_ok () hneed htakes hends
  refine parse_eq_ok.2 ⟨_, _, _, hstart, (Parser.whole_eq_ok rfl).2 ⟨hparsed, hstop⟩, ?_⟩
  rw [Nat.zero_add]

/-- A text is accepted exactly when it can be cut into tokens, these are the tokens of an expression
of the grammar, the policy allows all literals and references among them and the expression takes no
more levels than there are.  What is accepted is the tree of that expression; no two expressions
have the same tokens.  A chain takes the levels of its first operand, and those of the `k`-th one
behind it and `k` more. -/
theorem parse_eq_ok_iff_exists_derivation (text : String) (policy : Policy) :
    (∀ condition, parse text policy = .ok condition ↔
      ∃ (d : Derivation .expression) (stop : Token), stop.is .endOfInput = true ∧
        Command.allTokens text = .ok (d.yield ++ [stop]) ∧
        (∀ token ∈ d.yield, ∀ leaf, token.lexeme.Denotes leaf →
          policy.violation? token.lexeme = none) ∧
        d.need ≤ maxNesting ∧ condition = ⟨text, d.tree () 0, d.size⟩) ∧
    Function.Injective (Derivation.yield : Derivation .expression → List Token) ∧
    (∀ (op : Connective) (first : Derivation (.operand op)) (others : Derivation (.others op))
      (n : Nat), (Derivation.chain first others).need ≤ n ↔
        first.need ≤ n ∧ ∀ k x, others.operands[k]? = some x → k + 1 + x.need ≤ n) := by
  refine ⟨fun condition => ⟨fun h => ?_, ?_⟩, fun d e h => ?_,
    fun _ => Derivation.need_chain_le_iff⟩
  · obtain ⟨d, stop, hstop, htokens, hallowed, hneed, hcondition⟩ := exists_derivation_of_parse h
    exact ⟨d, stop, hstop, htokens, fun token htoken _ _ => hallowed token htoken, hneed,
      hcondition⟩
  · intro h
    rcases h with ⟨d, stop, hstop, htokens, hallowed, hneed, rfl⟩
    have hviolation : ∀ token ∈ d.yield, policy.violation? token.lexeme = none :=
      fun token htoken => Policy.violation?_of_forall_denotes (hallowed token htoken)
    exact parse_of_derivation d hstop htokens hviolation hneed
  · have hends : Category.expression.EndsBefore [] := nofun
    have hyields : d.yield ++ [] = e.yield ++ [] := by rw [h]
    exact (d.yield_append_inj e hyields hends hends).1

end Condition

end CondLang
