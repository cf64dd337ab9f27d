import CondLang.Condition.Parser
import CondLang.Proofs.Lexing

/-!
# What a successful run of the parser takes

`Parser.Takes` says that a run has gone over a sequence of tokens, all of them allowed by the
policy, and has given out some numbers of nodes; nothing else of the parser has changed.  Runs
compose (`Takes.append`) and come apart (`Takes.split`) along the tokens.

Each elementary step of the parser has one lemma here that says when it succeeds and what it then
takes.  The parsers of phrases are opened with these lemmas only.
-/

namespace CondLang

namespace Parser

variable {α β : Type} {p q r : Parser}

/-! ## Steps in sequence -/

theorem bind_eq_ok {x : ParserM α} {f : α → ParserM β} {b : β} :
    (x >>= f) p = .ok b r ↔ ∃ a q, x p = .ok a q ∧ f a q = .ok b r := by
  simp only [bind, EStateM.bind]
  split
  · next a q hx =>
    constructor
    · exact fun h => ⟨a, q, hx, h⟩
    · intro h
      rcases h with ⟨a', q', hx', h⟩
      rw [hx] at hx'
      cases hx'
      exact h
  · next e q hx =>
    refine ⟨nofun, ?_⟩
    intro h
    rcases h with ⟨a', q', hx', -⟩
    rw [hx] at hx'
    cases hx'

theorem pure_eq_ok {a b : α} : (pure a : ParserM α) p = .ok b q ↔ b = a ∧ q = p := by
  simp [pure, EStateM.pure, eq_comm]

theorem get_bind {f : Parser → ParserM α} : (get >>= f) p = f p p := rfl

theorem fail_ne_ok {kind : ParseErrorKind} {a : α} : (fail kind : ParserM α) p ≠ .ok a q := nofun

theorem unexpected_ne_ok {expected : Expected} {a : α} :
    (unexpected expected : ParserM α) p ≠ .ok a q := by
  unfold unexpected
  rw [get_bind]
  split <;> exact fail_ne_ok

/-! ## Going over tokens -/

/-- Looking at `token` with the next one to be read at `cursor`, one may go over some tokens that
the policy allows, to look at `token'` with the next one to be read at `cursor'`. -/
inductive Passes (policy : Policy) : Token → Cursor → List Token → Token → Cursor → Prop where
  | nil {token : Token} {cursor : Cursor} : Passes policy token cursor [] token cursor
  | cons {token next token' : Token} {cursor left cursor' : Cursor} {tokens : List Token}
      (hallowed : policy.violation? token.lexeme = none)
      (hnext : cursor.next = (.ok next, left))
      (htokens : Passes policy next left tokens token' cursor') :
      Passes policy token cursor (token :: tokens) token' cursor'

/-- A run has gone over tokens and given out a number of nodes. -/
structure Takes (p : Parser) (tokens : List Token) (nodes : Nat) (q : Parser) : Prop where
  passes : Passes p.policy p.current p.cursor tokens q.current q.cursor
  eq : q = { p with current := q.current, cursor := q.cursor, nextId := p.nextId + nodes }

theorem Passes.append {policy : Policy} {token token' token'' : Token}
    {cursor cursor' cursor'' : Cursor} {tokens tokens' : List Token}
    (h : Passes policy token cursor tokens token' cursor')
    (h' : Passes policy token' cursor' tokens' token'' cursor'') :
    Passes policy token cursor (tokens ++ tokens') token'' cursor'' := by
  induction h with
  | nil => exact h'
  | cons hallowed hnext _ ih => exact .cons hallowed hnext (ih h')

theorem Passes.split {policy : Policy} {token token'' : Token} {cursor cursor'' : Cursor}
    {tokens tokens' : List Token}
    (h : Passes policy token cursor (tokens ++ tokens') token'' cursor'') :
    ∃ token' cursor', Passes policy token cursor tokens token' cursor' ∧
      Passes policy token' cursor' tokens' token'' cursor'' := by
  induction tokens generalizing token cursor with
  | nil => exact ⟨token, cursor, .nil, h⟩
  | cons first tokens ih =>
    cases h with
    | cons hallowed hnext htokens =>
      obtain ⟨token', cursor', hleft, hright⟩ := ih htokens
      exact ⟨token', cursor', .cons hallowed hnext hleft, hright⟩

/-- Going over tokens of which only the first may be the end of the input takes a character of the
text for each but the first. -/
theorem Passes.length_le {policy : Policy} {token token' : Token} {cursor cursor' : Cursor}
    {tokens : List Token} (h : Passes policy token cursor tokens token' cursor')
    (hend : ∀ t ∈ tokens.tail, t.is .endOfInput = false) :
    tokens.length ≤ cursor.rest.length + 1 := by
  induction h with
  | nil => simp
  | @cons token next _ cursor left _ tokens hallowed hnext htokens ih =>
    cases htokens with
    | nil => simp
    | cons _ _ _ =>
      have hlt := Cursor.length_rest_lt hnext (hend next (by simp))
      have hle := ih fun t ht => hend t (List.mem_of_mem_tail ht)
      simp only [List.length_cons] at hle ⊢
      omega

namespace Takes

theorem nil : p.Takes [] 0 p := ⟨.nil, rfl⟩

theorem append {tokens tokens' : List Token} {m n : Nat} (h : p.Takes tokens m q)
    (h' : q.Takes tokens' n r) : p.Takes (tokens ++ tokens') (m + n) r := by
  have hq := h.eq
  have hr := h'.eq
  refine ⟨h.passes.append ?_, ?_⟩
  · have hpassed := h'.passes
    rw [hq] at hpassed
    exact hpassed
  · rw [hr, hq]
    simp [Nat.add_assoc]

/-- The run over two phrases is a run over the first and then one over the second. -/
theorem split {tokens tokens' : List Token} {m n : Nat}
    (h : p.Takes (tokens ++ tokens') (m + n) r) :
    ∃ q, p.Takes tokens m q ∧ q.Takes tokens' n r := by
  obtain ⟨token, cursor, hleft, hright⟩ := h.passes.split
  refine ⟨{ p with current := token, cursor, nextId := p.nextId + m }, ⟨hleft, rfl⟩, hright, ?_⟩
  rw [h.eq]
  simp [Nat.add_assoc]

theorem cons {token : Token} {tokens : List Token} {n : Nat} (h : p.Takes [token] 0 q)
    (h' : q.Takes tokens n r) : p.Takes (token :: tokens) n r := by
  have hall := h.append h'
  rwa [Nat.zero_add] at hall

/-- The run over a phrase behind a symbol. -/
theorem uncons {token : Token} {tokens : List Token} {n : Nat} (h : p.Takes (token :: tokens) n r) :
    ∃ q, p.Takes [token] 0 q ∧ q.Takes tokens n r := by
  have hall : p.Takes ([token] ++ tokens) (0 + n) r := by rwa [Nat.zero_add]
  exact hall.split

theorem numbered {tokens : List Token} {n : Nat} (h : p.Takes tokens n q) (h' : q.Takes [] 1 r) :
    p.Takes tokens (n + 1) r := by
  have hall := h.append h'
  rwa [List.append_nil] at hall

/-- The run over a phrase whose last node is its top. -/
theorem unnumbered {tokens : List Token} {n : Nat} (h : p.Takes tokens (n + 1) r) :
    ∃ q, p.Takes tokens n q ∧ q.Takes [] 1 r := by
  have hall : p.Takes (tokens ++ []) (n + 1) r := by rwa [List.append_nil]
  exact hall.split

theorem eq_self (h : p.Takes [] 0 q) : q = p := by
  obtain ⟨source, policy, cursor, current, nextId, depth⟩ := q
  obtain ⟨hpasses, heq⟩ := h
  cases hpasses
  exact heq

/-- The first token that a run goes over is the one that is looked at. -/
theorem current_eq {token : Token} {tokens : List Token} {n : Nat}
    (h : p.Takes (token :: tokens) n q) : p.current = token := by
  have hpasses := h.passes
  cases hpasses with
  | cons => rfl

/-- The token that is looked at comes first of those that a run goes over and the one behind. -/
theorem append_current {tokens : List Token} {n : Nat} (h : p.Takes tokens n q) :
    ∃ tail, tokens ++ [q.current] = p.current :: tail := by
  cases tokens with
  | nil =>
    have hpasses := h.passes
    generalize q.current = last, q.cursor = cursor at hpasses ⊢
    cases hpasses
    exact ⟨[], rfl⟩
  | cons token tokens => exact ⟨_, by rw [h.current_eq]; rfl⟩

theorem allowed {token : Token} {tokens : List Token} {n : Nat}
    (h : p.Takes (token :: tokens) n q) : p.policy.violation? token.lexeme = none := by
  have hpasses := h.passes
  cases hpasses with
  | cons hallowed => exact hallowed

/-- The depth that the parser has reached does not matter to a run. -/
theorem atDepth {tokens : List Token} {n : Nat} (h : p.Takes tokens n q) (depth : Nat) :
    { p with depth }.Takes tokens n { q with depth } :=
  ⟨h.passes, by rw [h.eq]⟩

theorem nextId_eq {tokens : List Token} {n : Nat} (h : p.Takes tokens n q) :
    q.nextId = p.nextId + n := by
  rw [h.eq]

end Takes

/-! ## Levels -/

/-- The parser one level deeper. -/
def deeper (p : Parser) : Parser := { p with depth := p.depth + 1 }

/-- The parser back from one level deeper. -/
def shallower (p : Parser) : Parser := { p with depth := p.depth - 1 }

theorem Takes.deeper {tokens : List Token} {n : Nat} (h : p.Takes tokens n q) :
    p.deeper.Takes tokens n q.deeper := by
  have hdepth : q.deeper = { q with depth := p.depth + 1 } := by
    rw [Parser.deeper, h.eq]
  rw [hdepth]
  exact h.atDepth _

/-- A run one level deeper is a run. -/
theorem Takes.shallower {tokens : List Token} {n : Nat} (h : p.deeper.Takes tokens n q) :
    p.Takes tokens n q.shallower := by
  have hdepth : q.shallower = { q with depth := p.depth } := by
    rw [Parser.shallower, h.eq]
    rfl
  rw [hdepth]
  exact h.atDepth _

/-! ## Elementary steps -/

/-- A token that the policy allows is taken by looking at the next one. -/
theorem advance_eq_ok (hallowed : p.policy.violation? p.current.lexeme = none) :
    advance p = .ok () q ↔ p.Takes [p.current] 0 q := by
  constructor
  · intro h
    unfold advance at h
    split at h
    · next token cursor hnext =>
      cases h
      exact ⟨.cons hallowed hnext .nil, rfl⟩
    · cases h
  · intro h
    have hpasses := h.passes
    cases hpasses with
    | cons _ hnext hnil =>
      rw [h.eq]
      cases hnil
      simp [advance, hnext]

theorem newMark_eq_ok {span : Span} {mark : Mark} :
    newMark span p = .ok mark q ↔ mark = ⟨p.nextId, span, false⟩ ∧ p.Takes [] 1 q := by
  constructor
  · intro h
    cases h
    exact ⟨rfl, .nil, rfl⟩
  · intro h
    rcases h with ⟨rfl, ⟨hpasses, heq⟩⟩
    obtain ⟨_, _, cursor, current, _, _⟩ := q
    cases hpasses
    rw [heq]
    rfl

theorem is_iff {token : Token} {symbol : Symbol} :
    token.is symbol = true ↔ token.lexeme = .symbol symbol := by
  simp [Token.is]

/-- A symbol is always allowed. -/
theorem advance_symbol_eq_ok {symbol : Symbol} (h : p.current.lexeme = .symbol symbol) {u : Unit} :
    advance p = .ok u q ↔ p.Takes [⟨.symbol symbol, p.current.span⟩] 0 q := by
  rw [advance_eq_ok (by rw [h]; rfl), ← h]

theorem expect_eq_ok {symbol : Symbol} {expected : Expected} {span : Span} :
    expect symbol expected p = .ok span q ↔ p.Takes [⟨.symbol symbol, span⟩] 0 q := by
  unfold expect
  rw [get_bind]
  split
  · next hsymbol =>
    rw [is_iff] at hsymbol
    simp only [bind_eq_ok, advance_symbol_eq_ok hsymbol, pure_eq_ok]
    constructor
    · intro h
      rcases h with ⟨_, q', hq', rfl, rfl⟩
      exact hq'
    · intro h
      have hspan : p.current.span = span := by rw [h.current_eq]
      rw [hspan]
      exact ⟨(), q, h, rfl, rfl⟩
  · next hsymbol =>
    refine ⟨fun h => absurd h unexpected_ne_ok, fun h => ?_⟩
    rw [is_iff, h.current_eq] at hsymbol
    exact absurd rfl hsymbol

theorem descend_eq_ok {below : Option α} {level : α} :
    descend below p = .ok level q ↔ below = some level ∧ q = p.deeper := by
  unfold descend deeper
  cases below with
  | none => simp [fail]
  | some level' => simp [eq_comm]

theorem ascend_eq_ok {u : Unit} : ascend p = .ok u q ↔ q = p.shallower := by
  have hrun : ascend p = .ok () p.shallower := rfl
  rw [hrun]
  constructor
  · intro h
    cases h
    rfl
  · intro h
    rw [h]

theorem leaf?_of_none (h : leafOf? p.current.lexeme = none) : leaf? p = .ok none p := by
  unfold leaf?
  rw [get_bind]
  simp only [h]
  rfl

theorem leaf?_eq_ok {leaf : Leaf} {node : Option LeafNode}
    (h : leafOf? p.current.lexeme = some leaf) :
    leaf? p = .ok node q ↔
      node = some ⟨⟨p.nextId, p.current.span, false⟩, leaf⟩ ∧ p.Takes [p.current] 1 q := by
  unfold leaf?
  rw [get_bind]
  simp only [h]
  cases hallowed : p.policy.violation? p.current.lexeme with
  | some kind =>
    refine ⟨fun h => absurd h fail_ne_ok, fun h => ?_⟩
    rw [h.2.allowed] at hallowed
    cases hallowed
  | none =>
    rw [bind_eq_ok]
    constructor
    · intro h
      rcases h with ⟨_, q', hadvance, hmark⟩
      obtain ⟨mark, q'', hmark, hnode⟩ := bind_eq_ok.1 hmark
      obtain ⟨rfl, rfl⟩ := pure_eq_ok.1 hnode
      obtain ⟨rfl, htakes⟩ := newMark_eq_ok.1 hmark
      have hadvanced := (advance_eq_ok hallowed).1 hadvance
      exact ⟨by rw [hadvanced.nextId_eq]; rfl, hadvanced.append htakes⟩
    · intro h
      rcases h with ⟨rfl, htakes⟩
      have htakes : p.Takes ([p.current] ++ []) (0 + 1) q := htakes
      obtain ⟨q', hadvanced, hmark⟩ := htakes.split
      have hnext := hadvanced.nextId_eq
      refine ⟨(), q', (advance_eq_ok hallowed).2 hadvanced, bind_eq_ok.2 ?_⟩
      exact ⟨_, q, newMark_eq_ok.2 ⟨rfl, hmark⟩, pure_eq_ok.2 ⟨by rw [hnext]; rfl, rfl⟩⟩

end Parser

end CondLang
