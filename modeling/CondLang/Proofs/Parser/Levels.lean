import CondLang.Proofs.Parser.Exact

/-!
# What takes more levels than there are

A phrase that takes more levels than are left is not misread: the parser goes over its tokens until
no level is left and fails there, for that reason (`Derivation.runsOut`).  So a text that is
grammatical and holds nothing that is not allowed is accepted unless it is nested too deep
(`Condition.parse_of_need_gt`).
-/

namespace CondLang

open Category (EndsBefore)

namespace Parser

variable {α β : Type} {levels : Nat} {p q : Parser}

/-- A step fails because no level is left. -/
def RunsOut (step : ParserM α) (p : Parser) : Prop :=
  ∃ e q, step p = .error e q ∧ e.kind = .nestingTooDeep maxNesting

namespace RunsOut

variable {step : ParserM α} {next : α → ParserM β}

theorem bind (h : RunsOut step p) : RunsOut (step >>= next) p := by
  obtain ⟨e, q, herror, hkind⟩ := h
  refine ⟨e, q, ?_, hkind⟩
  simp only [Bind.bind, EStateM.bind, herror]

/-- A step runs out of levels behind one that succeeds. -/
theorem behind {a : α} (hstep : step p = .ok a q) (h : RunsOut (next a) q) :
    RunsOut (step >>= next) p := by
  obtain ⟨e, r, herror, hkind⟩ := h
  refine ⟨e, r, ?_, hkind⟩
  simp only [Bind.bind, EStateM.bind, hstep, herror]

/-- One level deeper there may be no level, or none further down. -/
theorem descend {next : Level → ParserM β}
    (h : ∀ m, levels = m + 1 → RunsOut (next (.withLeft m)) p.deeper) :
    RunsOut (Parser.descend (below levels) >>= next) p := by
  cases levels with
  | zero => exact bind ⟨_, _, rfl, rfl⟩
  | succ m => exact behind (descend_below_eq_ok.2 ⟨m, rfl, rfl, rfl⟩) (h m rfl)

theorem advance {symbol : Symbol} {span : Span} {next : Unit → ParserM β}
    (htakes : p.Takes [⟨.symbol symbol, span⟩] 0 q) (h : RunsOut (next ()) q) :
    RunsOut (Parser.advance >>= next) p := by
  have hcurrent : p.current = ⟨.symbol symbol, span⟩ := htakes.current_eq
  have hadvance : Parser.advance p = .ok () q := by
    rw [advance_symbol_eq_ok (by rw [hcurrent]), hcurrent]
    exact htakes
  exact behind hadvance h

/-- A step that looks at the parser runs out of levels if what it goes on with does. -/
theorem get {next : Parser → ParserM β} (h : RunsOut (next p) p) :
    RunsOut (MonadState.get >>= next) p := behind rfl h

/-! ## The parsers of phrases -/

theorem group {opening : Span} (hcurrent : p.current = ⟨.symbol .leftParen, opening⟩)
    (h : ∀ m, levels = m + 1 → ∃ q, p.deeper.Takes [⟨.symbol .leftParen, opening⟩] 0 q ∧
      RunsOut (Category.expression.parser m ()) q) :
    RunsOut (Category.primary.parser levels ()) p := by
  have hleaf : leaf? p = .ok none p := leaf?_of_none (by rw [hcurrent]; rfl)
  refine behind hleaf (get ?_)
  rw [hcurrent]
  refine descend fun m hm => ?_
  obtain ⟨q, htakes, hinner⟩ := h m hm
  exact advance htakes hinner.bind

theorem first (h : RunsOut (Category.primary.parser levels ()) p) :
    RunsOut (Category.comparison.parser levels ()) p := h.bind

theorem second {left : Expr} {op : Relation} {sign : Span} {p₁ p₂ : Parser}
    (hleft : Category.primary.parser levels () p = .ok left p₁)
    (hsign : p₁.Takes [⟨.symbol (.relation op), sign⟩] 0 p₂)
    (h : RunsOut (Category.primary.parser levels ()) p₂) :
    RunsOut (Category.comparison.parser levels ()) p := by
  have hcurrent : p₁.current = ⟨.symbol (.relation op), sign⟩ := hsign.current_eq
  refine behind hleft (get ?_)
  rw [hcurrent]
  exact advance hsign h.bind

theorem negated {sign : Span} (hcurrent : p.current = ⟨.symbol .not, sign⟩)
    (h : ∀ m, levels = m + 1 → ∃ q, p.deeper.Takes [⟨.symbol .not, sign⟩] 0 q ∧
      RunsOut (Category.unary.parser m ()) q) :
    RunsOut (Category.unary.parser levels ()) p := by
  rw [Category.parser, withLeft_eq]
  refine get ?_
  rw [hcurrent]
  refine descend fun m hm => ?_
  obtain ⟨q, htakes, hinner⟩ := h m hm
  exact advance htakes hinner.bind

theorem plain (hcurrent : p.current.lexeme ≠ .symbol .not)
    (h : RunsOut (Category.comparison.parser levels ()) p) :
    RunsOut (Category.unary.parser levels ()) p := by
  rw [Category.parser, withLeft_eq]
  refine get ?_
  rw [if_neg (by rwa [is_iff])]
  exact h

theorem chain {op : Connective} (h : RunsOut ((Category.operand op).parser levels ()) p) :
    RunsOut ((Category.chain op).parser levels ()) p := by
  cases op <;> exact h.bind

theorem rest {op : Connective} {first : Expr}
    (hfirst : (Category.operand op).parser levels () p = .ok first q)
    (h : RunsOut ((Category.others op).parser levels first) q) :
    RunsOut ((Category.chain op).parser levels ()) p := by
  cases op <;> exact behind hfirst h

/-- Another operand runs out of levels one level deeper, or else the chain behind it does. -/
theorem more {op : Connective} {word : Span} {left : Expr}
    (hcurrent : p.current = ⟨.symbol (.connective op), word⟩)
    (h : ∀ m, levels = m + 1 → ∃ p₁, p.deeper.Takes [⟨.symbol (.connective op), word⟩] 0 p₁ ∧
      (RunsOut ((Category.operand op).parser m ()) p₁ ∨
        ∃ right p₂ p₃, (Category.operand op).parser m () p₁ = .ok right p₂ ∧ p₂.Takes [] 1 p₃ ∧
          RunsOut ((Category.others op).parser m
            (.logical ⟨p₂.nextId, left.span.cover right.span, false⟩ op left right)) p₃)) :
    RunsOut ((Category.others op).parser levels left) p := by
  -- Both connectives have the same parser but for the parsers of their operands.
  have htail (operand : Level → ParserM Expr) (next : Level → Expr → ParserM Expr)
      (hoperand : ∀ m, operand (.withLeft m) = (Category.operand op).parser m ())
      (hnext : ∀ m, next (.withLeft m) = (Category.others op).parser m) :
      RunsOut (tail op operand next (below levels) left) p := by
    refine get ?_
    rw [hcurrent, if_pos (is_iff.2 rfl)]
    refine descend fun m hm => ?_
    obtain ⟨p₁, hword, hfails⟩ := h m hm
    refine advance hword ?_
    rw [hoperand m, hnext m]
    rcases hfails with hoperand | ⟨right, p₂, p₃, hright, hmark, hnext⟩
    · exact hoperand.bind
    · exact behind hright (behind (newMark_eq_ok.2 ⟨rfl, hmark⟩) hnext.bind)
  cases op <;>
    · rw [Category.parser, withLeft_eq]
      exact htail _ _ (fun _ => rfl) fun _ => rfl

theorem whole (hdepth : p.depth = 0)
    (h : RunsOut (Category.expression.parser maxNesting ()) p) : RunsOut Parser.whole p := by
  have hexpression : RunsOut expression p := get (by rwa [hdepth])
  exact hexpression.bind

end RunsOut

end Parser

/-! ## Phrases -/

/-- Where fewer levels are left than a phrase takes, its parser runs out of them. -/
theorem Derivation.runsOut {c : Category} (d : Derivation c) :
    ∀ {levels : Nat} {p q : Parser} (left : c.Left), levels < d.need →
      p.Takes d.yield d.size q → c.EndsBefore [q.current] →
      Parser.RunsOut (c.parser levels left) p := by
  induction d with
  | leaf | call | done => exact fun _ hneed => absurd hneed (Nat.not_lt_zero _)
  | group opening inner closing ih =>
    intro levels p q _ hneed htakes _
    refine .group htakes.current_eq fun m hm => ?_
    obtain ⟨p₁, hopening, htakes⟩ := htakes.deeper.uncons
    obtain ⟨p₂, hinner, hclosing⟩ := htakes.split (n := 0)
    have hend : Category.expression.EndsBefore [p₂.current] := by
      rw [hclosing.current_eq]
      exact .cons rfl
    have hneed : m < inner.need := by
      rw [need] at hneed
      omega
    exact ⟨p₁, hopening, ih () hneed hinner hend⟩
  | single only ih =>
    exact fun _ hneed htakes _ => (ih () hneed htakes (.primary _)).first
  | compared left op sign right ihl ihr =>
    intro levels p q _ hneed htakes _
    obtain ⟨p₃, htakes, hmark⟩ := htakes.unnumbered
    obtain ⟨p₁, hleft, htakes⟩ := htakes.split
    obtain ⟨p₂, hsign, hright⟩ := htakes.uncons
    rcases Nat.lt_or_ge levels left.need with hlt | hle
    · exact (ihl () hlt hleft (.primary _)).first
    · have hlt : levels < right.need := by
        rw [need] at hneed
        omega
      exact .second (left.parser_eq_ok () hle hleft (.primary _)) hsign
        (ihr () hlt hright (.primary _))
  | plain inner ih =>
    intro levels p q _ hneed htakes hends
    refine .plain (fun hnot => ?_) (ih () hneed htakes hends.comparison)
    obtain ⟨tail, htail⟩ := htakes.append_current
    have hcurrent : p.current = ⟨.symbol .not, p.current.span⟩ := by rw [← hnot]
    rw [hcurrent] at htail
    exact head_comparison inner _ _ _ htail
  | negated sign inner ih =>
    intro levels p q _ hneed htakes hends
    refine .negated htakes.current_eq fun m hm => ?_
    obtain ⟨p₂, htakes, hmark⟩ := htakes.unnumbered
    obtain ⟨p₁, hsign, hinner⟩ := htakes.deeper.uncons
    have hend : Category.unary.EndsBefore [p₂.current] := EndsBefore.of_takes hmark hends
    have hneed : m < inner.need := by
      rw [need] at hneed
      omega
    exact ⟨p₁, hsign, ih () hneed hinner hend⟩
  | conjunct inner ih => exact fun _ hneed htakes hends => ih () hneed htakes hends.unary
  | disjunct inner ih => exact fun _ hneed htakes hends => ih () hneed htakes hends.conjunction
  | chain first others ihf iho =>
    intro levels p q _ hneed htakes hends
    obtain ⟨p₁, hfirst, hothers⟩ := htakes.split
    have hend := EndsBefore.of_takes hothers (others.endsBefore_operand hends.others)
    rcases Nat.lt_or_ge levels first.need with hlt | hle
    · exact (ihf () hlt hfirst hend).chain
    · have hlt : levels < others.need := by
        rw [need] at hneed
        omega
      exact .rest (first.parser_eq_ok () hle hfirst hend) (iho _ hlt hothers hends.others)
  | more op word next others ihn iho =>
    intro levels p q left hneed htakes hends
    refine .more htakes.current_eq fun m hm => ?_
    obtain ⟨p₁, hword, htakes⟩ := htakes.deeper.uncons
    obtain ⟨p₃, htakes, hothers⟩ := htakes.split
    obtain ⟨p₂, hnext, hmark⟩ := htakes.unnumbered
    have hend : (Category.operand op).EndsBefore [p₃.current] :=
      EndsBefore.of_takes hothers (others.endsBefore_operand hends)
    have hend' := EndsBefore.of_takes hmark hend
    refine ⟨p₁, hword, ?_⟩
    rcases Nat.lt_or_ge m next.need with hlt | hle
    · exact .inl (ihn () hlt hnext hend')
    · have hlt : m < others.need := by
        rw [need] at hneed
        omega
      exact .inr ⟨_, p₂, p₃, next.parser_eq_ok () hle hnext hend', hmark, iho _ hlt hothers hends⟩

/-! ## Whole conditions -/

/-- An expression whose tokens are allowed and which takes more levels than there are is rejected
for that. -/
theorem Condition.parse_of_need_gt {text : String} {policy : Policy} (d : Derivation .expression)
    {stop : Token} (hstop : stop.is .endOfInput = true)
    (htokens : Command.allTokens text = .ok (d.yield ++ [stop]))
    (hallowed : ∀ token ∈ d.yield, policy.violation? token.lexeme = none)
    (hneed : maxNesting < d.need) :
    ∃ e, parse text policy = .error e ∧ e.kind = .nestingTooDeep maxNesting := by
  obtain ⟨token, cursor, left, hstart, htakes, hends⟩ :=
    exists_takes_of_derivation d hstop htokens hallowed
  obtain ⟨e, q, herror, hkind⟩ := Parser.RunsOut.whole rfl (d.runsOut () hneed htakes hends)
  refine ⟨e, ?_, hkind⟩
  rw [parse, hstart]
  simp only [EStateM.run, herror]

end CondLang
