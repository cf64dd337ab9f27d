import CondLang.Proofs.Parser.Phrase

/-!
# What the parser accepts is grammatical

Whenever the parser of a category succeeds, it has gone over the tokens of a derivation of that
category which takes no more levels than were left, and its result is the tree of that derivation.

The induction is on the number of levels left.  Within a level the categories follow one another:
each parser uses those of the categories before it at its own level, and any of them at the level
below.
-/

namespace CondLang

/-- With a number of levels left, the parser of a category accepts nothing but its phrases. -/
def Category.SoundAt (c : Category) (levels : Nat) : Prop :=
  ∀ (left : c.Left) (p : Parser) (e : Expr) (q : Parser), c.parser levels left p = .ok e q →
    ∃ d : Derivation c, d.need ≤ levels ∧ e = d.tree left p.nextId ∧ p.Takes d.yield d.size q

namespace Category.SoundAt

variable {levels : Nat} {op : Connective}

theorem primary (hbelow : ∀ m, levels = m + 1 → expression.SoundAt m) :
    primary.SoundAt levels := by
  intro _ p e q h
  rcases Parser.current_of_primary h with hleaf | hopening | ⟨name, expandable, hname⟩
  · obtain ⟨token, rfl, htakes⟩ := (Parser.primary_of_leaf hleaf).1 h
    exact ⟨.leaf token, Nat.zero_le _, rfl, htakes⟩
  · have hcurrent : p.current = ⟨.symbol .leftParen, p.current.span⟩ := by rw [← hopening]
    obtain ⟨m, p₁, inner, p₂, closing, p₃, rfl, hopening, hinner, hclosing, rfl, rfl⟩ :=
      (Parser.primary_of_leftParen hcurrent).1 h
    obtain ⟨d, hneed, rfl, htakes⟩ := hbelow m rfl () _ _ _ hinner
    refine ⟨.group p.current.span d closing, Nat.succ_le_succ hneed, ?_, ?_⟩
    · rw [hopening.nextId_eq]
      rfl
    · exact (hopening.cons (htakes.append hclosing)).shallower
  · have hcurrent : p.current = ⟨.text .function name expandable, p.current.span⟩ := by
      rw [← hname]
    obtain ⟨opening, arguments, closing, d, rfl, htree, htakes⟩ :=
      (Parser.primary_of_function hcurrent).1 h
    exact ⟨_, Nat.zero_le _, htree, htakes⟩

theorem comparison (hprimary : Category.primary.SoundAt levels) :
    comparison.SoundAt levels := by
  intro _ p e q h
  obtain ⟨l, p₁, hleft, h⟩ := Parser.comparison_eq_ok.1 h
  obtain ⟨left, hneed, rfl, htakes⟩ := hprimary () _ _ _ hleft
  rcases h with ⟨op, sign, p₂, r, p₃, hsign, hright, hmark, rfl⟩ | ⟨-, rfl, rfl⟩
  · obtain ⟨right, hneed', rfl, htakes'⟩ := hprimary () _ _ _ hright
    refine ⟨.compared left op sign right, Nat.max_le.2 ⟨hneed, hneed'⟩, ?_, ?_⟩
    · rw [htakes'.nextId_eq, hsign.nextId_eq, htakes.nextId_eq]
      rfl
    · exact (htakes.append (hsign.cons htakes')).numbered hmark
  · exact ⟨.single left, hneed, rfl, htakes⟩

theorem unary (hcomparison : Category.comparison.SoundAt levels)
    (hbelow : ∀ m, levels = m + 1 → unary.SoundAt m) : unary.SoundAt levels := by
  intro _ p e q h
  rcases Parser.unary_eq_ok.1 h with ⟨m, sign, p₁, inner, p₂, rfl, hsign, hinner, hmark, rfl⟩ |
    ⟨-, hplain⟩
  · obtain ⟨d, hneed, rfl, htakes⟩ := hbelow m rfl () _ _ _ hinner
    refine ⟨.negated sign d, Nat.succ_le_succ hneed, ?_, ?_⟩
    · rw [htakes.nextId_eq, hsign.nextId_eq]
      rfl
    · exact (hsign.cons htakes).shallower.numbered hmark
  · obtain ⟨d, hneed, htree, htakes⟩ := hcomparison () _ _ _ hplain
    exact ⟨.plain d, hneed, htree, htakes⟩

theorem conjunct (hunary : Category.unary.SoundAt levels) : (operand .and).SoundAt levels := by
  intro _ p e q h
  obtain ⟨d, hneed, htree, htakes⟩ := hunary () _ _ _ h
  exact ⟨.conjunct d, hneed, htree, htakes⟩

theorem disjunct (hchain : (chain .and).SoundAt levels) : (operand .or).SoundAt levels := by
  intro _ p e q h
  obtain ⟨d, hneed, htree, htakes⟩ := hchain () _ _ _ h
  exact ⟨.disjunct d, hneed, htree, htakes⟩

theorem others (hoperand : ∀ m, levels = m + 1 → (operand op).SoundAt m)
    (hbelow : ∀ m, levels = m + 1 → (others op).SoundAt m) : (others op).SoundAt levels := by
  intro left p e q h
  rcases Parser.others_eq_ok.1 h with
    ⟨m, word, p₁, r, p₂, p₃, p₄, rfl, hword, hright, hmark, hmore, rfl⟩ | ⟨-, rfl, rfl⟩
  · obtain ⟨next, hneed, rfl, htakes⟩ := hoperand m rfl () _ _ _ hright
    obtain ⟨more, hneed', rfl, htakes'⟩ := hbelow m rfl _ _ _ _ hmore
    refine ⟨.more op word next more, Nat.succ_le_succ (Nat.max_le.2 ⟨hneed, hneed'⟩), ?_, ?_⟩
    · rw [hmark.nextId_eq, htakes.nextId_eq, hword.nextId_eq]
      rfl
    · exact (hword.cons ((htakes.numbered hmark).append htakes')).shallower
  · exact ⟨.done, Nat.zero_le _, rfl, .nil⟩

theorem chain (hoperand : (operand op).SoundAt levels)
    (hothers : (Category.others op).SoundAt levels) : (chain op).SoundAt levels := by
  intro _ p e q h
  obtain ⟨l, p₁, hfirst, hrest⟩ := Parser.chain_eq_ok.1 h
  obtain ⟨first, hneed, rfl, htakes⟩ := hoperand () _ _ _ hfirst
  obtain ⟨others, hneed', rfl, htakes'⟩ := hothers _ _ _ _ hrest
  refine ⟨.chain first others, Nat.max_le.2 ⟨hneed, hneed'⟩, ?_, htakes.append htakes'⟩
  rw [htakes.nextId_eq]
  rfl

/-- One level: what is sound a level below is sound at this level. -/
theorem of_below (hbelow : ∀ m, levels = m + 1 → ∀ c : Category, c.SoundAt m) (c : Category) :
    c.SoundAt levels := by
  have hprimary := SoundAt.primary fun m hm => hbelow m hm _
  have hunary := SoundAt.unary hprimary.comparison fun m hm => hbelow m hm _
  have hothers (op : Connective) : (Category.others op).SoundAt levels :=
    .others (fun m hm => hbelow m hm _) fun m hm => hbelow m hm _
  have hconjunction := hunary.conjunct.chain (hothers .and)
  cases c with
  | primary => exact hprimary
  | comparison => exact hprimary.comparison
  | unary => exact hunary
  | operand op =>
    cases op with
    | and => exact hunary.conjunct
    | or => exact hconjunction.disjunct
  | chain op =>
    cases op with
    | and => exact hconjunction
    | or => exact hconjunction.disjunct.chain (hothers .or)
  | others op => exact hothers op

end Category.SoundAt

/-- However many levels are left, a parser accepts nothing but the phrases of its category. -/
theorem Category.soundAt (c : Category) (levels : Nat) : c.SoundAt levels := by
  induction levels generalizing c with
  | zero => exact .of_below (fun m hm => absurd hm (Nat.zero_ne_add_one m)) c
  | succ levels ih =>
    refine .of_below (fun m hm c => ?_) c
    cases hm
    exact ih c

end CondLang
