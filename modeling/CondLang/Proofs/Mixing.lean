import CondLang.Proofs.Grammar.Mixing
import CondLang.Proofs.Subtrees

/-!
# Conditions that mix their connectives

The warning about a condition that mixes `and` and `or` is about its text: both stand in it with the
same parentheses right around them, or both outside of all (`Condition.mixesConnectives_iff`).
-/

namespace CondLang

/-- The search of the groups of a tree and of the tree itself finds what is mixed, as no other node
has the number of the top. -/
theorem Expr.mixesAnywhere_iff {e : Expr} (hids : e.ids.Nodup) :
    e.mixesAnywhere = true ↔ e.MixesWithin ∨ e.Exposes .and ∧ e.Exposes .or := by
  have hmember : e.mixesAnywhere = true ↔
      ∃ n ∈ e.nodes, (n.id = e.id ∨ n.grouped = true) ∧ n.mixes = true := by
    simp [mixesAnywhere]
  rw [hmember, exposes_both_iff]
  constructor
  · rintro ⟨n, hn, htop | hgrouped, hmixes⟩
    · obtain rfl := eq_of_id_eq hids hn (self_mem_nodes e) htop
      cases hgrouped : n.grouped with
      | false => exact .inr ⟨rfl, hmixes⟩
      | true => exact .inl ⟨n, hn, hgrouped, hmixes⟩
    · exact .inl ⟨n, hn, hgrouped, hmixes⟩
  · rintro (⟨n, hn, hgrouped, hmixes⟩ | ⟨-, hmixes⟩)
    · exact ⟨n, hn, .inr hgrouped, hmixes⟩
    · exact ⟨e, self_mem_nodes e, .inl rfl, hmixes⟩

namespace Condition

/-- An accepted condition mixes its connectives exactly when among its tokens there are an `and` and
an `or` with the same innermost pair of matching parentheses around them, or with none around
either. -/
theorem mixesConnectives_iff {text : String} {policy : Policy} {condition : Condition}
    (hparse : parse text policy = .ok condition) :
    ∃ tokens, Command.allTokens text = .ok tokens ∧
      (condition.mixesConnectives = true ↔ ∃ m n,
        Token.At tokens (.connective .and) m ∧ Token.At tokens (.connective .or) n ∧
        ∀ i j, Token.Innermost tokens i j m ↔ Token.Innermost tokens i j n) := by
  obtain ⟨d, stop, hstop, htokens, -, -, rfl⟩ := exists_derivation_of_parse hparse
  refine ⟨_, htokens, ?_⟩
  have hsilent : ∀ op, ∀ token ∈ [stop], token.lexeme ≠ .symbol (.connective op) := by
    intro op token htoken
    rw [List.mem_singleton.1 htoken, Parser.is_iff.1 hstop]
    nofun
  have hexposes : ∀ op, Token.Exposes (d.yield ++ [stop]) op ↔ Token.Exposes d.yield op := fun op =>
    (Token.exposes_append d.balanced_yield).trans (or_iff_left (Token.not_stands (hsilent op)))
  have hmixes : Token.MixesWithin (d.yield ++ [stop]) ↔ Token.MixesWithin d.yield :=
    (Token.mixesWithin_append d.balanced_yield).trans
      (or_iff_left (Token.not_mixesWithin (hsilent .and)))
  calc (d.tree () 0).mixesAnywhere = true
    _ ↔ (d.tree () 0).MixesWithin ∨
          (d.tree () 0).Exposes .and ∧ (d.tree () 0).Exposes .or :=
        Expr.mixesAnywhere_iff (nodup_ids hparse)
    _ ↔ Token.MixesWithin d.yield ∨ Token.Exposes d.yield .and ∧ Token.Exposes d.yield .or := by
        rw [d.mixesWithin_tree, d.exposes_tree, d.exposes_tree]
        simp [Derivation.Behind]
    _ ↔ ∃ pairs, Token.Stands (d.yield ++ [stop]) .and pairs ∧
          Token.Stands (d.yield ++ [stop]) .or pairs := by
        rw [Token.exists_stands_iff, hexposes, hexposes, hmixes]
    _ ↔ ∃ m n, Token.At (d.yield ++ [stop]) (.connective .and) m ∧
          Token.At (d.yield ++ [stop]) (.connective .or) n ∧
          ∀ i j, Token.Innermost (d.yield ++ [stop]) i j m ↔
            Token.Innermost (d.yield ++ [stop]) i j n := by
        simp only [Token.forall_innermost_iff]
        constructor
        · rintro ⟨pairs, ⟨m, hand, rfl⟩, ⟨n, hor, hpairs⟩⟩
          exact ⟨m, n, hand, hor, hpairs.symm⟩
        · rintro ⟨m, n, hand, hor, hpairs⟩
          exact ⟨_, ⟨m, hand, rfl⟩, ⟨n, hor, hpairs.symm⟩⟩

/-- The `and` and the inner `or` stand in the same parentheses of the first condition; in the second
one the `and` stands in parentheses and the `or` does not. -/
theorem mixesConnectives_iff_nested :
    (∃ condition tokens, parse "d or!(a or b and f(c))" .everything = .ok condition ∧
      condition.mixesConnectives = true ∧
      Command.allTokens "d or!(a or b and f(c))" = .ok tokens ∧
      ∃ m n, Token.At tokens (.connective .and) m ∧ Token.At tokens (.connective .or) n ∧
        ∀ i j, Token.Innermost tokens i j m ↔ Token.Innermost tokens i j n) ∧
    ∃ condition tokens, parse "a or((b)and c)" .everything = .ok condition ∧
      condition.mixesConnectives = false ∧
      Command.allTokens "a or((b)and c)" = .ok tokens ∧
      ¬ ∃ m n, Token.At tokens (.connective .and) m ∧ Token.At tokens (.connective .or) n ∧
        ∀ i j, Token.Innermost tokens i j m ↔ Token.Innermost tokens i j n := by
  refine ⟨?_, ?_⟩
  · have hmap : (parse "d or!(a or b and f(c))" .everything).toOption.map mixesConnectives =
        some true := by decide +kernel
    obtain ⟨condition, hok, hmixes⟩ := exists_of_map_parse_eq_some hmap
    obtain ⟨tokens, htokens, hiff⟩ := mixesConnectives_iff hok
    exact ⟨condition, tokens, hok, hmixes, htokens, hiff.1 hmixes⟩
  · have hmap : (parse "a or((b)and c)" .everything).toOption.map mixesConnectives =
        some false := by decide +kernel
    obtain ⟨condition, hok, hmixes⟩ := exists_of_map_parse_eq_some hmap
    obtain ⟨tokens, htokens, hiff⟩ := mixesConnectives_iff hok
    exact ⟨condition, tokens, hok, hmixes, htokens, fun h => by simp [hiff.2 h] at hmixes⟩

end Condition

end CondLang
