import CondLang.ConditionCache

/-!
# What a cache holds

Whatever was asked of a cache before, what it holds under a text is what the text parses to, so a
cache answers like the parser (`ConditionCache.Reachable.getOrParse_fst`).
-/

namespace CondLang

namespace ConditionCache

/-- The caches of a policy that one can come to. -/
inductive Reachable (policy : Policy) : ConditionCache → Prop
  | ofPolicy : Reachable policy (.ofPolicy policy)
  | getOrParse {cache : ConditionCache} (h : Reachable policy cache) (text : String) :
      Reachable policy (cache.getOrParse text).2.2
  | clear {cache : ConditionCache} (h : Reachable policy cache) : Reachable policy cache.clear

/-- Each entry of a cache is what its text parses to under the policy. -/
structure Faithful (policy : Policy) (cache : ConditionCache) : Prop where
  policy_eq : cache.policy = policy
  entries : ∀ entry ∈ cache.entries,
    Condition.parse entry.1 policy = .ok entry.2.condition

namespace Faithful

variable {policy : Policy} {cache : ConditionCache}

theorem parse_of_find? (h : cache.Faithful policy) {text : String} {cached : CachedCondition}
    (hfound : cache.find? text = some cached) :
    Condition.parse text policy = .ok cached.condition := by
  obtain ⟨⟨key, value⟩, hentry, rfl⟩ := Option.map_eq_some_iff.1 hfound
  have hkey : key = text := by simpa only [beq_iff_eq] using List.find?_some hentry
  exact hkey ▸ h.entries (key, value) (List.mem_of_find?_eq_some hentry)

theorem getOrParse_fst (h : cache.Faithful policy) (text : String) :
    (cache.getOrParse text).1.map (·.condition) = Condition.parse text policy := by
  unfold getOrParse
  cases hfound : cache.find? text with
  | some cached => exact (h.parse_of_find? hfound).symm
  | none =>
    rw [h.policy_eq]
    cases hparse : Condition.parse text policy <;> rfl

theorem getOrParse (h : cache.Faithful policy) (text : String) :
    (cache.getOrParse text).2.2.Faithful policy := by
  unfold ConditionCache.getOrParse
  cases hfound : cache.find? text with
  | some cached => exact h
  | none =>
    cases hparse : Condition.parse text cache.policy with
    | error e => exact h
    | ok condition =>
      refine ⟨h.policy_eq, fun entry hentry => ?_⟩
      rcases List.mem_append.1 hentry with hold | hnew
      · exact h.entries entry hold
      · obtain rfl := List.mem_singleton.1 hnew
        rw [← h.policy_eq]
        exact hparse

theorem of_reachable (h : cache.Reachable policy) : cache.Faithful policy := by
  induction h with
  | ofPolicy => exact ⟨rfl, nofun⟩
  | getOrParse _ text ih => exact ih.getOrParse text
  | clear _ ih => exact ⟨ih.policy_eq, nofun⟩

end Faithful

/-- A cache answers like the parser. -/
theorem Reachable.getOrParse_fst {policy : Policy} {cache : ConditionCache}
    (h : cache.Reachable policy) (text : String) :
    (cache.getOrParse text).1.map (·.condition) = Condition.parse text policy :=
  (Faithful.of_reachable h).getOrParse_fst text

end ConditionCache

end CondLang
