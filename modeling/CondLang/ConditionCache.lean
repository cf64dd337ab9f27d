import CondLang.Evaluation.Context

/-!
# Keeping parsed conditions

The same condition recurs in many places of a build, so its tree is kept under its text and shared.
Each tree that was parsed bears a stamp of its own, by which one can tell whether two answers share
a tree.  A text that does not parse leaves no entry.
-/

namespace CondLang

/-- A condition in a cache; conditions with the same stamp are the same. -/
structure CachedCondition where
  condition : Condition
  stamp : Nat
  deriving Repr, Inhabited

/-- Conditions that were parsed under one policy, by their text. -/
structure ConditionCache where
  policy : Policy
  entries : List (String × CachedCondition)
  nextStamp : Nat
  deriving Repr

namespace ConditionCache

/-- The cache without conditions. -/
def ofPolicy (policy : Policy) : ConditionCache := ⟨policy, [], 0⟩

/-- The condition kept under a text. -/
def find? (cache : ConditionCache) (text : String) : Option CachedCondition :=
  (cache.entries.find? (·.1 == text)).map (·.2)

/-- What is noted when a condition is parsed: that it was, and that it mixes its connectives. -/
def parseNotes (condition : Condition) : List Note :=
  if condition.mixesConnectives then [condition.parsedNote, .mixed condition.text]
  else [condition.parsedNote]

/-- The condition of a text, parsed if it is not kept yet, with what is noted and the cache then. -/
def getOrParse (cache : ConditionCache) (text : String) :
    Except ParseError CachedCondition × List Note × ConditionCache :=
  match cache.find? text with
  | some cached => (.ok cached, [], cache)
  | none =>
      match Condition.parse text cache.policy with
      | .error e => (.error e, [], cache)
      | .ok condition =>
          let cached := ⟨condition, cache.nextStamp⟩
          (.ok cached, parseNotes condition,
            { cache with
              entries := cache.entries ++ [(text, cached)]
              nextStamp := cache.nextStamp + 1 })

/-- How many conditions are kept. -/
def size (cache : ConditionCache) : Nat := cache.entries.length

/-- Whether no condition is kept. -/
def isEmpty (cache : ConditionCache) : Bool := cache.entries.isEmpty

/-- The cache without its conditions; stamps are not used again. -/
def clear (cache : ConditionCache) : ConditionCache := { cache with entries := [] }

end ConditionCache

end CondLang
