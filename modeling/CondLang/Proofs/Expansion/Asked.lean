import CondLang.Proofs.Expansion.Reaches

/-!
# What an expansion asks, in order

The references of a text are asked for from left to right, each once.  An expansion that succeeds
has asked for all of them (`asked_of_ok`).  One that fails has asked for those up to the one that
failed, which could not be read or not be answered (`cutShort_of_error`).
-/

namespace CondLang

namespace Expansion

/-- The queries that references among pieces make, or why they make none. -/
def queries (pieces : List Piece) : List (Except ExpansionError Query) :=
  pieces.filterMap fun
    | .literal _ => none
    | .reference kind inner => some (Query.parse kind inner)

/-- The references of a text from left to right: the query that each of them makes, or why it makes
none. -/
def references (text : List Char) : List (Except ExpansionError Query) := queries (pieces text)

/-- References are asked for up to one that fails: one that cannot be read, or one that is asked for
and has no answer. -/
inductive CutShort (env : Environment) :
    List (Except ExpansionError Query) → List Query → ExpansionError → Prop where
  | unreadable (before : List Query) (cause : ExpansionError)
      (behind : List (Except ExpansionError Query)) :
      CutShort env (before.map .ok ++ .error cause :: behind) before cause
  | unanswered (before : List Query) {query : Query} {cause : ExpansionError}
      (behind : List (Except ExpansionError Query)) (h : env.answer query = .error cause) :
      CutShort env (before.map .ok ++ .ok query :: behind) (before ++ [query]) cause

variable {env : Environment} {pieces : List Piece} {cause : ExpansionError}

theorem CutShort.cons {refs : List (Except ExpansionError Query)} {asked : List Query}
    (h : CutShort env refs asked cause) (query : Query) :
    CutShort env (.ok query :: refs) (query :: asked) cause := by
  cases h with
  | unreadable before cause behind => exact .unreadable (query :: asked) cause behind
  | unanswered before behind h => exact .unanswered (query :: before) behind h

theorem CutShort.ne_nil {refs : List (Except ExpansionError Query)} {asked : List Query}
    (h : CutShort env refs asked cause) : refs ≠ [] := by
  cases h <;> simp

theorem CutShort.mem {refs : List (Except ExpansionError Query)} {asked : List Query}
    (h : CutShort env refs asked cause) {query : Query} (hquery : query ∈ asked) :
    .ok query ∈ refs := by
  cases h with
  | unreadable before cause behind =>
    exact List.mem_append_left _ (List.mem_map_of_mem hquery)
  | unanswered before behind h =>
    rcases List.mem_append.1 hquery with hquery | hquery
    · exact List.mem_append_left _ (List.mem_map_of_mem hquery)
    · rw [List.mem_singleton.1 hquery]
      exact List.mem_append_right _ List.mem_cons_self

theorem prepend_ok {text result : List Char} {expansion : Expansion}
    (h : (expansion.prepend text).outcome = .ok result) :
    ∃ rest, expansion.outcome = .ok rest := by
  obtain ⟨asked, outcome | outcome⟩ := expansion
  · cases h
  · exact ⟨_, rfl⟩

theorem prepend_error {text : List Char} {expansion : Expansion}
    (h : (expansion.prepend text).outcome = .error cause) : expansion.outcome = .error cause := by
  obtain ⟨asked, outcome | outcome⟩ := expansion
  · cases h
    rfl
  · cases h

/-- What succeeds has asked for all references. -/
theorem asked_of_ok {result : List Char} (h : (assemble env pieces).outcome = .ok result) :
    (assemble env pieces).asked.map .ok = queries pieces := by
  induction pieces generalizing result with
  | nil => rfl
  | cons piece rest ih =>
    cases piece with
    | literal c =>
      obtain ⟨text, hrest⟩ := prepend_ok h
      exact ih hrest
    | reference kind inner =>
      rw [queries, List.filterMap_cons, ← queries]
      cases hparse : Query.parse kind inner with
      | error e =>
        simp only [assemble, hparse] at h
        cases h
      | ok query =>
        cases hanswer : env.answer query with
        | error e =>
          simp only [assemble, hparse, hanswer] at h
          cases h
        | ok text =>
          simp only [assemble, hparse, hanswer] at h ⊢
          obtain ⟨result, hrest⟩ := prepend_ok h
          exact congrArg (.ok query :: ·) (ih hrest)

/-- What fails has asked for the references up to the one that failed. -/
theorem cutShort_of_error (h : (assemble env pieces).outcome = .error cause) :
    CutShort env (queries pieces) (assemble env pieces).asked cause := by
  induction pieces with
  | nil => cases h
  | cons piece rest ih =>
    cases piece with
    | literal c => exact ih (prepend_error h)
    | reference kind inner =>
      rw [queries, List.filterMap_cons, ← queries]
      cases hparse : Query.parse kind inner with
      | error e =>
        simp only [assemble, hparse] at h ⊢
        cases h
        exact .unreadable [] cause _
      | ok query =>
        cases hanswer : env.answer query with
        | error e =>
          simp only [assemble, hparse, hanswer] at h ⊢
          cases h
          exact .unanswered [] _ hanswer
        | ok text =>
          simp only [assemble, hparse, hanswer] at h ⊢
          exact (ih (prepend_error h)).cons query

/-! ## Texts that ask nothing -/

theorem references_eq_nil {text : List Char}
    (h : ∀ kind inner, .reference kind inner ∉ Expansion.pieces text) : references text = [] := by
  refine List.filterMap_eq_nil_iff.2 fun piece hpiece => ?_
  cases piece with
  | literal c => rfl
  | reference kind inner => exact absurd hpiece (h kind inner)

/-- The queries of a text are those that it asks for. -/
theorem mem_references_iff {text : List Char} {query : Query} :
    .ok query ∈ references text ↔ Asks text query := by
  simp only [references, queries, List.mem_filterMap]
  constructor
  · rintro ⟨piece, hpiece, hquery⟩
    cases piece with
    | literal c => cases hquery
    | reference kind inner => exact ⟨kind, inner, hpiece, Option.some.inj hquery⟩
  · rintro ⟨kind, inner, hpiece, hparse⟩
    exact ⟨.reference kind inner, hpiece, congrArg some hparse⟩

/-- What a text asks for is asked when it is expanded, if that succeeds. -/
theorem Asks.mem_asked {text : String} {query : Query} {result : List Char}
    (h : Asks text.toList query) (hok : (ofText env text).outcome = .ok result) :
    query ∈ (ofText env text).asked := by
  have hreferences := mem_references_iff.2 h
  rw [references, ← asked_of_ok hok] at hreferences
  obtain ⟨asked, hasked, heq⟩ := List.mem_map.1 hreferences
  cases heq
  exact hasked

end Expansion

end CondLang
