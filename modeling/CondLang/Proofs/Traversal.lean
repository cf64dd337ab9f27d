import Mathlib.Data.List.Forall2

/-!
# Reading lists of values

A traversal that may fail ends well if and only if each element is read well, and then the results
are in relation to the elements, one by one (`mapM_eq_ok_iff`).  A loop that adds what it reads at
once is a traversal with everything added behind it (`loop_eq`).
-/

namespace CondLang

variable {α β γ σ ε : Type}

/-! ## Lists in relation -/

section Relation

variable {r : α → β → Prop} {list : List α} {results : List β}

/-- Each value is in relation to something if and only if all of them together are. -/
theorem exists_forall₂_iff :
    (∃ results, List.Forall₂ r list results) ↔ ∀ a ∈ list, ∃ b, r a b := by
  induction list with
  | nil => exact ⟨fun _ => List.forall_mem_nil _, fun _ => ⟨[], .nil⟩⟩
  | cons a list ih =>
    rw [List.forall_mem_cons, ← ih]
    constructor
    · rintro ⟨_, hfirst | ⟨hfirst, hrest⟩⟩
      exact ⟨⟨_, hfirst⟩, ⟨_, hrest⟩⟩
    · rintro ⟨⟨b, hfirst⟩, ⟨results, hrest⟩⟩
      exact ⟨b :: results, .cons hfirst hrest⟩

theorem exists_mem_of_forall₂ (h : List.Forall₂ r list results) {result : β}
    (hmem : result ∈ results) : ∃ a ∈ list, r a result := by
  induction h with
  | nil => cases hmem
  | @cons a b _ _ hfirst _ ih =>
    rcases List.mem_cons.1 hmem with rfl | hrest
    · exact ⟨a, List.mem_cons_self, hfirst⟩
    · obtain ⟨other, hother, hr⟩ := ih hrest
      exact ⟨other, List.mem_cons_of_mem _ hother, hr⟩

/-- Values in place of each of which something is read that stands for something else. -/
theorem forall₂_iff_exists_map {r' : α → γ → Prop} {f : γ → β}
    (h : ∀ a ∈ list, ∀ b, r a b ↔ ∃ c, r' a c ∧ f c = b) :
    List.Forall₂ r list results ↔
      ∃ others, List.Forall₂ r' list others ∧ others.map f = results := by
  induction list generalizing results with
  | nil => simp [eq_comm]
  | cons a list ih =>
    obtain ⟨ha, hlist⟩ := List.forall_mem_cons.1 h
    simp only [List.forall₂_cons_left_iff, ha, ih hlist]
    constructor
    · rintro ⟨b, others, ⟨c, hc, rfl⟩, ⟨rest, hrest, rfl⟩, rfl⟩
      exact ⟨c :: rest, ⟨c, rest, hc, hrest, rfl⟩, rfl⟩
    · rintro ⟨_, ⟨c, rest, hc, hrest, rfl⟩, rfl⟩
      exact ⟨f c, rest.map f, ⟨c, hc, rfl⟩, ⟨rest, hrest, rfl⟩, rfl⟩

/-- Pairs in relation have the same names, if each has the name of the one it is in relation to. -/
theorem map_fst_of_forall₂ {r : String × α → String × β → Prop}
    (hname : ∀ member result, r member result → result.1 = member.1) {members : List (String × α)}
    {results : List (String × β)} (h : List.Forall₂ r members results) :
    results.map Prod.fst = members.map Prod.fst := by
  induction h with
  | nil => rfl
  | cons hfirst _ ih => rw [List.map_cons, List.map_cons, hname _ _ hfirst, ih]

end Relation

/-! ## Outcomes -/

theorem map_eq_ok_iff {outcome : Except ε α} {f : α → β} {b : β} :
    outcome.map f = .ok b ↔ ∃ a, outcome = .ok a ∧ f a = b := by
  cases outcome <;> simp [Except.map]

theorem bind_eq_ok_iff {outcome : Except ε α} {next : α → Except ε β} {b : β} :
    outcome.bind next = .ok b ↔ ∃ a, outcome = .ok a ∧ next a = .ok b := by
  cases outcome <;> simp [Except.bind]

/-! ## Traversals -/

/-- A traversal ends well if and only if every element does, and the results are in place. -/
theorem mapM_eq_ok_iff {f : α → Except ε β} {list : List α} {results : List β} :
    list.mapM f = .ok results ↔ List.Forall₂ (fun a b => f a = .ok b) list results := by
  induction list generalizing results with
  | nil => cases results <;> simp [pure, Except.pure]
  | cons a list ih =>
    rw [List.mapM_cons, List.forall₂_cons_left_iff]
    cases f a with
    | error e => simp [bind, Except.bind]
    | ok b =>
      cases hothers : list.mapM f with
      | error e => simp [bind, Except.bind, ← ih, hothers]
      | ok others => simp [bind, Except.bind, pure, Except.pure, ← ih, hothers, eq_comm]

theorem mapM_reverse_eq_ok_iff {f : α → Except ε β} {list : List α} {results : List β} :
    list.reverse.mapM f = .ok results ↔ list.mapM f = .ok results.reverse := by
  rw [mapM_eq_ok_iff, mapM_eq_ok_iff, ← List.forall₂_reverse_iff, List.reverse_reverse]

section Loop

variable {loop : σ → List α → Except ε σ} {read : α → Except ε β} {add : σ → β → σ}

/-- A loop that reads values and adds each of them at once might as well read all of them first. -/
theorem loop_eq (hnil : ∀ state, loop state [] = .ok state)
    (hcons : ∀ state a rest,
      loop state (a :: rest) = (read a).bind fun b => loop (add state b) rest)
    (state : σ) (values : List α) :
    loop state values = (values.mapM read).map fun results => results.foldl add state := by
  induction values generalizing state with
  | nil => exact hnil state
  | cons a rest ih =>
    rw [hcons, List.mapM_cons]
    cases read a with
    | error e => rfl
    | ok b =>
      show loop (add state b) rest = _
      rw [ih]
      cases rest.mapM read <;> rfl

/-- A loop ends well if and only if every value is read well. -/
theorem loop_eq_ok_iff (hnil : ∀ state, loop state [] = .ok state)
    (hcons : ∀ state a rest,
      loop state (a :: rest) = (read a).bind fun b => loop (add state b) rest)
    {state result : σ} {values : List α} :
    loop state values = .ok result ↔
      ∃ results, List.Forall₂ (fun a b => read a = .ok b) values results ∧
        results.foldl add state = result := by
  rw [loop_eq hnil hcons, map_eq_ok_iff]
  simp only [mapM_eq_ok_iff]

end Loop

end CondLang
