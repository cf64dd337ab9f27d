import CondLang.Proofs.ConditionCache
import Mathlib.Data.Finset.Card
import Mathlib.Data.List.DropRight

/-!
# Runs of a cache

What a cache holds is decided by the calls made so far: the texts that were asked for since it was
last cleared and that parse (`ConditionCache.accepted`), each of them once.  That a cache stands
between a caller and the parser shows in no answer, and of a text that mixes its connectives one is
warned once from one clearing to the next (`ConditionCache.getOrParse_after`).
-/

namespace CondLang

/-- A condition keeps its text. -/
theorem Condition.text_of_parse {text : String} {policy : Policy} {condition : Condition}
    (h : parse text policy = .ok condition) : condition.text = text := by
  unfold parse at h
  split at h
  · cases h
  · split at h
    · cases h
      rfl
    · cases h

namespace ConditionCache

/-! ## Calls -/

/-- A call of a cache. -/
inductive Call where
  | request (text : String)
  | clear
  deriving DecidableEq, Repr

namespace Call

/-- The text that a call asks for. -/
def text? : Call → Option String
  | request text => some text
  | clear => none

/-- The cache after a call. -/
def after (cache : ConditionCache) : Call → ConditionCache
  | request text => (cache.getOrParse text).2.2
  | clear => cache.clear

/-- What a call notes. -/
def notes (cache : ConditionCache) : Call → List Note
  | request text => (cache.getOrParse text).2.1
  | clear => []

end Call

/-- The cache after calls. -/
def after (cache : ConditionCache) (calls : List Call) : ConditionCache :=
  calls.foldl Call.after cache

/-- What calls note, one after the other. -/
def log (cache : ConditionCache) : List Call → List Note
  | [] => []
  | call :: calls => call.notes cache ++ log (call.after cache) calls

/-- Whether a text parses to a condition that mixes its connectives. -/
def mixes (policy : Policy) (text : String) : Bool :=
  (Condition.parse text policy).toOption.any (·.mixesConnectives)

/-! ## Notes -/

theorem warnings_parseNotes (condition : Condition) :
    (parseNotes condition).filter (·.isWarning) =
      if condition.mixesConnectives then [.mixed condition.text] else [] := by
  rw [parseNotes]
  split <;> rfl

theorem isOk_of_mixes {policy : Policy} {text : String} (h : mixes policy text = true) :
    (Condition.parse text policy).isOk = true := by
  rw [mixes] at h
  cases hparse : Condition.parse text policy with
  | error e =>
    rw [hparse] at h
    cases h
  | ok condition => rfl

/-! ## Failing requests -/

theorem getOrParse_of_fails {cache : ConditionCache} {text : String}
    (h : (cache.getOrParse text).1.isOk = false) : (cache.getOrParse text).2.2 = cache := by
  unfold getOrParse at h ⊢
  split
  · rfl
  · split
    · rfl
    · simp_all [Except.isOk, Except.toBool]

/-! ## The texts of a history -/

/-- The texts that were asked for since the last clearing. -/
def requested (calls : List Call) : List String :=
  (calls.rtakeWhile (·.text?.isSome)).filterMap Call.text?

/-- The texts that were asked for since the last clearing and that parse. -/
def accepted (policy : Policy) (calls : List Call) : Finset String :=
  ((requested calls).filter fun text => (Condition.parse text policy).isOk).toFinset

/-- The texts that are accepted with one more of them requested. -/
def accept (policy : Policy) (texts : Finset String) (text : String) : Finset String :=
  if (Condition.parse text policy).isOk then insert text texts else texts

theorem mem_accept {policy : Policy} {texts : Finset String} {text other : String} :
    other ∈ accept policy texts text ↔
      other ∈ texts ∨ other = text ∧ (Condition.parse text policy).isOk = true := by
  rw [accept]
  split <;> simp_all [or_comm]

theorem accepted_request (policy : Policy) (calls : List Call) (text : String) :
    accepted policy (calls ++ [.request text]) = accept policy (accepted policy calls) text := by
  have hrequested : requested (calls ++ [.request text]) = requested calls ++ [text] := by
    rw [requested, List.rtakeWhile_concat_pos _ _ _ rfl, List.filterMap_append]
    rfl
  rw [accepted, hrequested, List.filter_append, List.toFinset_append, accept]
  cases hparse : Condition.parse text policy with
  | error e =>
    have hnone : [text].filter (fun text => (Condition.parse text policy).isOk) = [] := by
      simp [hparse, Except.isOk, Except.toBool]
    rw [hnone]
    exact Finset.union_empty _
  | ok condition =>
    have hone : [text].filter (fun text => (Condition.parse text policy).isOk) = [text] := by
      simp [hparse, Except.isOk, Except.toBool]
    rw [hone]
    exact Finset.union_comm _ _

theorem accepted_clear (policy : Policy) (calls : List Call) :
    accepted policy (calls ++ [.clear]) = ∅ := by
  rw [accepted, requested, List.rtakeWhile_concat_neg _ _ _ Bool.false_ne_true]
  rfl

/-! ## What a cache holds -/

/-- A cache of a policy that holds some texts, each of them once. -/
structure Holds (policy : Policy) (texts : Finset String) (cache : ConditionCache) : Prop
    extends Faithful policy cache where
  nodup : (cache.entries.map (·.1)).Nodup
  toFinset_eq : (cache.entries.map (·.1)).toFinset = texts

namespace Holds

variable {policy : Policy} {texts : Finset String} {cache : ConditionCache}

theorem size_eq (h : cache.Holds policy texts) : cache.size = texts.card := by
  rw [← h.toFinset_eq, List.toFinset_card_of_nodup h.nodup, List.length_map, size]

theorem find?_eq_none_iff (h : cache.Holds policy texts) (text : String) :
    cache.find? text = none ↔ text ∉ texts := by
  rw [← h.toFinset_eq, find?, Option.map_eq_none_iff, List.find?_eq_none, List.mem_toFinset,
    List.mem_map]
  simp only [beq_iff_eq, not_exists, not_and]

/-- What is held parses. -/
theorem isOk_of_mem (h : cache.Holds policy texts) {text : String} (hmem : text ∈ texts) :
    (Condition.parse text policy).isOk = true := by
  obtain ⟨cached, hcached⟩ := Option.ne_none_iff_exists'.1
    (mt (h.find?_eq_none_iff text).1 (not_not.2 hmem))
  rw [h.parse_of_find? hcached]
  rfl

theorem ofPolicy (policy : Policy) : (ofPolicy policy).Holds policy ∅ where
  toFaithful := .of_reachable .ofPolicy
  nodup := List.nodup_nil
  toFinset_eq := rfl

theorem clear (h : cache.Holds policy texts) : cache.clear.Holds policy ∅ where
  toFaithful := ⟨h.policy_eq, nofun⟩
  nodup := List.nodup_nil
  toFinset_eq := rfl

/-- A request answers from what is held, fails and leaves the cache as it is, or adds its text. -/
theorem getOrParse_cases (h : cache.Holds policy texts) (text : String) :
    (text ∈ texts ∧ (cache.getOrParse text).2 = ([], cache)) ∨
    (∃ e, Condition.parse text policy = .error e ∧ text ∉ texts ∧
      cache.getOrParse text = (.error e, [], cache)) ∨
    (∃ condition cached, Condition.parse text policy = .ok condition ∧ text ∉ texts ∧
      (cache.getOrParse text).2.1 = parseNotes condition ∧
      (cache.getOrParse text).2.2.entries = cache.entries ++ [(text, cached)]) := by
  rw [← h.find?_eq_none_iff text, ConditionCache.getOrParse]
  cases hfound : cache.find? text with
  | some cached => exact .inl ⟨not_not.1 (mt (h.find?_eq_none_iff text).2 (by simp [hfound])), rfl⟩
  | none =>
    rw [h.policy_eq]
    cases hparse : Condition.parse text policy with
    | error e => exact .inr (.inl ⟨e, rfl, rfl, rfl⟩)
    | ok condition => exact .inr (.inr ⟨condition, _, rfl, rfl, rfl, rfl⟩)

theorem getOrParse (h : cache.Holds policy texts) (text : String) :
    (cache.getOrParse text).2.2.Holds policy (accept policy texts text) := by
  refine ⟨h.toFaithful.getOrParse text, ?_, ?_⟩
  all_goals
    obtain ⟨hmem, hsnd⟩ | ⟨e, herror, -, heq⟩ | ⟨condition, cached, hok, hmem, -, hentries⟩ :=
      h.getOrParse_cases text
  · rw [hsnd]
    exact h.nodup
  · rw [heq]
    exact h.nodup
  · rw [← h.toFinset_eq, List.mem_toFinset] at hmem
    rw [hentries, List.map_append]
    exact h.nodup.append (List.nodup_singleton text) (by simpa using hmem)
  · rw [hsnd, accept, if_pos (h.isOk_of_mem hmem), Finset.insert_eq_of_mem hmem]
    exact h.toFinset_eq
  · rw [heq, accept, herror]
    exact h.toFinset_eq
  · rw [hentries, List.map_append, List.toFinset_append, h.toFinset_eq, accept, hok]
    exact Finset.union_comm _ _

/-- A request warns of a text that mixes its connectives and is not held. -/
theorem warnings_getOrParse (h : cache.Holds policy texts) (text : String) :
    (cache.getOrParse text).2.1.filter (·.isWarning) =
      if mixes policy text ∧ text ∉ texts then [.mixed text] else [] := by
  obtain ⟨hmem, hsnd⟩ | ⟨e, herror, -, heq⟩ | ⟨condition, cached, hok, hmem, hnotes, -⟩ :=
    h.getOrParse_cases text
  · rw [hsnd, if_neg (not_and_not_right.2 fun _ => hmem)]
    rfl
  · have hmixes : mixes policy text = false := by
      rw [mixes, herror]
      rfl
    rw [heq, hmixes, if_neg (not_and_of_not_left _ Bool.false_ne_true)]
    rfl
  · have hmixes : mixes policy text = condition.mixesConnectives := by
      rw [mixes, hok]
      rfl
    rw [hnotes, warnings_parseNotes, Condition.text_of_parse hok, hmixes]
    simp only [hmem, not_false_eq_true, and_true]

/-- Requests in a row warn once of each text that mixes its connectives and was not held. -/
theorem warnings_log (h : cache.Holds policy texts) (requests : List String) :
    (cache.log (requests.map .request)).filter (·.isWarning) =
      (requests.filter fun text => mixes policy text && text ∉ texts).eraseDups.map .mixed := by
  induction requests generalizing cache texts with
  | nil => rfl
  | cons text requests ih =>
    have hlog : (cache.log ((text :: requests).map .request)).filter (·.isWarning) =
        (cache.getOrParse text).2.1.filter (·.isWarning) ++
          ((cache.getOrParse text).2.2.log (requests.map .request)).filter (·.isWarning) :=
      List.filter_append ..
    rw [hlog, h.warnings_getOrParse text, ih (h.getOrParse text)]
    by_cases hwarns : mixes policy text ∧ text ∉ texts
    · have hrest (other : String) : (mixes policy other && other ∉ accept policy texts text) =
          (!(other == text) && (mixes policy other && other ∉ texts)) := by
        rw [accept, if_pos (isOk_of_mixes hwarns.1)]
        by_cases hother : other = text <;> simp [hother]
      rw [if_pos hwarns, List.filter_cons_of_pos (by simpa using hwarns), List.eraseDups_cons,
        List.filter_filter]
      simp only [hrest, List.map_cons, List.singleton_append]
    · -- Whatever else was accepted just now, it is none of the texts to warn of.
      have hrest (other : String) : (mixes policy other && other ∉ accept policy texts text) =
          (mixes policy other && other ∉ texts) := by
        by_cases hother : other = text
        · subst hother
          cases hmixes : mixes policy other with
          | false => rfl
          | true =>
            have hmem : other ∈ texts := not_not.1 fun hmem => hwarns ⟨hmixes, hmem⟩
            simp [mem_accept, hmem]
        · simp [mem_accept, hother]
      rw [if_neg hwarns, List.filter_cons_of_neg (by simpa using hwarns)]
      simp only [hrest, List.nil_append]

end Holds

/-- The cache that calls lead to holds the texts that they got accepted. -/
theorem holds_after (policy : Policy) (calls : List Call) :
    ((ofPolicy policy).after calls).Holds policy (accepted policy calls) := by
  induction calls using List.reverseRecOn with
  | nil => exact .ofPolicy policy
  | append_singleton calls call ih =>
    rw [after, List.foldl_append]
    cases call with
    | request text =>
      rw [accepted_request]
      exact ih.getOrParse text
    | clear =>
      rw [accepted_clear]
      exact ih.clear

/-- After any calls, a request answers like the parser, as many conditions are kept as different
texts were accepted since the last clearing, and a request that fails changes nothing.  It warns
when its text parses, mixes its connectives and is not accepted already; so requests with no
clearing between them warn once of each such text. -/
theorem getOrParse_after (policy : Policy) (calls : List Call) (text : String) :
    let cache := (ofPolicy policy).after calls
    (cache.getOrParse text).1.map (·.condition) = Condition.parse text policy ∧
    cache.size = (accepted policy calls).card ∧
    ((cache.getOrParse text).1.isOk = false → (cache.getOrParse text).2.2 = cache) ∧
    (cache.getOrParse text).2.1.filter (·.isWarning) =
      (if mixes policy text ∧ text ∉ accepted policy calls then [.mixed text] else []) ∧
    ∀ requests : List String,
      (cache.log (requests.map .request)).filter (·.isWarning) =
        (requests.filter fun request =>
          mixes policy request && request ∉ accepted policy calls).eraseDups.map .mixed := by
  intro cache
  have hholds : cache.Holds policy (accepted policy calls) := holds_after policy calls
  refine ⟨hholds.getOrParse_fst text, hholds.size_eq, fun hfails => ?_,
    hholds.warnings_getOrParse text, hholds.warnings_log⟩
  exact getOrParse_of_fails hfails

/-- A text that does not parse is asked of a cache that was cleared and holds two conditions. -/
theorem getOrParse_after_failing :
    let cache := (ofPolicy .everything).after
      [.request "a", .clear, .request "a or b and c", .request "d", .request "d", .request "("]
    (cache.getOrParse ")").1.isOk = false ∧ (cache.getOrParse ")").2.2 = cache ∧
      cache.size = 2 := by
  intro cache
  have hfails : (cache.getOrParse ")").1.isOk = false := by decide +kernel
  obtain ⟨-, -, hsame, -, -⟩ := getOrParse_after .everything
    [.request "a", .clear, .request "a or b and c", .request "d", .request "d", .request "("] ")"
  exact ⟨hfails, hsame hfails, by decide +kernel⟩

end ConditionCache

end CondLang
