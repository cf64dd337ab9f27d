import CondLang.Proofs.Reference.Scanner

/-!
# Groups are balanced

```text
Group := '(' ( Other | Quoted | Group )* ')'
```

`Quoted` is what stands between two equal quotes, with these, and `Other` is any character that is
neither a parenthesis nor a quote.  `Balanced` are the words of this grammar, and they are the texts
that are one group (`isGroup_iff_balanced`).

A word of the grammar is passed over at any depth, by induction over it (`closeFrom_body`).
The other way round, what is split off at a depth of `n + 1` closes `n + 1` parentheses, one after
the other, with words in between: `Closes` says so, and each character of the text adds to the first
of these words or ends it (`closesWithin_of_closeFrom`).
-/

namespace CondLang

namespace Reference

/-! ## The grammar -/

/-- What may stand between the parentheses of a group. -/
inductive Body : List Char → Prop
  | nil : Body []
  | other {c : Char} {rest : List Char} : c ≠ '(' → c ≠ ')' → isQuote c = false → Body rest →
      Body (c :: rest)
  | quoted {quote : Char} {content rest : List Char} : isQuote quote = true → quote ∉ content →
      Body rest → Body (quote :: (content ++ quote :: rest))
  | group {inner rest : List Char} : Body inner → Body rest →
      Body ('(' :: (inner ++ ')' :: rest))

/-- A pair of parentheses and what may stand between them. -/
def Balanced (text : List Char) : Prop := ∃ inner, Body inner ∧ text = '(' :: (inner ++ [')'])

/-- A text that closes `depth` parentheses and one more, the last of them at its end. -/
def Closes : Nat → List Char → Prop
  | 0, text => ∃ body, Body body ∧ text = body ++ [')']
  | depth + 1, text => ∃ body rest, Body body ∧ text = body ++ ')' :: rest ∧ Closes depth rest

variable {text body group left part : List Char} {depth start stop : Nat}

/-! ## Words are passed over -/

theorem closeFrom_body (h : Body body) (depth : Nat) (rest : List Char) :
    closeFrom (depth + 1) none (body ++ rest) =
      (closeFrom (depth + 1) none rest).map fun (group, left) => (body ++ group, left) := by
  induction h generalizing depth rest with
  | nil => simp
  | @other c body hopen hclose hquote _ ih =>
    have hpassed : ∀ d ∈ [c], d ≠ '(' ∧ d ≠ ')' ∧ isQuote d = false := by
      rintro d hd
      obtain rfl := List.mem_singleton.1 hd
      exact ⟨hopen, hclose, hquote⟩
    have hstep := closeFrom_append_passedOver hpassed (depth + 1) (body ++ rest)
    rw [List.singleton_append] at hstep
    rw [List.cons_append, hstep, ih, Option.map_map]
    rfl
  | @quoted quote content body hquote hcontent _ ih =>
    have hright : quote ≠ ')' := by
      rintro rfl
      revert hquote
      decide
    have hleft : quote ≠ '(' := by
      rintro rfl
      revert hquote
      decide
    have hstep := closeFrom_append_quoted hcontent (depth + 1) (quote :: (body ++ rest))
    simp [closeFrom, hright, hleft, hquote, hstep, ih, Function.comp_def]
  | @group inner body _ _ ihInner ihBody =>
    have hopen : isQuote '(' = false := by decide
    have hclose : isQuote ')' = false := by decide
    simp [closeFrom, hopen, hclose, ihInner (depth + 1), ihBody depth, Function.comp_def]

theorem Balanced.isGroup (h : Balanced text) : IsGroup text := by
  obtain ⟨inner, hinner, rfl⟩ := h
  have hend : closeFrom 1 none [')'] = some ([')'], []) := rfl
  refine ⟨rfl, ?_⟩
  have hopen : isQuote '(' = false := by decide
  simp [splitGroup?, closeFrom, hopen, closeFrom_body hinner 0 [')']]

/-! ## What is split off is a word -/

/-- What a word may start with may be put in front of a text that closes parentheses. -/
theorem Closes.append_front (hpart : ∀ body, Body body → Body (part ++ body))
    (h : Closes depth text) : Closes depth (part ++ text) := by
  cases depth with
  | zero =>
    obtain ⟨body, hbody, rfl⟩ := h
    exact ⟨part ++ body, hpart body hbody, (List.append_assoc ..).symm⟩
  | succ depth =>
    obtain ⟨body, rest, hbody, rfl, hrest⟩ := h
    exact ⟨part ++ body, rest, hpart body hbody, (List.append_assoc ..).symm, hrest⟩

/-- One parenthesis more that opens leaves one less to close. -/
theorem Closes.opened (h : Closes (depth + 1) text) : Closes depth ('(' :: text) := by
  obtain ⟨body, rest, hbody, rfl, hrest⟩ := h
  have hpart : ∀ others, Body others → Body (('(' :: (body ++ [')'])) ++ others) := by
    intro others hothers
    have hgroup := Body.group hbody hothers
    rwa [List.cons_append, List.append_assoc]
  have hfront := hrest.append_front hpart
  rwa [List.cons_append, List.append_assoc] at hfront

/-- A text that starts inside a quote closes parentheses behind the end of that quote. -/
def ClosesWithin : Option Char → Nat → List Char → Prop
  | none, depth, text => Closes depth text
  | some quote, depth, text =>
      ∃ content rest, quote ∉ content ∧ text = content ++ quote :: rest ∧ Closes depth rest

theorem closesWithin_of_closeFrom {quote : Option Char}
    (h : closeFrom (depth + 1) quote text = some (group, left)) :
    ClosesWithin quote depth group := by
  induction text generalizing depth quote group with
  | nil => simp [closeFrom] at h
  | cons c text ih =>
    cases quote with
    | some quote =>
      rw [closeFrom] at h
      obtain ⟨⟨tail, behind⟩, htail, heq⟩ := Option.map_eq_some_iff.1 h
      cases heq
      split at htail
      · next hend =>
        subst hend
        exact ⟨[], tail, List.not_mem_nil, rfl, ih htail⟩
      · next hne =>
        obtain ⟨content, rest, hcontent, rfl, hrest⟩ := ih htail
        refine ⟨c :: content, rest, ?_, rfl, hrest⟩
        rw [List.mem_cons, not_or]
        exact ⟨Ne.symm hne, hcontent⟩
    | none =>
      rw [closeFrom] at h
      split at h
      · next hlast =>
        obtain ⟨rfl, hdepth⟩ := hlast
        obtain rfl : depth = 0 := by omega
        cases h
        exact ⟨[], .nil, rfl⟩
      · next hlast =>
        obtain ⟨⟨tail, behind⟩, htail, heq⟩ := Option.map_eq_some_iff.1 h
        cases heq
        by_cases hleft : c = '('
        · subst hleft
          exact Closes.opened (ih htail)
        · by_cases hright : c = ')'
          · subst hright
            obtain ⟨depth, rfl⟩ := Nat.exists_eq_succ_of_ne_zero fun hzero : depth = 0 =>
              hlast ⟨rfl, by omega⟩
            exact ⟨[], tail, .nil, rfl, ih htail⟩
          · rw [if_neg hleft, if_neg hright] at htail
            cases hquote : isQuote c with
            | true =>
              rw [hquote] at htail
              obtain ⟨content, rest, hcontent, rfl, hrest⟩ := ih htail
              have hpart : ∀ body, Body body → Body ((c :: (content ++ [c])) ++ body) := by
                intro body hbody
                have hquoted := Body.quoted hquote hcontent hbody
                rwa [List.cons_append, List.append_assoc]
              have hfront := Closes.append_front hpart hrest
              rwa [List.cons_append, List.append_assoc] at hfront
            | false =>
              rw [hquote] at htail
              have hpart : ∀ body, Body body → Body ([c] ++ body) := fun _ hbody =>
                .other hleft hright hquote hbody
              exact Closes.append_front hpart (ih htail)

/-- The texts that are one group are the words of the grammar. -/
theorem isGroup_iff_balanced : IsGroup group ↔ Balanced group := by
  refine ⟨fun h => ?_, Balanced.isGroup⟩
  obtain ⟨inner, rfl⟩ := h.exists_eq
  have hsplit := h.split
  have hopen : isQuote '(' = false := by decide
  rw [splitGroup?, closeFrom, if_neg (by decide)] at hsplit
  obtain ⟨⟨tail, behind⟩, htail, heq⟩ := Option.map_eq_some_iff.1 hsplit
  simp only [Prod.mk.injEq, List.cons.injEq, true_and] at heq
  obtain ⟨rfl, rfl⟩ := heq
  obtain ⟨body, hbody, hconcat⟩ := closesWithin_of_closeFrom htail
  exact ⟨body, hbody, congrArg _ hconcat⟩

/-! ## Where a reference ends -/

theorem Balanced.exists_eq_cons (h : Balanced group) : ∃ c rest, group = '(' :: c :: rest := by
  obtain ⟨inner, -, rfl⟩ := h
  cases inner with
  | nil => exact ⟨_, _, rfl⟩
  | cons c inner => exact ⟨_, _, rfl⟩

theorem Balanced.two_le_length (h : Balanced group) : 2 ≤ group.length := by
  obtain ⟨c, rest, rfl⟩ := h.exists_eq_cons
  simp

theorem endOffset?_eq_some_iff (h : text[start + 1]? = some '(') :
    endOffset? text start = some stop ↔ ∃ group left, Balanced group ∧
      text.drop (start + 1) = group ++ left ∧ stop = start + 1 + group.length := by
  have hhead : (text.drop (start + 1)).head? = some '(' := by
    rw [List.head?_drop, h]
  constructor
  · intro hend
    obtain ⟨⟨group, left⟩, hsplit, rfl⟩ := Option.map_eq_some_iff.1 hend
    exact ⟨group, left, isGroup_iff_balanced.1 (isGroup_of_splitGroup? hhead hsplit),
      (splitGroup?_append hsplit).symm, rfl⟩
  · rintro ⟨group, left, hgroup, htext, rfl⟩
    rw [endOffset?, htext, hgroup.isGroup.splitGroup?_append left]
    rfl

/-- A word behind a sigil ends its reference. -/
theorem endOffset?_of_balanced (hstop : stop ≤ text.length)
    (h : Balanced (text.extract (start + 1) stop)) : endOffset? text start = some stop := by
  have hlength : (text.extract (start + 1) stop).length = stop - (start + 1) := by
    rw [List.extract_eq_take_drop, List.length_take, List.length_drop]
    omega
  have hlong := h.two_le_length
  have hdrop : text.drop (start + 1) = text.extract (start + 1) stop ++ text.drop stop := by
    have hbehind : (text.drop (start + 1)).drop (stop - (start + 1)) = text.drop stop := by
      rw [List.drop_drop]
      congr 1
      omega
    rw [← hbehind, List.extract_eq_take_drop, List.take_append_drop]
  have hopen : text[start + 1]? = some '(' := by
    obtain ⟨c, rest, hcons⟩ := h.exists_eq_cons
    rw [← List.head?_drop, hdrop, hcons]
    rfl
  refine (endOffset?_eq_some_iff hopen).2 ⟨_, text.drop stop, h, hdrop, ?_⟩
  omega

/-- What a reference ends with is a word, which lies in the text. -/
theorem balanced_of_endOffset? (h : text[start + 1]? = some '(')
    (hend : endOffset? text start = some stop) :
    start + 3 ≤ stop ∧ stop ≤ text.length ∧ Balanced (text.extract (start + 1) stop) := by
  obtain ⟨group, left, hgroup, hdrop, rfl⟩ := (endOffset?_eq_some_iff h).1 hend
  have hlong := hgroup.two_le_length
  have hlength := congrArg List.length hdrop
  rw [List.length_drop, List.length_append] at hlength
  refine ⟨by omega, by omega, ?_⟩
  rwa [List.extract_eq_take_drop, hdrop, Nat.add_sub_cancel_left, List.take_left]

/-- Another text in which the same word stands behind a character ends the reference there. -/
theorem endOffset?_of_extract_eq {text' : List Char} {start' : Nat}
    (h : text[start + 1]? = some '(') (hend : endOffset? text start = some stop)
    (hsame : text'.extract (start' + 1) (start' + (stop - start)) =
      text.extract (start + 1) stop) :
    endOffset? text' start' = some (start' + (stop - start)) := by
  obtain ⟨hlong, hstop, hword⟩ := balanced_of_endOffset? h hend
  have hlength := congrArg List.length hsame
  simp only [List.extract_eq_take_drop, List.length_take, List.length_drop] at hlength
  refine endOffset?_of_balanced ?_ (hsame ▸ hword)
  omega

theorem endOffset?_append_left (front text : List Char) (start : Nat) :
    endOffset? (front ++ text) (front.length + start) =
      (endOffset? text start).map (front.length + ·) := by
  rw [endOffset?, endOffset?, Nat.add_assoc, List.drop_length_add_append, Option.map_map]
  simp only [Function.comp_def, Nat.add_assoc]

/-- The position that moves over a text, and counts the parentheses that are open, ends where the
reference does. -/
theorem scanReference_eq (h : start < text.length) :
    ItemListReference.Scanner.scanReference text start =
      (endOffset? text start).elim (.error .malformed) .ok := by
  have hsuffix : text.drop (start + 1) <:+ text := List.drop_suffix _ _
  have hplace : ItemListReference.Scanner.place text (text.drop (start + 1)) = start + 1 := by
    rw [ItemListReference.Scanner.place, List.length_drop]
    omega
  have hscan := ItemListReference.Scanner.scanReference_place hsuffix (by omega)
  rw [hplace, Nat.add_sub_cancel] at hscan
  rw [hscan, endOffset?]
  cases hsplit : splitGroup? (text.drop (start + 1)) with
  | none => rfl
  | some parts =>
    obtain ⟨group, left⟩ := parts
    have hlength := congrArg List.length (splitGroup?_append hsplit)
    rw [List.length_append, List.length_drop] at hlength
    have hend : text.length - left.length = start + 1 + group.length := by omega
    show Except.ok (text.length - left.length) = Except.ok (start + 1 + group.length)
    rw [hend]

/-- A reference that opens at an offset ends where a word of the grammar does that starts with its
parenthesis; there is at most one.  So the end lies at least three characters behind the sigil and
within the text, and it is the same wherever these characters stand, whatever follows them and
whatever precedes them.  The position that moves over the text finds the same end. -/
theorem endOffset?_balanced (text : List Char) (start : Nat) (h : text[start + 1]? = some '(') :
    (∀ stop, endOffset? text start = some stop ↔
      stop ≤ text.length ∧ Balanced (text.extract (start + 1) stop)) ∧
    (∀ stop stop', stop ≤ text.length → Balanced (text.extract (start + 1) stop) →
      stop' ≤ text.length → Balanced (text.extract (start + 1) stop') → stop = stop') ∧
    (∀ stop, endOffset? text start = some stop →
      start + 3 ≤ stop ∧ stop ≤ text.length ∧
      (∀ text' start', text'.extract (start' + 1) (start' + (stop - start)) =
        text.extract (start + 1) stop → endOffset? text' start' = some (start' + (stop - start))) ∧
      ∀ behind, endOffset? (text ++ behind) start = some stop) ∧
    (∀ front, endOffset? (front ++ text) (front.length + start) =
      (endOffset? text start).map (front.length + ·)) ∧
    ItemListReference.Scanner.scanReference text start =
      (endOffset? text start).elim (.error .malformed) .ok := by
  have hstart : start + 1 < text.length := (List.getElem?_eq_some_iff.1 h).1
  refine ⟨fun stop => ⟨fun hend => (balanced_of_endOffset? h hend).2,
    fun hword => endOffset?_of_balanced hword.1 hword.2⟩, ?_, ?_,
    fun front => endOffset?_append_left front text start, scanReference_eq (by omega)⟩
  · intro stop stop' hstop hword hstop' hword'
    have hend := endOffset?_of_balanced hstop hword
    rw [endOffset?_of_balanced hstop' hword'] at hend
    exact (Option.some.inj hend).symm
  · intro stop hend
    obtain ⟨hlong, hstop, -⟩ := balanced_of_endOffset? h hend
    refine ⟨hlong, hstop, fun text' start' => endOffset?_of_extract_eq h hend, fun behind => ?_⟩
    have hsame : (text ++ behind).extract (start + 1) (start + (stop - start)) =
        text.extract (start + 1) stop := by
      rw [Nat.add_sub_of_le (by omega), List.extract_eq_take_drop, List.extract_eq_take_drop,
        List.drop_append_of_le_length (by omega), List.take_append_of_le_length ?_]
      rw [List.length_drop]
      omega
    have hbehind := endOffset?_of_extract_eq h hend hsame
    rwa [Nat.add_sub_of_le (by omega)] at hbehind

/-- A parenthesis in quotes closes nothing. -/
theorem endOffset?_balanced_quoted :
    "x$(A.Replace(')', 'x')) y".toList[1 + 1]? = some '(' ∧
    endOffset? "x$(A.Replace(')', 'x')) y".toList 1 = some 23 ∧
    Balanced "(A.Replace(')', 'x'))".toList ∧
    ∀ stop ≤ 25, Balanced ("x$(A.Replace(')', 'x')) y".toList.extract 2 stop) → stop = 23 := by
  have hopen : "x$(A.Replace(')', 'x')) y".toList[1 + 1]? = some '(' := by decide
  have hend : endOffset? "x$(A.Replace(')', 'x')) y".toList 1 = some 23 := by decide
  obtain ⟨hiff, hunique, -⟩ := endOffset?_balanced _ 1 hopen
  obtain ⟨hstop, hword⟩ := (hiff 23).1 hend
  exact ⟨hopen, hend, hword, fun stop hle hother => hunique stop 23 hle hother hstop hword⟩

end Reference

end CondLang
