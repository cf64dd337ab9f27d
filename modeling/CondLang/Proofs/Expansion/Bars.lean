import CondLang.Evaluation
import CondLang.Proofs.Expansion.Asked
import CondLang.Proofs.Reference.Named

/-!
# References between bars

What is compared with a literal is cut at bars, and a part that is nothing but a reference to a
property stands for that property.  The expansion of the same text does not look at bars: it cuts
where references end.  So such a part is a reference that the text asks for, or bars were found
inside another reference (`asks_or_encloses`).

Whether it is one or the other is decided where the part starts.  Between pieces, the reference is a
piece, too.  Inside a reference, the part is passed over: its parentheses balance, and it holds no
quote (`Reference.Skipped`).  So that reference does not end before the next bar.
-/

namespace CondLang

/-! ## Cutting at a separator -/

namespace Text

/-- A text with a part in it that reaches from a separator to the next one, or to the ends. -/
structure Cut (separator : Char) (before part after : List Char) : Prop where
  front : before = [] ∨ ∃ others, before = others ++ [separator]
  back : after = [] ∨ ∃ others, after = separator :: others

theorem Cut.of_append {separator : Char} {others before part after : List Char}
    (h : Cut separator (others ++ before) part after) : Cut separator before part after := by
  refine ⟨?_, h.back⟩
  rcases List.eq_nil_or_concat before with rfl | ⟨front, c, rfl⟩
  · exact .inl rfl
  · rw [List.concat_eq_append, ← List.append_assoc] at h
    rcases h.front with hnil | ⟨behind, hconcat⟩
    · simp at hnil
    · obtain rfl : c = separator := (List.append_inj' hconcat rfl).2 |> List.singleton_inj.1
      exact .inr ⟨front, List.concat_eq_append⟩

/-- Each part of a text has a place in it. -/
theorem exists_cut_of_splitOn {separator : Char} {text part : List Char}
    {others behind : List (List Char)} (h : splitOn separator text = others ++ part :: behind) :
    ∃ before after, text = before ++ (part ++ after) ∧ Cut separator before part after := by
  induction others generalizing text with
  | nil =>
    cases behind with
    | nil =>
      refine ⟨[], [], ?_, .inl rfl, .inl rfl⟩
      rw [List.nil_append, List.append_nil]
      exact eq_of_splitOn_eq_singleton h
    | cons next behind =>
      obtain ⟨rest, htext, -⟩ := exists_of_splitOn_eq_cons_cons h
      exact ⟨[], separator :: rest, htext, .inl rfl, .inr ⟨rest, rfl⟩⟩
  | cons first others ih =>
    obtain ⟨next, parts, hparts⟩ : ∃ next parts, others ++ part :: behind = next :: parts := by
      cases others <;> exact ⟨_, _, rfl⟩
    rw [List.cons_append, hparts] at h
    obtain ⟨rest, rfl, hrest⟩ := exists_of_splitOn_eq_cons_cons h
    rw [← hparts] at hrest
    obtain ⟨before, after, rfl, hcut⟩ := ih hrest
    refine ⟨first ++ separator :: before, after, by simp, .inr ?_, hcut.back⟩
    rcases hcut.front with rfl | ⟨others, rfl⟩
    · exact ⟨first, rfl⟩
    · exact ⟨first ++ separator :: others, by simp⟩

/-- The blanks that are trimmed off stand around what is left. -/
theorem exists_append_trimmed (text : List Char) :
    ∃ front back, text = front ++ (trimmed text ++ back) ∧
      (∀ c ∈ front, isBlank c = true) ∧ ∀ c ∈ back, isBlank c = true := by
  have hsplit (text : List Char) : text.takeWhile isBlank ++ dropBlanks text = text :=
    List.takeWhile_append_dropWhile
  have hblanks (text : List Char) : ∀ c ∈ text.takeWhile isBlank, isBlank c = true :=
    List.all_eq_true.1 List.all_takeWhile
  refine ⟨text.takeWhile isBlank, ((dropBlanks text).reverse.takeWhile isBlank).reverse, ?_,
    hblanks text, fun c hc => hblanks _ c (List.mem_reverse.1 hc)⟩
  rw [trimmed, ← List.reverse_append, hsplit, List.reverse_reverse, hsplit]

end Text

/-! ## Passing over a part -/

namespace Reference

/-- Wherever a group has got to inside its parentheses, it passes over a text. -/
def Skipped (text : List Char) : Prop :=
  ∀ (depth : Nat) (quote : Option Char) (rest : List Char), 1 ≤ depth →
    (∀ q ∈ quote, isQuote q = true) →
    closeFrom depth quote (text ++ rest) =
      (closeFrom depth quote rest).map fun (group, left) => (text ++ group, left)

variable {text inner front rest group left : List Char} {depth : Nat} {quote : Option Char}

theorem Skipped.append (htext : Skipped text) (hinner : Skipped inner) :
    Skipped (text ++ inner) := by
  intro depth quote rest hdepth hquote
  rw [List.append_assoc, htext _ _ _ hdepth hquote, hinner _ _ _ hdepth hquote, Option.map_map]
  simp [Function.comp_def]

theorem skipped_of_passedOver (h : ∀ c ∈ text, c ≠ '(' ∧ c ≠ ')' ∧ isQuote c = false) :
    Skipped text := by
  intro depth quote rest _ hquote
  cases quote with
  | none => exact closeFrom_append_passedOver h depth rest
  | some q =>
    refine closeFrom_append_quoted (fun hq => ?_) depth rest
    exact Bool.false_ne_true ((h q hq).2.2.symm.trans (hquote q rfl))

/-- Parentheses around a text that is passed over are passed over with it. -/
theorem Skipped.parenthesized (h : Skipped inner) : Skipped ('(' :: (inner ++ [')'])) := by
  intro depth quote rest hdepth hquote
  have hopen : isQuote '(' = false := by decide
  have hclose : isQuote ')' = false := by decide
  cases quote with
  | none =>
    have hdeep : ¬depth + 1 ≤ 1 := by omega
    simp [closeFrom, hopen, h (depth + 1) none _ (by omega) (by simp), hdeep, hclose,
      Function.comp_def]
  | some q =>
    have hq : isQuote q = true := hquote q rfl
    have hnot : ∀ c, isQuote c = false → c ≠ q := by
      rintro c hc rfl
      rw [hq] at hc
      cases hc
    simp [closeFrom, hnot _ hopen, hnot _ hclose, h depth (some q) _ hdepth hquote,
      Function.comp_def]

/-- Where a group has got to somewhere inside its parentheses, the rest of it closes it. -/
theorem exists_closeFrom_of_append (hgroup : group ≠ []) (hdepth : 1 ≤ depth)
    (hquote : ∀ q ∈ quote, isQuote q = true)
    (h : closeFrom depth quote (front ++ rest) = some (front ++ group, left)) :
    ∃ depth' quote', 1 ≤ depth' ∧ (∀ q ∈ quote', isQuote q = true) ∧
      closeFrom depth' quote' rest = some (group, left) := by
  induction front generalizing depth quote with
  | nil => exact ⟨depth, quote, hdepth, hquote, h⟩
  | cons c front ih =>
    cases quote with
    | some q =>
      simp only [List.cons_append, closeFrom, Option.map_eq_some_iff] at h
      obtain ⟨⟨tail, after⟩, htail, heq⟩ := h
      cases heq
      refine ih hdepth ?_ htail
      split
      · simp
      · exact hquote
    | none =>
      simp only [List.cons_append, closeFrom] at h
      split at h
      · simp [hgroup] at h
      · next hopen =>
        simp only [Option.map_eq_some_iff] at h
        obtain ⟨⟨tail, after⟩, htail, heq⟩ := h
        cases heq
        refine ih ?_ ?_ htail
        · grind
        · grind

end Reference

/-! ## Parts that are references -/

namespace Expansion

open Reference (IsGroup Skipped)

/-- A part is a reference to a property and nothing else, but for blanks. -/
structure Sole (part inner : List Char) (name : String) : Prop where
  eq : ∃ front back, part = front ++ ('$' :: '(' :: (inner ++ [')']) ++ back) ∧
    (∀ c ∈ front, Text.isBlank c = true) ∧ ∀ c ∈ back, Text.isBlank c = true
  passedOver : ∀ c ∈ inner, c ≠ '(' ∧ c ≠ ')' ∧ Reference.isQuote c = false
  parsed : Query.parse .property inner = .ok (.property name)

variable {before part after inner : List Char} {name : String}

theorem exists_sole_of_soleProperty? (h : Expr.soleProperty? part = some name) :
    ∃ inner, Sole part inner name := by
  unfold Expr.soleProperty? at h
  split at h
  · next rest htrimmed =>
    simp only [Option.ite_none_right_eq_some] at h
    obtain ⟨hlast, hname, heq⟩ := h
    cases heq
    obtain ⟨inner, rfl⟩ := List.getLast?_eq_some_iff.1 hlast
    rw [List.dropLast_concat] at hname ⊢
    obtain ⟨front, back, hpart, hfront, hback⟩ := Text.exists_append_trimmed part
    obtain ⟨blanks, blanks', hinner, hblanks, hblanks'⟩ := Text.exists_append_trimmed inner
    rw [htrimmed] at hpart
    refine ⟨inner, ⟨front, back, hpart, hfront, hback⟩, fun c hc => ?_, rfl⟩
    rw [hinner, List.mem_append, List.mem_append] at hc
    rcases hc with hc | hc | hc
    · exact Character.passedOver_of_isBlank (hblanks c hc)
    · exact Character.passedOver_of_isNameChar ((Character.isName_iff.1 hname).2 c hc)
    · exact Character.passedOver_of_isBlank (hblanks' c hc)
  · cases h

namespace Sole

/-- A part that is a reference is passed over by the groups that it stands in. -/
theorem skipped (h : Sole part inner name) : Skipped part := by
  obtain ⟨front, back, rfl, hfront, hback⟩ := h.eq
  have hsigil : Skipped ['$'] := Reference.skipped_of_passedOver (by simp [Reference.isQuote])
  have hgroup := (Reference.skipped_of_passedOver h.passedOver).parenthesized
  have hblanks {text : List Char} (h : ∀ c ∈ text, Text.isBlank c = true) : Skipped text :=
    Reference.skipped_of_passedOver fun c hc => Character.passedOver_of_isBlank (h c hc)
  exact (hblanks hfront).append ((hsigil.append hgroup).append (hblanks hback))

theorem isGroup (h : Sole part inner name) : IsGroup ('(' :: (inner ++ [')'])) :=
  Reference.isGroup_of_passedOver h.passedOver rfl

/-- A text that starts with the part starts with the reference, but for blanks. -/
theorem mem_pieces (h : Sole part inner name) (after : List Char) :
    .reference .property inner ∈ pieces (part ++ after) := by
  obtain ⟨front, back, rfl, hfront, -⟩ := h.eq
  have hgroup := h.isGroup
  clear h
  induction front with
  | nil =>
    have hpieces : pieces (ReferenceKind.property.sigil :: ('(' :: (inner ++ [')']) ++
        (back ++ after))) = _ := pieces_group hgroup
    rw [ItemListReference.inside_cons_append] at hpieces
    rw [List.nil_append, List.append_assoc]
    exact hpieces ▸ List.mem_cons_self
  | cons c front ih =>
    obtain ⟨hc, hfront⟩ := List.forall_mem_cons.1 hfront
    have hsigil := Character.ofSigil?_of_isBlank hc
    rw [List.cons_append, List.cons_append,
      pieces_literal (Reference.opening?_cons_eq_none_iff.2 fun _ => hsigil)]
    exact List.mem_cons_of_mem _ (ih hfront)

/-- A reference inside which the part starts, behind a bar, reaches to the next bar at least. -/
theorem exists_inside_eq {kind : ReferenceKind} {rest left : List Char} (h : Sole part inner name)
    (hcut : Text.Cut '|' (kind.sigil :: before) part after) (hgroup : IsGroup (before ++ rest))
    (hrest : rest ≠ []) (htext : rest ++ left = part ++ after) :
    ∃ front back,
      ItemListReference.inside (before ++ rest) = front ++ '|' :: (part ++ '|' :: back) := by
  obtain ⟨front, rfl⟩ : ∃ front, before = '(' :: (front ++ ['|']) := by
    obtain ⟨others, hothers⟩ := hcut.front.resolve_left (List.cons_ne_nil _ _)
    rcases others with _ | ⟨sigil, _ | ⟨c, front⟩⟩
    · cases kind <;> cases hothers
    · rw [(List.cons.inj hothers).2] at hgroup
      cases hgroup.head
    · rw [(List.cons.inj hothers).2] at hgroup ⊢
      cases hgroup.head
      exact ⟨front, rfl⟩
  have hclose : Reference.closeFrom 1 none (front ++ ['|'] ++ (rest ++ left)) =
      some (front ++ ['|'] ++ rest, left) := by
    have hsplit := hgroup.splitGroup?_append left
    simpa [Reference.splitGroup?, Reference.closeFrom, Reference.isQuote] using hsplit
  obtain ⟨depth, quote, hdepth, hquote, hclose⟩ :=
    Reference.exists_closeFrom_of_append hrest le_rfl (by simp) hclose
  rw [htext, h.skipped depth quote after hdepth hquote, Option.map_eq_some_iff] at hclose
  obtain ⟨⟨tail, left'⟩, htail, heq⟩ := hclose
  cases heq
  obtain ⟨body, rfl⟩ := Reference.exists_concat_of_closeFrom htail
  have hbody := Reference.closeFrom_append htail
  rcases hcut.back with rfl | ⟨behind, rfl⟩
  · simp at hbody
  · cases body with
    | nil => cases hbody
    | cons c back =>
      obtain rfl : c = '|' := (List.cons.inj hbody).1
      refine ⟨front, back, ?_⟩
      rw [← ItemListReference.inside_cons_append (front ++ '|' :: (part ++ '|' :: back))]
      simp

end Sole

/-- A text holds a reference with a part between two bars in it. -/
def Encloses (text part : List Char) : Prop :=
  ∃ kind front back, .reference kind (front ++ '|' :: (part ++ '|' :: back)) ∈ pieces text

section

variable {text text' : List Char}

theorem Asks.mono {query : Query} (h : Asks text query) (hpieces : pieces text ⊆ pieces text') :
    Asks text' query := by
  obtain ⟨kind, inner, hpiece, hparse⟩ := h
  exact ⟨kind, inner, hpieces hpiece, hparse⟩

theorem Encloses.mono (h : Encloses text part) (hpieces : pieces text ⊆ pieces text') :
    Encloses text' part := by
  obtain ⟨kind, front, back, hpiece⟩ := h
  exact ⟨kind, front, back, hpieces hpiece⟩

end

/-- A part between bars that is a reference to a property is asked for, or it stands between two
bars inside another reference. -/
theorem asks_or_encloses (h : Sole part inner name) (hcut : Text.Cut '|' before part after) :
    Asks (before ++ (part ++ after)) (.property name) ∨
      Encloses (before ++ (part ++ after)) part := by
  -- What is left of the text in front of the part gets shorter with each piece.
  induction hlength : before.length using Nat.strong_induction_on generalizing before with
  | _ length ih =>
    cases before with
    | nil => exact .inl ⟨.property, inner, h.mem_pieces after, h.parsed⟩
    | cons c before =>
      have hbehind {skipped before' : List Char} (hbefore : before = skipped ++ before')
          (hpieces : pieces (before' ++ (part ++ after)) ⊆
            pieces (c :: (before ++ (part ++ after)))) :
          Asks (c :: (before ++ (part ++ after))) (.property name) ∨
            Encloses (c :: (before ++ (part ++ after))) part := by
        have hshorter : before'.length < length := by
          rw [← hlength, hbefore, List.length_cons, List.length_append]
          omega
        rw [hbefore] at hcut
        have hcut' : Text.Cut '|' (c :: skipped ++ before') part after := hcut
        exact (ih _ hshorter hcut'.of_append rfl).imp (·.mono hpieces) (·.mono hpieces)
      cases hfront : Reference.front (c :: (before ++ (part ++ after))) with
      | plain | unclosed =>
        have hpieces : pieces (c :: (before ++ (part ++ after))) =
            .literal c :: pieces (before ++ (part ++ after)) := pieces_kept (by simp [hfront])
        exact hbehind (List.nil_append before).symm (hpieces ▸ List.subset_cons_self _ _)
      | closed kind group left =>
        obtain ⟨hgroup, htext⟩ := Reference.front_eq_closed_iff.1 hfront
        obtain ⟨rfl, happend⟩ := List.cons.inj htext
        have hpieces : pieces (kind.sigil :: (before ++ (part ++ after))) =
            .reference kind (ItemListReference.inside group) :: pieces left := by
          rw [happend]
          exact pieces_group hgroup
        have hsubset : pieces left ⊆ pieces (kind.sigil :: (before ++ (part ++ after))) :=
          hpieces ▸ List.subset_cons_self _ _
        rcases List.append_eq_append_iff.1 happend with
          ⟨rest, rfl, hleft⟩ | ⟨skipped, hbefore, rfl⟩
        · by_cases hnil : rest = []
          · rw [hnil, List.nil_append] at hleft
            rw [← hleft] at hsubset
            exact hbehind (List.append_nil before).symm hsubset
          · obtain ⟨front, back, hinside⟩ := h.exists_inside_eq hcut hgroup hnil hleft.symm
            rw [hinside] at hpieces
            exact .inr ⟨kind, front, back, hpieces ▸ List.mem_cons_self⟩
        · exact hbehind hbefore hsubset

end Expansion

end CondLang
