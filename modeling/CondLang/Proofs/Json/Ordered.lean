import CondLang.Json.Reader
import CondLang.Proofs.Text.ByteOrder

/-!
# Objects that are read are in order

However the members of an object are written, the object that is read holds them in the order of
their keys, and no key twice.  This goes for all objects within a value (`Json.Ordered`), and for
all values that are read (`Json.ordered_of_parse?`).

A reader keeps to a property if all that it takes off a text has it (`Reader.Keeps`); the readers of
values, of the values of arrays and of the members of objects do so one by one.
-/

namespace CondLang.Json

/-- The objects within a value hold their members in the order of their keys, each key once. -/
inductive Ordered : Json → Prop
  | null : Ordered null
  | bool (value : Bool) : Ordered (bool value)
  | number (value : JsonNumber) : Ordered (number value)
  | string (value : String) : Ordered (string value)
  | array {values : List Json} : (∀ value ∈ values, Ordered value) → Ordered (array values)
  | object {members : List (String × Json)} : members.Pairwise (fun a b => a.1 < b.1) →
      (∀ member ∈ members, Ordered member.2) → Ordered (object members)

variable {members : List (String × Json)} {key : String} {value : Json}

theorem Ordered.pairwise (h : Ordered (.object members)) :
    members.Pairwise fun a b => a.1 < b.1 := by
  cases h with
  | object hpairwise => exact hpairwise

theorem Ordered.of_mem (h : Ordered (.object members)) :
    ∀ member ∈ members, Ordered member.2 := by
  cases h with
  | object _ hmembers => exact hmembers

/-! ## Putting a member in its place -/

theorem mem_of_mem_insertMember {member : String × Json}
    (h : member ∈ insertMember key value members) : member = (key, value) ∨ member ∈ members := by
  induction members with
  | nil => exact .inl (List.mem_singleton.1 h)
  | cons first rest ih =>
    obtain ⟨first, old⟩ := first
    rw [insertMember] at h
    split at h
    · exact List.mem_cons.1 h
    · split at h
      · exact (List.mem_cons.1 h).imp_right (List.mem_cons_of_mem _)
      · rcases List.mem_cons.1 h with rfl | hrest
        · exact .inr List.mem_cons_self
        · exact (ih hrest).imp_right (List.mem_cons_of_mem _)

theorem pairwise_insertMember (key : String) (value : Json)
    (h : members.Pairwise fun a b => a.1 < b.1) :
    (insertMember key value members).Pairwise fun a b => a.1 < b.1 := by
  induction members with
  | nil => exact List.pairwise_singleton _ _
  | cons first rest ih =>
    obtain ⟨first, old⟩ := first
    obtain ⟨hfirst, hrest⟩ := List.pairwise_cons.1 h
    rw [insertMember]
    split
    · next hless =>
      refine List.pairwise_cons.2 ⟨fun member hmember => ?_, h⟩
      rcases List.mem_cons.1 hmember with rfl | hmember
      · exact hless
      · exact String.lt_trans hless (hfirst member hmember)
    · next hless =>
      split
      · next hsame =>
        subst hsame
        exact List.pairwise_cons.2 ⟨hfirst, hrest⟩
      · next hother =>
        have hmore : first < key := lt_of_le_of_ne (not_lt.1 hless) (Ne.symm hother)
        refine List.pairwise_cons.2 ⟨fun member hmember => ?_, ih hrest⟩
        rcases mem_of_mem_insertMember hmember with rfl | hmember
        · exact hmore
        · exact hfirst member hmember

/-- An object made of values that are in order is in order, whatever the order of its members. -/
theorem ordered_ofMembers (h : ∀ member ∈ members, Ordered member.2) :
    Ordered (ofMembers members) := by
  -- The members inserted so far are in order.
  have hfold : ∀ inserted : List (String × Json), Ordered (object inserted) →
      Ordered (object (members.foldl (fun sorted member => insertMember member.1 member.2 sorted)
        inserted)) := by
    induction members with
    | nil => exact fun _ hinserted => hinserted
    | cons member rest ih =>
      intro inserted hinserted
      obtain ⟨hmember, hrest⟩ := List.forall_mem_cons.1 h
      refine ih hrest _ (.object (pairwise_insertMember _ _ hinserted.pairwise) ?_)
      intro other hother
      rcases mem_of_mem_insertMember hother with rfl | hother
      · exact hmember
      · exact hinserted.of_mem other hother
  exact hfold [] (.object .nil (List.forall_mem_nil _))

/-! ## Reading -/

/-- What a reader takes off a text has a property. -/
def Reader.Keeps {α : Type} (p : α → Prop) (reader : Reader α) : Prop :=
  ∀ text a left, reader text = some (a, left) → p a

variable {reader : Reader Json}

theorem keeps_takeValues? (h : reader.Keeps Ordered) (fuel : Nat) :
    Reader.Keeps (∀ value ∈ ·, Ordered value) (takeValues? reader fuel) := by
  intro text values left htake
  induction fuel generalizing text values with
  | zero => cases htake
  | succ fuel ih =>
    rw [takeValues?] at htake
    obtain ⟨⟨first, behind⟩, hfirst, htake⟩ := Option.bind_eq_some_iff.1 htake
    have hordered := h _ _ _ hfirst
    simp only at htake
    split at htake
    · obtain ⟨⟨others, after⟩, hothers, heq⟩ := Option.bind_eq_some_iff.1 htake
      cases heq
      exact List.forall_mem_cons.2 ⟨hordered, ih _ _ hothers⟩
    · cases htake
      exact List.forall_mem_singleton.2 hordered
    · cases htake

theorem keeps_takeMembers? (h : reader.Keeps Ordered) (fuel : Nat) :
    Reader.Keeps (∀ member ∈ ·, Ordered member.2) (takeMembers? reader fuel) := by
  intro text members left htake
  induction fuel generalizing text members with
  | zero => cases htake
  | succ fuel ih =>
    rw [takeMembers?] at htake
    split at htake
    · obtain ⟨⟨key, left⟩, -, htake⟩ := Option.bind_eq_some_iff.1 htake
      obtain ⟨behind, -, htake⟩ := Option.bind_eq_some_iff.1 htake
      obtain ⟨⟨first, after⟩, hfirst, htake⟩ := Option.bind_eq_some_iff.1 htake
      have hordered := h _ _ _ hfirst
      simp only at htake
      split at htake
      · obtain ⟨⟨others, rest⟩, hothers, heq⟩ := Option.bind_eq_some_iff.1 htake
        cases heq
        exact List.forall_mem_cons.2 ⟨hordered, ih _ _ hothers⟩
      · cases htake
        exact List.forall_mem_singleton.2 hordered
      · cases htake
    · cases htake

theorem keeps_takeArray? (h : reader.Keeps Ordered) : (takeArray? reader).Keeps Ordered := by
  intro text value left htake
  unfold takeArray? at htake
  split at htake
  · cases htake
    exact .array (List.forall_mem_nil _)
  · obtain ⟨⟨values, behind⟩, hvalues, heq⟩ := Option.map_eq_some_iff.1 htake
    cases heq
    exact .array (keeps_takeValues? h _ _ _ _ hvalues)

theorem keeps_takeObject? (h : reader.Keeps Ordered) : (takeObject? reader).Keeps Ordered := by
  intro text value left htake
  unfold takeObject? at htake
  split at htake
  · cases htake
    exact .object .nil (List.forall_mem_nil _)
  · obtain ⟨⟨members, behind⟩, hmembers, heq⟩ := Option.map_eq_some_iff.1 htake
    cases heq
    exact ordered_ofMembers (keeps_takeMembers? h _ _ _ _ hmembers)

theorem keeps_takeValueWith? {inner : Option (Reader Json)}
    (h : ∀ reader ∈ inner, Reader.Keeps Ordered reader) :
    (takeValueWith? inner).Keeps Ordered := by
  intro text value left htake
  unfold takeValueWith? at htake
  split at htake
  · obtain ⟨reader, hreader, htake⟩ := Option.bind_eq_some_iff.1 htake
    exact keeps_takeArray? (h reader hreader) _ _ _ htake
  · obtain ⟨reader, hreader, htake⟩ := Option.bind_eq_some_iff.1 htake
    exact keeps_takeObject? (h reader hreader) _ _ _ htake
  -- All other values hold no members.
  all_goals
    obtain ⟨_, -, heq⟩ := Option.map_eq_some_iff.1 htake
    cases heq
    constructor

theorem keeps_takeValue? (depth : Nat) : (takeValue? depth).Keeps Ordered := by
  induction depth with
  | zero => exact keeps_takeValueWith? nofun
  | succ depth ih =>
    refine keeps_takeValueWith? fun reader hreader => ?_
    cases hreader
    exact ih

/-- What a text writes is in order. -/
theorem ordered_of_parse? {text : String} {document : Json} (h : parse? text = some document) :
    Ordered document := by
  obtain ⟨⟨value, left⟩, htake, h⟩ := Option.bind_eq_some_iff.1 h
  simp only at h
  split at h
  · cases h
    exact keeps_takeValue? _ _ _ _ htake
  · cases h

/-! ## Members -/

/-- Among members in order, the one under a key is the one that has this key. -/
theorem member?_eq_some_iff (h : members.Pairwise fun a b => a.1 < b.1) :
    member? members key = some value ↔ (key, value) ∈ members := by
  induction members with
  | nil => simp [member?]
  | cons first rest ih =>
    obtain ⟨first, old⟩ := first
    obtain ⟨hfirst, hrest⟩ := List.pairwise_cons.1 h
    by_cases hsame : first = key
    · subst hsame
      have hnot : (first, value) ∉ rest := fun hmem =>
        String.lt_irrefl first (hfirst (first, value) hmem)
      simp [member?, hnot, eq_comm]
    · have hstep : member? ((first, old) :: rest) key = member? rest key := by
        simp [member?, hsame]
      rw [hstep, ih hrest]
      simp [Ne.symm hsame]

/-- Among members in order, no two have one key. -/
theorem eq_of_mem_of_mem {other : Json} (h : members.Pairwise fun a b => a.1 < b.1)
    (hvalue : (key, value) ∈ members) (hother : (key, other) ∈ members) : value = other := by
  rw [← member?_eq_some_iff h] at hvalue hother
  exact Option.some.inj (hvalue.symm.trans hother)

theorem member?_eq_none_iff :
    member? members key = none ↔ ∀ value, (key, value) ∉ members := by
  simp only [member?, Option.map_eq_none_iff, List.find?_eq_none, beq_iff_eq]
  constructor
  · exact fun h value hmem => h _ hmem rfl
  · rintro h ⟨first, value⟩ hmem rfl
    exact h value hmem

end CondLang.Json
