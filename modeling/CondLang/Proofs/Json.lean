import CondLang.Json

/-!
# Members of objects

An object that is made of members with different keys holds these members, in some order
(`Json.exists_ofMembers_eq`).
-/

namespace CondLang.Json

variable {members : List (String × Json)}

theorem insertMember_perm {key : String} (value : Json) (h : key ∉ members.map (·.1)) :
    (insertMember key value members).Perm ((key, value) :: members) := by
  induction members with
  | nil => exact .refl _
  | cons member rest ih =>
    obtain ⟨first, old⟩ := member
    obtain ⟨hne, hrest⟩ := not_or.1 (mt List.mem_cons.2 h)
    rw [insertMember, if_neg hne]
    split
    · exact .refl _
    · exact ((ih hrest).cons _).trans (.swap ..)

/-- Members with different keys are all kept. -/
theorem exists_ofMembers_eq (h : (members.map (·.1)).Nodup) :
    ∃ sorted, ofMembers members = object sorted ∧ sorted.Perm members := by
  -- The members inserted so far, in the order of their keys.
  have hfold : ∀ inserted : List (String × Json), ((members ++ inserted).map (·.1)).Nodup →
      (members.foldl (fun sorted member => insertMember member.1 member.2 sorted) inserted).Perm
        (members ++ inserted) := by
    clear h
    induction members with
    | nil => exact fun _ _ => .refl _
    | cons member rest ih =>
      intro inserted hnodup
      have hmiddle : (rest ++ member :: inserted).Perm ((member :: rest) ++ inserted) :=
        List.perm_middle
      have hnew : member.1 ∉ inserted.map (·.1) := by
        rw [List.cons_append, List.map_cons, List.nodup_cons, List.map_append] at hnodup
        exact fun hmem => hnodup.1 (List.mem_append_right _ hmem)
      have hinsert := (insertMember_perm member.2 hnew).append_left rest
      refine (ih _ ?_).trans (hinsert.trans hmiddle)
      exact ((hinsert.trans hmiddle).map _).nodup_iff.2 hnodup
  refine ⟨_, rfl, ?_⟩
  have hperm := hfold [] (by rwa [List.append_nil])
  rwa [List.append_nil] at hperm

end CondLang.Json
