import CondLang.Proofs.Command.Contents

/-!
# Malformed state documents

`Malformed` lists what can be wrong with a document.  A document that is malformed says nothing, and
one that says nothing is malformed (`exists_says_iff`), so it is for these reasons that documents
are rejected, and for no others (`project_eq_error_iff`).
-/

namespace CondLang.StateDocument

/-- A value that stands for no text. -/
inductive Composite : Json → Prop
  | array (values : List Json) : Composite (.array values)
  | object (members : List (String × Json)) : Composite (.object members)

/-- Anything but an object. -/
def NotObject (value : Json) : Prop := ∀ members, value ≠ .object members

/-- A value that lists no item. -/
inductive MalformedItem : Json → Prop
  | array (values : List Json) : MalformedItem (.array values)
  | noInclude {given : List (String × Json)} : (∀ value, ("include", value) ∉ given) →
      MalformedItem (.object given)
  | identity {given : List (String × Json)} {value : Json} : ("include", value) ∈ given →
      Composite value → MalformedItem (.object given)
  | metadata {given : List (String × Json)} {value : Json} : ("metadata", value) ∈ given →
      NotObject value → MalformedItem (.object given)
  | entry {given entries : List (String × Json)} {name : String} {value : Json} :
      ("metadata", .object entries) ∈ given → (name, value) ∈ entries → Composite value →
      MalformedItem (.object given)

/-- A document that describes no project. -/
inductive Malformed : Json → Prop
  | root {document : Json} : NotObject document → Malformed document
  | properties {given : List (String × Json)} {value : Json} : ("properties", value) ∈ given →
      NotObject value → Malformed (.object given)
  | property {given members : List (String × Json)} {name : String} {value : Json} :
      ("properties", .object members) ∈ given → (name, value) ∈ members → Composite value →
      Malformed (.object given)
  | items {given : List (String × Json)} {value : Json} : ("items", value) ∈ given →
      NotObject value → Malformed (.object given)
  | item {given types : List (String × Json)} {itemType : String} {listing value : Json} :
      ("items", .object types) ∈ given → (itemType, listing) ∈ types → value ∈ listed listing →
      MalformedItem value → Malformed (.object given)
  | baseDirectory {given : List (String × Json)} {value : Json} : ("base_dir", value) ∈ given →
      Composite value → Malformed (.object given)

variable {given : List (String × Json)} {key : String} {value document : Json}

/-! ## Parts -/

theorem exists_text?_iff : (∃ text, text? value = some text) ↔ ¬Composite value := by
  cases value with
  | array values => simp [text?, Composite.array]
  | object members => simp [text?, Composite.object]
  | _ =>
    refine iff_of_true ⟨_, rfl⟩ fun hcomposite => ?_
    cases hcomposite

theorem exists_namedText_iff {members : List (String × Json)} :
    (∃ texts, List.Forall₂ NamedText members texts) ↔
      ∀ name value, (name, value) ∈ members → ¬Composite value := by
  rw [exists_forall₂_iff]
  constructor
  · intro h name value hmem
    obtain ⟨text, -, htext⟩ := h _ hmem
    exact exists_text?_iff.1 ⟨_, htext⟩
  · rintro h ⟨name, value⟩ hmem
    obtain ⟨text, htext⟩ := exists_text?_iff.2 (h name value hmem)
    exact ⟨(name, text), rfl, htext⟩

theorem not_notObject_iff : ¬NotObject value ↔ ∃ members, value = .object members := by
  simp only [NotObject, not_forall, not_not]

/-- A section has members of some kind if and only if what is under its key, if anything, is an
object, and one with such members. -/
theorem exists_section_iff (h : given.Pairwise fun a b => a.1 < b.1)
    {p : List (String × Json) → Prop} (hnil : p []) :
    (∃ entries, Section given key entries ∧ p entries) ↔
      (∀ value, (key, value) ∈ given → ¬NotObject value) ∧
        ∀ entries, (key, .object entries) ∈ given → p entries := by
  cases hmember : Json.member? given key with
  | none =>
    have habsent := Json.member?_eq_none_iff.1 hmember
    refine iff_of_true ⟨[], .absent habsent, hnil⟩ ⟨fun value hmem => ?_, fun entries hmem => ?_⟩
    · exact absurd hmem (habsent value)
    · exact absurd hmem (habsent _)
  | some value =>
    simp only [section_iff h, ← Json.member?_eq_some_iff h, hmember, Option.some.injEq,
      forall_eq', not_notObject_iff, reduceCtorEq, false_and, false_or]
    constructor
    · rintro ⟨entries, rfl, hentries⟩
      exact ⟨⟨entries, rfl⟩, fun others hothers => Json.object.inj hothers ▸ hentries⟩
    · rintro ⟨⟨entries, rfl⟩, hall⟩
      exact ⟨entries, rfl, hall entries rfl⟩

theorem exists_directory_iff (h : given.Pairwise fun a b => a.1 < b.1) :
    (∃ directory, Directory given directory) ↔
      ∀ value, ("base_dir", value) ∈ given → ¬Composite value := by
  cases hmember : Json.member? given "base_dir" with
  | none =>
    have habsent := Json.member?_eq_none_iff.1 hmember
    exact iff_of_true ⟨none, .absent habsent⟩ fun value hmem => absurd hmem (habsent value)
  | some value =>
    have hmem := (Json.member?_eq_some_iff h).1 hmember
    simp only [← Json.member?_eq_some_iff h, hmember, Option.some.injEq, forall_eq',
      ← exists_text?_iff]
    constructor
    · rintro ⟨directory, hdirectory⟩
      cases hdirectory with
      | absent habsent => exact absurd hmem (habsent value)
      | present hpresent htext =>
        obtain rfl := Json.eq_of_mem_of_mem h hpresent hmem
        exact ⟨_, htext⟩
    · rintro ⟨directory, htext⟩
      exact ⟨some directory, .present hmem htext⟩

/-! ## Items -/

theorem exists_lists_object_iff (h : given.Pairwise fun a b => a.1 < b.1) :
    (∃ item, Lists (.object given) item) ↔
      (∃ value, ("include", value) ∈ given ∧ ¬Composite value) ∧
        (∀ value, ("metadata", value) ∈ given → ¬NotObject value) ∧
        ∀ entries, ("metadata", .object entries) ∈ given →
          ∀ name value, (name, value) ∈ entries → ¬Composite value := by
  simp only [← exists_namedText_iff]
  rw [← exists_section_iff h ⟨[], .nil⟩]
  simp only [← exists_text?_iff]
  constructor
  · rintro ⟨⟨identity, metadata⟩, hlists⟩
    obtain ⟨value, entries, hinclude, htext, hsection, hmetadata⟩ := lists_object_iff.1 hlists
    exact ⟨⟨value, hinclude, identity, htext⟩, entries, hsection, metadata, hmetadata⟩
  · rintro ⟨⟨value, hinclude, identity, htext⟩, entries, hsection, metadata, hmetadata⟩
    exact ⟨⟨identity, metadata⟩, .object hinclude htext hsection hmetadata⟩

/-- A value lists an item unless it is malformed. -/
theorem exists_lists_iff (h : value.Ordered) :
    (∃ item, Lists value item) ↔ ¬MalformedItem value := by
  cases h with
  | array =>
    refine iff_of_false ?_ (not_not.2 (.array _))
    rintro ⟨item, hlists⟩
    cases hlists with
    | text htext => cases htext
  | @object given hpairwise =>
    rw [exists_lists_object_iff hpairwise]
    constructor
    · rintro ⟨⟨value, hinclude, hscalar⟩, hobject, hentries⟩ hmalformed
      cases hmalformed with
      | noInclude habsent => exact habsent value hinclude
      | identity hother hcomposite =>
        obtain rfl := Json.eq_of_mem_of_mem hpairwise hother hinclude
        exact hscalar hcomposite
      | metadata hmem hnot => exact hobject _ hmem hnot
      | entry hmem hentry hcomposite => exact hentries _ hmem _ _ hentry hcomposite
    · intro hwell
      refine ⟨?_, fun value hmem hnot => hwell (.metadata hmem hnot),
        fun entries hmem name value hentry hcomposite => hwell (.entry hmem hentry hcomposite)⟩
      cases hmember : Json.member? given "include" with
      | none => exact absurd (.noInclude (Json.member?_eq_none_iff.1 hmember)) hwell
      | some value =>
        have hmem := (Json.member?_eq_some_iff hpairwise).1 hmember
        exact ⟨value, hmem, fun hcomposite => hwell (.identity hmem hcomposite)⟩
  | null => exact iff_of_true ⟨_, .text rfl⟩ nofun
  | bool => exact iff_of_true ⟨_, .text rfl⟩ nofun
  | number => exact iff_of_true ⟨_, .text rfl⟩ nofun
  | string => exact iff_of_true ⟨_, .text rfl⟩ nofun

theorem exists_namedItem_iff {types : List (String × Json)}
    (h : ∀ member ∈ types, member.2.Ordered) :
    (∃ items, List.Forall₂ NamedItem (spread types) items) ↔
      ∀ itemType listing, (itemType, listing) ∈ types →
        ∀ value ∈ listed listing, ¬MalformedItem value := by
  rw [exists_forall₂_iff]
  constructor
  · intro hall itemType listing htype value hvalue
    have hmem : (itemType, value) ∈ spread types :=
      List.mem_flatMap.2 ⟨_, htype, List.mem_map.2 ⟨value, hvalue, rfl⟩⟩
    obtain ⟨item, -, hlists⟩ := hall _ hmem
    exact (exists_lists_iff (ordered_of_mem_spread h hmem)).1 ⟨_, hlists⟩
  · intro hwell member hmember
    obtain ⟨⟨itemType, listing⟩, htype, hmem⟩ := List.mem_flatMap.1 hmember
    obtain ⟨value, hvalue, rfl⟩ := List.mem_map.1 hmem
    obtain ⟨item, hlists⟩ :=
      (exists_lists_iff (ordered_of_mem_listed (h _ htype) hvalue)).2
        (hwell _ _ htype _ hvalue)
    exact ⟨(itemType, item), rfl, hlists⟩

/-! ## Documents -/

theorem exists_says_object_iff (h : Json.Ordered (.object given)) :
    (∃ contents, Says (.object given) contents) ↔
      ((∀ value, ("properties", value) ∈ given → ¬NotObject value) ∧
        ∀ members, ("properties", .object members) ∈ given →
          ∀ name value, (name, value) ∈ members → ¬Composite value) ∧
      ((∀ value, ("items", value) ∈ given → ¬NotObject value) ∧
        ∀ types, ("items", .object types) ∈ given →
          ∀ itemType listing, (itemType, listing) ∈ types →
            ∀ value ∈ listed listing, ¬MalformedItem value) ∧
      ∀ value, ("base_dir", value) ∈ given → ¬Composite value := by
  rw [← exists_section_iff h.pairwise fun _ _ => List.not_mem_nil.elim,
    ← exists_section_iff h.pairwise fun _ _ => List.not_mem_nil.elim,
    ← exists_directory_iff h.pairwise]
  constructor
  · rintro ⟨contents, hmeans⟩
    cases hmeans with
    | object hproperties hread htypes hitems hdirectory =>
      exact ⟨⟨_, hproperties, exists_namedText_iff.1 ⟨_, hread⟩⟩,
        ⟨_, htypes, (exists_namedItem_iff (ordered_of_section h htypes).of_mem).1 ⟨_, hitems⟩⟩,
        _, hdirectory⟩
  · rintro ⟨⟨properties, hproperties, hscalars⟩, ⟨types, htypes, hwell⟩, directory, hdirectory⟩
    obtain ⟨read, hread⟩ := exists_namedText_iff.2 hscalars
    obtain ⟨items, hitems⟩ := (exists_namedItem_iff (ordered_of_section h htypes).of_mem).2 hwell
    exact ⟨⟨read, items, directory⟩, .object hproperties hread htypes hitems hdirectory⟩

/-- A document says something unless it is malformed. -/
theorem exists_says_iff (h : document.Ordered) :
    (∃ contents, Says document contents) ↔ ¬Malformed document := by
  by_cases hroot : NotObject document
  · refine iff_of_false ?_ (not_not.2 (.root hroot))
    rintro ⟨contents, hmeans⟩
    cases hmeans with
    | object => exact hroot _ rfl
  · obtain ⟨given, rfl⟩ := not_notObject_iff.1 hroot
    rw [exists_says_object_iff h]
    constructor
    · rintro ⟨⟨hproperties, hproperty⟩, ⟨hitems, hitem⟩, hdirectory⟩ hmalformed
      cases hmalformed with
      | root hnot => exact hroot hnot
      | properties hmem hnot => exact hproperties _ hmem hnot
      | property hmem hentry hcomposite => exact hproperty _ hmem _ _ hentry hcomposite
      | items hmem hnot => exact hitems _ hmem hnot
      | item hmem htype hvalue hmalformed => exact hitem _ hmem _ _ htype _ hvalue hmalformed
      | baseDirectory hmem hcomposite => exact hdirectory _ hmem hcomposite
    · intro hwell
      exact ⟨⟨fun _ hmem hnot => hwell (.properties hmem hnot),
          fun _ hmem _ _ hentry hcomposite => hwell (.property hmem hentry hcomposite)⟩,
        ⟨fun _ hmem hnot => hwell (.items hmem hnot),
          fun _ hmem _ _ htype _ hvalue hmalformed =>
            hwell (.item hmem htype hvalue hmalformed)⟩,
        fun _ hmem hcomposite => hwell (.baseDirectory hmem hcomposite)⟩

/-- A document is rejected if and only if it is malformed. -/
theorem project_eq_error_iff (h : document.Ordered) :
    (∃ cause, project document = .error cause) ↔ Malformed document := by
  rw [← not_iff_not, ← exists_says_iff h]
  constructor
  · intro hnone
    cases hproject : project document with
    | error cause => exact absurd ⟨cause, hproject⟩ hnone
    | ok result =>
      obtain ⟨contents, hmeans, -⟩ := (project_eq_ok_iff h).1 hproject
      exact ⟨contents, hmeans⟩
  · rintro ⟨contents, hmeans⟩ ⟨cause, hcause⟩
    rw [(project_eq_ok_iff h).2 ⟨contents, hmeans, rfl⟩] at hcause
    cases hcause

end CondLang.StateDocument
