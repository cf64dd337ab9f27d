import CondLang.Command.StateDocument
import CondLang.Proofs.Json.Ordered
import CondLang.Proofs.NameTable
import CondLang.Proofs.Traversal

/-!
# What a state document says

`Says` relates a document to its contents: the properties and items that it lists, each under the
name that is written, in the order of the members, and the base directory.  A document says
something if all of its parts have the shape that they should have, and then the project that it
describes is its contents put into the empty project, one after the other (`project_eq_ok_iff`).

Every loop over a document reads a value and adds it at once.  That is as good as reading all values
first (`loop_eq`), so what is read and what becomes of it are looked at one by one.
-/

namespace CondLang

namespace StateDocument

/-! ## The relation -/

/-- The text that a value stands for; arrays and objects stand for none. -/
def text? : Json → Option String
  | .null => some ""
  | .bool value => some (if value then "true" else "false")
  | .number value => some value.toText
  | .string value => some value
  | .array _ => none
  | .object _ => none

/-- A text under the name of the value that stands for it. -/
structure NamedText (member : String × Json) (text : String × String) : Prop where
  name_eq : text.1 = member.1
  text_eq : text? member.2 = some text.2

/-- The members of the object under a key; if there is nothing under the key, there are none. -/
inductive Section (given : List (String × Json)) (key : String) : List (String × Json) → Prop
  | absent : (∀ value, (key, value) ∉ given) → Section given key []
  | present {members : List (String × Json)} : (key, .object members) ∈ given →
      Section given key members

/-- An item that a document lists. -/
structure GivenItem where
  identity : String
  metadata : List (String × String)
  deriving DecidableEq

/-- The item of an identity, without metadata. -/
def GivenItem.plain (identity : String) : GivenItem := ⟨identity, []⟩

/-- A value lists an item: it is the text that the item is included under, or an object with such a
text and metadata. -/
inductive Lists : Json → GivenItem → Prop
  | text {value : Json} {identity : String} : text? value = some identity →
      Lists value (.plain identity)
  | object {given entries : List (String × Json)} {value : Json} {identity : String}
      {metadata : List (String × String)} : ("include", value) ∈ given →
      text? value = some identity → Section given "metadata" entries →
      List.Forall₂ NamedText entries metadata → Lists (.object given) ⟨identity, metadata⟩

/-- An item under the name of the value that lists it. -/
structure NamedItem (member : String × Json) (item : String × GivenItem) : Prop where
  name_eq : item.1 = member.1
  lists : Lists member.2 item.2

/-- The base directory, if there is one. -/
inductive Directory (given : List (String × Json)) : Option String → Prop
  | absent : (∀ value, ("base_dir", value) ∉ given) → Directory given none
  | present {value : Json} {directory : String} : ("base_dir", value) ∈ given →
      text? value = some directory → Directory given (some directory)

/-- The contents of a document. -/
structure Contents where
  properties : List (String × String)
  items : List (String × GivenItem)
  baseDirectory : Option String
  deriving DecidableEq

/-- The values that list items, each under the name of its type. -/
def spread (types : List (String × Json)) : List (String × Json) :=
  types.flatMap fun (itemType, value) => (listed value).map (itemType, ·)

/-- A document has some contents. -/
inductive Says : Json → Contents → Prop
  | object {given properties types : List (String × Json)} {contents : Contents} :
      Section given "properties" properties →
      List.Forall₂ NamedText properties contents.properties →
      Section given "items" types → List.Forall₂ NamedItem (spread types) contents.items →
      Directory given contents.baseDirectory → Says (.object given) contents

/-! ## Putting contents into a project -/

/-- An item with metadata set one after the other. -/
def withMetadata (plain : Item) (metadata : List (String × String)) : Item :=
  { plain with custom := plain.custom.insertAll metadata }

/-- A project with properties set one after the other. -/
def withProperties (project : Project) (properties : List (String × String)) : Project :=
  { project with properties := project.properties.insertAll properties }

/-- A project with items added one after the other. -/
def withItems (project : Project) (items : List (String × Item)) : Project :=
  { project with items := project.items.appendAll items }

/-- The item that is listed. -/
def GivenItem.item (given : GivenItem) : Item :=
  withMetadata (.ofIdentity given.identity) given.metadata

/-- The project that has some contents and nothing else. -/
def Contents.project (contents : Contents) : Project :=
  { withItems (withProperties .empty contents.properties)
      (contents.items.map fun item => (item.1, item.2.item)) with
    baseDirectory := contents.baseDirectory }

theorem foldl_setMetadata (plain : Item) (metadata : List (String × String)) :
    metadata.foldl (fun item entry => item.setMetadata entry.1 entry.2) plain =
      withMetadata plain metadata := by
  induction metadata generalizing plain with
  | nil => rfl
  | cons entry rest ih => exact ih (plain.setMetadata entry.1 entry.2)

theorem foldl_setProperty (project : Project) (properties : List (String × String)) :
    properties.foldl (fun project property => project.setProperty property.1 property.2) project =
      withProperties project properties := by
  induction properties generalizing project with
  | nil => rfl
  | cons property rest ih => exact ih (project.setProperty property.1 property.2)

theorem foldl_addItem (project : Project) (items : List (String × Item)) :
    items.foldl (fun project item => project.addItem item.1 item.2) project =
      withItems project items := by
  induction items generalizing project with
  | nil => rfl
  | cons item rest ih => exact ih (project.addItem item.1 item.2)

theorem withItems_append (project : Project) (first others : List (String × Item)) :
    withItems project (first ++ others) = withItems (withItems project first) others := by
  simp only [← foldl_addItem, List.foldl_append]

open NameTable (valuesUnder)

theorem property?_withProperties (project : Project) (properties : List (String × String))
    (name : String) : (withProperties project properties).property? name =
      (valuesUnder properties name).getLast?.or (project.property? name) :=
  NameTable.find?_insertAll ..

theorem itemsOf_withItems (project : Project) (items : List (String × Item)) (itemType : String) :
    (withItems project items).itemsOf itemType =
      project.itemsOf itemType ++ valuesUnder items itemType :=
  NameTable.find?_appendAll ..

/-- An item is what is listed: it has the identity, and under each name, in any spelling, the last
text that is given. -/
structure GivenItem.Gives (given : GivenItem) (item : Item) : Prop where
  identity_eq : item.identity = given.identity
  metadata_eq : ∀ name, item.custom.find? name = (valuesUnder given.metadata name).getLast?

theorem gives_item (given : GivenItem) : given.Gives given.item := by
  refine ⟨rfl, fun name => ?_⟩
  have h := NameTable.find?_insertAll .empty given.metadata name
  rwa [NameTable.find?_empty, Option.or_none] at h

/-! ## Values -/

variable {given : List (String × Json)} {what key : String} {value : Json}

theorem scalar_eq_ok_iff {text : String} :
    scalar what value = .ok text ↔ text? value = some text := by
  cases value <;> simp [scalar, text?]

theorem section_iff (h : given.Pairwise fun a b => a.1 < b.1) {entries : List (String × Json)} :
    Section given key entries ↔
      Json.member? given key = none ∧ entries = [] ∨
        Json.member? given key = some (.object entries) := by
  constructor
  · intro hsection
    cases hsection with
    | absent habsent => exact .inl ⟨Json.member?_eq_none_iff.2 habsent, rfl⟩
    | present hpresent => exact .inr ((Json.member?_eq_some_iff h).2 hpresent)
  · rintro (⟨hnone, rfl⟩ | hsome)
    · exact .absent (Json.member?_eq_none_iff.1 hnone)
    · exact .present ((Json.member?_eq_some_iff h).1 hsome)

/-- What is made of the members of a section, if without it there is made of it what is made of no
members. -/
theorem section_bind_iff {σ : Type} {next : List (String × Json) → Except CommandError σ}
    {state result : σ} (h : given.Pairwise fun a b => a.1 < b.1) (hnil : next [] = .ok state) :
    ((Json.member? given key).elim (.ok state) fun value => (members what value).bind next) =
      .ok result ↔ ∃ entries, Section given key entries ∧ next entries = .ok result := by
  simp only [section_iff h]
  cases hmember : Json.member? given key with
  | none => simp [hnil]
  | some value =>
    cases value with
    | object entries => simp [members, Except.bind]
    | _ => simp [members, Except.bind]

/-! ## Loops -/

/-- Reads the text of a member; `kind` is what stands before its name in a message. -/
def readText (kind : String) (member : String × Json) : Except CommandError (String × String) :=
  (scalar (kind ++ member.1 ++ "'") member.2).map (member.1, ·)

/-- Reads an item of the type that a member names. -/
def readItem (member : String × Json) : Except CommandError (String × Item) :=
  (item member.1 member.2).map (member.1, ·)

theorem readText_eq_ok_iff {kind : String} {member : String × Json} {text : String × String} :
    readText kind member = .ok text ↔ NamedText member text := by
  obtain ⟨name, read⟩ := text
  simp only [readText, map_eq_ok_iff, scalar_eq_ok_iff, Prod.mk.injEq]
  constructor
  · rintro ⟨text, htext, rfl, rfl⟩
    exact ⟨rfl, htext⟩
  · rintro ⟨rfl, htext⟩
    exact ⟨_, htext, rfl, rfl⟩

theorem setMetadata_eq_ok_iff {plain result : Item} {entries : List (String × Json)} :
    setMetadata plain entries = .ok result ↔
      ∃ metadata, List.Forall₂ NamedText entries metadata ∧
        withMetadata plain metadata = result := by
  have hcons : ∀ item entry rest, setMetadata item (entry :: rest) =
      (readText "metadata '" entry).bind fun text =>
        setMetadata (item.setMetadata text.1 text.2) rest := by
    intro item entry rest
    obtain ⟨name, value⟩ := entry
    rw [setMetadata, readText]
    cases scalar ("metadata '" ++ name ++ "'") value <;> rfl
  rw [loop_eq_ok_iff (fun _ => rfl) hcons]
  simp only [readText_eq_ok_iff, foldl_setMetadata]

theorem setProperties_eq_ok_iff {project result : Project} {members : List (String × Json)} :
    setProperties project members = .ok result ↔
      ∃ properties, List.Forall₂ NamedText members properties ∧
        withProperties project properties = result := by
  have hcons : ∀ project member rest, setProperties project (member :: rest) =
      (readText "property '" member).bind fun text =>
        setProperties (project.setProperty text.1 text.2) rest := by
    intro project member rest
    obtain ⟨name, value⟩ := member
    rw [setProperties, readText]
    cases scalar ("property '" ++ name ++ "'") value <;> rfl
  rw [loop_eq_ok_iff (fun _ => rfl) hcons]
  simp only [readText_eq_ok_iff, foldl_setProperty]

theorem addListed_eq (itemType : String) (project : Project) (values : List Json) :
    addListed itemType project values =
      ((values.map (itemType, ·)).mapM readItem).map (withItems project) := by
  have hcons : ∀ project value rest, addListed itemType project (value :: rest) =
      (readItem (itemType, value)).bind fun item =>
        addListed itemType (project.addItem item.1 item.2) rest := by
    intro project value rest
    rw [addListed, readItem]
    cases item itemType value <;> rfl
  rw [loop_eq (fun _ => rfl) hcons, List.mapM_map]
  simp only [foldl_addItem]
  rfl

theorem addItems_eq (project : Project) (types : List (String × Json)) :
    addItems project types = ((spread types).mapM readItem).map (withItems project) := by
  induction types generalizing project with
  | nil => rfl
  | cons member rest ih =>
    obtain ⟨itemType, value⟩ := member
    -- The inner loop is a traversal of the first part of what the outer one goes through.
    have hspread : spread ((itemType, value) :: rest) =
        (listed value).map (itemType, ·) ++ spread rest := rfl
    rw [addItems, addListed_eq, hspread, List.mapM_append]
    cases ((listed value).map (itemType, ·)).mapM readItem with
    | error e => rfl
    | ok first =>
      show addItems (withItems project first) rest = _
      rw [ih]
      cases (spread rest).mapM readItem with
      | error e => rfl
      | ok others =>
        show Except.ok _ = Except.ok _
        rw [withItems_append]

/-! ## Items -/

theorem lists_object_iff {identity : String} {metadata : List (String × String)} :
    Lists (.object given) ⟨identity, metadata⟩ ↔ ∃ value entries, ("include", value) ∈ given ∧
      text? value = some identity ∧ Section given "metadata" entries ∧
      List.Forall₂ NamedText entries metadata := by
  constructor
  · intro h
    cases h with
    | text htext => cases htext
    | object hinclude htext hsection hmetadata =>
      exact ⟨_, _, hinclude, htext, hsection, hmetadata⟩
  · rintro ⟨value, entries, hinclude, htext, hsection, hmetadata⟩
    exact .object hinclude htext hsection hmetadata

theorem item_object_eq_ok_iff {itemType : String} {result : Item}
    (h : given.Pairwise fun a b => a.1 < b.1) :
    item itemType (.object given) = .ok result ↔
      ∃ listed, Lists (.object given) listed ∧ listed.item = result := by
  cases hinclude : Json.member? given "include" with
  | none =>
    have hitem : item itemType (.object given) =
        .error (.invalidState ("an item of '" ++ itemType ++ "' has no \"include\"")) := by
      rw [item, hinclude]
    rw [hitem]
    constructor
    · intro hok
      cases hok
    · rintro ⟨⟨identity, metadata⟩, hlists, -⟩
      obtain ⟨value, -, hmem, -⟩ := lists_object_iff.1 hlists
      exact absurd hmem (Json.member?_eq_none_iff.1 hinclude value)
  | some value =>
    have hitem : item itemType (.object given) =
        (scalar "\"include\"" value).bind fun identity =>
          (Json.member? given "metadata").elim (.ok (Item.ofIdentity identity)) fun metadata =>
            (members "\"metadata\"" metadata).bind (setMetadata (.ofIdentity identity)) := by
      rw [item, hinclude]
      dsimp only
      cases scalar "\"include\"" value with
      | error e => rfl
      | ok identity => cases Json.member? given "metadata" <;> rfl
    rw [hitem, bind_eq_ok_iff]
    simp only [section_bind_iff h (rfl : setMetadata _ [] = _), setMetadata_eq_ok_iff,
      scalar_eq_ok_iff]
    constructor
    · rintro ⟨identity, htext, entries, hsection, metadata, hmetadata, rfl⟩
      have hmem := (Json.member?_eq_some_iff h).1 hinclude
      exact ⟨⟨identity, metadata⟩, .object hmem htext hsection hmetadata, rfl⟩
    · rintro ⟨⟨identity, metadata⟩, hlists, rfl⟩
      obtain ⟨other, entries, hmem, htext, hsection, hmetadata⟩ := lists_object_iff.1 hlists
      obtain rfl := Json.eq_of_mem_of_mem h hmem ((Json.member?_eq_some_iff h).1 hinclude)
      exact ⟨identity, htext, entries, hsection, metadata, hmetadata, rfl⟩

theorem item_plain_eq_ok_iff {itemType : String} {result : Item}
    (h : item itemType value =
      (scalar ("an item of '" ++ itemType ++ "'") value).map Item.ofIdentity)
    (hplain : ∀ given, value ≠ .object given) :
    item itemType value = .ok result ↔ ∃ listed, Lists value listed ∧ listed.item = result := by
  rw [h, map_eq_ok_iff]
  simp only [scalar_eq_ok_iff]
  constructor
  · rintro ⟨identity, htext, rfl⟩
    exact ⟨.plain identity, .text htext, rfl⟩
  · rintro ⟨listed, hlists, rfl⟩
    cases hlists with
    | text htext => exact ⟨_, htext, rfl⟩
    | object => exact absurd rfl (hplain _)

/-- A value is read as an item if and only if it lists one. -/
theorem item_eq_ok_iff {itemType : String} {result : Item} (h : value.Ordered) :
    item itemType value = .ok result ↔ ∃ listed, Lists value listed ∧ listed.item = result := by
  cases h with
  | object hpairwise => exact item_object_eq_ok_iff hpairwise
  | null => exact item_plain_eq_ok_iff rfl nofun
  | bool => exact item_plain_eq_ok_iff rfl nofun
  | number => exact item_plain_eq_ok_iff rfl nofun
  | string => exact item_plain_eq_ok_iff rfl nofun
  | array => exact item_plain_eq_ok_iff rfl nofun

theorem ordered_of_mem_listed {listing : Json} (h : listing.Ordered)
    (hmem : value ∈ listed listing) : value.Ordered := by
  cases h with
  | array hvalues => exact hvalues value hmem
  | object hpairwise hmembers =>
    obtain rfl := List.mem_singleton.1 hmem
    exact .object hpairwise hmembers
  | null => obtain rfl := List.mem_singleton.1 hmem; exact .null
  | bool b => obtain rfl := List.mem_singleton.1 hmem; exact .bool b
  | number n => obtain rfl := List.mem_singleton.1 hmem; exact .number n
  | string s => obtain rfl := List.mem_singleton.1 hmem; exact .string s

theorem ordered_of_mem_spread {types : List (String × Json)} {member : String × Json}
    (h : ∀ member ∈ types, member.2.Ordered) (hmem : member ∈ spread types) :
    member.2.Ordered := by
  obtain ⟨⟨itemType, listing⟩, htype, hmember⟩ := List.mem_flatMap.1 hmem
  obtain ⟨value, hvalue, rfl⟩ := List.mem_map.1 hmember
  exact ordered_of_mem_listed (h _ htype) hvalue

theorem readItem_eq_ok_iff {member : String × Json} {result : String × Item}
    (h : member.2.Ordered) :
    readItem member = .ok result ↔
      ∃ listed, NamedItem member listed ∧ (listed.1, listed.2.item) = result := by
  rw [readItem, map_eq_ok_iff]
  simp only [item_eq_ok_iff h]
  constructor
  · rintro ⟨_, ⟨listed, hlists, rfl⟩, rfl⟩
    exact ⟨(member.1, listed), ⟨rfl, hlists⟩, rfl⟩
  · rintro ⟨⟨itemType, listed⟩, ⟨hname, hlists⟩, rfl⟩
    exact ⟨listed.item, ⟨listed, hlists, rfl⟩, by rw [← hname]⟩

theorem addItems_eq_ok_iff {project result : Project} {types : List (String × Json)}
    (h : ∀ member ∈ types, member.2.Ordered) :
    addItems project types = .ok result ↔ ∃ items, List.Forall₂ NamedItem (spread types) items ∧
      withItems project (items.map fun item => (item.1, item.2.item)) = result := by
  have hmember : ∀ member ∈ spread types, ∀ result, readItem member = .ok result ↔
      ∃ listed, NamedItem member listed ∧ (listed.1, listed.2.item) = result :=
    fun member hmem _ => readItem_eq_ok_iff (ordered_of_mem_spread h hmem)
  rw [addItems_eq, map_eq_ok_iff]
  simp only [mapM_eq_ok_iff, forall₂_iff_exists_map hmember]
  constructor
  · rintro ⟨_, ⟨items, hitems, rfl⟩, rfl⟩
    exact ⟨items, hitems, rfl⟩
  · rintro ⟨items, hitems, rfl⟩
    exact ⟨_, ⟨items, hitems, rfl⟩, rfl⟩

/-! ## Documents -/

theorem ordered_of_section {entries : List (String × Json)} (h : Json.Ordered (.object given))
    (hsection : Section given key entries) : Json.Ordered (.object entries) := by
  cases hsection with
  | absent => exact .object .nil (List.forall_mem_nil _)
  | present hpresent => exact h.of_mem _ hpresent

theorem directory_eq_ok_iff {filled result : Project} (h : given.Pairwise fun a b => a.1 < b.1)
    (hnone : filled.baseDirectory = none) :
    ((Json.member? given "base_dir").elim (.ok filled) fun value =>
      (scalar what value).map fun directory =>
        { filled with baseDirectory := some directory }) = .ok result ↔
      ∃ directory, Directory given directory ∧
        { filled with baseDirectory := directory } = result := by
  cases hmember : Json.member? given "base_dir" with
  | none =>
    have habsent := Json.member?_eq_none_iff.1 hmember
    have hfilled : { filled with baseDirectory := none } = filled := by rw [← hnone]
    constructor
    · rintro ⟨⟩
      exact ⟨none, .absent habsent, hfilled⟩
    · rintro ⟨directory, hdirectory, rfl⟩
      cases hdirectory with
      | absent => exact congrArg Except.ok hfilled.symm
      | present hpresent => exact absurd hpresent (habsent _)
  | some value =>
    have hpresent := (Json.member?_eq_some_iff h).1 hmember
    rw [Option.elim_some, map_eq_ok_iff]
    simp only [scalar_eq_ok_iff]
    constructor
    · rintro ⟨directory, htext, rfl⟩
      exact ⟨some directory, .present hpresent htext, rfl⟩
    · rintro ⟨directory, hdirectory, rfl⟩
      cases hdirectory with
      | absent habsent => exact absurd hpresent (habsent _)
      | present hother htext =>
        obtain rfl := Json.eq_of_mem_of_mem h hother hpresent
        exact ⟨_, htext, rfl⟩

/-- What an optional part of a document is made into, and what comes behind it. -/
theorem optional_bind (part? : Option Json) (what : String) (before : Project)
    (add : List (String × Json) → Except CommandError Project)
    (next : Project → Except CommandError Project) :
    (part?.elim (.ok before) fun value => (members what value).bind add).bind next =
      match part? with
      | none => next before
      | some value => (members what value).bind fun entries => (add entries).bind next := by
  cases part? with
  | none => rfl
  | some value =>
    show ((members what value).bind add).bind next = (members what value).bind _
    cases members what value <;> rfl

theorem project_object (given : List (String × Json)) :
    project (.object given) =
      ((Json.member? given "properties").elim (.ok Project.empty) fun value =>
        (members "\"properties\"" value).bind (setProperties .empty)).bind fun withProperties =>
      ((Json.member? given "items").elim (.ok withProperties) fun value =>
        (members "\"items\"" value).bind (addItems withProperties)).bind fun withItems =>
      (Json.member? given "base_dir").elim (.ok withItems) fun value =>
        (scalar "\"base_dir\"" value).map fun directory =>
          { withItems with baseDirectory := some directory } := by
  simp only [optional_bind]
  -- Both sides ask for the parts in one order, so it suffices to know which parts there are.
  unfold project
  change (pure given >>= _) = _
  rw [pure_bind]
  cases Json.member? given "properties" <;> cases Json.member? given "items" <;>
    cases Json.member? given "base_dir" <;> rfl

/-- A document describes a project if and only if it has contents, and then these fill it. -/
theorem project_eq_ok_iff {document : Json} {result : Project} (h : document.Ordered) :
    project document = .ok result ↔
      ∃ contents, Says document contents ∧ contents.project = result := by
  cases document with
  | object given =>
    have hpairwise := h.pairwise
    rw [project_object, bind_eq_ok_iff]
    simp only [bind_eq_ok_iff, section_bind_iff hpairwise (rfl : setProperties _ [] = _),
      section_bind_iff hpairwise (rfl : addItems _ [] = _), setProperties_eq_ok_iff]
    constructor
    · rintro ⟨_, ⟨properties, hproperties, read, hread, rfl⟩, _, ⟨types, htypes, hadd⟩, hend⟩
      obtain ⟨items, hlist, rfl⟩ := (addItems_eq_ok_iff (ordered_of_section h htypes).of_mem).1 hadd
      obtain ⟨directory, hdirectory, rfl⟩ := (directory_eq_ok_iff hpairwise rfl).1 hend
      exact ⟨⟨read, items, directory⟩, .object hproperties hread htypes hlist hdirectory, rfl⟩
    · rintro ⟨⟨read, items, directory⟩, hmeans, rfl⟩
      cases hmeans with
      | object hproperties hread htypes hlist hdirectory =>
        have hordered := (ordered_of_section h htypes).of_mem
        exact ⟨_, ⟨_, hproperties, read, hread, rfl⟩, _,
          ⟨_, htypes, (addItems_eq_ok_iff hordered).2 ⟨items, hlist, rfl⟩⟩,
          (directory_eq_ok_iff hpairwise rfl).2 ⟨directory, hdirectory, rfl⟩⟩
  | _ =>
    constructor
    · intro hok
      cases hok
    · rintro ⟨contents, hmeans, -⟩
      cases hmeans

end StateDocument

end CondLang
