import CondLang.Command.Check
import CondLang.Proofs.Command.Malformed

/-!
# The layers of a project

A project to check against has three layers: what a document says, assignments of properties, and
assignments of items (`CheckRequest.Layers`).  Of several values of a property the last one counts,
and those that are assigned count more than those of the document; items add up, those of the
document first (`Layers.Governs`).  There is a project if and only if there are layers, and it is
theirs (`project_eq_ok_iff`).
-/

namespace CondLang

namespace StateDocument

/-! ## Assignments -/

/-- A text assigns a value to a name: the name stands in front of the first equals sign, maybe
between blanks, and the value behind it. -/
inductive Assigns : String → String × String → Prop
  | intro {front value : List Char} : '=' ∉ front → Text.trimmed front ≠ [] →
      Assigns (.ofList (front ++ '=' :: value)) (.ofList (Text.trimmed front), .ofList value)

theorem assignment_eq_ok_iff {text : String} {assigned : String × String} :
    assignment text = .ok assigned ↔ Assigns text assigned := by
  constructor
  · intro h
    rw [assignment] at h
    split at h
    · next front value hsplit =>
      obtain ⟨hfront, htext⟩ := Text.splitOnce_eq_some_iff.1 hsplit
      dsimp only at h
      split at h
      · cases h
      · next hname =>
        cases h
        have hwhole : text = .ofList (front ++ '=' :: value) := by rw [htext, String.ofList_toList]
        subst hwhole
        exact .intro hfront (by simpa using hname)
    · cases h
  · rintro ⟨hfront, hname⟩
    rw [assignment, String.toList_ofList, Text.splitOnce_eq_some_iff.2 ⟨hfront, rfl⟩]
    simp [hname]

theorem assignProperties_eq_ok_iff {project result : Project} {texts : List String} :
    assignProperties project texts = .ok result ↔ ∃ assigned,
      List.Forall₂ Assigns texts assigned ∧ withProperties project assigned = result := by
  have hcons : ∀ project text rest, assignProperties project (text :: rest) =
      (assignment text).bind fun assigned =>
        assignProperties (project.setProperty assigned.1 assigned.2) rest := fun _ _ _ => rfl
  rw [loop_eq_ok_iff (fun _ => rfl) hcons]
  simp only [assignment_eq_ok_iff, foldl_setProperty]

/-- The items that identities are assigned to types for. -/
def assignedItems (assigned : List (String × String)) : List (String × GivenItem) :=
  assigned.map fun entry => (entry.1, .plain entry.2)

theorem assignItems_eq_ok_iff {project result : Project} {texts : List String} :
    assignItems project texts = .ok result ↔ ∃ assigned, List.Forall₂ Assigns texts assigned ∧
      withItems project ((assignedItems assigned).map fun item => (item.1, item.2.item)) =
        result := by
  have hcons : ∀ project text rest, assignItems project (text :: rest) =
      (assignment text).bind fun assigned =>
        assignItems (project.addItem assigned.1 (.ofIdentity assigned.2)) rest := fun _ _ _ => rfl
  rw [loop_eq_ok_iff (fun _ => rfl) hcons]
  simp only [assignment_eq_ok_iff, ← foldl_addItem, assignedItems, List.map_map, List.foldl_map]
  rfl

/-! ## The order of a document -/

/-- The bytes of a name come before those of another one. -/
def Before (name other : String) : Prop :=
  Text.Utf8.encode name.toList < Text.Utf8.encode other.toList

/-- Contents in the order of the bytes of their names.  There may be several items of one type, and
these stand together. -/
structure Contents.Sorted (contents : Contents) : Prop where
  properties : (contents.properties.map Prod.fst).Pairwise Before
  items : (contents.items.map Prod.fst).Pairwise fun itemType other => ¬Before other itemType
  metadata : ∀ item ∈ contents.items, (item.2.metadata.map Prod.fst).Pairwise Before

variable {given entries : List (String × Json)} {document : Json} {contents : Contents}

theorem pairwise_before (h : Json.Ordered (.object entries)) :
    (entries.map Prod.fst).Pairwise Before :=
  List.pairwise_map.2 (h.pairwise.imp (Text.Utf8.lt_iff_encode_lt _ _).1)

theorem pairwise_before_of_namedText {texts : List (String × String)}
    (h : Json.Ordered (.object entries)) (hread : List.Forall₂ NamedText entries texts) :
    (texts.map Prod.fst).Pairwise Before := by
  rw [map_fst_of_forall₂ (fun _ _ hnamed => hnamed.name_eq) hread]
  exact pairwise_before h

/-- The items of a type stand together, and the types are in order. -/
theorem pairwise_spread {types : List (String × Json)}
    (h : types.Pairwise fun a b => a.1 < b.1) :
    ((spread types).map Prod.fst).Pairwise (· ≤ ·) := by
  rw [List.pairwise_map, spread, List.pairwise_flatMap]
  constructor
  · rintro ⟨itemType, listing⟩ -
    exact List.pairwise_map.2 (List.pairwise_of_forall fun _ _ => le_refl itemType)
  · refine h.imp fun hless => ?_
    simp only [List.forall_mem_map]
    exact fun _ _ _ _ => hless.le

theorem pairwise_metadata {value : Json} {item : GivenItem} (h : value.Ordered)
    (hlists : Lists value item) : (item.metadata.map Prod.fst).Pairwise Before := by
  cases hlists with
  | text => exact .nil
  | object _ _ hsection hread =>
    exact pairwise_before_of_namedText (ordered_of_section h hsection) hread

/-- What a document says is in order. -/
theorem sorted_contents (h : document.Ordered) (hmeans : Says document contents) :
    contents.Sorted := by
  cases hmeans with
  | object hproperties hread htypes hitems hdirectory =>
    have htypes := ordered_of_section h htypes
    refine ⟨pairwise_before_of_namedText (ordered_of_section h hproperties) hread, ?_, ?_⟩
    · rw [map_fst_of_forall₂ (fun _ _ hnamed => hnamed.name_eq) hitems]
      refine (pairwise_spread htypes.pairwise).imp fun hle hbefore => ?_
      exact hle.not_gt ((Text.Utf8.lt_iff_encode_lt _ _).2 hbefore)
    · intro item hitem
      obtain ⟨member, hmember, hnamed⟩ := exists_mem_of_forall₂ hitems hitem
      exact pairwise_metadata (ordered_of_mem_spread htypes.of_mem hmember) hnamed.lists

end StateDocument

namespace Command.CheckRequest

open NameTable (valuesUnder)
open StateDocument

/-! ## Layers -/

/-- The contents of a document that is read from a text.  Without one there are none. -/
inductive Documented : Option String → Contents → Prop
  | absent : Documented none ⟨[], [], none⟩
  | present {text : String} {document : Json} {contents : Contents} :
      Json.parse? text = some document → Says document contents → Documented (some text) contents

/-- What the project of a request is made of. -/
structure Layers where
  contents : Contents
  properties : List (String × String)
  items : List (String × String)

namespace Layers

/-- What a request gives. -/
structure Of (request : CheckRequest) (layers : Layers) : Prop where
  contents : Documented request.document layers.contents
  properties : List.Forall₂ Assigns request.properties layers.properties
  items : List.Forall₂ Assigns request.items layers.items

/-- The project that has some layers. -/
def project (layers : Layers) (strict : Bool) : Project :=
  let assigned := withProperties layers.contents.project layers.properties
  let filled := withItems assigned
    ((assignedItems layers.items).map fun item => (item.1, item.2.item))
  if strict then { filled with strictness := .strict } else filled

/-- Layers decide what a project says about properties and items.  Names are the same in any
spelling. -/
structure Governs (layers : Layers) (project : Project) : Prop where
  property_eq : ∀ name, project.property? name =
    (valuesUnder layers.properties name).getLast?.or
      (valuesUnder layers.contents.properties name).getLast?
  items_give : ∀ itemType, List.Forall₂ GivenItem.Gives
    (valuesUnder layers.contents.items itemType ++
      (valuesUnder layers.items itemType).map GivenItem.plain)
    (project.itemsOf itemType)

theorem valuesUnder_items (items : List (String × GivenItem)) (itemType : String) :
    valuesUnder (items.map fun item => (item.1, item.2.item)) itemType =
      (valuesUnder items itemType).map GivenItem.item :=
  NameTable.valuesUnder_map ..

theorem property?_project (layers : Layers) (strict : Bool) (name : String) :
    (layers.project strict).property? name = (valuesUnder layers.properties name).getLast?.or
      (valuesUnder layers.contents.properties name).getLast? := by
  have hcontents : layers.contents.project.property? name =
      (valuesUnder layers.contents.properties name).getLast? :=
    (property?_withProperties .empty layers.contents.properties name).trans Option.or_none
  cases strict
  all_goals
    exact (property?_withProperties layers.contents.project layers.properties name).trans
      (congrArg _ hcontents)

theorem itemsOf_project (layers : Layers) (strict : Bool) (itemType : String) :
    (layers.project strict).itemsOf itemType =
      (valuesUnder layers.contents.items itemType ++
        (valuesUnder layers.items itemType).map GivenItem.plain).map GivenItem.item := by
  have hcontents : layers.contents.project.itemsOf itemType =
      (valuesUnder layers.contents.items itemType).map GivenItem.item :=
    (itemsOf_withItems (withProperties .empty layers.contents.properties) _ itemType).trans
      (valuesUnder_items _ _)
  have hassigned : valuesUnder (assignedItems layers.items) itemType =
      (valuesUnder layers.items itemType).map GivenItem.plain :=
    NameTable.valuesUnder_map ..
  have hproject : (layers.project strict).itemsOf itemType =
      layers.contents.project.itemsOf itemType ++
        (valuesUnder (assignedItems layers.items) itemType).map GivenItem.item := by
    rw [← valuesUnder_items]
    cases strict
    all_goals
      exact itemsOf_withItems (withProperties layers.contents.project layers.properties) _ itemType
  rw [hproject, hcontents, hassigned, List.map_append]

theorem governs_project (layers : Layers) (strict : Bool) :
    layers.Governs (layers.project strict) := by
  refine ⟨layers.property?_project strict, fun itemType => ?_⟩
  rw [itemsOf_project, List.forall₂_map_right_iff, List.forall₂_same]
  exact fun given _ => gives_item given

end Layers

theorem sorted_of_documented {text? : Option String} {contents : Contents}
    (h : Documented text? contents) : contents.Sorted := by
  cases h with
  | absent => exact ⟨.nil, .nil, List.forall_mem_nil _⟩
  | present hparse hmeans => exact sorted_contents (Json.ordered_of_parse? hparse) hmeans

/-! ## Requests -/

theorem documentProject_eq_ok_iff {text? : Option String} {project : Project} :
    documentProject text? = .ok project ↔
      ∃ contents, Documented text? contents ∧ contents.project = project := by
  cases text? with
  | none =>
    constructor
    · rintro ⟨⟩
      exact ⟨_, .absent, rfl⟩
    · rintro ⟨_, ⟨⟩, rfl⟩
      rfl
  | some text =>
    cases hparse : Json.parse? text with
    | none =>
      have herror : documentProject (some text) = .error .json := by rw [documentProject, hparse]
      rw [herror]
      refine iff_of_false nofun ?_
      rintro ⟨contents, hdocumented, -⟩
      cases hdocumented with
      | present hother => cases hparse.symm.trans hother
    | some document =>
      have hproject : documentProject (some text) = StateDocument.project document := by
        rw [documentProject, hparse]
      rw [hproject, StateDocument.project_eq_ok_iff (Json.ordered_of_parse? hparse)]
      constructor
      · rintro ⟨contents, hmeans, rfl⟩
        exact ⟨contents, .present hparse hmeans, rfl⟩
      · rintro ⟨contents, hdocumented, rfl⟩
        cases hdocumented with
        | present hother hmeans =>
          cases hparse.symm.trans hother
          exact ⟨contents, hmeans, rfl⟩

/-- A text is rejected as a document if and only if it writes no value or a malformed one. -/
theorem documentProject_eq_error_iff {text : String} :
    (∃ cause, documentProject (some text) = .error cause) ↔
      ∀ document, Json.parse? text = some document → Malformed document := by
  cases hparse : Json.parse? text with
  | none => exact iff_of_true ⟨.json, by rw [documentProject, hparse]⟩ nofun
  | some document =>
    simp only [documentProject, hparse, Option.some.injEq, forall_eq']
    exact project_eq_error_iff (Json.ordered_of_parse? hparse)

/-- A request describes a project if and only if it has layers, and then these are what the project
is made of. -/
theorem project_eq_ok_iff {request : CheckRequest} {project : Project} :
    request.project = .ok project ↔
      ∃ layers : Layers, layers.Of request ∧ layers.project request.strict = project := by
  have hproject : request.project =
      (documentProject request.document).bind fun documented =>
        (assignProperties documented request.properties).bind fun assigned =>
          (assignItems assigned request.items).bind fun filled =>
            .ok (if request.strict then { filled with strictness := .strict } else filled) := rfl
  rw [hproject, bind_eq_ok_iff]
  simp only [bind_eq_ok_iff, Except.ok.injEq, documentProject_eq_ok_iff,
    assignProperties_eq_ok_iff, assignItems_eq_ok_iff]
  constructor
  · rintro ⟨_, ⟨contents, hcontents, rfl⟩, _, ⟨properties, hproperties, rfl⟩,
      _, ⟨items, hitems, rfl⟩, rfl⟩
    exact ⟨⟨contents, properties, items⟩, ⟨hcontents, hproperties, hitems⟩, rfl⟩
  · rintro ⟨⟨contents, properties, items⟩, ⟨hcontents, hproperties, hitems⟩, rfl⟩
    exact ⟨_, ⟨contents, hcontents, rfl⟩, _, ⟨properties, hproperties, rfl⟩,
      _, ⟨items, hitems, rfl⟩, rfl⟩

/-- A project is described if and only if there are layers.  They hold what the document says in the
order of the bytes of its keys, and what is assigned; and they govern the project.  A document is
rejected for no other reason than that it is malformed. -/
theorem project_layered (request : CheckRequest) :
    ((∃ project, request.project = .ok project) ↔ ∃ layers : Layers, layers.Of request) ∧
      (∀ project, request.project = .ok project → ∃ layers : Layers, layers.Of request ∧
        layers.contents.Sorted ∧ layers.Governs project) ∧
      ∀ text, (∃ cause, documentProject (some text) = .error cause) ↔
        ∀ document, Json.parse? text = some document → Malformed document := by
  refine ⟨?_, ?_, fun text => documentProject_eq_error_iff⟩
  · simp only [project_eq_ok_iff]
    rw [exists_comm]
    simp
  · intro project hproject
    obtain ⟨layers, hlayers, rfl⟩ := project_eq_ok_iff.1 hproject
    exact ⟨layers, hlayers, sorted_of_documented hlayers.contents,
      layers.governs_project request.strict⟩

/-- Keys that differ in case only, in a document and in assignments. -/
def collidingKeys : CheckRequest where
  condition := "true"
  document := some ("\x7b\"items\":\x7b\"t\":\"c\",\"T\":[\"a\"," ++
    "\x7b\"include\":\"b\",\"metadata\":\x7b\"l\":1,\"L\":2\x7d\x7d]\x7d," ++
    "\"properties\":\x7b\"P\":0,\"k\":null,\"K\":3\x7d\x7d")
  properties := [" p = x", "P=y"]
  items := ["T=d"]
  strict := false
  policy := .everything
  location := .unknown
  syntaxOnly := false

theorem project_layered_collidingKeys :
    ∃ (project : Project) (layers : Layers), collidingKeys.project = .ok project ∧
      layers.Of collidingKeys ∧ layers.contents.Sorted ∧ layers.Governs project ∧
      project.property? "P" = some "y" ∧ project.property? "K" = some "" ∧
      (project.itemsOf "t").map (fun item => (item.identity, item.metadata? "L")) =
        [("a", none), ("b", some "1"), ("c", none), ("d", none)] := by
  have hseen : collidingKeys.project.map (fun project => (project.property? "P",
      project.property? "K",
      (project.itemsOf "t").map fun item => (item.identity, item.metadata? "L"))) =
        .ok (some "y", some "", [("a", none), ("b", some "1"), ("c", none), ("d", none)]) := by
    decide +kernel
  obtain ⟨project, hproject, heq⟩ := map_eq_ok_iff.1 hseen
  obtain ⟨layers, hlayers, hsorted, hgoverns⟩ :=
    (project_layered collidingKeys).2.1 project hproject
  simp only [Prod.mk.injEq] at heq
  exact ⟨project, layers, hproject, hlayers, hsorted, hgoverns, heq⟩

end Command.CheckRequest

end CondLang
