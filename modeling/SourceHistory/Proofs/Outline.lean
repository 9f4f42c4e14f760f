import SourceHistory.Outline
import SourceHistory.Proofs.Id.Containment
import SourceHistory.Proofs.Node.Arrangement

namespace SourceHistory

namespace EntityOutline

def label : EntityOutline → String
  | type name _ _ _ => name
  | function o => o.signature
  | var o => o.name

def kind : EntityOutline → Kind
  | type .. => .type
  | function _ => .function
  | var _ => .var

end EntityOutline

/-- A valid signature, and parameters with valid names that differ. -/
structure FunctionOutline.WellNamed (o : FunctionOutline) : Prop where
  signature_valid : Id.isValidSignature o.signature = true
  parameters_valid : ∀ p ∈ o.parameters, Id.isValidName p.name = true
  parameters_differ : (o.parameters.map VarOutline.name).Nodup

/-- Valid names and signatures at every place, and siblings that differ in them. -/
inductive EntityOutline.WellNamed : EntityOutline → Prop where
  | type {name : String} {modifiers supertypes : NameSet} {members : List EntityOutline} :
    Id.isValidName name = true → (∀ m ∈ members, WellNamed m) → (members.map label).Nodup →
      WellNamed (.type name modifiers supertypes members)
  | function {o : FunctionOutline} : o.WellNamed → WellNamed (.function o)
  | var {o : VarOutline} : Id.isValidName o.name = true → WellNamed (.var o)

/-- A valid path, and well-named entities that differ in name or signature. -/
structure UnitOutline.WellNamed (o : UnitOutline) : Prop where
  path_valid : Id.isValidPath o.path = true
  entities_wellNamed : ∀ e ∈ o.entities, e.WellNamed
  entities_differ : (o.entities.map EntityOutline.label).Nodup

def VarOutline.Describes (parent : String) (o : VarOutline) (n : Node) : Prop :=
  n = ⟨Id.child parent o.name, .var o.modifiers o.initializer, []⟩

/-- The function of an outline inside `parent`: its children are its parameters in their order. -/
def FunctionOutline.Describes (parent : String) (o : FunctionOutline) (n : Node) : Prop :=
  n.id = Id.child parent o.signature ∧ n.attributes = .function o.modifiers o.body ∧
    List.Forall₂ (VarOutline.Describes n.id) o.parameters n.children

namespace EntityOutline

mutual

/-- The entity of an outline inside `parent`: the children of a type are its members in ascending
order of their ids. -/
def Describes (parent : String) : EntityOutline → Node → Prop
  | type name modifiers supertypes members, n =>
    n.id = Id.child parent name ∧ n.attributes = .type modifiers supertypes ∧
      (n.children.map Node.id).Pairwise (· < ·) ∧
      ∃ built, DescribesAll n.id members built ∧ n.children.Perm built
  | function o, n => o.Describes parent n
  | var o, n => o.Describes parent n

def DescribesAll (parent : String) : List EntityOutline → List Node → Prop
  | [], built => built = []
  | outline :: outlines, built =>
    ∃ n ns, built = n :: ns ∧ Describes parent outline n ∧ DescribesAll parent outlines ns

end

end EntityOutline

def UnitOutline.Describes (o : UnitOutline) (u : SourceUnit) : Prop :=
  u.path = o.path ∧ (u.entities.map Node.id).Pairwise (· < ·) ∧
    ∃ built, EntityOutline.DescribesAll o.path o.entities built ∧ u.entities.Perm built

namespace Kind

variable {kind : Kind} {parent segment : String}

theorem separator_not_mem_of_fitsSegment (hk : kind ≠ .unit) (h : kind.fitsSegment segment = true) :
    Id.separator ∉ segment.toList := by
  cases kind with
  | unit => exact absurd rfl hk
  | type => exact Id.separator_not_mem_of_isName h
  | function => exact Id.separator_not_mem_of_isSignature h
  | var => exact Id.separator_not_mem_of_isName h

/-- Where a node of this kind can stand, the checks of its id and of its place come to one check of
its last segment. -/
theorem isValidId_child_iff (hk : kind ≠ .unit) (h : kind.StandsBelow parent) :
    kind.isValidId (Id.child parent segment) = true ∧ Id.separator ∉ segment.toList ↔
      kind.fitsSegment segment = true := by
  constructor
  · rintro ⟨hvalid, hsep⟩
    have hfits := ((isValidId_iff_of_parent? hk (Id.parent?_child hsep)).1 hvalid).2
    rwa [Id.simpleName_child hsep] at hfits
  · intro hfits
    have hsep := separator_not_mem_of_fitsSegment hk hfits
    refine ⟨(isValidId_iff_of_parent? hk (Id.parent?_child hsep)).2 ⟨h, ?_⟩, hsep⟩
    rwa [Id.simpleName_child hsep]

end Kind

namespace Node

variable {id : String} {attributes : Attributes} {built : List Node} {labels : List String}

/-- Children with ids that are derived from labels make a node exactly if the labels hold no
separator and differ. -/
theorem exists_make_iff (hids : built.map Node.id = labels.map (Id.child id))
    (hkinds : ∀ c ∈ built, attributes.kind.canContain c.kind = true) :
    (∃ n, make id attributes built = .ok n) ↔ attributes.kind.isValidId id = true ∧
      (∀ label ∈ labels, Id.separator ∉ label.toList) ∧ labels.Nodup := by
  have hperm : (if attributes.kind.isSorted then sortById built else built).Perm built := by
    split
    · exact sortById_perm built
    · exact .refl built
  have hnodup : ((if attributes.kind.isSorted then sortById built else built).map Node.id).Nodup ↔
      labels.Nodup := by
    rw [(hperm.map Node.id).nodup_iff, hids]
    exact List.nodup_map_iff fun _ _ => Id.child_injective
  constructor
  · rintro ⟨n, hmake⟩
    obtain ⟨rfl, hwf⟩ := make_eq_ok_iff.1 hmake
    refine ⟨hwf.id_valid, fun label hlabel => ?_, hnodup.1 hwf.nodup⟩
    have hmem : Id.child id label ∈ built.map Node.id := hids ▸ List.mem_map_of_mem hlabel
    obtain ⟨c, hc, hcid⟩ := List.mem_map.1 hmem
    have hdirect := hwf.direct c (hperm.mem_iff.2 hc)
    rw [hcid] at hdirect
    exact Id.parent?_child_eq_some_iff.1 hdirect
  · rintro ⟨hvalid, hsep, hdiffer⟩
    refine ⟨_, make_eq_ok_iff.2 ⟨rfl, hvalid, fun c hc => ?_, hnodup.2 hdiffer, fun hs => ?_,
      fun c hc => hkinds c (hperm.mem_iff.1 hc)⟩⟩
    · have hmem : c.id ∈ labels.map (Id.child id) :=
        hids ▸ List.mem_map_of_mem (hperm.mem_iff.1 hc)
      obtain ⟨label, hlabel, hcid⟩ := List.mem_map.1 hmem
      rw [← hcid]
      exact Id.parent?_child (hsep label hlabel)
    · have hsorted : attributes.kind.isSorted = true := hs
      simp only [hsorted, if_true] at hnodup ⊢
      exact ascending_sortById (hnodup.2 hdiffer)

/-- A node whose children are built from items first, each with an id derived from its label. If
items that build below a valid id are the ones that `W` holds of, the node is built exactly if its id
is valid, `W` holds of all items, and their labels differ. -/
theorem exists_build_iff {α : Type} {f : α → Except Error Node} {label : α → String}
    {W : α → Prop} {items : List α}
    (hbuilt : ∀ x n, f x = .ok n →
      n.id = Id.child id (label x) ∧ attributes.kind.canContain n.kind = true)
    (hitems : attributes.kind.isValidId id = true → ∀ x ∈ items,
      ((∃ n, f x = .ok n) ∧ Id.separator ∉ (label x).toList ↔ W x)) :
    (∃ n, (items.mapM f >>= fun built => make id attributes built) = .ok n) ↔
      attributes.kind.isValidId id = true ∧ (∀ x ∈ items, W x) ∧ (items.map label).Nodup := by
  -- in both directions the children are there before the node is made
  have hmake {built : List Node} (hmap : items.mapM f = .ok built) :
      (∃ n, make id attributes built = .ok n) ↔ attributes.kind.isValidId id = true ∧
        (∀ x ∈ items, Id.separator ∉ (label x).toList) ∧ (items.map label).Nodup := by
    have hids : built.map Node.id = (items.map label).map (Id.child id) := by
      have hall := (mapM_eq_ok_iff.1 hmap).imp fun x n hx => (hbuilt x n hx).1
      have hsame := List.forall₂_map_left_iff.2 (List.forall₂_map_right_iff.2 hall.flip)
      rw [List.forall₂_eq_eq_eq] at hsame
      rw [hsame, List.map_map]
      rfl
    have hkinds : ∀ c ∈ built, attributes.kind.canContain c.kind = true := by
      intro c hc
      obtain ⟨x, -, hx⟩ := exists_of_mem_of_mapM_eq_ok hmap hc
      exact (hbuilt x c hx).2
    rw [exists_make_iff hids hkinds, List.forall_mem_map]
  constructor
  · rintro ⟨n, hn⟩
    obtain ⟨built, hmap, hn⟩ := bind_eq_ok_iff.1 hn
    obtain ⟨hvalid, hsep, hdiffer⟩ := (hmake hmap).1 ⟨n, hn⟩
    exact ⟨hvalid, fun x hx => (hitems hvalid x hx).1 ⟨exists_of_mapM_eq_ok hmap hx, hsep x hx⟩,
      hdiffer⟩
  · rintro ⟨hvalid, hall, hdiffer⟩
    have hone : ∀ x ∈ items, ∃ n, f x = .ok n ∧ True := by
      intro x hx
      obtain ⟨⟨n, hn⟩, -⟩ := (hitems hvalid x hx).2 (hall x hx)
      exact ⟨n, hn, trivial⟩
    obtain ⟨built, hmap, -⟩ := exists_mapM hone
    obtain ⟨n, hn⟩ := (hmake hmap).2
      ⟨hvalid, fun x hx => ((hitems hvalid x hx).2 (hall x hx)).2, hdiffer⟩
    exact ⟨n, bind_eq_ok_iff.2 ⟨built, hmap, hn⟩⟩

end Node

theorem VarOutline.describes_of_build {parent : String} {o : VarOutline} {n : Node}
    (h : o.build parent = .ok n) : o.Describes parent n := (Node.make_eq_ok_iff.1 h).1

theorem VarOutline.constructed_of_build {parent : String} {o : VarOutline} {n : Node}
    (h : o.build parent = .ok n) : n.Constructed :=
  .make (fun _ hc => absurd hc List.not_mem_nil) h

theorem FunctionOutline.describes_of_build {parent : String} {o : FunctionOutline} {n : Node}
    (h : o.build parent = .ok n) : o.Describes parent n := by
  obtain ⟨built, hmap, hmake⟩ := bind_eq_ok_iff.1 h
  obtain ⟨rfl, -⟩ := Node.make_eq_ok_iff.1 hmake
  exact ⟨rfl, rfl, (mapM_eq_ok_iff.1 hmap).imp fun _ _ => VarOutline.describes_of_build⟩

namespace EntityOutline

variable {parent : String} {o : EntityOutline} {outlines : List EntityOutline} {n : Node}

/-- Induction on outlines through their lists of members. -/
@[elab_as_elim]
theorem members_induction {motive : EntityOutline → Prop}
    (type : ∀ name modifiers supertypes members, (∀ m ∈ members, motive m) →
      motive (.type name modifiers supertypes members))
    (function : ∀ o, motive (.function o)) (var : ∀ o, motive (.var o)) :
    (o : EntityOutline) → motive o
  | .type name modifiers supertypes members =>
    type name modifiers supertypes members fun m _ => members_induction type function var m
  | .function o => function o
  | .var o => var o

theorem buildList_eq_mapM (parent : String) (outlines : List EntityOutline) :
    buildList parent outlines = outlines.mapM (build parent) := by
  induction outlines with
  | nil => rfl
  | cons o outlines ih => rw [buildList, ih, List.mapM_cons]

theorem build_type_eq {name : String} {modifiers supertypes : NameSet} :
    build parent (.type name modifiers supertypes outlines) =
      (outlines.mapM (build (Id.child parent name)) >>= fun built =>
        Node.make (Id.child parent name) (.type modifiers supertypes) built) := by
  rw [build, buildList_eq_mapM]
  rfl

theorem describesAll_of_mapM {built : List Node}
    (h : ∀ o ∈ outlines, ∀ n, o.build parent = .ok n → o.Describes parent n)
    (hmap : outlines.mapM (build parent) = .ok built) : DescribesAll parent outlines built := by
  induction outlines generalizing built with
  | nil => exact (pure_eq_ok_iff.1 hmap).symm
  | cons o outlines ih =>
    obtain ⟨ho, hrest⟩ := List.forall_mem_cons.1 h
    rw [List.mapM_cons] at hmap
    obtain ⟨n, hn, hmap⟩ := bind_eq_ok_iff.1 hmap
    obtain ⟨ns, hns, hpure⟩ := bind_eq_ok_iff.1 hmap
    rw [DescribesAll]
    exact ⟨n, ns, (pure_eq_ok_iff.1 hpure).symm, ho n hn, ih hrest hns⟩

theorem describes_of_build (h : o.build parent = .ok n) : o.Describes parent n := by
  induction o using members_induction generalizing parent n with
  | type name modifiers supertypes members ih =>
    rw [build_type_eq] at h
    obtain ⟨built, hmap, hmake⟩ := bind_eq_ok_iff.1 h
    obtain ⟨rfl, hwf⟩ := Node.make_eq_ok_iff.1 hmake
    rw [Describes]
    exact ⟨rfl, rfl, hwf.sorted rfl, built, describesAll_of_mapM (fun m hm _ => ih m hm) hmap,
      Node.sortById_perm built⟩
  | function o =>
    rw [build] at h
    rw [Describes]
    exact FunctionOutline.describes_of_build h
  | var o =>
    rw [build] at h
    rw [Describes]
    exact VarOutline.describes_of_build h

theorem id_kind_of_build (h : o.build parent = .ok n) :
    n.id = Id.child parent o.label ∧ n.kind = o.kind := by
  have hd := describes_of_build h
  cases o with
  | type name modifiers supertypes members =>
    rw [Describes] at hd
    exact ⟨hd.1, congrArg Attributes.kind hd.2.1⟩
  | function o =>
    rw [Describes] at hd
    exact ⟨hd.1, congrArg Attributes.kind hd.2.1⟩
  | var o =>
    rw [Describes] at hd
    rw [hd]
    exact ⟨rfl, rfl⟩

theorem constructed_of_build (h : o.build parent = .ok n) : n.Constructed := by
  induction o using members_induction generalizing parent n with
  | type name modifiers supertypes members ih =>
    rw [build_type_eq] at h
    obtain ⟨built, hmap, hmake⟩ := bind_eq_ok_iff.1 h
    refine .make (fun c hc => ?_) hmake
    obtain ⟨m, hm, hbuild⟩ := exists_of_mem_of_mapM_eq_ok hmap hc
    exact ih m hm hbuild
  | function o =>
    rw [build] at h
    obtain ⟨built, hmap, hmake⟩ := bind_eq_ok_iff.1 h
    refine .make (fun c hc => ?_) hmake
    obtain ⟨p, -, hbuild⟩ := exists_of_mem_of_mapM_eq_ok hmap hc
    exact VarOutline.constructed_of_build hbuild
  | var o =>
    rw [build] at h
    exact VarOutline.constructed_of_build h

end EntityOutline

theorem VarOutline.exists_build_iff {parent : String} (h : Kind.var.StandsBelow parent)
    (o : VarOutline) : (∃ n, o.build parent = .ok n) ∧ Id.separator ∉ o.name.toList ↔
      Id.isValidName o.name = true := by
  have hmake : (∃ n, o.build parent = .ok n) ↔
      Kind.var.isValidId (Id.child parent o.name) = true ∧
        (∀ label ∈ ([] : List String), Id.separator ∉ label.toList) ∧ ([] : List String).Nodup :=
    Node.exists_make_iff rfl nofun
  have hname : Kind.var.isValidId (Id.child parent o.name) = true ∧
      Id.separator ∉ o.name.toList ↔ Id.isValidName o.name = true :=
    Kind.isValidId_child_iff nofun h
  rw [hmake, ← hname]
  simp

theorem FunctionOutline.exists_build_iff {parent : String} (h : Kind.function.StandsBelow parent)
    (o : FunctionOutline) : (∃ n, o.build parent = .ok n) ∧ Id.separator ∉ o.signature.toList ↔
      o.WellNamed := by
  have hbuild : (∃ n, o.build parent = .ok n) ↔
      Kind.function.isValidId (Id.child parent o.signature) = true ∧
        (∀ p ∈ o.parameters, Id.isValidName p.name = true) ∧
        (o.parameters.map VarOutline.name).Nodup := by
    refine Node.exists_build_iff (fun p n hp => ?_) fun hid p _ => ?_
    · obtain rfl := VarOutline.describes_of_build hp
      exact ⟨rfl, rfl⟩
    · exact VarOutline.exists_build_iff ⟨.function, hid, rfl⟩ p
  have hsignature : Kind.function.isValidId (Id.child parent o.signature) = true ∧
      Id.separator ∉ o.signature.toList ↔ Id.isValidSignature o.signature = true :=
    Kind.isValidId_child_iff nofun h
  rw [hbuild]
  constructor
  · rintro ⟨⟨hid, hvalid, hdiffer⟩, hsep⟩
    exact ⟨hsignature.1 ⟨hid, hsep⟩, hvalid, hdiffer⟩
  · rintro ⟨hvalid, hparameters, hdiffer⟩
    obtain ⟨hid, hsep⟩ := hsignature.2 hvalid
    exact ⟨⟨hid, hparameters, hdiffer⟩, hsep⟩

/-- Members are looked at only below the id of a type that is valid, so the induction may assume of
every parent what a member needs of its own. -/
theorem EntityOutline.exists_build_iff {parent : String} {o : EntityOutline}
    (h : o.kind.StandsBelow parent) :
    (∃ n, o.build parent = .ok n) ∧ Id.separator ∉ o.label.toList ↔ o.WellNamed := by
  induction o using members_induction generalizing parent with
  | type name modifiers supertypes members ih =>
    have hbuild : (∃ n, build parent (.type name modifiers supertypes members) = .ok n) ↔
        Kind.type.isValidId (Id.child parent name) = true ∧ (∀ m ∈ members, m.WellNamed) ∧
          (members.map label).Nodup := by
      rw [build_type_eq]
      refine Node.exists_build_iff (fun m n hm => ?_) fun hid m hm => ih m hm ?_
      · obtain ⟨hnid, hkind⟩ := id_kind_of_build hm
        exact ⟨hnid, by rw [hkind]; cases m <;> rfl⟩
      · exact ⟨.type, hid, by cases m <;> rfl⟩
    have hname : Kind.type.isValidId (Id.child parent name) = true ∧
        Id.separator ∉ name.toList ↔ Id.isValidName name = true :=
      Kind.isValidId_child_iff nofun h
    rw [hbuild]
    constructor
    · rintro ⟨⟨hid, hvalid, hdiffer⟩, hsep⟩
      exact .type (hname.1 ⟨hid, hsep⟩) hvalid hdiffer
    · rintro (⟨hvalid, hmembers, hdiffer⟩ | _ | _)
      obtain ⟨hid, hsep⟩ := hname.2 hvalid
      exact ⟨⟨hid, hmembers, hdiffer⟩, hsep⟩
  | function o =>
    rw [build]
    exact (FunctionOutline.exists_build_iff h o).trans ⟨.function, fun | .function ho => ho⟩
  | var o =>
    rw [build]
    exact (VarOutline.exists_build_iff h o).trans ⟨.var, fun | .var ho => ho⟩

namespace UnitOutline

variable {o : UnitOutline} {u : SourceUnit}

theorem build_eq_ok_iff : o.build = .ok u ↔
    (o.entities.mapM (EntityOutline.build o.path) >>= fun built => Node.make o.path .unit built) =
      .ok u.toNode := by
  rw [build, EntityOutline.buildList_eq_mapM, bind_eq_ok_iff, bind_eq_ok_iff]
  simp only [SourceUnit.make_eq_ok_iff]

theorem exists_build_iff (o : UnitOutline) : (∃ u, o.build = .ok u) ↔ o.WellNamed := by
  have hbuild : (∃ n, (o.entities.mapM (EntityOutline.build o.path) >>= fun built =>
      Node.make o.path .unit built) = .ok n) ↔
      Kind.unit.isValidId o.path = true ∧ (∀ e ∈ o.entities, e.WellNamed) ∧
        (o.entities.map EntityOutline.label).Nodup := by
    refine Node.exists_build_iff (fun e n he => ?_) fun hid e _ => ?_
    · obtain ⟨hnid, hkind⟩ := EntityOutline.id_kind_of_build he
      exact ⟨hnid, by rw [hkind]; cases e <;> rfl⟩
    · exact EntityOutline.exists_build_iff ⟨.unit, hid, by cases e <;> rfl⟩
  constructor
  · rintro ⟨u, hu⟩
    obtain ⟨hpath, hentities, hdiffer⟩ := hbuild.1 ⟨u.toNode, build_eq_ok_iff.1 hu⟩
    exact ⟨hpath, hentities, hdiffer⟩
  · rintro ⟨hpath, hentities, hdiffer⟩
    obtain ⟨n, hn⟩ := hbuild.2 ⟨hpath, hentities, hdiffer⟩
    obtain ⟨built, -, hmake⟩ := bind_eq_ok_iff.1 hn
    obtain ⟨rfl, -⟩ := Node.make_eq_ok_iff.1 hmake
    exact ⟨⟨o.path, _⟩, build_eq_ok_iff.2 hn⟩

theorem describes_of_build (h : o.build = .ok u) : o.Describes u := by
  obtain ⟨built, hmap, hmake⟩ := bind_eq_ok_iff.1 (build_eq_ok_iff.1 h)
  obtain ⟨hu, hwf⟩ := Node.make_eq_ok_iff.1 hmake
  have hentities : u.entities = Node.sortById built := congrArg Node.children hu
  refine ⟨congrArg Node.id hu, hwf.sorted rfl, built, ?_, ?_⟩
  · exact EntityOutline.describesAll_of_mapM (fun _ _ _ => EntityOutline.describes_of_build) hmap
  · rw [hentities]
    exact Node.sortById_perm built

theorem validate_of_build (h : o.build = .ok u) : u.validate = .ok () := by
  obtain ⟨built, hmap, hmake⟩ := bind_eq_ok_iff.1 (build_eq_ok_iff.1 h)
  refine Node.constructed_iff.1 (.make (fun c hc => ?_) hmake)
  obtain ⟨e, -, he⟩ := exists_of_mem_of_mapM_eq_ok hmap hc
  exact EntityOutline.constructed_of_build he

/-- An outline is built exactly if it is well-named, and what is built is valid and as described:
each id is that of the parent with the own name behind it, members ascend by id, and parameters keep
their order. -/
theorem builds_iff_wellNamed (o : UnitOutline) :
    ((∃ u, o.build = .ok u) ↔ o.WellNamed) ∧
      ∀ u, o.build = .ok u → u.validate = .ok () ∧ o.Describes u :=
  ⟨exists_build_iff o, fun _ h => ⟨validate_of_build h, describes_of_build h⟩⟩

/-- Entities and members that come in the wrong order, and parameters that do not ascend. -/
theorem builds_iff_wellNamed_of_unsorted :
    let f : FunctionOutline := ⟨"f(int)", ∅, [⟨"b", ∅, []⟩, ⟨"a", ∅, ["0"]⟩], ["return"]⟩
    let o : UnitOutline :=
      ⟨"src/M.java", [.var ⟨"z", ∅, []⟩, .type "A" ∅ ∅ [.function f, .var ⟨"B", ∅, []⟩]]⟩
    let nf : Node := ⟨"src/M.java:A:f(int)", .function ∅ ["return"],
      [⟨"src/M.java:A:f(int):b", .var ∅ [], []⟩, ⟨"src/M.java:A:f(int):a", .var ∅ ["0"], []⟩]⟩
    let nB : Node := ⟨"src/M.java:A:B", .var ∅ [], []⟩
    let nA : Node := ⟨"src/M.java:A", .type ∅ ∅, [nB, nf]⟩
    let nz : Node := ⟨"src/M.java:z", .var ∅ [], []⟩
    let u : SourceUnit := ⟨"src/M.java", [nA, nz]⟩
    o.build = .ok u ∧ o.WellNamed ∧ u.validate = .ok () ∧ o.Describes u := by
  intro f o nf nB nA nz u
  have hA : nA.WellFormed := Node.checkShallow_eq_ok_iff.1 (by decide +kernel)
  have hu : u.toNode.WellFormed := Node.checkShallow_eq_ok_iff.1 (by decide +kernel)
  have htype : EntityOutline.build "src/M.java" (.type "A" ∅ ∅ [.function f, .var ⟨"B", ∅, []⟩]) =
      .ok nA := by
    rw [EntityOutline.build_type_eq]
    refine bind_eq_ok_iff.2 ⟨[nf, nB], by decide +kernel, ?_⟩
    exact (Node.make_eq_of_perm rfl (.swap nB nf [])).trans hA.make_eq
  have hz : EntityOutline.build "src/M.java" (.var ⟨"z", ∅, []⟩) = .ok nz := by decide +kernel
  have hbuild : o.build = .ok u := by
    refine build_eq_ok_iff.2 (bind_eq_ok_iff.2 ⟨[nz, nA], ?_, ?_⟩)
    · exact mapM_eq_ok_iff.2 (.cons hz (.cons htype .nil))
    · exact (Node.make_eq_of_perm rfl (.swap nA nz [])).trans hu.make_eq
  obtain ⟨hiff, hdescribes⟩ := builds_iff_wellNamed o
  exact ⟨hbuild, hiff.1 ⟨u, hbuild⟩, hdescribes u hbuild⟩

end UnitOutline

end SourceHistory
