import SourceHistory.Proofs.Diff.RoundTrip
import SourceHistory.Proofs.Node.Arrangement

namespace SourceHistory

namespace SourceUnit

variable {u v : SourceUnit} {units units' built : List SourceUnit}

/-- The unit that the constructors make of the parts of `u`, children first. -/
def build (u : SourceUnit) : Except Error SourceUnit := do
  let entities ← Node.buildList u.entities
  make u.path entities

theorem build_eq_ok_iff : u.build = .ok v ↔ u.toNode.build = .ok v.toNode := by
  rw [build, toNode, Node.build, bind_eq_ok_iff, bind_eq_ok_iff]
  simp only [make_eq_ok_iff]

/-- Constructed units are what their own parts make. -/
theorem mapM_build (h : ∀ u ∈ units, u.Constructed) : units.mapM build = .ok units := by
  refine mapM_eq_ok_iff.2 (List.forall₂_same.2 fun u hu => build_eq_ok_iff.2 ?_)
  exact Node.build_of_validate (h u hu).validate

/-- The same units up to their order, and made of the same parts up to the order of the children of
units and types. -/
inductive Rearranged : List SourceUnit → List SourceUnit → Prop where
  | perm {units units' : List SourceUnit} : units.Perm units' → Rearranged units units'
  | inside {before after : List SourceUnit} {u u' : SourceUnit} :
    u.toNode.Rearranged u'.toNode → Rearranged (before ++ u :: after) (before ++ u' :: after)
  | trans {units units' units'' : List SourceUnit} :
    Rearranged units units' → Rearranged units' units'' → Rearranged units units''

theorem Rearranged.exists_build (h : Rearranged units units') (hb : units.mapM build = .ok built) :
    ∃ built', units'.mapM build = .ok built' ∧ built.Perm built' := by
  induction h generalizing built with
  | perm hp => exact exists_mapM_of_perm hp hb
  | inside hu =>
    refine ⟨built, mapM_eq_ok_of_replace (fun v hv => ?_) hb, .refl built⟩
    exact build_eq_ok_iff.2 (hu.build_eq_ok (build_eq_ok_iff.1 hv))
  | trans _ _ ih ih' =>
    obtain ⟨middle, hmiddle, hperm⟩ := ih hb
    obtain ⟨built', hbuilt', hperm'⟩ := ih' hmiddle
    exact ⟨built', hbuilt', hperm.trans hperm'⟩

end SourceUnit

namespace Snapshot

variable {map result : NameMap SourceUnit} {units units' : List SourceUnit} {s : Snapshot}

/-- Only valid units with new and different paths are taken. -/
theorem of_collect (h : collect map units = .ok result) :
    (∀ u ∈ units, u.validate = .ok ()) ∧ (units.map SourceUnit.path).Nodup ∧
      ∀ u ∈ units, map[u.path]? = none := by
  induction units generalizing map with
  | nil => exact ⟨nofun, List.nodup_nil, nofun⟩
  | cons u units ih =>
    obtain ⟨hu, h⟩ := check_bind_eq_ok_iff.1 h
    cases hc : map.contains u.path with
    | true => simp [hc, bind, Except.bind, throw_eq_error] at h
    | false =>
      simp only [hc, Bool.false_eq_true, if_false] at h
      obtain ⟨hv, hnd, hfresh⟩ := ih h
      have hother : ∀ v ∈ units, v.path ≠ u.path ∧ map[v.path]? = none := by
        intro v hvm
        have hnone := hfresh v hvm
        rw [NameMap.getElem?_insert] at hnone
        split at hnone
        · cases hnone
        · next hne => exact ⟨Ne.symm hne, hnone⟩
      refine ⟨List.forall_mem_cons.2 ⟨hu, hv⟩, List.nodup_cons.2 ⟨?_, hnd⟩,
        List.forall_mem_cons.2 ⟨(NameMap.contains_eq_false_iff map u.path).1 hc,
          fun v hvm => (hother v hvm).2⟩⟩
      intro hm
      obtain ⟨v, hvm, he⟩ := List.mem_map.1 hm
      exact (hother v hvm).1 he

theorem collect_of_perm (hp : units.Perm units') (h : collect map units = .ok result) :
    collect map units' = .ok result := by
  obtain ⟨hv, hnd, hfresh⟩ := of_collect h
  obtain ⟨left, hleft, hin, hout⟩ := exists_collect hv hnd hfresh
  have hv' : ∀ u ∈ units', u.validate = .ok () := fun u hu => hv u (hp.mem_iff.2 hu)
  have hfresh' : ∀ u ∈ units', map[u.path]? = none := fun u hu => hfresh u (hp.mem_iff.2 hu)
  obtain ⟨right, hright, hin', hout'⟩ := exists_collect hv'
    ((hp.map SourceUnit.path).nodup_iff.1 hnd) hfresh'
  obtain rfl := Except.ok.inj (h.symm.trans hleft)
  have hsame : right = result := by
    apply Std.ExtTreeMap.ext_getElem?
    intro path
    have hpaths := (hp.map SourceUnit.path).mem_iff (a := path)
    by_cases hm : path ∈ units.map SourceUnit.path
    · obtain ⟨u, hu, rfl⟩ := List.mem_map.1 hm
      rw [hin u hu, hin' u (hp.mem_iff.1 hu)]
    · rw [hout path hm, hout' path (mt hpaths.2 hm)]
  rw [hright, hsame]

theorem exists_ofUnits (hv : ∀ u ∈ units, u.validate = .ok ())
    (hnd : (units.map SourceUnit.path).Nodup) : ∃ s, ofUnits units = .ok s := by
  have hfresh : ∀ u ∈ units, (∅ : NameMap SourceUnit)[u.path]? = none := fun _ _ =>
    Std.ExtTreeMap.getElem?_empty
  obtain ⟨map, hmap, -⟩ := exists_collect hv hnd hfresh
  exact ⟨_, bind_eq_ok_iff.2 ⟨map, hmap, rfl⟩⟩

theorem ofUnits_of_perm (hp : units.Perm units') (h : ofUnits units = .ok s) :
    ofUnits units' = .ok s := by
  obtain ⟨map, hmap, hs⟩ := bind_eq_ok_iff.1 h
  exact bind_eq_ok_iff.2 ⟨map, collect_of_perm hp hmap, hs⟩

end Snapshot

variable {before before' after after' : List SourceUnit} {edits : List Edit}

theorem diffUnits_of_perm (hb : before.Perm before') (ha : after.Perm after')
    (h : diffUnits before after = .ok edits) : diffUnits before' after' = .ok edits := by
  obtain ⟨s, hs, h⟩ := bind_eq_ok_iff.1 h
  obtain ⟨t, ht, h⟩ := bind_eq_ok_iff.1 h
  exact bind_eq_ok_iff.2 ⟨s, Snapshot.ofUnits_of_perm hb hs,
    bind_eq_ok_iff.2 ⟨t, Snapshot.ofUnits_of_perm ha ht, h⟩⟩

theorem exists_diffUnits {s t : Snapshot} (hs : Snapshot.ofUnits before = .ok s)
    (ht : Snapshot.ofUnits after = .ok t) : ∃ edits, diffUnits before after = .ok edits := by
  obtain ⟨edits, hdiff, -⟩ := NodeIndex.exists_diff (Snapshot.coherent_of_ofUnits hs).index
    (Snapshot.coherent_of_ofUnits ht).index
  exact ⟨edits, bind_eq_ok_iff.2 ⟨s, hs, bind_eq_ok_iff.2 ⟨t, ht, hdiff⟩⟩⟩

/-- The order of construction does not show. Units and types are the same for every order of their
children, or refused alike, and never for that order; snapshots are the same for every order of
their units; the ids that a difference visits are the same in whatever order the keys of the two
indexes are collected; and two lists of units have the same difference in whatever order they are
listed and put together. -/
theorem construction_order_irrelevant :
    (∀ (path : String) (entities entities' : List Node), entities.Perm entities' →
      SourceUnit.make path entities = SourceUnit.make path entities') ∧
    (∀ (id : String) (modifiers supertypes : NameSet) (members members' : List Node),
      members.Perm members' →
        Node.type id modifiers supertypes members = Node.type id modifiers supertypes members') ∧
    (∀ (path : String) (entities : List Node) (noun parent : String),
      SourceUnit.make path entities ≠
        .error (.invalidArgument (.unsortedChildren noun parent))) ∧
    (∀ (id : String) (modifiers supertypes : NameSet) (members : List Node) (noun parent : String),
      Node.type id modifiers supertypes members ≠
        .error (.invalidArgument (.unsortedChildren noun parent))) ∧
    (∀ units units' : List SourceUnit, units.Perm units' → ∀ s : Snapshot,
      Snapshot.ofUnits units = .ok s ↔ Snapshot.ofUnits units' = .ok s) ∧
    (∀ (before after : List SourceUnit) (s t : Snapshot), Snapshot.ofUnits before = .ok s →
      Snapshot.ofUnits after = .ok t → ∃ edits, diffUnits before after = .ok edits) ∧
    (∀ (before after : NodeIndex) (ids ids' : List String), ids.Perm before.keys →
      ids'.Perm after.keys →
        (ids ++ ids'.filter fun id => !before.contains id).mergeSort Id.parentsFirst =
            NodeIndex.unionIds before after ∧
          ids'.mergeSort Id.childrenFirst = after.keys.mergeSort Id.childrenFirst) ∧
    ∀ before before' after after' : List SourceUnit, (∀ u ∈ before, u.Constructed) →
      (∀ u ∈ after, u.Constructed) → SourceUnit.Rearranged before before' →
      SourceUnit.Rearranged after after' →
        ∃ built built', before'.mapM SourceUnit.build = .ok built ∧
          after'.mapM SourceUnit.build = .ok built' ∧
          ∀ edits, diffUnits before after = .ok edits ↔ diffUnits built built' = .ok edits := by
  refine ⟨?unit, ?type, ?unitOrder, ?typeOrder, ?snapshot, ?returns, ?visited, ?difference⟩
  case unit =>
    intro path entities entities' hp
    rw [SourceUnit.make, SourceUnit.make, Node.make_eq_of_perm rfl hp]
  case type =>
    intro id modifiers supertypes members members' hp
    exact Node.make_eq_of_perm rfl hp
  case unitOrder =>
    intro path entities noun parent h
    rcases bind_eq_error_iff.1 h with h | ⟨_, -, h⟩
    · exact Node.make_ne_unsortedChildren path .unit entities noun parent h
    · cases h
  case typeOrder =>
    intro id modifiers supertypes members noun parent
    exact Node.make_ne_unsortedChildren id (.type modifiers supertypes) members noun parent
  case snapshot =>
    intro units units' hp s
    exact ⟨Snapshot.ofUnits_of_perm hp, Snapshot.ofUnits_of_perm hp.symm⟩
  case returns =>
    intro before after s t hs ht
    exact exists_diffUnits hs ht
  case visited =>
    intro before after ids ids' hb ha
    exact ⟨NodeIndex.unionIds_eq_of_perm hb ha, NodeIndex.mergeSort_keys_of_perm ha⟩
  case difference =>
    intro before before' after after' hbefore hafter hb ha
    obtain ⟨built, hbuilt, hperm⟩ := hb.exists_build (SourceUnit.mapM_build hbefore)
    obtain ⟨built', hbuilt', hperm'⟩ := ha.exists_build (SourceUnit.mapM_build hafter)
    exact ⟨built, built', hbuilt, hbuilt', fun edits =>
      ⟨diffUnits_of_perm hperm hperm', diffUnits_of_perm hperm.symm hperm'.symm⟩⟩

/-- Two units in the other order, one of them with a type whose members are swapped, and the keys of
two indexes collected backwards. -/
theorem construction_order_irrelevant_of_swap :
    let x : Node := ⟨"a:T:x", .var ∅ [], []⟩
    let y : Node := ⟨"a:T:y", .var ∅ [], []⟩
    let u : SourceUnit := ⟨"a", [⟨"a:T", .type ∅ ∅, [x, y]⟩]⟩
    let u' : SourceUnit := ⟨"a", [⟨"a:T", .type ∅ ∅, [y, x]⟩]⟩
    let v : SourceUnit := ⟨"b", []⟩
    let before := NodeIndex.ofUnits [u]
    let after := NodeIndex.ofUnits [u, v]
    Node.type "a:T" ∅ ∅ [x, y] = Node.type "a:T" ∅ ∅ [y, x] ∧
      SourceUnit.make "a:T" [x, y, x] = SourceUnit.make "a:T" [x, x, y] ∧
      (∃ s, Snapshot.ofUnits [u, v] = .ok s ∧ Snapshot.ofUnits [v, u] = .ok s) ∧
      (before.keys.reverse ++ after.keys.reverse.filter fun id => !before.contains id).mergeSort
        Id.parentsFirst = NodeIndex.unionIds before after ∧
      ∃ built built' edits, [v, u'].mapM SourceUnit.build = .ok built ∧
        [v].mapM SourceUnit.build = .ok built' ∧ diffUnits [u, v] [v] = .ok edits ∧
          diffUnits built built' = .ok edits := by
  intro x y u u' v before after
  obtain ⟨hunit, htype, -, -, hsnapshot, hexists, hvisited, hdifference⟩ :=
    construction_order_irrelevant
  have hu : u.validate = .ok () := by decide +kernel
  have hv : v.validate = .ok () := by decide +kernel
  have hone : ∀ w ∈ [v], w.validate = .ok () := List.forall_mem_singleton.2 hv
  have hboth : ∀ w ∈ [u, v], w.validate = .ok () := List.forall_mem_cons.2 ⟨hu, hone⟩
  obtain ⟨s, hs⟩ := Snapshot.exists_ofUnits hboth (by decide)
  obtain ⟨t, ht⟩ := Snapshot.exists_ofUnits hone (by decide)
  have hmembers : Node.Rearranged ⟨"a:T", .type ∅ ∅, [x, y]⟩ ⟨"a:T", .type ∅ ∅, [y, x]⟩ :=
    .perm rfl (.swap y x [])
  have hnode : u.toNode.Rearranged u'.toNode := @Node.Rearranged.inside "a" .unit [] [] _ _ hmembers
  have hunits : SourceUnit.Rearranged [u, v] [u', v] :=
    @SourceUnit.Rearranged.inside [] [v] u u' hnode
  obtain ⟨edits, hedits⟩ := hexists [u, v] [v] s t hs ht
  obtain ⟨built, built', hbuilt, hbuilt', hsame⟩ := hdifference [u, v] [v, u'] [v] [v]
    (fun w hw => SourceUnit.constructed_of_validate (hboth w hw))
    (fun w hw => SourceUnit.constructed_of_validate (hone w hw))
    (hunits.trans (.perm (.swap v u' []))) (.perm (.refl [v]))
  exact ⟨htype "a:T" ∅ ∅ [x, y] [y, x] (.swap y x []),
    hunit "a:T" [x, y, x] [x, x, y] (.cons x (.swap x y [])),
    ⟨s, hs, (hsnapshot [u, v] [v, u] (.swap v u []) s).1 hs⟩,
    (hvisited before after _ _ (List.reverse_perm before.keys) (List.reverse_perm after.keys)).1,
    built, built', edits, hbuilt, hbuilt', hedits, (hsame edits).1 hedits⟩

end SourceHistory
