import Mathlib.Data.List.Perm.Basic
import SourceHistory.Proofs.Id.Grammar
import SourceHistory.Proofs.NodeIndex.Gap

namespace SourceHistory

open SourceHistory.Id (Within)

variable {index staged : NodeIndex} {x p : String} {n m : Node} {e : Edit}

namespace NodeIndex

theorem checkChain_eq_ok_iff {ids : List String} :
    checkChain index x ids = .ok () ↔ ∀ a ∈ ids, ∃ n, index[a]? = some n := by
  induction ids generalizing x with
  | nil => simp [checkChain]
  | cons a ids ih =>
    rw [checkChain, List.forall_mem_cons, ← NameMap.contains_eq_true_iff]
    by_cases ha : index.contains a = true
    · rw [if_pos ha, ih]
      exact ⟨fun h => ⟨ha, h⟩, fun h => h.2⟩
    · rw [if_neg ha]
      exact ⟨nofun, fun h => absurd h.1 ha⟩

theorem Consistent.checkAncestors_eq_ok (h : index.Consistent) (hx : index[x]? = some n) :
    checkAncestors index x = .ok () := by
  rw [checkAncestors, checkChain_eq_ok_iff]
  intro a ha
  obtain ⟨r, hr, -⟩ := h.exists_mem_preorder hx (Or.inr ha)
  exact ⟨r, hr⟩

end NodeIndex

namespace Edit

open NodeIndex

theorem resolveNames_eq_ok {f : String} {seen names : List String} {ps : List Node}
    (h : resolveNames index f seen names = .ok ps) :
    names.Nodup ∧ (∀ name ∈ names, name ∉ seen) ∧
      List.Forall₂ (fun name q => index[Id.child f name]? = some q ∧ q.kind = .var) names ps := by
  induction names generalizing seen ps with
  | nil =>
    rw [resolveNames, Except.ok.injEq] at h
    simp [← h]
  | cons name names ih =>
    rw [resolveNames] at h
    split at h
    · cases h
    · next q hq =>
      split at h
      · cases h
      · next hseen =>
        obtain ⟨qs, hqs, hret⟩ := bind_eq_ok_iff.1 h
        obtain rfl := pure_eq_ok_iff.1 hret
        obtain ⟨hnd, hnew, hall⟩ := ih hqs
        rw [Option.filter_eq_some_iff, decide_eq_true_eq] at hq
        refine ⟨List.nodup_cons.2 ⟨?_, hnd⟩, ?_, .cons hq hall⟩
        · exact fun hmem => hnew name hmem List.mem_cons_self
        · intro a ha
          rcases List.mem_cons.1 ha with rfl | ha
          · exact hseen
          · exact fun hs => hnew a ha (List.mem_cons_of_mem _ hs)

theorem resolveNames_of_forall {f : String} {seen names : List String} {ps : List Node}
    (hnd : names.Nodup) (hnew : ∀ name ∈ names, name ∉ seen)
    (hall : List.Forall₂ (fun name q => index[Id.child f name]? = some q ∧ q.kind = .var) names ps) :
    resolveNames index f seen names = .ok ps := by
  induction hall generalizing seen with
  | nil => rfl
  | @cons name q names qs hq _ ih =>
    obtain ⟨hn, hnd⟩ := List.nodup_cons.1 hnd
    have hrest : resolveNames index f (name :: seen) names = .ok qs := by
      refine ih hnd fun a ha hs => ?_
      rcases List.mem_cons.1 hs with rfl | hs
      · exact hn ha
      · exact hnew a (List.mem_cons_of_mem _ ha) hs
    have hfind : (index[Id.child f name]?).filter (fun node => node.kind = .var) = some q := by
      rw [Option.filter_eq_some_iff, decide_eq_true_eq]
      exact hq
    rw [resolveNames, hfind]
    simp only [hnew name List.mem_cons_self, if_false, hrest]
    rfl

theorem resolveParameters_eq_ok_iff {edits : List (ListEdit String)} {ps : List Node} :
    resolveParameters index n edits = .ok ps ↔
      ∃ names, ListEdit.apply n.childNames edits = .ok names ∧
        resolveNames index n.id [] names = .ok ps ∧ ps.length = n.children.length := by
  simp only [resolveParameters, bind_eq_ok_iff]
  constructor
  · intro hex
    obtain ⟨names, hnames, qs, hqs, hlen⟩ := hex
    split at hlen
    · next heq =>
      cases hlen
      exact ⟨names, hnames, hqs, heq⟩
    · cases hlen
  · intro hex
    obtain ⟨names, hnames, hps, hlen⟩ := hex
    exact ⟨names, hnames, ps, hps, if_pos hlen⟩

/-- Whatever the names, they stand for variables directly below the function, each for another
one. -/
theorem parameters_of_resolveNames (h : index.Sound) (hf : Kind.function.isValidId n.id = true)
    {names : List String} {ps : List Node} (hps : resolveNames index n.id [] names = .ok ps) :
    (ps.map Node.id).Nodup ∧
      ∀ c ∈ ps, index[c.id]? = some c ∧ c.kind = .var ∧ Id.parent? c.id = some n.id := by
  obtain ⟨hnd, -, hall⟩ := resolveNames_eq_ok hps
  have hids : ps.map Node.id = names.map (Id.child n.id) := by
    clear hnd hps
    induction hall with
    | nil => rfl
    | cons hq _ ih => rw [List.map_cons, List.map_cons, ih, h.id_eq hq.1]
  have hfound : ∀ c ∈ ps, ∃ name, index[Id.child n.id name]? = some c ∧ c.kind = .var := by
    clear hids hnd hps
    intro c hc
    induction hall with
    | nil => cases hc
    | @cons name q _ _ hq _ ih =>
      rcases List.mem_cons.1 hc with rfl | hc
      · exact ⟨name, hq⟩
      · exact ih hc
  refine ⟨hids ▸ hnd.map fun _ _ => Id.child_injective, fun c hc => ?_⟩
  obtain ⟨name, hq, hvar⟩ := hfound c hc
  have hid := h.id_eq hq
  have hvalid : Id.isValidVar (Id.child n.id name) = true := by
    have hv := (h.wellFormed hq).id_valid
    rwa [hvar, hid] at hv
  refine ⟨hid ▸ hq, hvar, ?_⟩
  rw [hid, Id.parent?_child (Id.separator_not_mem_of_isValidVar_child hf hvalid)]

theorem wellFormed_of_resolveNames (h : index.Sound) (hn : n.WellFormed) (hk : n.kind = .function)
    {names : List String} {ps : List Node} {a : Attributes}
    (hps : resolveNames index n.id [] names = .ok ps) (ha : a.kind = .function) :
    ({ n with attributes := a, children := ps } : Node).WellFormed := by
  have hvalid := hn.id_valid
  rw [hk] at hvalid
  obtain ⟨hnodup, hparam⟩ := parameters_of_resolveNames h hvalid hps
  refine ⟨?_, fun c hc => (hparam c hc).2.2, hnodup, ?_, ?_⟩
  · rw [Node.kind, ha]
    exact hvalid
  · intro hs
    rw [Node.kind, ha] at hs
    cases hs
  · intro c hc
    rw [Node.kind, ha, (hparam c hc).2.1]
    rfl

/-- Names resolve to as many parameters as there are exactly if they put those in another order. The
names are never compared with those of the parameters: that none of them stands for anything else
follows from the ids. -/
theorem resolveParameters_eq_ok_iff_perm (h : index.Consistent) (hx : index[n.id]? = some n)
    (hk : n.kind = .function) {edits : List (ListEdit String)} {ps : List Node} :
    resolveParameters index n edits = .ok ps ↔
      ListEdit.apply n.childNames edits = .ok (ps.map Node.name) ∧ ps.Perm n.children := by
  have hwf := h.wellFormed hx
  have hvalid := hwf.id_valid
  rw [hk] at hvalid
  rw [resolveParameters_eq_ok_iff]
  constructor
  · intro hex
    obtain ⟨names, hnames, hps, hlen⟩ := hex
    obtain ⟨hnodup, hparam⟩ := parameters_of_resolveNames h.toSound hvalid hps
    have hmap : ps.map Node.name = names := by
      obtain ⟨-, -, hall⟩ := resolveNames_eq_ok hps
      clear hps hnames hlen hnodup
      induction hall with
      | nil => rfl
      | @cons name q names qs hq _ ih =>
        obtain ⟨⟨-, -, hparent⟩, hparam⟩ := List.forall_mem_cons.1 hparam
        have hchild : Id.child n.id q.name = Id.child n.id name := by
          rw [Node.name, Id.child_simpleName hparent, h.id_eq hq.1]
        rw [List.map_cons, Id.child_injective hchild, ih hparam]
    -- As many distinct parameters as before, all of them old, are all the old ones.
    have hsub : ps ⊆ n.children := by
      intro c hc
      obtain ⟨hcur, -, hparent⟩ := hparam c hc
      obtain ⟨m, hm, hmem⟩ := h.parent hcur hparent
      rw [hx, Option.some.injEq] at hm
      exact hm ▸ hmem
    rw [hmap]
    exact ⟨hnames, (List.subperm_of_subset hnodup.of_map hsub).perm_of_length_le hlen.ge⟩
  · intro hand
    obtain ⟨hnames, hperm⟩ := hand
    have hnodup : (ps.map Node.name).Nodup :=
      (hperm.map Node.name).nodup_iff.2 hwf.nodup_childNames
    have hall : List.Forall₂ (fun name q => index[Id.child n.id name]? = some q ∧ q.kind = .var)
        (ps.map Node.name) ps := by
      rw [List.forall₂_map_left_iff, List.forall₂_same]
      intro c hc
      have hmem := hperm.mem_iff.1 hc
      rw [Node.name, Id.child_simpleName (hwf.direct c hmem)]
      exact ⟨h.child hx hmem, hwf.kind_of_function hk hmem⟩
    exact ⟨_, hnames, resolveNames_of_forall hnodup (fun _ _ => List.not_mem_nil) hall,
      hperm.length_eq⟩

theorem exists_resolveParameters_iff (h : index.Consistent) (hx : index[n.id]? = some n)
    (hk : n.kind = .function) {edits : List (ListEdit String)} :
    (∃ ps, resolveParameters index n edits = .ok ps) ↔
      ∃ names, ListEdit.apply n.childNames edits = .ok names ∧ names.Perm n.childNames := by
  simp only [resolveParameters_eq_ok_iff_perm h hx hk]
  constructor
  · intro hex
    obtain ⟨ps, hnames, hperm⟩ := hex
    exact ⟨ps.map Node.name, hnames, hperm.map Node.name⟩
  · intro hex
    obtain ⟨names, hnames, hperm⟩ := hex
    have hmap := congrFun (congrFun (List.eq_map_comp_perm Node.name) names) n.children
    obtain ⟨ps, rfl, hps⟩ := hmap.mpr hperm
    exact ⟨ps, hnames, hps⟩

theorem revises_parameters (h : index.Consistent) (hx : index[n.id]? = some n)
    (hk : n.kind = .function) {edits : List (ListEdit String)} {ps : List Node} {a : Attributes}
    (hps : resolveParameters index n edits = .ok ps) (ha : a.kind = .function) :
    index.Revises n { n with attributes := a, children := ps } := by
  obtain ⟨names, -, hnames, -⟩ := resolveParameters_eq_ok_iff.1 hps
  obtain ⟨-, hperm⟩ := (resolveParameters_eq_ok_iff_perm h hx hk).1 hps
  refine ⟨rfl, ha.trans hk.symm, wellFormed_of_resolveNames h.toSound (h.wellFormed hx) hk hnames ha,
    fun c hc => h.child hx (hperm.mem_iff.1 hc), fun k hm => ?_⟩
  exact (hperm.map Node.id).mem_iff.2 hm

theorem revise_editType_eq_ok_iff {id : String} {modifierEdits supertypeEdits : List (SetEdit String)}
    {r : Node} :
    revise index n (.editType id modifierEdits supertypeEdits) = .ok r ↔
      ∃ modifiers supertypes modifiers' supertypes', n.attributes = .type modifiers supertypes ∧
        SetEdit.apply modifiers modifierEdits = .ok modifiers' ∧
        SetEdit.apply supertypes supertypeEdits = .ok supertypes' ∧
        r = { n with attributes := .type modifiers' supertypes' } := by
  constructor
  · intro hr
    rw [revise] at hr
    split at hr
    · next modifiers supertypes ha =>
      simp only [bind_eq_ok_iff, pure_eq_ok_iff] at hr
      obtain ⟨modifiers', hm, supertypes', hs, rfl⟩ := hr
      exact ⟨modifiers, supertypes, modifiers', supertypes', ha, hm, hs, rfl⟩
    · cases hr
  · intro hex
    obtain ⟨modifiers, supertypes, modifiers', supertypes', ha, hm, hs, rfl⟩ := hex
    simp only [revise, ha, hm, hs]
    rfl

theorem revise_editFunction_eq_ok_iff {id : String} {modifierEdits : List (SetEdit String)}
    {parameterEdits bodyEdits : List (ListEdit String)} {r : Node} :
    revise index n (.editFunction id modifierEdits parameterEdits bodyEdits) = .ok r ↔
      ∃ modifiers body modifiers' body' ps, n.attributes = .function modifiers body ∧
        SetEdit.apply modifiers modifierEdits = .ok modifiers' ∧
        resolveParameters index n parameterEdits = .ok ps ∧
        ListEdit.apply body bodyEdits = .ok body' ∧
        r = { n with attributes := .function modifiers' body', children := ps } := by
  constructor
  · intro hr
    rw [revise] at hr
    split at hr
    · next modifiers body ha =>
      simp only [bind_eq_ok_iff, pure_eq_ok_iff] at hr
      obtain ⟨modifiers', hm, ps, hps, body', hb, rfl⟩ := hr
      exact ⟨modifiers, body, modifiers', body', ps, ha, hm, hps, hb, rfl⟩
    · cases hr
  · intro hex
    obtain ⟨modifiers, body, modifiers', body', ps, ha, hm, hps, hb, rfl⟩ := hex
    simp only [revise, ha, hm, hps, hb]
    rfl

theorem revise_editVar_eq_ok_iff {id : String} {modifierEdits : List (SetEdit String)}
    {initializerEdits : List (ListEdit String)} {r : Node} :
    revise index n (.editVar id modifierEdits initializerEdits) = .ok r ↔
      ∃ modifiers initializer modifiers' initializer', n.attributes = .var modifiers initializer ∧
        SetEdit.apply modifiers modifierEdits = .ok modifiers' ∧
        ListEdit.apply initializer initializerEdits = .ok initializer' ∧
        r = { n with attributes := .var modifiers' initializer' } := by
  constructor
  · intro hr
    rw [revise] at hr
    split at hr
    · next modifiers initializer ha =>
      simp only [bind_eq_ok_iff, pure_eq_ok_iff] at hr
      obtain ⟨modifiers', hm, initializer', hi, rfl⟩ := hr
      exact ⟨modifiers, initializer, modifiers', initializer', ha, hm, hi, rfl⟩
    · cases hr
  · intro hex
    obtain ⟨modifiers, initializer, modifiers', initializer', ha, hm, hi, rfl⟩ := hex
    simp only [revise, ha, hm, hi]
    rfl

/-- A revision exchanges attributes for others of the same kind, and the parameters of a function for
those its names resolve to. -/
theorem revise_cases {r : Node} (he : e.isAttributeEdit = true) (hr : revise index n e = .ok r) :
    (∃ a : Attributes, a.kind = n.kind ∧ r = { n with attributes := a }) ∨
    n.kind = .function ∧ ∃ (a : Attributes) (edits : List (ListEdit String)) (ps : List Node),
      a.kind = .function ∧ resolveParameters index n edits = .ok ps ∧
      r = { n with attributes := a, children := ps } := by
  cases e with
  | addNode _ => cases he
  | removeNode _ => cases he
  | editType id modifierEdits supertypeEdits =>
    obtain ⟨_, _, _, _, ha, -, -, rfl⟩ := revise_editType_eq_ok_iff.1 hr
    exact Or.inl ⟨_, by rw [Node.kind, ha]; rfl, rfl⟩
  | editFunction id modifierEdits parameterEdits bodyEdits =>
    obtain ⟨_, _, _, _, ps, ha, -, hps, -, rfl⟩ := revise_editFunction_eq_ok_iff.1 hr
    exact Or.inr ⟨by rw [Node.kind, ha]; rfl, _, parameterEdits, ps, rfl, hps, rfl⟩
  | editVar id modifierEdits initializerEdits =>
    obtain ⟨_, _, _, _, ha, -, -, rfl⟩ := revise_editVar_eq_ok_iff.1 hr
    exact Or.inl ⟨_, by rw [Node.kind, ha]; rfl, rfl⟩

theorem id_kind_of_revise {r : Node} (he : e.isAttributeEdit = true)
    (hr : revise index n e = .ok r) : r.id = n.id ∧ r.kind = n.kind := by
  rcases revise_cases he hr with ⟨a, ha, rfl⟩ | ⟨hk, a, _, ps, ha, -, rfl⟩
  · exact ⟨rfl, ha⟩
  · exact ⟨rfl, ha.trans hk.symm⟩

theorem revises_of_revise (h : index.Consistent) (hx : index[n.id]? = some n) {r : Node}
    (he : e.isAttributeEdit = true) (hr : revise index n e = .ok r) : index.Revises n r := by
  rcases revise_cases he hr with ⟨a, ha, rfl⟩ | ⟨hk, a, edits, ps, ha, hps, rfl⟩
  · exact ⟨rfl, ha, (h.wellFormed hx).withAttributes ha, fun c hc => h.child hx hc, fun _ hm => hm⟩
  · exact revises_parameters h hx hk hps ha

theorem checkParent_eq_ok_iff (h : index.Consistent) :
    checkParent index n = .ok () ↔
      ∀ p, Id.parent? n.id = some p → ∃ m, index[p]? = some m ∧ m.kind.canContain n.kind = true := by
  rw [checkParent]
  split
  · next hp => simp [hp]
  · next p hp =>
    simp only [hp, Option.some.injEq, forall_eq']
    split
    · next hm => simp [hm]
    · next m hm =>
      simp only [hm, Option.some.injEq, exists_eq_left']
      split
      · next hc => simp [hc, h.checkAncestors_eq_ok hm]
      · next hc => simp [hc]

theorem stage_addNode_eq_ok_iff :
    stage index (.addNode n) = .ok staged ↔
      index[n.id]? = none ∧ checkParent index n = .ok () ∧ staged = insertSubtree index n := by
  rw [← NameMap.contains_eq_false_iff, stage]
  cases hc : index.contains n.id
  · simp only [Bool.false_eq_true, if_false, check_bind_eq_ok_iff, pure_eq_ok_iff, true_and]
    rw [eq_comm (a := staged)]
  · simp [bind, Except.bind, throw_eq_error]

theorem stage_removeNode_eq_ok_iff (h : index.Consistent) :
    stage index (.removeNode x) = .ok staged ↔
      (∃ n, index[x]? = some n) ∧ staged = eraseSubtree index x := by
  rw [← NameMap.contains_eq_true_iff, stage]
  cases hc : index.contains x
  · simp [bind, Except.bind, throw_eq_error]
  · obtain ⟨n, hn⟩ := (NameMap.contains_eq_true_iff index x).1 hc
    simp only [if_true, check_bind_eq_ok_iff, pure_eq_ok_iff, true_and,
      h.checkAncestors_eq_ok hn]
    rw [eq_comm]

theorem stage_attributeEdit (he : e.isAttributeEdit = true) :
    stage index e = match index[e.id]? with
      | none => .error (.nodeNotFound e.id)
      | some node => do
        let revised ← revise index node e
        checkAncestors index e.id
        return replace index revised := by
  cases e with
  | addNode _ => cases he
  | removeNode _ => cases he
  | _ => rfl

theorem stage_attributeEdit_eq_ok_iff (h : index.Consistent) (he : e.isAttributeEdit = true) :
    stage index e = .ok staged ↔
      ∃ n r, index[e.id]? = some n ∧ revise index n e = .ok r ∧ staged = replace index r := by
  rw [stage_attributeEdit he]
  cases hn : index[e.id]? with
  | none => simp
  | some n =>
    simp only [bind_eq_ok_iff, pure_eq_ok_iff, h.checkAncestors_eq_ok hn, true_and,
      Option.some.injEq]
    constructor
    · intro hex
      obtain ⟨r, hr, -, hs⟩ := hex
      exact ⟨n, r, rfl, hr, hs.symm⟩
    · intro hex
      obtain ⟨_, r, rfl, hr, hs⟩ := hex
      exact ⟨r, hr, (), hs.symm⟩

/-- What an edit that passes its checks has found, and what it writes. -/
theorem stage_cases (hs : stage index e = .ok staged) :
    (∃ n, e = .addNode n ∧ index[n.id]? = none ∧ checkParent index n = .ok () ∧
      staged = insertSubtree index n) ∨
    (∃ x n, e = .removeNode x ∧ index[x]? = some n ∧ checkAncestors index x = .ok () ∧
      staged = eraseSubtree index x) ∨
    ∃ n r, e.isAttributeEdit = true ∧ index[e.id]? = some n ∧ revise index n e = .ok r ∧
      checkAncestors index e.id = .ok () ∧ staged = replace index r := by
  by_cases he : e.isAttributeEdit = true
  · rw [stage_attributeEdit he] at hs
    split at hs
    · cases hs
    · next n hn =>
      obtain ⟨r, hr, hs⟩ := bind_eq_ok_iff.1 hs
      obtain ⟨ha, hs⟩ := check_bind_eq_ok_iff.1 hs
      exact Or.inr (Or.inr ⟨n, r, he, hn, hr, ha, (pure_eq_ok_iff.1 hs).symm⟩)
  · cases e with
    | addNode n => exact Or.inl ⟨n, rfl, stage_addNode_eq_ok_iff.1 hs⟩
    | removeNode x =>
      rw [stage] at hs
      split at hs
      · next hx =>
        obtain ⟨n, hn⟩ := (NameMap.contains_eq_true_iff index x).1 hx
        obtain ⟨ha, hs⟩ := check_bind_eq_ok_iff.1 hs
        exact Or.inr (Or.inl ⟨x, n, rfl, hn, ha, (pure_eq_ok_iff.1 hs).symm⟩)
      · cases hs
    | _ => exact absurd rfl he

/-- An attribute edit writes one entry, a revision of the one that was there. -/
theorem exists_of_stage_attributeEdit (h : index.Consistent) (he : e.isAttributeEdit = true)
    (hs : stage index e = .ok staged) :
    ∃ n r, index[e.id]? = some n ∧ revise index n e = .ok r ∧ index.Revises n r ∧
      staged = index.insert e.id r := by
  obtain ⟨n, r, hn, hr, rfl⟩ := (stage_attributeEdit_eq_ok_iff h he).1 hs
  have hrev := revises_of_revise h (h.id_eq hn ▸ hn) he hr
  refine ⟨n, r, hn, hr, hrev, ?_⟩
  rw [replace, hrev.id_eq, h.id_eq hn]

theorem consistentExcept_of_stage (h : index.Consistent) (hc : e.check = .ok ())
    (hs : stage index e = .ok staged) : staged.ConsistentExcept e.id := by
  rcases stage_cases hs with
    ⟨n, rfl, hfresh, hp, rfl⟩ | ⟨x, n, rfl, hn, -, rfl⟩ | ⟨n, r, he, hn, hr, -, rfl⟩
  · exact h.insertSubtree_except hc hfresh ((checkParent_eq_ok_iff h).1 hp)
  · exact h.eraseSubtree_except hn
  · have hx : index[n.id]? = some n := by rw [h.id_eq hn, hn]
    exact h.replace_except hn (revises_of_revise h hx he hr)

/-- On a consistent index an edit changes nothing or leads to a consistent index. -/
theorem applyTo_cases (h : index.Consistent) (hc : e.check = .ok ()) :
    (∃ error, stage index e = .error error ∧ e.applyTo index = .failed index error) ∨
    ∃ staged rebuilt, stage index e = .ok staged ∧ staged.ConsistentExcept e.id ∧
      e.applyTo index = .done rebuilt ∧ rebuilt.Consistent ∧
      staged.LabelsAfterRebuild rebuilt e.id := by
  cases hs : stage index e with
  | error error =>
    refine Or.inl ⟨error, rfl, ?_⟩
    rw [applyTo, hs]
  | ok staged =>
    have hgap := consistentExcept_of_stage h hc hs
    obtain ⟨rebuilt, hdone, hcons, hlabels⟩ := hgap.exists_rebuildAncestors
    refine Or.inr ⟨staged, rebuilt, rfl, hgap, ?_, hcons, hlabels⟩
    rw [applyTo, hs]
    exact hdone

end Edit

end SourceHistory
