import SourceHistory.Proofs.Edit.Locality
import SourceHistory.Proofs.NodeIndex.Operations

namespace SourceHistory

open SourceHistory.Id (Within)

variable {index staged : NodeIndex} {x p k : String} {n m : Node} {e : Edit} {error : Error}

namespace NodeIndex

theorem kindAt_insert_withCurrent (hm : index[p]? = some m) (x k : String) :
    kindAt (index.insert p (index.withCurrent m x)) k = index.kindAt k := by
  by_cases hk : k = p
  · rw [hk, kindAt, NameMap.getElem?_insert, if_pos rfl, kindAt_of_getElem? hm]
    rfl
  · exact kindAt_congr (NameMap.getElem?_insert_of_ne _ _ hk)

/-- One round of a rebuild stops at a child that does not fit, or is done with it. -/
theorem rebuildAncestors_cases (hp : Id.parent? x = some p) (hm : index[p]? = some m) :
    (∃ c, index[x]? = some c ∧ m.kind.canContain c.kind = false ∧
      rebuildAncestors index x = .failed index (.invalidParent c.id m.id m.kind c.kind)) ∨
    rebuildAncestors index x = rebuildAncestors (index.insert p (index.withCurrent m x)) p := by
  cases hx : index[x]? with
  | none => exact Or.inr (rebuildAncestors_of_parent?_some hp hm (by simp [hx]))
  | some c =>
    cases hfit : m.kind.canContain c.kind with
    | true => exact Or.inr (rebuildAncestors_of_parent?_some hp hm (by simp [hx, hfit]))
    | false =>
      refine Or.inl ⟨c, rfl, hfit, ?_⟩
      rw [rebuildAncestors, Id.ancestors_of_parent?_some hp, rebuildChain, hm]
      simp [Node.setChild, hx, hfit]

/-- A rebuild that finds every ancestor stops only where the kinds of `index` do not fit, since no
kind changes on the way up. -/
theorem exists_misfit_of_rebuildAncestors
    (hid : ∀ (k : String) (n : Node), index[k]? = some n → n.id = k)
    (ha : ∀ a ∈ Id.ancestors x, ∃ n, index[a]? = some n)
    (herr : (rebuildAncestors index x).error? = some error) :
    ∃ c p kind parentKind, Within x c ∧ Id.parent? c = some p ∧ index.kindAt c = some kind ∧
      index.kindAt p = some parentKind ∧ parentKind.canContain kind = false ∧
      error = .invalidParent c p parentKind kind := by
  induction x using Id.parent_induction generalizing index with
  | unit x hp =>
    rw [rebuildAncestors_of_parent?_none hp] at herr
    cases herr
  | entity x p hp ih =>
    rw [Id.ancestors_of_parent?_some hp, List.forall_mem_cons] at ha
    obtain ⟨⟨m, hm⟩, ha⟩ := ha
    rcases rebuildAncestors_cases hp hm with ⟨c, hc, hfit, hstop⟩ | hnext
    · rw [hstop, Attempt.error?_failed, Option.some.injEq, hid x c hc, hid p m hm] at herr
      exact ⟨x, p, c.kind, m.kind, Within.refl x, hp, kindAt_of_getElem? hc, kindAt_of_getElem? hm,
        hfit, herr.symm⟩
    · have hid' : ∀ (k : String) (n : Node),
          (index.insert p (index.withCurrent m x))[k]? = some n → n.id = k := by
        intro k n hk
        rw [NameMap.getElem?_insert] at hk
        split at hk
        · next hpk =>
          rw [← Option.some.inj hk, ← hpk]
          exact hid p m hm
        · exact hid k n hk
      have ha' : ∀ a ∈ Id.ancestors p,
          ∃ n, (index.insert p (index.withCurrent m x))[a]? = some n := by
        intro a hmem
        rw [← NameMap.contains_eq_true_iff, NameMap.contains_insert_of_some _ hm,
          NameMap.contains_eq_true_iff]
        exact ha a hmem
      obtain ⟨c, q, kind, parentKind, hw, hq, hkind, hparent, hfit, he⟩ :=
        ih hid' ha' (hnext ▸ herr)
      rw [kindAt_insert_withCurrent hm] at hkind hparent
      exact ⟨c, q, kind, parentKind, (Within.of_parent? hp).trans hw, hq, hkind, hparent, hfit, he⟩

end NodeIndex

namespace Edit

open NodeIndex

theorem exists_of_checkParent (h : checkParent index n = .ok ()) :
    ∀ a ∈ Id.ancestors n.id, ∃ m, index[a]? = some m := by
  cases hp : Id.parent? n.id with
  | none => simp [Id.ancestors_of_parent?_none hp]
  | some p =>
    rw [checkParent] at h
    simp only [hp] at h
    split at h
    · cases h
    · next m hm =>
      split at h
      · rw [Id.ancestors_of_parent?_some hp, List.forall_mem_cons]
        exact ⟨⟨m, hm⟩, checkChain_eq_ok_iff.1 h⟩
      · cases h

/-- No edit is written that lacks an ancestor. -/
theorem exists_of_stage (hs : stage index e = .ok staged) :
    ∀ a ∈ Id.ancestors e.id, ∃ n, index[a]? = some n := by
  rcases stage_cases hs with ⟨n, rfl, -, hp, -⟩ | ⟨x, n, rfl, -, ha, -⟩ | ⟨n, r, -, -, -, ha, -⟩
  · exact exists_of_checkParent hp
  · exact checkChain_eq_ok_iff.1 ha
  · exact checkChain_eq_ok_iff.1 ha

def targetKind? (index : NodeIndex) : Edit → Option Kind
  | addNode node => some node.kind
  | edit => index.kindAt edit.id

theorem kindAt_stage (h : index.Sound) (hc : e.check = .ok ()) (hs : stage index e = .ok staged)
    {kind : Kind} (hk : staged.kindAt e.id = some kind) : e.targetKind? index = some kind := by
  rcases stage_cases hs with ⟨n, rfl, -, -, rfl⟩ | ⟨x, n, rfl, -, -, rfl⟩ | ⟨n, r, he, hn, hr, -, rfl⟩
  · have hnew : (insertSubtree index n)[n.id]? = some n :=
      getElem?_insertSubtree_of_mem hc (Node.self_mem_preorder n)
    exact (kindAt_of_getElem? hnew).symm.trans hk
  · obtain ⟨m, hm, rfl⟩ := Option.map_eq_some_iff.1 hk
    exact kindAt_of_getElem? (getElem?_of_getElem?_eraseAll hm)
  · obtain ⟨hid, hkind⟩ := id_kind_of_revise he hr
    have htarget : e.targetKind? index = some n.kind := by
      rw [← kindAt_of_getElem? hn]
      cases e with
      | addNode _ => cases he
      | _ => rfl
    rw [kindAt, replace, hid, h.id_eq hn, NameMap.getElem?_insert, if_pos rfl] at hk
    rw [htarget, ← hkind]
    exact hk

/-- An edit fails at a check, with nothing written, or after its write at a child that, by the kinds
before the edit, cannot stand where it does. -/
theorem applyTo_eq_failed (h : index.Valid) (hc : e.check = .ok ())
    (herr : (e.applyTo index).error? = some error) :
    (stage index e = .error error ∧ (e.applyTo index).state = index) ∨
    ∃ c p kind parentKind, Id.parent? c = some p ∧
      (c = e.id ∧ e.targetKind? index = some kind ∨
        c ∈ Id.ancestors e.id ∧ index.kindAt c = some kind) ∧
      index.kindAt p = some parentKind ∧ parentKind.canContain kind = false ∧
      error = .invalidParent c p parentKind kind := by
  rw [applyTo] at herr ⊢
  cases hs : stage index e with
  | error error' =>
    rw [hs] at herr
    cases herr
    exact Or.inl ⟨rfl, rfl⟩
  | ok staged =>
    rw [hs] at herr
    have hsame : ∀ a ∈ Id.ancestors e.id, staged[a]? = index[a]? := fun a ha =>
      getElem?_stage_of_not_within h.sound hc hs (Id.not_within_of_mem_ancestors ha)
    have hanc : ∀ a ∈ Id.ancestors e.id, ∃ n, staged[a]? = some n := by
      intro a ha
      rw [hsame a ha]
      exact exists_of_stage hs a ha
    obtain ⟨c, p, kind, parentKind, hw, hp, hkind, hparent, hfit, he⟩ :=
      exists_misfit_of_rebuildAncestors (fun _ _ hk => (h.stage hc hs).id_eq hk) hanc herr
    refine Or.inr ⟨c, p, kind, parentKind, hp, ?_, ?_, hfit, he⟩
    · rcases hw with rfl | hmem
      · exact Or.inl ⟨rfl, kindAt_stage h.sound hc hs hkind⟩
      · exact Or.inr ⟨hmem, kindAt_congr (hsame c hmem) ▸ hkind⟩
    · have hpmem : p ∈ Id.ancestors e.id := by
        refine (hw.trans (Within.of_parent? hp)).resolve_left fun hpe => ?_
        exact Id.not_within_of_parent? hp (hpe ▸ hw)
      exact kindAt_congr (hsame p hpmem) ▸ hparent

/-- Whatever index operations have left behind, an edit that fails with anything but a misfit of
kinds has written nothing; and where the node fits its parent and every ancestor fits the one above
it, an edit that was written goes through. -/
theorem failed_edit_writes_nothing (h : index.Reached) (hc : e.check = .ok ()) :
    (∀ error, (e.applyTo index).error? = some error →
      (∀ id parentId parentKind kind, error ≠ .invalidParent id parentId parentKind kind) →
      (e.applyTo index).state = index) ∧
    ((∀ c ∈ Id.ancestors e.id, ∀ p kind parentKind, Id.parent? c = some p →
        index.kindAt c = some kind → index.kindAt p = some parentKind →
        parentKind.canContain kind = true) →
      (∀ p kind parentKind, Id.parent? e.id = some p → e.targetKind? index = some kind →
        index.kindAt p = some parentKind → parentKind.canContain kind = true) →
      (∀ staged, stage index e = .ok staged → (e.applyTo index).succeeded = true) ∧
      ∀ error, (e.applyTo index).error? = some error → (e.applyTo index).state = index) := by
  constructor
  · intro error herr hne
    rcases applyTo_eq_failed h.valid hc herr with ⟨-, hstate⟩ | ⟨c, p, kind, parentKind, hex⟩
    · exact hstate
    · obtain ⟨-, -, -, -, he⟩ := hex
      exact absurd he (hne c p parentKind kind)
  · intro hancestors htarget
    have hcheck : ∀ error, (e.applyTo index).error? = some error →
        stage index e = .error error ∧ (e.applyTo index).state = index := by
      intro error herr
      rcases applyTo_eq_failed h.valid hc herr with hstage | ⟨c, p, kind, parentKind, hex⟩
      · exact hstage
      · obtain ⟨hp, hkind, hparent, hfit, -⟩ := hex
        have hfits : parentKind.canContain kind = true := by
          rcases hkind with ⟨rfl, hkind⟩ | ⟨hmem, hkind⟩
          · exact htarget p kind parentKind hp hkind hparent
          · exact hancestors c hmem p kind parentKind hp hkind hparent
        rw [hfits] at hfit
        cases hfit
    refine ⟨fun staged hs => ?_, fun error herr => (hcheck error herr).2⟩
    rw [Attempt.succeeded, Option.isNone_iff_eq_none, Option.eq_none_iff_forall_not_mem]
    intro error herr
    rw [(hcheck error herr).1] at hs
    cases hs

/-- A member without its type, and a type that does not list its member. -/
theorem failed_edit_writes_nothing_of_member :
    let type : Node := ⟨"a:T", .type ∅ ∅, []⟩
    let member : Node := ⟨"a:T:x", .var ∅ [], []⟩
    let orphan := insertSubtree ∅ member
    let unlisted := insertSubtree (insertSubtree ∅ ⟨"a", .unit, [type]⟩) member
    let edit := Edit.editVar "a:T:x" [] [.add 0 "1"]
    (edit.applyTo orphan).error? = some (.parentNotFound "a:T:x" "a:T") ∧
      (edit.applyTo orphan).state = orphan ∧ (edit.applyTo unlisted).succeeded = true := by
  intro type member orphan unlisted edit
  have hmember : member.Constructed := Node.constructed_iff.2 (by decide +kernel)
  have hunit : Node.Constructed ⟨"a", .unit, [type]⟩ := Node.constructed_iff.2 (by decide +kernel)
  have horphan : orphan.Reached := .insertSubtree .empty hmember
  have hunlisted : unlisted.Reached := .insertSubtree (.insertSubtree .empty hunit) hmember
  have hcheck : edit.check = .ok () := by decide +kernel
  have herror : (edit.applyTo orphan).error? = some (.parentNotFound "a:T:x" "a:T") := by
    decide +kernel
  have hstaged : (stage unlisted edit).toOption.isSome = true := by decide +kernel
  obtain ⟨staged, hstaged⟩ := Option.isSome_iff_exists.1 hstaged
  have hunitKind : unlisted.kindAt "a" = some .unit := by decide +kernel
  have htypeKind : unlisted.kindAt "a:T" = some .type := by decide +kernel
  have htargetKind : edit.targetKind? unlisted = some .var := by decide +kernel
  have hparent : Id.parent? edit.id = some "a:T" := by decide +kernel
  have hunitParent : Id.parent? "a:T" = some "a" := by decide +kernel
  have hnone : Id.parent? "a" = none := by decide +kernel
  refine ⟨herror, (failed_edit_writes_nothing horphan hcheck).1 _ herror nofun, ?_⟩
  refine ((failed_edit_writes_nothing hunlisted hcheck).2 ?_ ?_).1 staged
    (toOption_eq_some_iff.1 hstaged)
  · intro c hc p kind parentKind hp hkind hparentKind
    rw [Id.ancestors_of_parent?_some hparent, Id.ancestors_of_parent?_some hunitParent,
      Id.ancestors_of_parent?_none hnone] at hc
    rcases List.mem_pair.1 hc with rfl | rfl
    · cases hunitParent.symm.trans hp
      cases htypeKind.symm.trans hkind
      cases hunitKind.symm.trans hparentKind
      rfl
    · cases hnone.symm.trans hp
  · intro p kind parentKind hp hkind hparentKind
    cases hparent.symm.trans hp
    cases htargetKind.symm.trans hkind
    cases htypeKind.symm.trans hparentKind
    rfl

end Edit

end SourceHistory
