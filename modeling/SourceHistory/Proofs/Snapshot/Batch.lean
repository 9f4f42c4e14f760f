import SourceHistory.Proofs.Snapshot.Coherent

namespace SourceHistory.Snapshot

variable {s t origin : Snapshot} {u : SourceUnit} {path : String} {e : Edit} {edits : List Edit}
  {saved : NameMap (Option SourceUnit)} {version : Option SourceUnit}

/-- Applies edits one after the other; the first error ends it. -/
def replay (s : Snapshot) (edits : List Edit) : Except Error Snapshot :=
  edits.foldlM (fun s e => (s.apply e).toExcept) s

theorem units_restoreUnit (k : String) :
    (s.restoreUnit path version).units[k]? = if path = k then version else s.units[k]? := by
  cases version with
  | some u => exact NameMap.getElem?_insert s.units path u k
  | none => exact NameMap.getElem?_erase s.units path k

theorem Coherent.restoreUnit (h : s.Coherent) (hp : Id.parent? path = none)
    (hv : ∀ u, version = some u → u.path = path ∧ u.validate = .ok ()) :
    (s.restoreUnit path version).Coherent := by
  have hcleared := h.index.eraseUnit hp
  have hgone : (NodeIndex.eraseSubtree s.index path)[path]? = none := by
    rw [h.index.getElem?_eraseSubtree, if_pos (Id.Within.refl path)]
  have hother : ∀ k : String, Id.parent? k = none → path ≠ k →
      (NodeIndex.eraseSubtree s.index path)[k]? = s.index[k]? := by
    intro k hk hne
    rw [h.index.getElem?_eraseSubtree, if_neg]
    rwa [Id.within_iff_of_parent?_none hk]
  cases version with
  | none =>
    refine ⟨hcleared, fun k => ?_⟩
    rw [units_restoreUnit]
    change _ = ((NodeIndex.eraseSubtree s.index path)[k]?).bind SourceUnit.ofNode?
    split
    · next hk => rw [← hk, hgone, Option.bind_none]
    · next hk =>
      rw [h.units]
      exact h.index.unit_congr hcleared fun hpk => (hother k hpk hk).symm
  | some u =>
    obtain ⟨rfl, hu⟩ := hv u rfl
    have hcons := hcleared.insertUnit hu hgone
    refine ⟨hcons, fun k => ?_⟩
    rw [units_restoreUnit]
    change _ = ((NodeIndex.insertSubtree (NodeIndex.eraseSubtree s.index u.path) u.toNode)[k]?).bind
      SourceUnit.ofNode?
    split
    · next hk =>
      rw [← hk, NodeIndex.getElem?_insertSubtree_unit hu hp, if_pos rfl, Option.bind_some,
        SourceUnit.ofNode?_toNode]
    · next hk =>
      rw [h.units]
      refine h.index.unit_congr hcons fun hpk => ?_
      rw [NodeIndex.getElem?_insertSubtree_unit hu hpk, if_neg hk, hother k hpk hk]

/-- Putting back versions of `origin` gives `origin` if nothing else differs from it. -/
theorem Coherent.foldl_restoreUnit {entries : List (String × Option SourceUnit)} (h : s.Coherent)
    (ho : origin.Coherent)
    (hl : ∀ entry ∈ entries, Id.parent? entry.1 = none ∧ origin.units[entry.1]? = entry.2)
    (hrest : ∀ k : String, k ∉ entries.map Prod.fst → s.units[k]? = origin.units[k]?) :
    entries.foldl (fun s entry => s.restoreUnit entry.1 entry.2) s = origin := by
  induction entries generalizing s with
  | nil =>
    apply h.ext_units ho
    apply Std.ExtTreeMap.ext_getElem?
    intro k
    exact hrest k List.not_mem_nil
  | cons entry entries ih =>
    obtain ⟨path, version⟩ := entry
    obtain ⟨⟨hp, hv⟩, hl⟩ := List.forall_mem_cons.1 hl
    change Id.parent? path = none at hp
    change origin.units[path]? = version at hv
    rw [List.foldl_cons]
    refine ih (h.restoreUnit hp fun u hu => ho.keyed path u (hv.trans hu)) hl fun k hk => ?_
    rw [units_restoreUnit]
    split
    · next he => rw [← he, hv]
    · next he =>
      apply hrest
      rw [List.map_cons, List.mem_cons, not_or]
      exact ⟨Ne.symm he, hk⟩

/-- `saved` holds versions of `origin`, and where it holds none, `s` is still as `origin`; so
putting them back undoes whatever was applied. -/
structure Remembers (saved : NameMap (Option SourceUnit)) (origin s : Snapshot) : Prop where
  path : ∀ {k : String} {version : Option SourceUnit}, saved[k]? = some version →
    Id.parent? k = none
  version : ∀ {k : String} {version : Option SourceUnit}, saved[k]? = some version →
    origin.units[k]? = version
  rest : ∀ {k : String}, saved[k]? = none → s.units[k]? = origin.units[k]?

theorem remembers_empty (s : Snapshot) : Remembers ∅ s s where
  path hk := by simp at hk
  version hk := by simp at hk
  rest _ := rfl

theorem Remembers.restore (hr : Remembers saved origin s) (h : s.Coherent) (ho : origin.Coherent) :
    s.restore saved = origin := by
  rw [Snapshot.restore]
  apply h.foldl_restoreUnit ho
  · rintro ⟨k, version⟩ hm
    have hk := Std.ExtTreeMap.mem_toList_iff_getElem?_eq_some.1 hm
    exact ⟨hr.path hk, hr.version hk⟩
  · intro k hk
    apply hr.rest
    rw [Std.ExtTreeMap.map_fst_toList_eq_keys, NameMap.mem_keys_iff] at hk
    cases hs : saved[k]? with
    | none => rfl
    | some version => exact absurd ⟨version, hs⟩ hk

/-- Remembering a unit before it is touched makes room for any change of it. -/
theorem Remembers.touch (hr : Remembers saved origin s) (hp : Id.parent? path = none)
    (ht : ∀ k, k ≠ path → t.units[k]? = s.units[k]?) :
    Remembers (saved.insertIfNew path s.units[path]?) origin t := by
  have hlook (k : String) : (saved.insertIfNew path s.units[path]?)[k]? =
      if path = k ∧ saved[path]? = none then some s.units[path]? else saved[k]? :=
    NameMap.getElem?_insertIfNew ..
  refine ⟨?_, ?_, ?_⟩
  · intro k version hk
    rw [hlook] at hk
    split at hk
    · next hc => exact hc.1 ▸ hp
    · exact hr.path hk
  · intro k version hk
    rw [hlook] at hk
    split at hk
    · next hc =>
      obtain ⟨rfl, hnew⟩ := hc
      rw [← hr.rest hnew, Option.some.inj hk]
    · exact hr.version hk
  · intro k hk
    rw [hlook] at hk
    split at hk
    · cases hk
    · next hc =>
      have hne : k ≠ path := fun he => hc ⟨he.symm, he ▸ hk⟩
      rw [ht k hne, hr.rest hk]

theorem Coherent.units_apply_of_ne (h : s.Coherent) (hc : e.check = .ok ()) {k : String}
    (hk : k ≠ e.sourcePath) : (s.apply e).state.units[k]? = s.units[k]? := by
  rcases h.apply_cases hc with ⟨error, -, hfail⟩ | ⟨t, hdone, happly, ht⟩
  · rw [hfail, Attempt.state_failed]
  · rw [happly, Attempt.state_done, h.units, ht.units,
      unit_applyTo_of_ne h.index hc hdone ht.index hk]

theorem replay_cons_of_done (h : s.apply e = .done t) : s.replay (e :: edits) = t.replay edits := by
  apply foldlM_cons_of_ok
  rw [h, Attempt.toExcept_done]

theorem replay_cons_of_failed {error : Error} (h : s.apply e = .failed t error) :
    s.replay (e :: edits) = .error error := by
  rw [replay, List.foldlM_cons, h]
  rfl

/-- A replay that fails does so at one edit, after the edits before it went through. -/
theorem exists_of_replay_eq_error {error : Error} (h : s.replay edits = .error error) :
    ∃ before e after t, edits = before ++ e :: after ∧ s.replay before = .ok t ∧
      (t.apply e).error? = some error := by
  induction edits generalizing s with
  | nil => cases h
  | cons e edits ih =>
    cases he : (s.apply e).error? with
    | some error' =>
      have hfail : s.apply e = .failed (s.apply e).state error' := by rw [Attempt.failed, ← he]
      rw [replay_cons_of_failed hfail] at h
      cases h
      exact ⟨[], e, edits, s, rfl, rfl, he⟩
    | none =>
      have hdone : s.apply e = .done (s.apply e).state := by rw [Attempt.done, ← he]
      rw [replay_cons_of_done hdone] at h
      obtain ⟨before, e', after, t, rfl, hbefore, herr⟩ := ih h
      refine ⟨e :: before, e', after, t, rfl, ?_, herr⟩
      rw [replay_cons_of_done hdone, hbefore]

theorem Coherent.applySaving_eq (h : s.Coherent) (ho : origin.Coherent)
    (hr : Remembers saved origin s) (hc : ∀ e ∈ edits, e.check = .ok ()) :
    applySaving saved s edits =
      match s.replay edits with
      | .ok t => .done t
      | .error error => .failed origin error := by
  induction edits generalizing s saved with
  | nil => rfl
  | cons e edits ih =>
    obtain ⟨he, hc⟩ := List.forall_mem_cons.1 hc
    have htouch : Remembers (saved.insertIfNew e.sourcePath s.units[e.sourcePath]?) origin
        (s.apply e).state :=
      hr.touch (Id.parent?_sourcePath e.id) fun k hk => h.units_apply_of_ne he hk
    rcases h.apply_cases he with ⟨error, -, hfail⟩ | ⟨t, -, happly, ht⟩
    · rw [replay_cons_of_failed hfail]
      rw [hfail, Attempt.state_failed] at htouch
      simp only [applySaving, hfail, Attempt.error?_failed, Attempt.state_failed]
      rw [htouch.restore h ho]
    · rw [replay_cons_of_done happly]
      rw [happly, Attempt.state_done] at htouch
      simp only [applySaving, happly, Attempt.error?_done, Attempt.state_done]
      exact ih ht htouch hc

theorem Coherent.applyAll_eq (h : s.Coherent) (hc : ∀ e ∈ edits, e.check = .ok ()) :
    s.applyAll edits =
      match s.replay edits with
      | .ok t => .done t
      | .error error => .failed s error :=
  h.applySaving_eq h (remembers_empty s) hc

theorem Coherent.replay (h : s.Coherent) (hc : ∀ e ∈ edits, e.check = .ok ())
    (hr : s.replay edits = .ok t) : t.Coherent := by
  induction edits generalizing s with
  | nil =>
    cases hr
    exact h
  | cons e edits ih =>
    obtain ⟨he, hc⟩ := List.forall_mem_cons.1 hc
    rcases h.apply_cases he with ⟨error, -, hfail⟩ | ⟨t', -, happly, ht⟩
    · rw [replay_cons_of_failed hfail] at hr
      cases hr
    · rw [replay_cons_of_done happly] at hr
      exact ih ht hc hr

theorem Coherent.applyAll (h : s.Coherent) (hc : ∀ e ∈ edits, e.check = .ok ()) :
    (s.applyAll edits).state.Coherent := by
  rw [h.applyAll_eq hc]
  split
  · next t ht => exact h.replay hc ht
  · exact h

/-- A batch that goes through is a replay. -/
theorem Coherent.replay_of_applyAll (h : s.Coherent) (hc : ∀ e ∈ edits, e.check = .ok ())
    (hdone : s.applyAll edits = .done t) : s.replay edits = .ok t := by
  rw [h.applyAll_eq hc] at hdone
  split at hdone
  · next t' ht =>
    have hstate : t' = t := congrArg Attempt.state hdone
    rw [ht, hstate]
  · cases congrArg Attempt.error? hdone

end SourceHistory.Snapshot
