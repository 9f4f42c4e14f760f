import SourceHistory.Proofs.Diff.RoundTrip

namespace SourceHistory

variable {path : String} {edits : List Edit} {version after : Option SourceUnit}

/-- Nothing, or a valid unit of the given path. -/
def SourceUnit.IsVersion (path : String) (version : Option SourceUnit) : Prop :=
  ∀ u, version = some u → u.path = path ∧ u.validate = .ok ()

theorem SourceUnit.isVersion_some {u : SourceUnit} :
    IsVersion path (some u) ↔ u.path = path ∧ u.validate = .ok () := by
  simp [IsVersion]

namespace NodeIndex

variable {index other result : NodeIndex}

/-- Edits of one unit run on any index that agrees with theirs on that unit, and they leave the
other units alone. -/
theorem AgreeOn.foldlM_advance (h : AgreeOn path index other) (hi : index.Consistent)
    (ho : other.Consistent) (hpath : ∀ e ∈ edits, e.sourcePath = path)
    (hfold : edits.foldlM advance other = .ok result) :
    ∃ final, edits.foldlM advance index = .ok final ∧ final.Consistent ∧
      AgreeOn path final result ∧ ∀ k, Id.sourcePath k ≠ path → final[k]? = index[k]? := by
  induction edits generalizing index other with
  | nil =>
    cases hfold
    exact ⟨index, rfl, hi, h, fun _ _ => rfl⟩
  | cons e edits ih =>
    obtain ⟨he, hpath⟩ := List.forall_mem_cons.1 hpath
    rw [List.foldlM_cons] at hfold
    obtain ⟨middle, hadv, hfold⟩ := bind_eq_ok_iff.1 hfold
    obtain ⟨hc, hadv⟩ := check_bind_eq_ok_iff.1 hadv
    obtain ⟨herr, hagree⟩ := Edit.applyTo_congr hi ho (he ▸ h)
    have hframe : ∀ k, Id.sourcePath k ≠ path → (e.applyTo index).state[k]? = index[k]? :=
      fun k hk => Edit.getElem?_applyTo_of_sourcePath_ne hi.toSound hc (he ▸ hk)
    rcases Edit.applyTo_cases ho hc with ⟨error, -, hfail⟩ | ⟨-, _, -, -, hdone, hmiddle, -⟩
    · rw [hfail] at hadv
      cases hadv
    · rw [hdone] at hadv herr hagree
      cases hadv
      rcases Edit.applyTo_cases hi hc with ⟨error, -, hfail⟩ | ⟨-, next, -, -, hdone', hnext, -⟩
      · rw [hfail] at herr
        cases herr
      · rw [hdone'] at hagree hframe
        have hstep : advance index e = .ok next := by
          rw [advance, hc, hdone']
          rfl
        obtain ⟨final, hfinal, hcons, hsame, hrest⟩ := ih (he ▸ hagree) hnext hmiddle hpath hfold
        refine ⟨final, (foldlM_cons_of_ok hstep).trans hfinal, hcons, hsame, fun k hk => ?_⟩
        rw [hrest k hk]
        exact hframe k hk

theorem consistent_ofVersion (hv : SourceUnit.IsVersion path version) :
    (ofUnits version.toList).Consistent := by
  apply consistent_ofUnits
  · intro u hu
    exact (hv u (Option.mem_toList.1 hu)).2
  · cases version <;> simp

theorem getElem?_ofVersion (hv : SourceUnit.IsVersion path version) {q : String}
    (hq : Id.parent? q = none) :
    (ofUnits version.toList)[q]? = if path = q then version.map SourceUnit.toNode else none := by
  cases version with
  | none => simp [ofUnits]
  | some u =>
    obtain ⟨rfl, hu⟩ := hv u rfl
    rw [Option.toList_some, ofUnits, List.foldl_cons, List.foldl_nil,
      getElem?_insertSubtree_unit hu hq]
    simp

theorem sourcePath_of_ofVersion (hv : SourceUnit.IsVersion path version) {k : String} {n : Node}
    (hk : (ofUnits version.toList)[k]? = some n) : Id.sourcePath k = path := by
  obtain ⟨r, hr, -⟩ := (consistent_ofVersion hv).getElem?_eq_some_iff.1 hk
  rw [getElem?_ofVersion hv (Id.parent?_sourcePath k)] at hr
  split at hr
  · next he => exact he.symm
  · cases hr

/-- Consistent indexes with the same entry at a path agree on its whole unit. -/
theorem AgreeOn.of_path (hi : index.Consistent) (ho : other.Consistent)
    (h : index[path]? = other[path]?) : AgreeOn path index other := by
  intro k hk
  apply Option.ext
  intro n
  rw [hi.getElem?_eq_some_iff, ho.getElem?_eq_some_iff, hk, h]

end NodeIndex

namespace Snapshot

variable {s : Snapshot}

theorem Coherent.isVersion (h : s.Coherent) (path : String) :
    SourceUnit.IsVersion path s.units[path]? := fun u hu => h.keyed path u hu

/-- A snapshot has of each unit what the index of the unit alone has. -/
theorem Coherent.agreeOn_ofVersion (h : s.Coherent) (hp : Id.parent? path = none) :
    NodeIndex.AgreeOn path s.index (NodeIndex.ofUnits s.units[path]?.toList) := by
  have hversion := h.isVersion path
  apply NodeIndex.AgreeOn.of_path h.index (NodeIndex.consistent_ofVersion hversion)
  rw [h.index_path hp, NodeIndex.getElem?_ofVersion hversion hp, if_pos rfl]

/-- The difference to another version of one unit turns a snapshot into the one with that
version. -/
theorem Coherent.exists_diffUnit (h : s.Coherent) (hp : Id.parent? path = none)
    (hafter : SourceUnit.IsVersion path after) :
    ∃ edits, diffUnit s.units[path]? after = .ok edits ∧ (∀ e ∈ edits, e.check = .ok ()) ∧
      s.replay edits = .ok (s.restoreUnit path after) := by
  have hbefore := h.isVersion path
  have hcons := NodeIndex.consistent_ofVersion hbefore
  obtain ⟨edits, hdiff, hfold, hids⟩ :=
    NodeIndex.exists_diff hcons (NodeIndex.consistent_ofVersion hafter)
  have hpath : ∀ e ∈ edits, e.sourcePath = path := by
    intro e he
    rcases hids e he with ⟨n, hn⟩ | ⟨n, hn⟩
    · exact NodeIndex.sourcePath_of_ofVersion hbefore hn
    · exact NodeIndex.sourcePath_of_ofVersion hafter hn
  obtain ⟨final, hfinal, hfcons, hsame, hrest⟩ :=
    (h.agreeOn_ofVersion hp).foldlM_advance h.index hcons hpath hfold
  have ht := h.restoreUnit hp hafter
  have hindex : final = (s.restoreUnit path after).index := by
    apply hfcons.ext_units ht.index
    intro q hq
    rw [ht.index_path hq, units_restoreUnit]
    split
    · next he =>
      rw [← he, hsame path (Id.sourcePath_of_parent?_none hp), NodeIndex.getElem?_ofVersion hafter hp,
        if_pos rfl]
    · next he =>
      rw [hrest q (by rw [Id.sourcePath_of_parent?_none hq]; exact Ne.symm he), h.index_path hq]
  rw [hindex] at hfinal
  exact ⟨edits, hdiff, NodeIndex.check_of_foldlM_advance hfinal, h.replay_of_advance ht hfinal⟩

/-- The differences of several units, one after the other, on any snapshot that still has the old
versions there. -/
theorem Coherent.exists_replay_diffUnits {t : Snapshot} (ht : t.Coherent) {paths : List String}
    {find : String → Except Error (List Edit)} {Q : String → Option SourceUnit → Prop}
    {lists : List (List Edit)} (hnd : paths.Nodup) (hp : ∀ path ∈ paths, Id.parent? path = none)
    (hsame : ∀ path ∈ paths, t.units[path]? = s.units[path]?)
    (hfind : ∀ path ∈ paths, ∀ edits, find path = .ok edits → ∃ version, Q path version ∧
      SourceUnit.IsVersion path version ∧ diffUnit s.units[path]? version = .ok edits)
    (hmap : paths.mapM find = .ok lists) :
    ∃ final, t.replay lists.flatten = .ok final ∧ (∀ e ∈ lists.flatten, e.check = .ok ()) ∧
      final.Coherent ∧ (∀ path ∈ paths, Q path final.units[path]?) ∧
      ∀ path, path ∉ paths → final.units[path]? = t.units[path]? := by
  induction paths generalizing t lists with
  | nil =>
    cases hmap
    exact ⟨t, rfl, nofun, ht, nofun, fun _ _ => rfl⟩
  | cons path paths ih =>
    obtain ⟨hnew, hnd⟩ := List.nodup_cons.1 hnd
    obtain ⟨hpath, hp⟩ := List.forall_mem_cons.1 hp
    obtain ⟨hunit, hsame⟩ := List.forall_mem_cons.1 hsame
    obtain ⟨hfind, hfinds⟩ := List.forall_mem_cons.1 hfind
    rw [List.mapM_cons] at hmap
    obtain ⟨first, hfirst, hmap⟩ := bind_eq_ok_iff.1 hmap
    obtain ⟨rest, hrest, hmap⟩ := bind_eq_ok_iff.1 hmap
    obtain rfl := pure_eq_ok_iff.1 hmap
    obtain ⟨version, hq, hversion, hdiff⟩ := hfind first hfirst
    rw [← hunit] at hdiff
    obtain ⟨found, hfound, hcheck, hreplay⟩ := ht.exists_diffUnit hpath hversion
    rw [hdiff, Except.ok.injEq] at hfound
    subst hfound
    have hsame' : ∀ q ∈ paths, (t.restoreUnit path version).units[q]? = s.units[q]? := by
      intro q hq
      have hne : path ≠ q := fun he => hnew (he ▸ hq)
      rw [units_restoreUnit, if_neg hne, hsame q hq]
    obtain ⟨final, hfinal, hchecks, hcoh, hqs, hkeep⟩ :=
      ih (ht.restoreUnit hpath hversion) hnd hp hsame' hfinds hrest
    have hthis : final.units[path]? = version := by
      rw [hkeep path hnew, units_restoreUnit, if_pos rfl]
    refine ⟨final, (foldlM_append_of_ok hreplay).trans hfinal, ?_, hcoh,
      List.forall_mem_cons.2 ⟨hthis ▸ hq, hqs⟩, fun q hq => ?_⟩
    · intro e he
      rcases List.mem_append.1 he with he | he
      · exact hcheck e he
      · exact hchecks e he
    · obtain ⟨hne, hq⟩ := not_or.1 (mt List.mem_cons.2 hq)
      rw [hkeep q hq, units_restoreUnit, if_neg (Ne.symm hne)]

end Snapshot

end SourceHistory
