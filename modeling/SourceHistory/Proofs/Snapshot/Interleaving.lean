import SourceHistory.Proofs.Diff.Unit

namespace SourceHistory

/-- `merged` consists of the elements of two lists, those of each list in their order. -/
inductive Interleaves {α : Type} : (left right merged : List α) → Prop where
  | nil : Interleaves [] [] []
  | left {a : α} {as bs merged : List α} :
    Interleaves as bs merged → Interleaves (a :: as) bs (a :: merged)
  | right {b : α} {as bs merged : List α} :
    Interleaves as bs merged → Interleaves as (b :: bs) (b :: merged)

theorem interleaves_append {α : Type} (as bs : List α) : Interleaves as bs (as ++ bs) := by
  induction as with
  | nil =>
    induction bs with
    | nil => exact .nil
    | cons b bs ih => exact .right ih
  | cons a as ih => exact .left ih

theorem Interleaves.mem_or_mem {α : Type} {as bs merged : List α} (h : Interleaves as bs merged)
    {x : α} (hx : x ∈ merged) : x ∈ as ∨ x ∈ bs := by
  induction h with
  | nil => exact Or.inl hx
  | left _ ih => grind
  | right _ ih => grind

namespace Snapshot

variable {s s' t left left' right right' : Snapshot} {e : Edit} {E F G : List Edit}
  {mine : String → Prop}

/-- Snapshots with the same version of a unit take an edit of it the same way. -/
theorem Coherent.apply_congr (hs : s.Coherent) (ht : t.Coherent) (hc : e.check = .ok ())
    (hunit : s.units[e.sourcePath]? = t.units[e.sourcePath]?) :
    (s.apply e).error? = (t.apply e).error? ∧
      (s.apply e).state.units[e.sourcePath]? = (t.apply e).state.units[e.sourcePath]? := by
  have hp : Id.parent? e.sourcePath = none := Id.parent?_sourcePath e.id
  have hagree : NodeIndex.AgreeOn e.sourcePath s.index t.index := by
    apply NodeIndex.AgreeOn.of_path hs.index ht.index
    rw [hs.index_path hp, ht.index_path hp, hunit]
  obtain ⟨herr, hstate⟩ := Edit.applyTo_congr hs.index ht.index hagree
  rcases hs.apply_cases hc with ⟨error, hfail, happly⟩ | ⟨s', hdone, happly, hs'⟩
  · rcases ht.apply_cases hc with ⟨error', hfail', happly'⟩ | ⟨t', hdone', -, -⟩
    · rw [hfail, hfail'] at herr
      rw [happly, happly']
      exact ⟨herr, hunit⟩
    · rw [hfail, hdone'] at herr
      cases herr
  · rcases ht.apply_cases hc with ⟨error', hfail', -⟩ | ⟨t', hdone', happly', ht'⟩
    · rw [hdone, hfail'] at herr
      cases herr
    · rw [hdone, hdone'] at hstate
      have hindex : s'.index[e.sourcePath]? = t'.index[e.sourcePath]? :=
        hstate e.sourcePath (Id.sourcePath_of_parent?_none hp)
      rw [happly, happly']
      exact ⟨rfl, by rw [Attempt.state_done, Attempt.state_done, hs'.units, ht'.units, hindex]⟩

/-- `s` has the units of `left` at the paths that are `mine`, and those of `right` elsewhere. -/
structure Joins (mine : String → Prop) (left right s : Snapshot) : Prop where
  left : ∀ path : String, mine path → s.units[path]? = left.units[path]?
  right : ∀ path : String, ¬ mine path → s.units[path]? = right.units[path]?

theorem Joins.refl (mine : String → Prop) (s : Snapshot) : Joins mine s s s :=
  ⟨fun _ _ => rfl, fun _ _ => rfl⟩

theorem Joins.swap (h : Joins mine left right s) : Joins (fun path => ¬ mine path) right left s :=
  ⟨h.right, fun path hp => h.left path (not_not.1 hp)⟩

theorem Joins.eq (hs : Joins mine left right s) (ht : Joins mine left right t) (hsc : s.Coherent)
    (htc : t.Coherent) : s = t := by
  apply hsc.ext_units htc
  apply Std.ExtTreeMap.ext_getElem?
  intro path
  by_cases hp : mine path
  · rw [hs.left path hp, ht.left path hp]
  · rw [hs.right path hp, ht.right path hp]

/-- An edit that goes through on its own side goes through in the joined snapshot. -/
theorem Joins.apply (h : Joins mine left right s) (hs : s.Coherent) (hl : left.Coherent)
    (hc : e.check = .ok ()) (hmine : mine e.sourcePath) (happly : left.apply e = .done left') :
    ∃ s', s.apply e = .done s' ∧ s'.Coherent ∧ Joins mine left' right s' := by
  obtain ⟨herr, hunit⟩ := hs.apply_congr hl hc (h.left e.sourcePath hmine)
  rcases hs.apply_cases hc with ⟨error, -, hfail⟩ | ⟨s', -, hdone, hs'⟩
  · rw [hfail, happly] at herr
    cases herr
  · have hkeep : ∀ path : String, path ≠ e.sourcePath →
        s'.units[path]? = s.units[path]? ∧ left'.units[path]? = left.units[path]? := by
      intro path hne
      have hks := hs.units_apply_of_ne hc hne
      have hkl := hl.units_apply_of_ne hc hne
      rw [hdone] at hks
      rw [happly] at hkl
      exact ⟨hks, hkl⟩
    rw [hdone, happly] at hunit
    refine ⟨s', hdone, hs', ⟨fun path hp => ?_, fun path hp => ?_⟩⟩
    · by_cases hne : path = e.sourcePath
      · rw [hne]
        exact hunit
      · rw [(hkeep path hne).1, (hkeep path hne).2, h.left path hp]
    · have hne : path ≠ e.sourcePath := fun he => hp (he ▸ hmine)
      rw [(hkeep path hne).1, h.right path hp]

theorem Joins.apply_right (h : Joins mine left right s) (hs : s.Coherent) (hr : right.Coherent)
    (hc : e.check = .ok ()) (hother : ¬ mine e.sourcePath) (happly : right.apply e = .done right') :
    ∃ s', s.apply e = .done s' ∧ s'.Coherent ∧ Joins mine left right' s' := by
  obtain ⟨s', hdone, hs', hj⟩ := h.swap.apply hs hr hc hother happly
  exact ⟨s', hdone, hs', ⟨fun path hp => hj.right path (not_not.2 hp), hj.left⟩⟩

/-- The first edit of a replay that goes through. -/
theorem Coherent.of_replay_cons (h : s.Coherent) (hc : e.check = .ok ())
    (hr : s.replay (e :: E) = .ok t) :
    ∃ s', s.apply e = .done s' ∧ s'.Coherent ∧ s'.replay E = .ok t := by
  rcases h.apply_cases hc with ⟨error, -, hfail⟩ | ⟨s', -, hdone, hs'⟩
  · rw [replay_cons_of_failed hfail] at hr
    cases hr
  · rw [replay_cons_of_done hdone] at hr
    exact ⟨s', hdone, hs', hr⟩

/-- Whatever the order, both sequences get where they get on their own. -/
theorem Joins.replay (h : Joins mine left right s) (hs : s.Coherent) (hl : left.Coherent)
    (hr : right.Coherent) (hG : Interleaves E F G)
    (hE : ∀ e ∈ E, e.check = .ok () ∧ mine e.sourcePath)
    (hF : ∀ e ∈ F, e.check = .ok () ∧ ¬ mine e.sourcePath)
    (hleft : left.replay E = .ok left') (hright : right.replay F = .ok right') :
    ∃ s', s.replay G = .ok s' ∧ s'.Coherent ∧ Joins mine left' right' s' := by
  induction hG generalizing s left right with
  | nil =>
    cases hleft
    cases hright
    exact ⟨s, rfl, hs, h⟩
  | left _ ih =>
    obtain ⟨⟨hc, hmine⟩, hE⟩ := List.forall_mem_cons.1 hE
    obtain ⟨l, happly, hlc, hleft⟩ := hl.of_replay_cons hc hleft
    obtain ⟨s₁, hdone, hs₁, hj⟩ := h.apply hs hl hc hmine happly
    obtain ⟨s', hrest, hs', hj'⟩ := ih hj hs₁ hlc hr hE hF hleft hright
    exact ⟨s', (replay_cons_of_done hdone).trans hrest, hs', hj'⟩
  | right _ ih =>
    obtain ⟨⟨hc, hother⟩, hF⟩ := List.forall_mem_cons.1 hF
    obtain ⟨r, happly, hrc, hright⟩ := hr.of_replay_cons hc hright
    obtain ⟨s₁, hdone, hs₁, hj⟩ := h.apply_right hs hr hc hother happly
    obtain ⟨s', hrest, hs', hj'⟩ := ih hj hs₁ hl hrc hE hF hleft hright
    exact ⟨s', (replay_cons_of_done hdone).trans hrest, hs', hj'⟩

/-- A replay does not touch units that none of its edits is about. -/
theorem Coherent.units_replay_of_ne (h : s.Coherent) (hc : ∀ e ∈ E, e.check = .ok ())
    (hr : s.replay E = .ok t) {path : String} (hne : ∀ e ∈ E, path ≠ e.sourcePath) :
    t.units[path]? = s.units[path]? := by
  induction E generalizing s with
  | nil =>
    cases hr
    rfl
  | cons e E ih =>
    obtain ⟨he, hc⟩ := List.forall_mem_cons.1 hc
    obtain ⟨hpath, hne⟩ := List.forall_mem_cons.1 hne
    obtain ⟨s', hdone, hs', hr⟩ := h.of_replay_cons he hr
    have hkeep := h.units_apply_of_ne he hpath
    rw [hdone] at hkeep
    rw [ih hs' hc hr hne]
    exact hkeep

/-- Two sequences without a common unit that go through on their own lead to one snapshot, however
they are merged. -/
theorem Coherent.exists_interleaved (h : s.Coherent) (hE : ∀ e ∈ E, e.check = .ok ())
    (hF : ∀ e ∈ F, e.check = .ok ()) (hne : ∀ e ∈ E, ∀ f ∈ F, e.sourcePath ≠ f.sourcePath)
    (hleft : s.replay E = .ok left) (hright : s.replay F = .ok right) :
    ∃ t, ∀ G, Interleaves E F G → s.replay G = .ok t := by
  have hmine : ∀ e ∈ E, e.check = .ok () ∧ ∃ e' ∈ E, e'.sourcePath = e.sourcePath :=
    fun e he => ⟨hE e he, e, he, rfl⟩
  have hother : ∀ f ∈ F, f.check = .ok () ∧ ¬ ∃ e ∈ E, e.sourcePath = f.sourcePath := by
    refine fun f hf => ⟨hF f hf, ?_⟩
    rintro ⟨e, he, hef⟩
    exact hne e he f hf hef
  have hrun : ∀ G, Interleaves E F G → ∃ t, s.replay G = .ok t ∧ t.Coherent ∧
      Joins (fun path => ∃ e ∈ E, e.sourcePath = path) left right t :=
    fun G hG => (Joins.refl _ s).replay h h h hG hmine hother hleft hright
  obtain ⟨t, -, ht, hjoin⟩ := hrun (E ++ F) (interleaves_append E F)
  refine ⟨t, fun G hG => ?_⟩
  obtain ⟨t', hreplay, ht', hjoin'⟩ := hrun G hG
  rw [hreplay, hjoin'.eq hjoin ht' ht]

/-- Two batches without a common unit that both go through do so in every interleaving, always with
the same result; and an edit that fails still fails the same way after a batch for other units. -/
theorem interleavings_agree (h : s.Reachable) (hF : ∀ f ∈ F, f.check = .ok ())
    (hright : s.applyAll F = .done right) :
    (∀ E left, (∀ e ∈ E, e.check = .ok ()) → (∀ e ∈ E, ∀ f ∈ F, e.sourcePath ≠ f.sourcePath) →
      s.applyAll E = .done left →
      ∃ t, ∀ G, Interleaves E F G → s.replay G = .ok t ∧ s.applyAll G = .done t) ∧
    ∀ e error, e.check = .ok () → (∀ f ∈ F, e.sourcePath ≠ f.sourcePath) →
      (s.apply e).error? = some error → (right.apply e).error? = some error := by
  have hs := h.coherent
  have hreplay := hs.replay_of_applyAll hF hright
  refine ⟨fun E left hE hne hleft => ?_, fun e error he hne herr => ?_⟩
  · obtain ⟨t, ht⟩ :=
      hs.exists_interleaved hE hF hne (hs.replay_of_applyAll hE hleft) hreplay
    refine ⟨t, fun G hG => ⟨ht G hG, ?_⟩⟩
    rw [hs.applyAll_eq fun e he => (hG.mem_or_mem he).elim (hE e) (hF e), ht G hG]
  · have hunit : s.units[e.sourcePath]? = right.units[e.sourcePath]? :=
      (hs.units_replay_of_ne hF hreplay hne).symm
    rw [← (hs.apply_congr (hs.replay hF hreplay) he hunit).1, herr]

/-- Additions to two units, and a removal that fails before and after one of them. -/
theorem interleavings_agree_of_addNode :
    let F := [Edit.addNode ⟨"b", .unit, []⟩, Edit.addNode ⟨"b:x", .var ∅ [], []⟩]
    let E := [Edit.addNode ⟨"a", .unit, []⟩, Edit.addNode ⟨"a:x", .var ∅ [], []⟩]
    ∃ right, Snapshot.empty.applyAll F = .done right ∧
      (∃ t, ∀ G, Interleaves E F G → Snapshot.empty.replay G = .ok t ∧
        Snapshot.empty.applyAll G = .done t) ∧
      (right.apply (.removeNode "a:x")).error? = some (.nodeNotFound "a:x") := by
  intro F E
  have hF : ∀ f ∈ F, f.check = .ok () := by decide +kernel
  have hE : ∀ e ∈ E, e.check = .ok () := by decide +kernel
  have hne : ∀ e ∈ E, ∀ f ∈ F, e.sourcePath ≠ f.sourcePath := by decide +kernel
  have hright : Snapshot.empty.applyAll F = .done (Snapshot.empty.applyAll F).state := by
    have herr : (Snapshot.empty.applyAll F).error? = none := by decide +kernel
    rw [Attempt.done, ← herr]
  have hleft : Snapshot.empty.applyAll E = .done (Snapshot.empty.applyAll E).state := by
    have herr : (Snapshot.empty.applyAll E).error? = none := by decide +kernel
    rw [Attempt.done, ← herr]
  obtain ⟨hmerge, hfail⟩ := interleavings_agree .empty hF hright
  exact ⟨_, hright, hmerge E _ hE hne hleft,
    hfail (.removeNode "a:x") _ (by decide +kernel) (by decide +kernel) (by decide +kernel)⟩

end Snapshot

end SourceHistory
