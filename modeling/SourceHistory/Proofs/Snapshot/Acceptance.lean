import SourceHistory.Proofs.Edit.Checks
import SourceHistory.Proofs.Snapshot.Reachable

namespace SourceHistory.Snapshot

variable {s t : Snapshot} {e : Edit} {id : String} {modifierEdits : List (SetEdit String)}
  {parameterEdits bodyEdits : List (ListEdit String)}

theorem Coherent.succeeded_apply_iff (h : s.Coherent) (hc : e.check = .ok ()) :
    (s.apply e).succeeded = true ↔ e.Admissible s.index := by
  rw [← Edit.exists_stage_iff h.index hc]
  rcases h.apply_stages hc with ⟨error, hs, happly⟩ | ⟨staged, t, hs, -, happly, -⟩
  · simp [happly, hs]
  · simp [happly, hs]

/-- An edit goes through if and only if it is admissible. Once its checks have passed, the rebuild of
the ancestors cannot fail; so an edit that fails does so with an error about the state, before
anything is written, and the snapshot is as before. -/
theorem apply_succeeds_iff_admissible (h : s.Reachable) (hc : e.check = .ok ()) :
    ((s.apply e).succeeded = true ↔ e.Admissible s.index) ∧
    (∀ staged, Edit.stage s.index e = .ok staged →
      (NodeIndex.rebuildAncestors staged e.id).succeeded = true) ∧
    ∀ error, (s.apply e).error? = some error →
      error.isState = true ∧ Edit.stage s.index e = .error error ∧ (s.apply e).state = s := by
  refine ⟨h.coherent.succeeded_apply_iff hc, ?_⟩
  rcases h.coherent.apply_stages hc with ⟨error, hs, happly⟩ | ⟨staged, t, hs, hdone, happly, -⟩
  · refine ⟨fun staged hok => ?_, fun other herr => ?_⟩
    · rw [hs] at hok
      cases hok
    · rw [happly, Attempt.error?_failed, Option.some.injEq] at herr
      subst herr
      exact ⟨Edit.stateBound_stage s.index e error hs, hs, by rw [happly, Attempt.state_failed]⟩
  · refine ⟨fun other hok => ?_, fun error herr => ?_⟩
    · rw [hs, Except.ok.injEq] at hok
      rw [← hok, hdone, Attempt.succeeded_done]
    · rw [happly, Attempt.error?_done] at herr
      cases herr

/-- A new variable is taken; a script that does not apply is refused and changes nothing. -/
theorem apply_succeeds_iff_admissible_of_var :
    let s := (Snapshot.empty.apply (.addNode ⟨"a", .unit, [⟨"a:x", .var ∅ [], []⟩]⟩)).state
    (s.apply (.addNode ⟨"a:y", .var ∅ [], []⟩)).succeeded = true ∧
      (s.apply (.editVar "a:x" [] [.remove 0])).error? = some (.indexOutOfBounds 0 0) ∧
      (s.apply (.editVar "a:x" [] [.remove 0])).state = s := by
  intro s
  have hs : s.Reachable := .apply .empty rfl
  have hcheck : (Edit.addNode ⟨"a:y", .var ∅ [], []⟩).check = .ok () := by decide +kernel
  have hcheck' : (Edit.editVar "a:x" [] [.remove 0]).check = .ok () := by decide +kernel
  have hparent : Id.parent? "a:y" = some "a" := by decide +kernel
  have hunit : s.index["a"]? = some ⟨"a", .unit, [⟨"a:x", .var ∅ [], []⟩]⟩ := by decide +kernel
  have hadmissible : (Edit.addNode ⟨"a:y", .var ∅ [], []⟩).Admissible s.index :=
    ⟨by decide +kernel, Or.inr ⟨"a", _, hparent, hunit, rfl⟩⟩
  have herr : (s.apply (.editVar "a:x" [] [.remove 0])).error? = some (.indexOutOfBounds 0 0) := by
    decide +kernel
  exact ⟨(apply_succeeds_iff_admissible hs hcheck).1.2 hadmissible, herr,
    ((apply_succeeds_iff_admissible hs hcheck').2.2 _ herr).2.2⟩

theorem Coherent.apply_editFunction_done (h : s.Coherent)
    (hc : (Edit.editFunction id modifierEdits parameterEdits bodyEdits).check = .ok ())
    (hdone : s.apply (.editFunction id modifierEdits parameterEdits bodyEdits) = .done t) :
    ∃ n modifiers body modifiers' body' parameters,
      s.index[id]? = some n ∧ n.attributes = .function modifiers body ∧
      SetEdit.apply modifiers modifierEdits = .ok modifiers' ∧
      ListEdit.apply body bodyEdits = .ok body' ∧
      ListEdit.apply n.childNames parameterEdits = .ok (parameters.map Node.name) ∧
      parameters.Perm n.children ∧
      t.index[id]? = some ⟨id, .function modifiers' body', parameters⟩ := by
  obtain ⟨staged, hs, hre, -⟩ := h.exists_stage_of_apply_eq_done hc hdone
  obtain ⟨n, r, hn, hr, -, rfl⟩ := Edit.exists_of_stage_attributeEdit h.index rfl hs
  obtain ⟨modifiers, body, modifiers', body', parameters, ha, hm, hps, hb, rfl⟩ :=
    Edit.revise_editFunction_eq_ok_iff.1 hr
  have hnid : n.id = id := h.index.id_eq hn
  have hk : n.kind = .function := by rw [Node.kind, ha]; rfl
  obtain ⟨hnames, hperm⟩ :=
    (Edit.resolveParameters_eq_ok_iff_perm h.index (hnid.symm ▸ hn) hk).1 hps
  refine ⟨n, modifiers, body, modifiers', body', parameters, hn, ha, hm, hb, hnames, hperm, ?_⟩
  have hself := NodeIndex.getElem?_of_rebuildAncestors_eq_done hre
  rw [NameMap.getElem?_insert, if_pos rfl] at hself
  rw [← hnid]
  exact hnid ▸ hself

/-- An edit of a function goes through if and only if the function is there, its modifiers and its
body take their edits, and the edited list of parameter names is a permutation of the names there
are. Then the function has the edited modifiers and body and its old parameters, as they are now, in
the order of the edited names, and no id comes or goes. -/
theorem editFunction_permutes_parameters (h : s.Reachable) (hid : Id.isValidFunction id = true) :
    ((s.apply (.editFunction id modifierEdits parameterEdits bodyEdits)).succeeded = true ↔
      ∃ n modifiers body, s.index[id]? = some n ∧ n.attributes = .function modifiers body ∧
        (∃ edited, SetEdit.apply modifiers modifierEdits = .ok edited) ∧
        (∃ names, ListEdit.apply n.childNames parameterEdits = .ok names ∧
          names.Perm n.childNames) ∧
        ∃ edited, ListEdit.apply body bodyEdits = .ok edited) ∧
    ∀ t, s.apply (.editFunction id modifierEdits parameterEdits bodyEdits) = .done t →
      ∃ n modifiers body modifiers' body' parameters,
        s.index[id]? = some n ∧ n.attributes = .function modifiers body ∧
        SetEdit.apply modifiers modifierEdits = .ok modifiers' ∧
        ListEdit.apply body bodyEdits = .ok body' ∧
        ListEdit.apply n.childNames parameterEdits = .ok (parameters.map Node.name) ∧
        parameters.Perm n.children ∧
        (∀ c ∈ parameters, s.index[c.id]? = some c ∧ t.index[c.id]? = some c) ∧
        t.index[id]? = some ⟨id, .function modifiers' body', parameters⟩ ∧
        ∀ k, t.index.contains k = s.index.contains k := by
  have hs := h.coherent
  have hc : (Edit.editFunction id modifierEdits parameterEdits bodyEdits).check = .ok () :=
    checkId_eq_ok_iff.2 hid
  refine ⟨hs.succeeded_apply_iff hc, fun t hdone => ?_⟩
  obtain ⟨n, modifiers, body, modifiers', body', parameters, hn, ha, hm, hb, hnames, hperm, ht⟩ :=
    hs.apply_editFunction_done hc hdone
  obtain ⟨_, -, -, happlyTo, htc⟩ := hs.exists_stage_of_apply_eq_done hc hdone
  refine ⟨n, modifiers, body, modifiers', body', parameters, hn, ha, hm, hb, hnames, hperm,
    fun c hmem => ⟨?_, htc.index.child ht hmem⟩, ht, fun k => ?_⟩
  · exact hs.index.child hn (hperm.mem_iff.1 hmem)
  · rw [← Edit.contains_applyTo hs.index (e := .editFunction id _ _ _) rfl k, happlyTo,
      Attempt.state_done]

/-- Two parameters change places, and a name with a separator in it is refused. -/
theorem editFunction_permutes_parameters_of_swap :
    let s := (Snapshot.empty.apply (.addNode ⟨"a", .unit, [⟨"a:f()", .function ∅ [],
      [⟨"a:f():x", .var ∅ ["1"], []⟩, ⟨"a:f():y", .var ∅ [], []⟩]⟩]⟩)).state
    (s.apply (.editFunction "a:f()" [] [.remove 0, .add 1 "x"] [.add 0 "x"])).succeeded = true ∧
      (s.apply (.editFunction "a:f()" [] [.remove 0, .add 1 "y:x"] [])).succeeded = false := by
  intro s
  have hs : s.Reachable := .apply .empty rfl
  have hid : Id.isValidFunction "a:f()" = true := by decide +kernel
  have hf : s.index["a:f()"]? = some ⟨"a:f()", .function ∅ [],
      [⟨"a:f():x", .var ∅ ["1"], []⟩, ⟨"a:f():y", .var ∅ [], []⟩]⟩ := by decide +kernel
  refine ⟨(editFunction_permutes_parameters hs hid).1.2 ⟨_, ∅, [], hf, rfl, ⟨∅, rfl⟩, ?_, ?_⟩, ?_⟩
  · exact ⟨["y", "x"], by decide +kernel, by decide +kernel⟩
  · exact ⟨["x"], rfl⟩
  · decide +kernel

end SourceHistory.Snapshot
