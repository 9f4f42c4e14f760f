import SourceHistory.Proofs.Diff.Advance
import SourceHistory.Proofs.ListEdit
import SourceHistory.Proofs.SetEdit

namespace SourceHistory

namespace Node

variable {n m other : Node} {parameters : List String} {e : Edit}

/-- The edit that gives `n` with these parameters the attributes and the parameters of `m`; `none` if
it has them already. -/
def amendment? (n : Node) (parameters : List String) (m : Node) : Option Edit :=
  match n.attributes, m.attributes with
  | .type modifiers supertypes, .type modifiers' supertypes' =>
    if modifiers = modifiers' ∧ supertypes = supertypes' then none
    else some (.editType n.id (SetEdit.diff modifiers modifiers')
      (SetEdit.diff supertypes supertypes'))
  | .function modifiers body, .function modifiers' body' =>
    if modifiers = modifiers' ∧ parameters = m.childIds ∧ body = body' then none
    else some (.editFunction n.id (SetEdit.diff modifiers modifiers')
      (ListEdit.diff (parameters.map Id.simpleName) m.childNames) (ListEdit.diff body body'))
  | .var modifiers initializer, .var modifiers' initializer' =>
    if modifiers = modifiers' ∧ initializer = initializer' then none
    else some (.editVar n.id (SetEdit.diff modifiers modifiers')
      (ListEdit.diff initializer initializer'))
  | _, _ => none

theorem kind_eq_of_amendment? (h : n.amendment? parameters m = some e) : n.kind = m.kind := by
  rw [amendment?] at h
  rw [kind, kind]
  split at h
  · next ha ha' => rw [ha, ha']; rfl
  · next ha ha' => rw [ha, ha']; rfl
  · next ha ha' => rw [ha, ha']; rfl
  · cases h

theorem id_of_amendment? (h : n.amendment? parameters m = some e) : e.id = n.id := by
  rw [amendment?] at h
  split at h
  · obtain rfl := Option.some.inj (Option.ite_none_left_eq_some.1 h).2
    rfl
  · obtain rfl := Option.some.inj (Option.ite_none_left_eq_some.1 h).2
    rfl
  · obtain rfl := Option.some.inj (Option.ite_none_left_eq_some.1 h).2
    rfl
  · cases h

theorem amendment?_eq_none_iff (hk : n.kind = m.kind) :
    n.amendment? parameters m = none ↔
      n.attributes = m.attributes ∧ (n.kind = .function → parameters = m.childIds) := by
  rw [kind, kind] at hk
  rw [amendment?, kind]
  cases ha : n.attributes <;> cases ha' : m.attributes <;> rw [ha, ha'] at hk <;> cases hk <;>
    simp [Attributes.kind, and_assoc, and_left_comm, and_comm]

theorem amendment?_congr (hid : n.id = other.id) (ha : n.attributes = other.attributes) :
    n.amendment? parameters m = other.amendment? parameters m := by
  rw [amendment?, amendment?, hid, ha]

/-- Only functions have parameters. -/
theorem amendment?_of_kind_ne {others : List String} (h : n.kind ≠ .function) :
    n.amendment? parameters m = n.amendment? others m := by
  rw [kind] at h
  rw [amendment?, amendment?]
  cases ha : n.attributes <;> cases m.attributes <;> first | rfl | exact absurd (ha ▸ rfl) h

end Node

theorem attributeEdit?_eq {n m : Node} (hid : n.id = m.id) (hkind : n.kind = m.kind)
    (hn : n.WellFormed) (hm : m.WellFormed) :
    attributeEdit? n m = .ok (n.amendment? n.childIds m) := by
  have hmatch : ¬ (n.id ≠ m.id ∨ n.kind ≠ m.kind) := by simp [hid, hkind]
  have hvalid := hn.id_valid
  have hparams := hn.childNames_eq_iff hm hid
  rw [Node.kind] at hvalid
  rw [Node.amendment?, ← Node.childNames_eq_map]
  simp only [attributeEdit?, if_neg hmatch]
  cases ha : n.attributes <;> cases ha' : m.attributes <;> rw [ha] at hvalid <;> try rfl
  case type.type =>
    have hc : checkId .type n.id = .ok () := checkId_eq_ok_iff.2 hvalid
    simp [Edit.check, hc, Edit.isEmpty, SetEdit.diff_eq_nil_iff]
  case function.function =>
    have hc : checkId .function n.id = .ok () := checkId_eq_ok_iff.2 hvalid
    simp [Edit.check, hc, Edit.isEmpty, SetEdit.diff_eq_nil_iff, ListEdit.diff_eq_nil_iff, hparams,
      and_assoc]
  case var.var =>
    have hc : checkId .var n.id = .ok () := checkId_eq_ok_iff.2 hvalid
    simp [Edit.check, hc, Edit.isEmpty, SetEdit.diff_eq_nil_iff, ListEdit.diff_eq_nil_iff]

namespace NodeIndex

variable {working middle after : NodeIndex} {x : String} {current target r : Node} {e : Edit}
  {ids : List String}

theorem exists_getElem?_iff (hkinds : ∀ k, working.kindAt k = after.kindAt k) (k : String) :
    (∃ n, working[k]? = some n) ↔ ∃ n, after[k]? = some n := by
  have hnone : working[k]? = none ↔ after[k]? = none := by
    rw [← kindAt_eq_none_iff, hkinds, kindAt_eq_none_iff]
  rw [← Option.ne_none_iff_exists', ← Option.ne_none_iff_exists', ne_eq, ne_eq, hnone]

/-- The edit between two versions of a node gives an entry the attributes and the parameter names of
the other version, if the two have the same names. Its children stay, but for the order of
parameters. -/
theorem exists_revise_of_amendment? (h : working.Consistent)
    (hx : working[current.id]? = some current)
    (he : current.amendment? current.childIds target = some e)
    (hnames : current.kind = .function → target.childNames.Perm current.childNames) :
    e.isAttributeEdit = true ∧ e.check = .ok () ∧
      ∃ r, Edit.revise working current e = .ok r ∧ r.attributes = target.attributes ∧
        r.children.Perm current.children ∧
        (current.kind = .function → r.childNames = target.childNames) ∧
        (current.kind ≠ .function → r.children = current.children) := by
  have hvalid := (h.wellFormed hx).id_valid
  rw [Node.kind] at hvalid
  rw [Node.amendment?] at he
  split at he
  · next modifiers supertypes modifiers' supertypes' ha ha' =>
    obtain rfl := Option.some.inj (Option.ite_none_left_eq_some.1 he).2
    rw [ha] at hvalid
    have hk : current.kind = .type := by rw [Node.kind, ha]; rfl
    refine ⟨rfl, checkId_eq_ok_iff.2 hvalid, { current with attributes := target.attributes }, ?_, rfl,
      .refl _, fun hf => ?_, fun _ => rfl⟩
    · simp only [Edit.revise, ha, ha', SetEdit.apply_diff]
      rfl
    · rw [hk] at hf
      cases hf
  · next modifiers body modifiers' body' ha ha' =>
    obtain rfl := Option.some.inj (Option.ite_none_left_eq_some.1 he).2
    rw [ha] at hvalid
    have hf : current.kind = .function := by rw [Node.kind, ha]; rfl
    obtain ⟨ps, hps⟩ := (Edit.exists_resolveParameters_iff h hx hf).2
      ⟨_, ListEdit.apply_diff _ _, hnames hf⟩
    obtain ⟨happly, hperm⟩ := (Edit.resolveParameters_eq_ok_iff_perm h hx hf).1 hps
    rw [ListEdit.apply_diff, Except.ok.injEq] at happly
    refine ⟨rfl, checkId_eq_ok_iff.2 hvalid,
      { current with attributes := target.attributes, children := ps }, ?_, rfl, hperm,
      fun _ => happly.symm, fun hne => absurd hf hne⟩
    rw [← Node.childNames_eq_map]
    simp only [Edit.revise, ha, ha', SetEdit.apply_diff, ListEdit.apply_diff, hps]
    rfl
  · next modifiers initializer modifiers' initializer' ha ha' =>
    obtain rfl := Option.some.inj (Option.ite_none_left_eq_some.1 he).2
    rw [ha] at hvalid
    have hk : current.kind = .var := by rw [Node.kind, ha]; rfl
    refine ⟨rfl, checkId_eq_ok_iff.2 hvalid, { current with attributes := target.attributes }, ?_, rfl,
      .refl _, fun hf => ?_, fun _ => rfl⟩
    · simp only [Edit.revise, ha, ha', SetEdit.apply_diff, ListEdit.apply_diff]
      rfl
    · rw [hk] at hf
      cases hf
  · cases he

/-- Both sides have the same children up to their order. -/
theorem childIds_perm (h : working.Consistent) (ht : after.Consistent)
    (hkinds : ∀ k, working.kindAt k = after.kindAt k) (hx : working[x]? = some current)
    (hn : after[x]? = some target) : current.childIds.Perm target.childIds := by
  rw [List.perm_ext_iff_of_nodup (h.wellFormed hx).nodup (ht.wellFormed hn).nodup]
  intro c
  rw [h.mem_childIds_iff hx, ht.mem_childIds_iff hn, exists_getElem?_iff hkinds]

/-- What one round does to the labels: that of `x` becomes the one of the target. -/
def Settles (working after : NodeIndex) (x : String) (edits : List Edit) : Prop :=
  ∃ result, edits.foldlM advance working = .ok result ∧ result.Consistent ∧
    ∀ k, result.label k = if k = x then after.label x else working.label k

theorem settles_nil (h : working.Consistent) (hl : working.label x = after.label x) :
    Settles working after x [] := by
  refine ⟨working, rfl, h, fun k => ?_⟩
  split
  · next hk => rw [hk, hl]
  · rfl

/-- `e` turns the label of `current` into that of `target`. -/
structure Turns (working : NodeIndex) (current target : Node) (e : Edit) : Prop where
  id_eq : e.id = current.id
  isAttributeEdit : e.isAttributeEdit = true
  check : e.check = .ok ()
  revise : ∃ r, Edit.revise working current e = .ok r ∧ r.attributes = target.attributes ∧
    r.childIds = target.childIds

theorem Turns.settles (ht : working.Turns current target e) (h : working.Consistent)
    (hx : working[x]? = some current) (hn : after[x]? = some target) :
    Settles working after x [e] := by
  have hex : e.id = x := ht.id_eq.trans (h.id_eq hx)
  obtain ⟨r, hr, hattr, hids⟩ := ht.revise
  obtain ⟨result, hadv, hcons, hl⟩ :=
    exists_advance_revise h ht.isAttributeEdit ht.check (hex ▸ hx) hr
  refine ⟨result, (foldlM_cons_of_ok hadv).trans rfl, hcons, fun k => ?_⟩
  rw [hl, label_of_getElem? hn, hattr, hids, hex]

theorem turns_of_amendment? (h : working.Consistent) (ht : after.Consistent)
    (hkinds : ∀ k, working.kindAt k = after.kindAt k) (hx : working[x]? = some current)
    (hn : after[x]? = some target) (he : current.amendment? current.childIds target = some e) :
    working.Turns current target e := by
  have hself : working[current.id]? = some current := (h.id_eq hx).symm ▸ hx
  have hid : current.id = target.id := (h.id_eq hx).trans (ht.id_eq hn).symm
  have hnames : target.childNames.Perm current.childNames := by
    rw [Node.childNames_eq_map, Node.childNames_eq_map]
    exact (childIds_perm h ht hkinds hx hn).symm.map Id.simpleName
  obtain ⟨hedit, hcheck, r, hr, hattr, hperm, hfun, hmember⟩ :=
    exists_revise_of_amendment? h hself he fun _ => hnames
  refine ⟨Node.id_of_amendment? he, hedit, hcheck, r, hr, hattr, ?_⟩
  by_cases hf : current.kind = .function
  · have hdirect : ∀ c ∈ r.children, Id.parent? c.id = some current.id :=
      fun c hc => (h.wellFormed hx).direct c (hperm.mem_iff.1 hc)
    have hnamed : r.children.map Node.name = target.childNames := hfun hf
    rw [Node.childIds, Node.map_id_eq_map_child hdirect, hnamed, hid,
      (ht.wellFormed hn).childIds_eq_map]
  · rw [Node.childIds, hmember hf]
    exact h.childIds_eq ht (exists_getElem?_iff hkinds) hx hn (Node.kind_eq_of_amendment? he) hf

theorem attributeEdits_eq (h : working.Consistent) (ht : after.Consistent)
    (hx : working[x]? = some current) (hn : after[x]? = some target)
    (hkind : current.kind = target.kind) :
    attributeEdits working after x = .ok (current.amendment? current.childIds target).toList := by
  have hid : current.id = target.id := (h.id_eq hx).trans (ht.id_eq hn).symm
  rw [attributeEdits, hx, hn]
  dsimp only
  rw [attributeEdit?_eq hid hkind (h.wellFormed hx) (ht.wellFormed hn)]
  rfl

theorem exists_attributeEdits (h : working.Consistent) (ht : after.Consistent)
    (hkinds : ∀ k, working.kindAt k = after.kindAt k) (x : String) :
    ∃ edits, attributeEdits working after x = .ok edits ∧ Settles working after x edits := by
  cases hx : working[x]? with
  | none =>
    have hn : after[x]? = none := by
      rw [← kindAt_eq_none_iff, ← hkinds, kindAt_eq_none_iff, hx]
    refine ⟨[], by rw [attributeEdits, hx], settles_nil h ?_⟩
    rw [label, label, hx, hn]
  | some current =>
    obtain ⟨target, hn⟩ := (exists_getElem?_iff hkinds x).1 ⟨current, hx⟩
    have hkind : current.kind = target.kind := by
      have hk := hkinds x
      rw [kindAt_of_getElem? hx, kindAt_of_getElem? hn] at hk
      exact Option.some.inj hk
    refine ⟨_, attributeEdits_eq h ht hx hn hkind, ?_⟩
    cases he : current.amendment? current.childIds target with
    | some e => exact (turns_of_amendment? h ht hkinds hx hn he).settles h hx hn
    | none =>
      obtain ⟨hattr, hf⟩ := (Node.amendment?_eq_none_iff hkind).1 he
      have hids : current.childIds = target.childIds := by
        by_cases hfun : current.kind = .function
        · exact hf hfun
        · exact h.childIds_eq ht (exists_getElem?_iff hkinds) hx hn hkind hfun
      apply settles_nil h
      rw [label_of_getElem? hx, label_of_getElem? hn, hattr, hids]

theorem attributeEdits_congr (h : working.Consistent) (hm : middle.Consistent)
    (hl : middle.label x = working.label x) :
    attributeEdits middle after x = attributeEdits working after x := by
  cases hx : working[x]? with
  | none =>
    have hnone : middle[x]? = none := by
      rw [← kindAt_eq_none_iff, kindAt_eq_of_label_eq hl, kindAt_eq_none_iff, hx]
    rw [attributeEdits, attributeEdits, hx, hnone]
  | some current =>
    rw [label_of_getElem? hx] at hl
    obtain ⟨n, hn, hattr, hids⟩ := label_eq_some_iff.1 hl
    have hid : n.id = current.id := (hm.id_eq hn).trans (h.id_eq hx).symm
    have hsame : ∀ m, attributeEdit? n m = attributeEdit? current m := by
      intro m
      simp only [attributeEdit?, Node.kind, Node.childNames_eq_map, hid, hattr, hids]
    rw [attributeEdits, attributeEdits, hx, hn]
    cases after[x]? with
    | none => rfl
    | some m => exact congrArg (Except.map Option.toList) (hsame m)

/-- If all other ids have the labels of the target, the pass ends at the target. No round changes
what the ones after it find. -/
theorem exists_attributePass {edits : String → List Edit} (h : working.Consistent)
    (ht : after.Consistent) (hkinds : ∀ k, working.kindAt k = after.kindAt k)
    (hrest : ∀ k, k ∉ ids → working.label k = after.label k) (hnd : ids.Nodup)
    (hedits : ∀ k ∈ ids, attributeEdits working after k = .ok (edits k)) :
    attributePass after working ids = .ok (ids.flatMap edits, after) ∧
      (ids.flatMap edits).foldlM advance working = .ok after := by
  induction ids generalizing working with
  | nil =>
    obtain rfl := h.ext_label ht fun k => hrest k List.not_mem_nil
    exact ⟨rfl, rfl⟩
  | cons x ids ih =>
    obtain ⟨hx, hnd⟩ := List.nodup_cons.1 hnd
    obtain ⟨hnow, hedits⟩ := List.forall_mem_cons.1 hedits
    obtain ⟨now, hnow', middle, hfold, hmiddle, hl⟩ := exists_attributeEdits h ht hkinds x
    obtain rfl : edits x = now := Except.ok.inj (hnow.symm.trans hnow')
    have hkinds' : ∀ k, middle.kindAt k = after.kindAt k := by
      intro k
      by_cases hk : k = x
      · exact kindAt_eq_of_label_eq (by rw [hl, if_pos hk, hk])
      · rw [← hkinds]
        exact kindAt_eq_of_label_eq (by rw [hl, if_neg hk])
    have hrest' : ∀ k, k ∉ ids → middle.label k = after.label k := by
      intro k hk
      rw [hl]
      split
      · next hkx => rw [hkx]
      · next hkx => exact hrest k (List.not_mem_cons_of_ne_of_not_mem hkx hk)
    have hedits' : ∀ k ∈ ids, attributeEdits middle after k = .ok (edits k) := by
      intro k hk
      have hne : k ≠ x := fun he => hx (he ▸ hk)
      rw [attributeEdits_congr h hmiddle (by rw [hl, if_neg hne]), hedits k hk]
    obtain ⟨hpass, hfold'⟩ := ih hmiddle hkinds' hrest' hnd hedits'
    refine ⟨?_, (foldlM_append_of_ok hfold).trans hfold'⟩
    simp only [attributePass, hnow, hfold, hpass, bind, Except.bind]
    rfl

end NodeIndex

end SourceHistory
