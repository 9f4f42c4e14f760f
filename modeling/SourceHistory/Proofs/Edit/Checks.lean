import SourceHistory.Proofs.Edit.Apply

namespace SourceHistory

variable {index : NodeIndex} {x : String} {n : Node} {e : Edit}

/-- If this fails, then because of what the state holds. -/
def StateBound {α : Type} (a : Except Error α) : Prop :=
  ∀ error, a = .error error → error.isState = true

namespace StateBound

variable {α β σ : Type}

theorem ok (x : α) : StateBound (.ok x) := nofun

theorem error {error : Error} (h : error.isState = true) : StateBound (.error error : Except Error α) := by
  intro other he
  cases he
  exact h

theorem bind {a : Except Error α} {f : α → Except Error β} (ha : StateBound a)
    (hf : ∀ x, StateBound (f x)) : StateBound (a >>= f) := by
  intro error h
  rcases bind_eq_error_iff.1 h with h | ⟨x, -, h⟩
  · exact ha error h
  · exact hf x error h

theorem foldlM {f : σ → α → Except Error σ} (hf : ∀ s a, StateBound (f s a)) (s : σ) (as : List α) :
    StateBound (as.foldlM f s) := by
  induction as generalizing s with
  | nil => exact ok s
  | cons a as ih =>
    rw [List.foldlM_cons]
    exact (hf s a).bind ih

end StateBound

theorem SetEdit.stateBound_apply (set : NameSet) (edits : List (SetEdit String)) :
    StateBound (SetEdit.apply set edits) := by
  apply StateBound.foldlM
  intro set e
  cases e <;> rw [applyTo] <;> split
  · exact .error rfl
  · exact .ok _
  · exact .ok _
  · exact .error rfl

theorem ListEdit.stateBound_apply (list : List String) (edits : List (ListEdit String)) :
    StateBound (ListEdit.apply list edits) := by
  apply StateBound.foldlM
  intro list e
  cases e <;> rw [applyTo] <;> split
  all_goals first | exact .ok _ | exact .error rfl

theorem NodeIndex.stateBound_checkChain (index : NodeIndex) (x : String) (ids : List String) :
    StateBound (checkChain index x ids) := by
  induction ids generalizing x with
  | nil => exact .ok ()
  | cons p ids ih =>
    rw [checkChain]
    split
    · exact ih p
    · exact .error rfl

namespace Edit

open NodeIndex

theorem stateBound_checkParent (index : NodeIndex) (n : Node) : StateBound (checkParent index n) := by
  rw [checkParent]
  split
  · exact .ok ()
  · split
    · exact .error rfl
    · split
      · exact stateBound_checkChain index _ _
      · exact .error rfl

theorem stateBound_resolveNames (index : NodeIndex) (f : String) (seen names : List String) :
    StateBound (resolveNames index f seen names) := by
  induction names generalizing seen with
  | nil => exact .ok []
  | cons name names ih =>
    rw [resolveNames]
    split
    · exact .error rfl
    · split
      · exact .error rfl
      · exact (ih _).bind fun _ => .ok _

theorem stateBound_resolveParameters (index : NodeIndex) (n : Node) (edits : List (ListEdit String)) :
    StateBound (resolveParameters index n edits) := by
  refine (ListEdit.stateBound_apply _ _).bind fun names => ?_
  refine (stateBound_resolveNames index n.id [] names).bind fun ps => ?_
  split
  · exact .ok ps
  · exact .error rfl

theorem stateBound_revise (index : NodeIndex) (n : Node) (e : Edit) :
    StateBound (revise index n e) := by
  cases e with
  | addNode _ => exact .ok n
  | removeNode _ => exact .ok n
  | editType id modifierEdits supertypeEdits =>
    rw [revise]
    split
    · exact (SetEdit.stateBound_apply _ _).bind fun _ =>
        (SetEdit.stateBound_apply _ _).bind fun _ => .ok _
    · exact .error rfl
  | editFunction id modifierEdits parameterEdits bodyEdits =>
    rw [revise]
    split
    · exact (SetEdit.stateBound_apply _ _).bind fun _ =>
        (stateBound_resolveParameters _ _ _).bind fun _ =>
        (ListEdit.stateBound_apply _ _).bind fun _ => .ok _
    · exact .error rfl
  | editVar id modifierEdits initializerEdits =>
    rw [revise]
    split
    · exact (SetEdit.stateBound_apply _ _).bind fun _ =>
        (ListEdit.stateBound_apply _ _).bind fun _ => .ok _
    · exact .error rfl

theorem stateBound_stage (index : NodeIndex) (e : Edit) : StateBound (stage index e) := by
  by_cases he : e.isAttributeEdit = true
  · rw [stage_attributeEdit he]
    split
    · exact .error rfl
    · exact (stateBound_revise _ _ _).bind fun _ =>
        (stateBound_checkChain _ _ _).bind fun _ => .ok _
  · cases e with
    | addNode node =>
      rw [stage]
      split
      · exact .error rfl
      · exact (stateBound_checkParent index node).bind fun _ => .ok _
    | removeNode x =>
      rw [stage]
      split
      · exact (stateBound_checkChain _ _ _).bind fun _ => .ok _
      · exact .error rfl
    | _ => exact absurd rfl he

/-- What an index has to hold for an edit to go through. -/
def Admissible (index : NodeIndex) : Edit → Prop
  | addNode n =>
    index.contains n.id = false ∧
      (n.kind = .unit ∨ ∃ p m, Id.parent? n.id = some p ∧ index[p]? = some m ∧
        m.kind.canContain n.kind = true)
  | removeNode id => index.contains id = true
  | editType id modifierEdits supertypeEdits =>
    ∃ n modifiers supertypes, index[id]? = some n ∧ n.attributes = .type modifiers supertypes ∧
      (∃ edited, SetEdit.apply modifiers modifierEdits = .ok edited) ∧
      ∃ edited, SetEdit.apply supertypes supertypeEdits = .ok edited
  | editFunction id modifierEdits parameterEdits bodyEdits =>
    ∃ n modifiers body, index[id]? = some n ∧ n.attributes = .function modifiers body ∧
      (∃ edited, SetEdit.apply modifiers modifierEdits = .ok edited) ∧
      (∃ names, ListEdit.apply n.childNames parameterEdits = .ok names ∧
        names.Perm n.childNames) ∧
      ∃ edited, ListEdit.apply body bodyEdits = .ok edited
  | editVar id modifierEdits initializerEdits =>
    ∃ n modifiers initializer, index[id]? = some n ∧ n.attributes = .var modifiers initializer ∧
      (∃ edited, SetEdit.apply modifiers modifierEdits = .ok edited) ∧
      ∃ edited, ListEdit.apply initializer initializerEdits = .ok edited

theorem exists_stage_addNode_iff (h : index.Consistent) (hn : n.validate = .ok ()) :
    (∃ staged, stage index (.addNode n) = .ok staged) ↔ (addNode n).Admissible index := by
  have hvalid := (Node.validate_eq_ok_iff_children.1 hn).1.id_valid
  have hparent : checkParent index n = .ok () ↔
      n.kind = .unit ∨ ∃ p m, Id.parent? n.id = some p ∧ index[p]? = some m ∧
        m.kind.canContain n.kind = true := by
    rw [checkParent_eq_ok_iff h]
    by_cases hk : n.kind = .unit
    · rw [hk] at hvalid
      simp [hk, Kind.parent?_of_isValidId_unit hvalid]
    · obtain ⟨p, hp⟩ := Kind.exists_parent?_of_isValidId hvalid hk
      simp [hk, hp]
  simp only [stage_addNode_eq_ok_iff, Admissible, NameMap.contains_eq_false_iff, ← hparent]
  simp

theorem exists_stage_attributeEdit_iff (h : index.Consistent) (he : e.isAttributeEdit = true) :
    (∃ staged, stage index e = .ok staged) ↔
      ∃ n r, index[e.id]? = some n ∧ revise index n e = .ok r := by
  simp only [stage_attributeEdit_eq_ok_iff h he]
  constructor
  · intro hex
    obtain ⟨_, n, r, hn, hr, -⟩ := hex
    exact ⟨n, r, hn, hr⟩
  · intro hex
    obtain ⟨n, r, hn, hr⟩ := hex
    exact ⟨_, n, r, hn, hr, rfl⟩

/-- On a consistent index the checks accept exactly the admissible edits. -/
theorem exists_stage_iff (h : index.Consistent) (hc : e.check = .ok ()) :
    (∃ staged, stage index e = .ok staged) ↔ e.Admissible index := by
  cases e with
  | addNode n => exact exists_stage_addNode_iff h hc
  | removeNode x =>
    rw [Admissible, NameMap.contains_eq_true_iff]
    simp [stage_removeNode_eq_ok_iff h]
  | editType id modifierEdits supertypeEdits =>
    rw [exists_stage_attributeEdit_iff h rfl]
    simp only [revise_editType_eq_ok_iff, Admissible]
    constructor
    · intro hex
      obtain ⟨n, _, hn, modifiers, supertypes, _, _, ha, hm, hs, -⟩ := hex
      exact ⟨n, modifiers, supertypes, hn, ha, ⟨_, hm⟩, _, hs⟩
    · intro hex
      obtain ⟨n, modifiers, supertypes, hn, ha, ⟨_, hm⟩, _, hs⟩ := hex
      exact ⟨n, _, hn, modifiers, supertypes, _, _, ha, hm, hs, rfl⟩
  | editFunction id modifierEdits parameterEdits bodyEdits =>
    have hparam {n : Node} {modifiers : NameSet} {body : List String} (hn : index[id]? = some n)
        (ha : n.attributes = .function modifiers body) :
        (∃ ps, resolveParameters index n parameterEdits = .ok ps) ↔
          ∃ names, ListEdit.apply n.childNames parameterEdits = .ok names ∧
            names.Perm n.childNames :=
      exists_resolveParameters_iff h ((h.id_eq hn).symm ▸ hn) (by rw [Node.kind, ha]; rfl)
    rw [exists_stage_attributeEdit_iff h rfl]
    simp only [revise_editFunction_eq_ok_iff, Admissible]
    constructor
    · intro hex
      obtain ⟨n, _, hn, modifiers, body, _, _, ps, ha, hm, hps, hb, -⟩ := hex
      exact ⟨n, modifiers, body, hn, ha, ⟨_, hm⟩, (hparam hn ha).1 ⟨ps, hps⟩, _, hb⟩
    · intro hex
      obtain ⟨n, modifiers, body, hn, ha, ⟨_, hm⟩, hnames, _, hb⟩ := hex
      obtain ⟨ps, hps⟩ := (hparam hn ha).2 hnames
      exact ⟨n, _, hn, modifiers, body, _, _, ps, ha, hm, hps, hb, rfl⟩
  | editVar id modifierEdits initializerEdits =>
    rw [exists_stage_attributeEdit_iff h rfl]
    simp only [revise_editVar_eq_ok_iff, Admissible]
    constructor
    · intro hex
      obtain ⟨n, _, hn, modifiers, initializer, _, _, ha, hm, hi, -⟩ := hex
      exact ⟨n, modifiers, initializer, hn, ha, ⟨_, hm⟩, _, hi⟩
    · intro hex
      obtain ⟨n, modifiers, initializer, hn, ha, ⟨_, hm⟩, _, hi⟩ := hex
      exact ⟨n, _, hn, modifiers, initializer, _, _, ha, hm, hi, rfl⟩

end Edit

end SourceHistory
