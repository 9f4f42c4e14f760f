import Mathlib.Logic.Function.Iterate
import SourceHistory.Proofs.Id.Ancestry

namespace SourceHistory.Id

variable {id parent name a k x : String}

/-- Below `parent` one more text ends before a separator: that of `parent` itself. -/
theorem startsWith_child_iff (hn : separator ∉ name.toList) :
    a.toList ++ [separator] <+: (child parent name).toList ↔
      a = parent ∨ a.toList ++ [separator] <+: parent.toList := by
  have hchild : (child parent name).toList = (parent.toList ++ [separator]) ++ name.toList := by
    simp
  rw [hchild]
  constructor
  · rintro ⟨rest, hrest⟩
    rcases List.append_eq_append_iff.1 hrest with ⟨m, hm, -⟩ | ⟨m, hm, hname⟩
    · rcases List.prefix_concat_iff.1 ⟨m, hm.symm⟩ with he | hbefore
      · exact Or.inl (String.toList_injective (List.append_inj_left' he rfl))
      · exact Or.inr hbefore
    · -- a separator further right would stand in the name
      rcases List.eq_nil_or_concat m with rfl | ⟨m, c, rfl⟩
      · rw [List.append_nil] at hm
        exact Or.inl (String.toList_injective (List.append_inj_left' hm rfl))
      · rw [List.concat_eq_append, ← List.append_assoc] at hm
        obtain rfl : separator = c := List.singleton_inj.1 (List.append_inj_right' hm rfl)
        exact absurd (hname ▸ by simp) hn
  · rintro (rfl | hbefore)
    · exact List.prefix_append _ _
    · exact hbefore.trans (List.append_assoc parent.toList _ _ ▸ List.prefix_append _ _)

theorem mem_ancestors_iff : a ∈ ancestors id ↔ a.toList ++ [separator] <+: id.toList := by
  induction id using parent_induction with
  | unit id hp =>
    rw [ancestors_of_parent?_none hp]
    refine iff_of_false List.not_mem_nil fun hbefore => ?_
    exact parent?_eq_none_iff.1 hp (hbefore.subset (by simp))
  | entity id p hp ih =>
    obtain ⟨name, hn, rfl⟩ := parent?_eq_some_iff.1 hp
    rw [ancestors_of_parent?_some hp, List.mem_cons, ih, startsWith_child_iff hn]

theorem within_iff_startsWith : Within k x ↔ k = x ∨ x.toList ++ [separator] <+: k.toList := by
  rw [Within, mem_ancestors_iff, eq_comm]

theorem length_ancestors (id : String) : (ancestors id).length = id.toList.count separator := by
  induction id using parent_induction with
  | unit id hp =>
    rw [ancestors_of_parent?_none hp, List.count_eq_zero.2 (parent?_eq_none_iff.1 hp)]
    rfl
  | entity id p hp ih =>
    obtain ⟨name, hn, rfl⟩ := parent?_eq_some_iff.1 hp
    rw [ancestors_of_parent?_some hp, List.length_cons, ih, toList_child, List.count_append,
      List.count_cons_self, List.count_eq_zero.2 hn]

/-- Step by step from parent to parent, until there is none. -/
theorem iterate_parent? (id : String) (i : Nat) :
    (fun id? => id?.bind parent?)^[i] (some id) = (id :: ancestors id)[i]? := by
  have hnone : ∀ i : Nat, (fun id? => id?.bind parent?)^[i] none = none :=
    fun i => Function.iterate_fixed rfl i
  induction i generalizing id with
  | zero => rfl
  | succ i ih =>
    rw [Function.iterate_succ_apply, Option.bind_some, List.getElem?_cons_succ]
    cases hp : parent? id with
    | none => rw [hnone, ancestors_of_parent?_none hp, List.getElem?_nil]
    | some p => rw [ih, ancestors_of_parent?_some hp]

theorem pairwise_ancestors (id : String) :
    (id :: ancestors id).Pairwise fun a b => b.utf8ByteSize < a.utf8ByteSize := by
  refine List.pairwise_cons.2 ⟨fun a ha => utf8ByteSize_lt_of_mem_ancestors ha, ?_⟩
  induction id using parent_induction with
  | unit id hp =>
    rw [ancestors_of_parent?_none hp]
    exact List.Pairwise.nil
  | entity id p hp ih =>
    rw [ancestors_of_parent?_some hp]
    exact List.pairwise_cons.2 ⟨fun a ha => utf8ByteSize_lt_of_mem_ancestors ha, ih⟩

theorem getLast_ancestors (id : String) :
    (id :: ancestors id).getLast (List.cons_ne_nil _ _) = sourcePath id := by
  induction id using parent_induction with
  | unit id hp => simp only [ancestors_of_parent?_none hp, List.getLast_singleton,
      sourcePath_of_parent?_none hp]
  | entity id p hp ih =>
    rw [List.getLast_cons (by simp [ancestors_of_parent?_some hp]), sourcePath_of_parent?_some hp,
      ← ih]
    simp only [ancestors_of_parent?_some hp]

theorem utf8ByteSize_le_of_parentsFirst {a b : String} (h : parentsFirst a b = true) :
    a.utf8ByteSize ≤ b.utf8ByteSize := by
  simp only [parentsFirst, Bool.or_eq_true, Bool.and_eq_true, decide_eq_true_eq] at h
  omega

theorem utf8ByteSize_le_of_childrenFirst {a b : String} (h : childrenFirst a b = true) :
    b.utf8ByteSize ≤ a.utf8ByteSize := by
  simp only [childrenFirst, Bool.or_eq_true, Bool.and_eq_true, decide_eq_true_eq] at h
  omega

/-- Sizes decide between an id and its ancestors, texts never do. -/
theorem ordered_of_mem_ancestors (h : a ∈ ancestors id) :
    (parentsFirst a id = true ∧ parentsFirst id a = false) ∧
      childrenFirst id a = true ∧ childrenFirst a id = false := by
  have hlt := utf8ByteSize_lt_of_mem_ancestors h
  refine ⟨⟨?_, ?_⟩, ?_, ?_⟩
  · simp [parentsFirst, hlt]
  · exact Bool.eq_false_iff.2 fun hle => absurd (utf8ByteSize_le_of_parentsFirst hle) (by omega)
  · simp [childrenFirst, hlt]
  · exact Bool.eq_false_iff.2 fun hle => absurd (utf8ByteSize_le_of_childrenFirst hle) (by omega)

theorem pairwise_mergeSort_parentsFirst (ids : List String) :
    (ids.mergeSort parentsFirst).Pairwise fun a b => b ∉ ancestors a := by
  refine (pairwise_mergeSort (fun _ _ => parentsFirst_iff) ids).imp fun hkey hmem => ?_
  have hle := utf8ByteSize_le_of_parentsFirst (parentsFirst_iff.2 hkey)
  exact absurd (utf8ByteSize_lt_of_mem_ancestors hmem) (by omega)

theorem pairwise_mergeSort_childrenFirst (ids : List String) :
    (ids.mergeSort childrenFirst).Pairwise fun a b => a ∉ ancestors b := by
  refine (pairwise_mergeSort (fun _ _ => childrenFirst_iff) ids).imp fun hkey hmem => ?_
  have hle := utf8ByteSize_le_of_childrenFirst (childrenFirst_iff.2 hkey)
  exact absurd (utf8ByteSize_lt_of_mem_ancestors hmem) (by omega)

/-- The way up from an id takes one step for each separator and meets exactly the texts before them,
the longest first, and last the path of the unit; each step cuts off a separator and the last
segment. Both orders of ids keep ancestors apart from what is below them: the one puts them before
it, the other after it, and so do the lists sorted by them. -/
theorem ancestors_cut_at_separators (id : String) :
    ((∀ i : Nat, (fun id? => id?.bind parent?)^[i] (some id) = (id :: ancestors id)[i]?) ∧
      (ancestors id).length = id.toList.count separator) ∧
    ((∀ a : String, a ∈ ancestors id ↔ a.toList ++ [separator] <+: id.toList) ∧
      (id :: ancestors id).Pairwise fun a b => b.utf8ByteSize < a.utf8ByteSize) ∧
    (id :: ancestors id).getLast (List.cons_ne_nil _ _) = sourcePath id ∧
    (∀ p : String, parent? id = some p → id = p ++ String.singleton separator ++ simpleName id) ∧
    (∀ a ∈ ancestors id, (parentsFirst a id = true ∧ parentsFirst id a = false) ∧
      childrenFirst id a = true ∧ childrenFirst a id = false) ∧
    ∀ ids : List String,
      ((ids.mergeSort parentsFirst).Pairwise fun a b => b ∉ ancestors a) ∧
        (ids.mergeSort childrenFirst).Pairwise fun a b => a ∉ ancestors b := by
  refine ⟨⟨iterate_parent? id, length_ancestors id⟩,
    ⟨fun _ => mem_ancestors_iff, pairwise_ancestors id⟩, getLast_ancestors id, fun p hp => ?_,
    fun _ ha => ordered_of_mem_ancestors ha, fun ids => ?_⟩
  · rw [← child_eq_append, child_simpleName hp]
  · exact ⟨pairwise_mergeSort_parentsFirst ids, pairwise_mergeSort_childrenFirst ids⟩

/-- Empty segments count like others, and a character of two bytes does not shift the cuts. -/
theorem ancestors_cut_at_separators_of_empty_segments :
    parent? "ä::b:" = some "ä::b" ∧ "ä:" ∈ ancestors "ä::b:" ∧ "ä:b" ∉ ancestors "ä::b:" ∧
      (ancestors "ä::b:").length = 3 ∧ "ä::b:" = "ä::b" ++ ":" ++ simpleName "ä::b:" ∧
      parentsFirst "ä::b:" "ä:" = false := by
  obtain ⟨⟨-, hlength⟩, ⟨hmem, -⟩, -, hcut, horder, -⟩ := ancestors_cut_at_separators "ä::b:"
  have hparent : parent? "ä::b:" = some "ä::b" := by decide +kernel
  have habove : "ä:" ∈ ancestors "ä::b:" := (hmem "ä:").2 (by decide +kernel)
  refine ⟨hparent, habove, fun h => ?_, ?_, hcut "ä::b" hparent, (horder "ä:" habove).1.2⟩
  · exact absurd ((hmem "ä:b").1 h) (by decide +kernel)
  · rw [hlength]
    decide +kernel

end SourceHistory.Id
