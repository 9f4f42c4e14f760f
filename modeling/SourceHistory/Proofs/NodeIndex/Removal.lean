import Mathlib.Logic.Relation
import SourceHistory.Proofs.Id.Prefix
import SourceHistory.Proofs.NodeIndex.Operations
import SourceHistory.Proofs.Snapshot.Reachable

namespace SourceHistory.NodeIndex

open SourceHistory.Id (Within)

open Relation (ReflTransGen)

variable {index : NodeIndex} {pending : List String} {k x : String} {n m : Node}
  {s t : NodeIndex × List String}

/-- One round of a removal, whichever pending id it takes: an id without entry is passed over, and
an entry goes away and leaves the ids it lists in its place. -/
inductive EraseRound : NodeIndex × List String → NodeIndex × List String → Prop where
  | absent {index : NodeIndex} {x : String} (before after : List String) :
    index[x]? = none → EraseRound (index, before ++ x :: after) (index, before ++ after)
  | present {index : NodeIndex} {x : String} {n : Node} (before after : List String) :
    index[x]? = some n →
    EraseRound (index, before ++ x :: after) (index.erase x, before ++ n.childIds ++ after)

/-- A round makes the index smaller, or else the list of pending ids. -/
theorem wellFounded_eraseRound : WellFounded fun after before => EraseRound before after := by
  have hlex := InvImage.wf (fun s : NodeIndex × List String => (s.1.size, s.2.length))
    (Prod.lex Nat.lt_wfRel Nat.lt_wfRel).wf
  refine Subrelation.wf (fun {t s} h => ?_) hlex
  cases h with
  | absent before after hx =>
    refine Prod.Lex.right _ ?_
    change (before ++ after).length < (before ++ _ :: after).length
    simp
  | present before after hx => exact Prod.Lex.left _ _ (size_erase_lt hx)

/-- Rounds stop only where nothing is pending. -/
theorem exists_eraseRound (h : s.2 ≠ []) : ∃ t, EraseRound s t := by
  obtain ⟨index, pending⟩ := s
  obtain ⟨x, pending, rfl⟩ := List.exists_cons_of_ne_nil h
  cases hx : index[x]? with
  | none => exact ⟨_, .absent [] pending hx⟩
  | some n => exact ⟨_, .present [] pending hx⟩

theorem eraseAll_run (index : NodeIndex) (pending : List String) :
    ReflTransGen EraseRound (index, pending) (eraseAll index pending, []) := by
  induction index, pending using eraseAll.induct with
  | case1 index => rw [eraseAll]
  | case2 index x pending hx ih =>
    rw [eraseAll_cons_of_none hx]
    exact .head (.absent [] pending hx) ih
  | case3 index x pending n hx ih =>
    rw [eraseAll_cons_of_some hx]
    exact .head (.present [] pending hx) ih

def Lists (index : NodeIndex) (a b : String) : Prop := ∃ n, index[a]? = some n ∧ b ∈ n.childIds

/-- Something pending leads to `k` over the lists of children. These ids are removed, whichever
pending id a round takes. -/
def LeadsTo (s : NodeIndex × List String) (k : String) : Prop :=
  ∃ x ∈ s.2, ReflTransGen s.1.Lists x k

theorem Lists.of_erase {a b : String} (h : Lists (index.erase x) a b) : index.Lists a b := by
  obtain ⟨n, hn, hb⟩ := h
  rw [NameMap.getElem?_erase] at hn
  split at hn
  · cases hn
  · exact ⟨n, hn, hb⟩

theorem Lists.erase {a b : String} (h : index.Lists a b) (ha : a ≠ x) :
    Lists (index.erase x) a b := by
  obtain ⟨n, hn, hb⟩ := h
  exact ⟨n, (NameMap.getElem?_erase_of_ne index ha).trans hn, hb⟩

/-- A round that passes over `x` loses nothing: `x` leads nowhere but to itself. -/
theorem leadsTo_absent_iff {before after : List String} (hx : index[x]? = none) (hk : k ≠ x) :
    LeadsTo (index, before ++ after) k ↔ LeadsTo (index, before ++ x :: after) k := by
  constructor
  · rintro ⟨y, hy, hyk⟩
    exact ⟨y, ((List.sublist_cons_self x after).append_left before).subset hy, hyk⟩
  · rintro ⟨y, hy, hyk⟩
    by_cases hyx : y = x
    · subst hyx
      rcases hyk.cases_head with he | ⟨c, ⟨n, hn, -⟩, -⟩
      · exact absurd he.symm hk
      · rw [hx] at hn
        cases hn
    · refine ⟨y, ?_, hyk⟩
      simpa [hyx] using hy

/-- A round that removes `x` puts what `x` lists in its place. -/
theorem leadsTo_present_iff {before after : List String} (hx : index[x]? = some n) (hk : k ≠ x) :
    LeadsTo (index.erase x, before ++ n.childIds ++ after) k ↔
      LeadsTo (index, before ++ x :: after) k := by
  have hchild : ∀ c ∈ n.childIds, LeadsTo (index.erase x, before ++ n.childIds ++ after) c :=
    fun c hc => ⟨c, by simp [hc], .refl⟩
  constructor
  · rintro ⟨y, hy, hyk⟩
    have hsub : ∀ a b, Lists (index.erase x) a b → index.Lists a b := fun _ _ h => h.of_erase
    have hyk' : ReflTransGen index.Lists y k := ReflTransGen.mono hsub y k hyk
    rcases List.mem_append.1 hy with hy | hy
    · rcases List.mem_append.1 hy with hy | hy
      · exact ⟨y, by simp [hy], hyk'⟩
      · exact ⟨x, by simp, .head ⟨n, hx, hy⟩ hyk'⟩
    · exact ⟨y, by simp [hy], hyk'⟩
  · rintro ⟨y, hy, hyk⟩
    -- the last time that the way from `y` comes through `x`, it goes on with a child of `x`
    have hway : k = x ∨ LeadsTo (index.erase x, before ++ n.childIds ++ after) k := by
      clear hk
      induction hyk with
      | refl =>
        by_cases hyx : y = x
        · exact Or.inl hyx
        · have hrest : y ∈ before ∨ y ∈ after := by simpa [hyx] using hy
          exact Or.inr ⟨y, by rcases hrest with hy | hy <;> simp [hy], .refl⟩
      | @tail b c _ hbc ih =>
        by_cases hbx : b = x
        · obtain ⟨n', hn', hc⟩ := hbc
          rw [hbx, hx, Option.some.injEq] at hn'
          exact Or.inr (hchild c (hn' ▸ hc))
        · obtain ⟨z, hz, hzb⟩ := ih.resolve_left hbx
          exact Or.inr ⟨z, hz, hzb.tail (hbc.erase hbx)⟩
    exact hway.resolve_left hk

/-- An entry that nothing pending leads to is one after a round exactly if it was one before. -/
theorem EraseRound.survives_iff (h : EraseRound s t) :
    (t.1[k]? = some m ∧ ¬ LeadsTo t k) ↔ s.1[k]? = some m ∧ ¬ LeadsTo s k := by
  cases h with
  | @absent index x before after hx =>
    refine and_congr_right fun hm => ?_
    have hk : k ≠ x := by
      rintro rfl
      rw [hx] at hm
      cases hm
    rw [leadsTo_absent_iff hx hk]
  | @present index x n before after hx =>
    by_cases hk : k = x
    · subst hk
      have hpending : LeadsTo (index, before ++ k :: after) k := ⟨k, by simp, .refl⟩
      simp [hpending]
    · rw [leadsTo_present_iff hx hk, NameMap.getElem?_erase_of_ne _ hk]

theorem survives_iff_of_run (h : ReflTransGen EraseRound s t) :
    (t.1[k]? = some m ∧ ¬ LeadsTo t k) ↔ s.1[k]? = some m ∧ ¬ LeadsTo s k := by
  induction h with
  | refl => exact Iff.rfl
  | tail _ hround ih => rw [hround.survives_iff, ih]

/-- In the end exactly those entries are left that nothing pending led to at the start. -/
theorem getElem?_of_run (h : ReflTransGen EraseRound s t) (ht : t.2 = []) :
    t.1[k]? = some m ↔ s.1[k]? = some m ∧ ¬ LeadsTo s k := by
  have hdone : ¬ LeadsTo t k := by
    rintro ⟨y, hy, -⟩
    rw [ht] at hy
    cases hy
  rw [← survives_iff_of_run h, and_iff_left hdone]

theorem getElem?_eraseSubtree_eq_some_iff :
    (eraseSubtree index x)[k]? = some m ↔
      index[k]? = some m ∧ ¬ ReflTransGen index.Lists x k := by
  have hroot : LeadsTo (index, [x]) k ↔ ReflTransGen index.Lists x k := by simp [LeadsTo]
  rw [← hroot]
  exact getElem?_of_run (eraseAll_run index [x]) rfl

/-- Whatever ids the rounds take, where they stop nothing is pending and the index is the same. -/
theorem eq_of_run (h : ReflTransGen EraseRound s t) (hlast : ∀ next, ¬ EraseRound t next) :
    t = (eraseAll s.1 s.2, []) := by
  have ht : t.2 = [] := by
    by_contra hne
    obtain ⟨next, hnext⟩ := exists_eraseRound hne
    exact hlast next hnext
  refine Prod.ext (Std.ExtTreeMap.ext_getElem? fun k => Option.ext fun m => ?_) ht
  rw [getElem?_of_run h ht, ← getElem?_of_run (eraseAll_run s.1 s.2) rfl]

theorem Consistent.insertSubtree_eraseSubtree (h : index.Consistent) (hx : index[x]? = some n) :
    insertSubtree (eraseSubtree index x) n = index := by
  have hv := h.validate hx
  apply Std.ExtTreeMap.ext_getElem?
  intro k
  apply Option.ext
  intro m
  constructor
  · intro hm
    rcases getElem?_insertSubtree_eq_some hv hm with ⟨hmem, rfl⟩ | ⟨hm, -⟩
    · exact h.getElem?_of_mem_preorder hx hmem
    · exact getElem?_of_getElem?_eraseAll hm
  · intro hm
    by_cases hw : Within k x
    · obtain ⟨r, hr, hmem⟩ := h.exists_mem_preorder hm hw
      obtain rfl : r = n := Option.some.inj (hr.symm.trans hx)
      rw [← h.id_eq hm]
      exact getElem?_insertSubtree_of_mem hv hmem
    · have hroot : ¬ Within k n.id := by rwa [h.id_eq hx]
      rw [getElem?_insertSubtree_of_not_within hv hroot, h.getElem?_eraseSubtree, if_neg hw, hm]

/-- In a snapshot, taking the subtree at an id gives its node, removes exactly the id and the ids
that go on after it with a separator, and writing the node back restores the index. In any index
that operations lead to, the rounds of a removal come to an end, and in whatever order they take the
pending ids, they leave the same index: the entries to which the id does not lead over the lists of
children, as they were. So nothing is gone but the id and ids that go on after it with a
separator. -/
theorem takeSubtree_exact :
    (∀ (s : Snapshot) (x : String) (n : Node), s.Reachable → s.index[x]? = some n →
      (takeSubtree s.index x).1 = some n ∧
      (∀ k : String, (takeSubtree s.index x).2[k]? =
        if k = x ∨ x.toList ++ [Id.separator] <+: k.toList then none else s.index[k]?) ∧
      insertSubtree (takeSubtree s.index x).2 n = s.index) ∧
    ∀ (index : NodeIndex) (x : String), index.Reached →
      Acc (fun after before => EraseRound before after) (index, [x]) ∧
      (∀ last, ReflTransGen EraseRound (index, [x]) last → (∀ next, ¬ EraseRound last next) →
        last = ((takeSubtree index x).2, [])) ∧
      (∀ (k : String) (m : Node), (takeSubtree index x).2[k]? = some m ↔
        index[k]? = some m ∧ ¬ ReflTransGen index.Lists x k) ∧
      ∀ k : String, ¬ (k = x ∨ x.toList ++ [Id.separator] <+: k.toList) →
        (takeSubtree index x).2[k]? = index[k]? := by
  constructor
  · intro s x n hs hx
    have hcons := hs.coherent.index
    refine ⟨hx, fun k => ?_, hcons.insertSubtree_eraseSubtree hx⟩
    rw [takeSubtree, hcons.getElem?_eraseSubtree]
    simp only [Id.within_iff_startsWith]
  · intro index x h
    refine ⟨wellFounded_eraseRound.apply _, fun last hrun hlast => eq_of_run hrun hlast,
      fun k m => getElem?_eraseSubtree_eq_some_iff, fun k hk => ?_⟩
    apply getElem?_eraseAll_of_not_within h.valid.sound.direct
    intro y hy
    rw [List.mem_singleton.1 hy, Id.within_iff_startsWith]
    exact hk

/-- The id of a sibling may go on after `a:T`, but not with a separator; and a type that lists its
member no more does not lead out of its subtree either. -/
theorem takeSubtree_exact_of_similar_ids :
    let type : Node := ⟨"a:T", .type ∅ ∅, [⟨"a:T:x", .var ∅ [], []⟩]⟩
    let unit : Node := ⟨"a", .unit, [type, ⟨"a:T2", .var ∅ [], []⟩]⟩
    let s := (Snapshot.empty.apply (.addNode unit)).state
    let stale := replace (insertSubtree ∅ unit) { type with children := [] }
    (takeSubtree s.index "a:T").2["a:T:x"]? = none ∧
      (takeSubtree s.index "a:T").2["a:T2"]? = some ⟨"a:T2", .var ∅ [], []⟩ ∧
      insertSubtree (takeSubtree s.index "a:T").2 type = s.index ∧
      (takeSubtree stale "a:T").2["a:T2"]? = some ⟨"a:T2", .var ∅ [], []⟩ := by
  intro type unit s stale
  have hunit : unit.validate = .ok () := by decide +kernel
  have hs : s.Reachable := .apply .empty hunit
  have hstale : stale.Reached :=
    .replace (.insertSubtree .empty (Node.constructed_iff.2 hunit))
      (Node.constructed_iff.2 (by decide +kernel))
  have htype : s.index["a:T"]? = some type := by decide +kernel
  have hother : ¬ ("a:T2" = "a:T" ∨ "a:T".toList ++ [Id.separator] <+: "a:T2".toList) := by
    decide +kernel
  obtain ⟨hreachable, hreached⟩ := takeSubtree_exact
  obtain ⟨-, hrest, hback⟩ := hreachable s "a:T" type hs htype
  obtain ⟨-, -, -, hkeep⟩ := hreached stale "a:T" hstale
  refine ⟨?_, ?_, hback, ?_⟩
  · rw [hrest, if_pos (by decide +kernel)]
  · rw [hrest, if_neg hother]
    decide +kernel
  · rw [hkeep "a:T2" hother]
    decide +kernel

end SourceHistory.NodeIndex
