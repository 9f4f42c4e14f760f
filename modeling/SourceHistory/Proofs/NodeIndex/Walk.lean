import Mathlib.Data.List.Perm.Basic
import SourceHistory.Proofs.NodeIndex.Consistent

namespace SourceHistory.NodeIndex

open SourceHistory.Id (Within)

variable {index : NodeIndex} {pending rest : List String} {limit : Nat} {k x : String} {n m : Node}
  {nodes before after : List Node}

/-- A walk that still has to visit `pending` gives `nodes`, one after the other, and ends. -/
inductive Yields (index : NodeIndex) : (pending : List String) → (nodes : List Node) → Prop where
  | done {pending : List String} : next? index pending = none → Yields index pending []
  | step {pending rest : List String} {n : Node} {nodes : List Node} :
    next? index pending = some (n, rest) → Yields index rest nodes → Yields index pending (n :: nodes)

theorem Yields.unique {nodes' : List Node} (h : Yields index pending nodes)
    (h' : Yields index pending nodes') : nodes = nodes' := by
  induction h generalizing nodes' with
  | done hn =>
    cases h' with
    | done _ => rfl
    | step hn' _ => cases hn.symm.trans hn'
  | step hn _ ih =>
    cases h' with
    | done hn' => cases hn.symm.trans hn'
    | step hn' hrest =>
      cases hn.symm.trans hn'
      rw [ih hrest]

theorem next?_cons_of_some (hx : index[x]? = some n) :
    next? index (x :: pending) = some (n, n.childIds ++ pending) := by
  rw [next?, hx]

/-- A step passes over what is not there, takes the first entry and puts its children in its place. -/
theorem next?_eq_some (h : next? index pending = some (n, rest)) :
    ∃ skipped x later, pending = skipped ++ x :: later ∧ index[x]? = some n ∧
      rest = n.childIds ++ later := by
  induction pending with
  | nil => cases h
  | cons x pending ih =>
    rw [next?] at h
    split at h
    · next m hm =>
      cases h
      exact ⟨[], x, pending, rfl, hm, rfl⟩
    · obtain ⟨skipped, y, later, rfl, hy, hrest⟩ := ih h
      exact ⟨x :: skipped, y, later, rfl, hy, hrest⟩

/-- No id lies within another one. The ids that a walk still has to visit stay so, and no id comes
up twice. -/
def Apart (ids : List String) : Prop := ids.Pairwise fun a b => ¬ Within a b ∧ ¬ Within b a

theorem apart_of_parent?_eq {ids : List String} (hnd : ids.Nodup)
    (hp : ∀ a ∈ ids, ∀ b ∈ ids, Id.parent? a = Id.parent? b) : Apart ids := by
  refine hnd.imp_of_mem fun {a b} ha hb hne => ⟨fun hw => hne ?_, fun hw => hne ?_⟩
  · exact (Within.refl a).eq_of_parent?_eq hw (hp a ha b hb)
  · exact hw.eq_of_parent?_eq (Within.refl b) (hp a ha b hb)

theorem Apart.children {later : List String} (h : Apart (x :: later)) {cs : List String}
    (hnd : cs.Nodup) (hcs : ∀ c ∈ cs, Id.parent? c = some x) : Apart (cs ++ later) := by
  obtain ⟨hx, hlater⟩ := List.pairwise_cons.1 h
  have hchildren : Apart cs :=
    apart_of_parent?_eq hnd fun a ha b hb => (hcs a ha).trans (hcs b hb).symm
  refine List.pairwise_append.2 ⟨hchildren, hlater, fun c hc y hy => ⟨fun hw => ?_, fun hw => ?_⟩⟩
  · rcases (Id.within_iff_of_parent?_some (hcs c hc)).1 hw with rfl | hw
    · exact (hx y hy).2 (Within.of_parent? (hcs y hc))
    · exact (hx y hy).1 hw
  · exact (hx y hy).2 (hw.trans (Within.of_parent? (hcs c hc)))

/-- A step visits a pending id, and what is pending after it was so before or is a child of it. -/
theorem Sound.mem_of_next? (h : index.Sound) (hn : next? index pending = some (n, rest)) :
    index[n.id]? = some n ∧ n.id ∈ pending ∧
      ∀ y ∈ rest, y ∈ pending ∨ Id.parent? y = some n.id := by
  obtain ⟨skipped, x, later, rfl, hx, rfl⟩ := next?_eq_some hn
  have hid := h.id_eq hx
  refine ⟨hid ▸ hx, by simp [hid], fun y hy => ?_⟩
  rcases List.mem_append.1 hy with hy | hy
  · exact Or.inr (hid ▸ h.direct x n hx y hy)
  · exact Or.inl (by simp [hy])

/-- Pending ids stay apart, and none of them has the visited id below it. -/
theorem Apart.next? (h : index.Sound) (hp : Apart pending)
    (hn : next? index pending = some (n, rest)) :
    Apart rest ∧ ∀ y ∈ rest, ¬ Within n.id y := by
  obtain ⟨skipped, x, later, rfl, hx, rfl⟩ := next?_eq_some hn
  have hid := h.id_eq hx
  have hdirect := h.direct x n hx
  have hafter : Apart (x :: later) := (List.pairwise_append.1 hp).2.1
  refine ⟨hafter.children (h.wellFormed hx).nodup hdirect, fun y hy => ?_⟩
  rw [hid]
  rcases List.mem_append.1 hy with hy | hy
  · exact Id.not_within_of_parent? (hdirect y hy)
  · exact ((List.pairwise_cons.1 hafter).1 y hy).1

theorem Sound.mem_visit (h : index.Sound) (hm : m ∈ visit index limit pending) :
    index[m.id]? = some m ∧ ∃ x ∈ pending, Within m.id x := by
  induction limit generalizing pending with
  | zero => cases hm
  | succ limit ih =>
    rw [visit] at hm
    split at hm
    · next n rest hn =>
      obtain ⟨hentry, hmem, horigin⟩ := h.mem_of_next? hn
      rcases List.mem_cons.1 hm with rfl | hm
      · exact ⟨hentry, m.id, hmem, Within.refl m.id⟩
      · obtain ⟨hm, y, hy, hw⟩ := ih hm
        rcases horigin y hy with hy | hp
        · exact ⟨hm, y, hy, hw⟩
        · exact ⟨hm, n.id, hmem, hw.trans (Within.of_parent? hp)⟩
    · cases hm

theorem Sound.nodup_visit (h : index.Sound) (hp : Apart pending) :
    ((visit index limit pending).map Node.id).Nodup := by
  induction limit generalizing pending with
  | zero => exact List.nodup_nil
  | succ limit ih =>
    rw [visit]
    split
    · next n rest hn =>
      obtain ⟨hrest, haway⟩ := hp.next? h hn
      refine List.nodup_cons.2 ⟨fun hmem => ?_, ih hrest⟩
      obtain ⟨m, hm, hid⟩ := List.mem_map.1 hmem
      obtain ⟨-, y, hy, hw⟩ := h.mem_visit hm
      exact haway y hy (hid ▸ hw)
    · exact List.nodup_nil

/-- A node comes up as a root or after its parent. -/
theorem Sound.parent_before (h : index.Sound)
    (hv : visit index limit pending = before ++ n :: after) :
    n.id ∈ pending ∨ ∃ m ∈ before, Id.parent? n.id = some m.id := by
  induction limit generalizing pending before with
  | zero => cases before <;> cases hv
  | succ limit ih =>
    rw [visit] at hv
    split at hv
    · next m rest hn =>
      obtain ⟨-, hmem, horigin⟩ := h.mem_of_next? hn
      cases before with
      | nil =>
        obtain ⟨rfl, -⟩ := List.cons.inj hv
        exact Or.inl hmem
      | cons b before =>
        rw [List.cons_append] at hv
        obtain ⟨rfl, hrun⟩ := List.cons.inj hv
        rcases ih hrun with hrest | ⟨a, ha, hp⟩
        · rcases horigin n.id hrest with hpending | hp
          · exact Or.inl hpending
          · exact Or.inr ⟨m, List.mem_cons_self, hp⟩
        · exact Or.inr ⟨a, List.mem_cons_of_mem m ha, hp⟩
    · cases before <;> cases hv

/-- In a walk from units, the whole way down to a node comes before it. -/
theorem Sound.ancestors_before (h : index.Sound) (hroots : ∀ x ∈ pending, Id.parent? x = none)
    (hv : visit index limit pending = before ++ n :: after) :
    ∀ a ∈ Id.ancestors n.id, a ∈ before.map Node.id := by
  induction hid : n.id using Id.parent_induction generalizing n before after with
  | unit id hp => simp [Id.ancestors_of_parent?_none hp]
  | entity id p hp ih =>
    rcases h.parent_before hv with hmem | ⟨m, hm, hparent⟩
    · cases (hroots n.id hmem).symm.trans (hid ▸ hp)
    · obtain rfl : m.id = p := Option.some.inj (hparent.symm.trans (hid ▸ hp))
      obtain ⟨first, second, rfl⟩ := List.append_of_mem hm
      rw [List.append_assoc, List.cons_append] at hv
      rw [Id.ancestors_of_parent?_some hp, List.forall_mem_cons]
      refine ⟨List.mem_map_of_mem hm, fun a ha => ?_⟩
      rw [List.map_append]
      exact List.mem_append_left _ (ih hv rfl a ha)

theorem Yields.visit_eq (h : Yields index pending nodes) (hl : nodes.length ≤ limit) :
    visit index limit pending = nodes := by
  induction h generalizing limit with
  | done hn =>
    cases limit with
    | zero => rfl
    | succ limit => rw [visit, hn]
  | step hn _ ih =>
    cases limit with
    | zero => simp at hl
    | succ limit =>
      rw [visit, hn]
      simp only
      rw [ih (by simpa using hl)]

theorem yields_visit (hl : (visit index limit pending).length < limit) :
    Yields index pending (visit index limit pending) := by
  induction limit generalizing pending with
  | zero => cases hl
  | succ limit ih =>
    rw [visit] at hl ⊢
    split
    · next n rest hn =>
      simp only [hn, List.length_cons, Nat.add_lt_add_iff_right] at hl
      exact .step hn (ih hl)
    · next hn => exact .done hn

/-- The limit never cuts a walk short: its ids are different keys of the index. -/
theorem Sound.yields_walkAll (h : index.Sound) (hp : Apart pending) :
    Yields index pending (walkAll index pending) := by
  have hkeys : (visit index (index.size + 1) pending).map Node.id ⊆ index.keys := by
    intro k hk
    obtain ⟨m, hm, rfl⟩ := List.mem_map.1 hk
    exact (NameMap.mem_keys_iff index m.id).2 ⟨m, (h.mem_visit hm).1⟩
  have hlength : (visit index (index.size + 1) pending).length ≤ index.size := by
    have hle := (List.subperm_of_subset (h.nodup_visit hp) hkeys).length_le
    rwa [List.length_map, Std.ExtTreeMap.length_keys] at hle
  have hyields := yields_visit (Nat.lt_succ_of_le hlength)
  rw [walkAll, hyields.visit_eq hlength]
  exact hyields

/-- A walk from one entry ends, and it stays within it. -/
theorem Sound.exists_walk (h : index.Sound) (hk : index[k]? = some n) :
    ∃ nodes, walk index k = .ok nodes ∧ Yields index [k] nodes ∧ (nodes.map Node.id).Nodup ∧
      ∀ m ∈ nodes, Within m.id k := by
  have hroot : Apart [k] := List.pairwise_singleton _ k
  refine ⟨walkAll index [k], ?_, h.yields_walkAll hroot, h.nodup_visit hroot, fun m hm => ?_⟩
  · rw [walk, if_pos ((NameMap.contains_eq_true_iff index k).2 ⟨n, hk⟩)]
  · obtain ⟨-, x, hx, hw⟩ := h.mem_visit hm
    exact List.mem_singleton.1 hx ▸ hw

theorem Consistent.yields_preorder (h : index.Consistent) (hk : index[k]? = some n)
    (hy : Yields index pending nodes) : Yields index (k :: pending) (n.preorder ++ nodes) := by
  induction n using Node.children_induction generalizing k pending nodes with
  | node n ih =>
    have hchildren : ∀ cs : List Node, (∀ c ∈ cs, c ∈ n.children) →
        Yields index (cs.map Node.id ++ pending) (Node.preorderList cs ++ nodes) := by
      intro cs hcs
      induction cs with
      | nil => exact hy
      | cons c cs ihc =>
        obtain ⟨hc, hcs⟩ := List.forall_mem_cons.1 hcs
        rw [Node.preorderList, List.append_assoc]
        exact ih c hc (h.child hk hc) (ihc hcs)
    rw [Node.preorder_eq, List.cons_append]
    exact .step (next?_cons_of_some hk) (hchildren n.children fun _ hc => hc)

/-- The walk from roots apart is the preorder of one after the other. -/
theorem Consistent.yields_flatMap (h : index.Consistent) {roots : List Node}
    (hr : ∀ r ∈ roots, index[r.id]? = some r) :
    Yields index (roots.map Node.id) (roots.flatMap Node.preorder) := by
  induction roots with
  | nil => exact .done rfl
  | cons r roots ih =>
    obtain ⟨hr, hroots⟩ := List.forall_mem_cons.1 hr
    exact h.yields_preorder hr (ih hroots)

theorem Consistent.walkAll_eq (h : index.Consistent) {roots : List Node}
    (hr : ∀ r ∈ roots, index[r.id]? = some r) (hp : Apart (roots.map Node.id)) :
    walkAll index (roots.map Node.id) = roots.flatMap Node.preorder :=
  (h.toSound.yields_walkAll hp).unique (h.yields_flatMap hr)

end SourceHistory.NodeIndex
