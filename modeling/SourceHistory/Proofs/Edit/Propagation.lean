import SourceHistory.Proofs.Edit.Locality
import SourceHistory.Proofs.NodeIndex.Operations

namespace SourceHistory

open SourceHistory.Id (Within)

variable {index result : NodeIndex} {x c p : String} {n : Node} {child? : Option Node} {e : Edit}

/-- After an update there is one child `x`, its new version, or none if it has no new version. -/
theorem Node.filter_updatedChildren_self (h : n.WellFormed)
    (hid : ∀ c, child? = some c → c.id = x)
    (hfit : ∀ c, child? = some c → n.kind.canContain c.kind = true) :
    ((n.updatedChildren x child?).filter fun c => c.id = x) = child?.toList := by
  have hperm := (updatedChildren_perm h hfit (x := x)).filter fun c => decide (c.id = x)
  have hnew : (child?.toList.filter fun c => decide (c.id = x)) = child?.toList := by
    rw [List.filter_eq_self]
    exact fun c hm => decide_eq_true (hid c (Option.mem_toList.1 hm))
  have hold : ((n.children.filter fun c => c.id ≠ x).filter fun c => decide (c.id = x)) = [] := by
    simp [List.filter_filter]
  rw [List.filter_append, hnew, hold, List.append_nil] at hperm
  cases child? with
  | none => exact hperm.eq_nil
  | some c => exact List.perm_singleton.1 hperm

namespace Edit

open NodeIndex

/-- Once its node is written, an edit that goes through rebuilds all ancestors. -/
theorem exists_stage_of_applyTo_eq_done (h : e.applyTo index = .done result) :
    ∃ staged, stage index e = .ok staged ∧ rebuildAncestors staged e.id = .done result := by
  rw [applyTo] at h
  split at h
  · cases congrArg Attempt.error? h
  · next staged hs => exact ⟨staged, hs, h⟩

/-- An edit that goes through mends every link above its node, however old the copies were that the
index held: each parent on the way up has the current entry of the id below it as its one child of
that id, or no such child if there is no entry. Its attributes and its other children stay as they
were. -/
theorem applyTo_mends_chain (h : index.Reached) (hc : e.check = .ok ())
    (happly : e.applyTo index = .done result) (hw : Within e.id c) (hp : Id.parent? c = some p) :
    ∃ n m, index[p]? = some n ∧ result[p]? = some m ∧ m.id = n.id ∧ m.attributes = n.attributes ∧
      (m.children.filter fun d => d.id = c) = result[c]?.toList ∧
      (m.children.filter fun d => d.id ≠ c) = n.children.filter fun d => d.id ≠ c := by
  obtain ⟨staged, hstage, hdone⟩ := exists_stage_of_applyTo_eq_done happly
  obtain ⟨n, hn, hm, hfit⟩ := exists_withCurrent_of_done hdone hw hp
  have hwf : n.WellFormed := (h.valid.stage hc hstage).sound.wellFormed hn
  have hresult : result.Valid := by
    have hvalid := h.valid.applyTo hc
    rwa [happly] at hvalid
  have hid : ∀ d, result[c]? = some d → d.id = c := fun d hd => hresult.id_eq hd
  -- the write of the node does not reach above it
  have habove : ¬ Within p e.id := fun hpe => Id.not_within_of_parent? hp (hpe.trans hw)
  rw [getElem?_stage_of_not_within h.valid.sound hc hstage habove] at hn
  refine ⟨n, _, hn, hm, rfl, rfl, Node.filter_updatedChildren_self hwf hid hfit, ?_⟩
  exact Node.filter_updatedChildren (fun d hd => by simp [hid d hd]) (fun d _ hd => by simp [hd])

/-- A type was replaced by a version without its member and with another one that is no entry; the
edit of a variable below the member puts the member back and leaves the stranger where it is. -/
theorem applyTo_mends_chain_of_stale :
    let x (body : List String) : Node := ⟨"a:T:U:x", .var ∅ body, []⟩
    let inner (body : List String) : Node := ⟨"a:T:U", .type ∅ ∅, [x body]⟩
    let outer (members : List Node) : Node := ⟨"a:T", .type ∅ ∅, members⟩
    let stranger : Node := ⟨"a:T:y", .var ∅ [], []⟩
    let index := replace (insertSubtree ∅ ⟨"a", .unit, [outer [inner []]]⟩) (outer [stranger])
    let edit := Edit.editVar "a:T:U:x" [] [.add 0 "1"]
    ∃ result n m, edit.applyTo index = .done result ∧ index["a:T"]? = some n ∧
      result["a:T"]? = some m ∧ n.children = [stranger] ∧
      (m.children.filter fun d => d.id = "a:T:U") = [inner ["1"]] ∧
      (m.children.filter fun d => d.id ≠ "a:T:U") = [stranger] := by
  intro x inner outer stranger index edit
  have hunit : Node.Constructed ⟨"a", .unit, [outer [inner []]]⟩ :=
    Node.constructed_iff.2 (by decide +kernel)
  have houter : (outer [stranger]).Constructed := Node.constructed_iff.2 (by decide +kernel)
  have hindex : index.Reached := .replace (.insertSubtree .empty hunit) houter
  have happly : edit.applyTo index = .done (edit.applyTo index).state :=
    Attempt.eq_done_of_succeeded (by decide +kernel)
  have hw : Within edit.id "a:T:U" := Within.of_parent? (by decide +kernel)
  have hold : index["a:T"]? = some (outer [stranger]) := by decide +kernel
  have hnew : (edit.applyTo index).state["a:T:U"]? = some (inner ["1"]) := by decide +kernel
  obtain ⟨n, m, hn, hm, -, -, hcurrent, hother⟩ :=
    applyTo_mends_chain hindex (by decide +kernel) happly hw (p := "a:T") (by decide +kernel)
  obtain rfl : n = outer [stranger] := Option.some.inj (hn.symm.trans hold)
  refine ⟨_, _, m, happly, hn, hm, rfl, ?_, ?_⟩
  · rw [hcurrent, hnew]
    rfl
  · rw [hother]
    decide +kernel

end Edit

end SourceHistory
