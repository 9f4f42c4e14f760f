import Mathlib.Data.List.Nodup
import SourceHistory.CommitStore
import SourceHistory.Proofs.Attempt
import SourceHistory.Proofs.Collections

namespace SourceHistory.CommitStore

variable {store : CommitStore} {c : StoredCommit} {done rest commits : List StoredCommit}
  {path : String}

/-- What adding commits to an empty store leads to. -/
inductive Built : CommitStore → Prop where
  | empty : Built .empty
  | add {store next : CommitStore} {commit : Commit} :
    Built store → store.add commit = .ok next → Built next

theorem add_eq_ok_iff {commit : Commit} {next : CommitStore} :
    store.add commit = .ok next ↔
      store.find? commit.revision.id = none ∧
        next = ⟨store.commits ++ [{
          revision := commit.revision
          changed := .ofList commit.changes.keys
          files := commit.changes.toList.foldl changeFile store.headFiles }]⟩ := by
  rw [CommitStore.add]
  cases store.find? commit.revision.id with
  | none => simp [eq_comm]
  | some c => simp

theorem Built.nodup (h : store.Built) :
    (store.commits.map fun c => c.revision.id).Nodup := by
  induction h with
  | empty => exact List.nodup_nil
  | add _ hadd ih =>
    obtain ⟨hnew, rfl⟩ := add_eq_ok_iff.1 hadd
    rw [CommitStore.find?, List.find?_eq_none] at hnew
    rw [List.map_append, List.nodup_append]
    refine ⟨ih, List.nodup_singleton _, fun a ha b hb he => ?_⟩
    obtain ⟨c, hc, rfl⟩ := List.mem_map.1 ha
    rw [List.map_singleton, List.mem_singleton] at hb
    exact hnew c hc (decide_eq_true (he.trans hb))

theorem Built.find? (h : store.Built) (hc : c ∈ store.commits) :
    store.find? c.revision.id = some c := by
  cases hf : store.find? c.revision.id with
  | none =>
    rw [CommitStore.find?, List.find?_eq_none] at hf
    exact absurd (decide_eq_true rfl) (hf c hc)
  | some d =>
    have hd := List.mem_of_find?_eq_some hf
    have hid : d.revision.id = c.revision.id := by simpa using List.find?_some hf
    rw [List.inj_on_of_nodup_map h.nodup hd hc hid]

theorem Built.get (h : store.Built) (hc : c ∈ store.commits) :
    store.get c.revision.id = .ok c := by
  rw [CommitStore.get, h.find? hc]

theorem Built.changedPaths (h : store.Built) (hc : c ∈ store.commits) :
    store.changedPaths c.revision.id = .ok c.changed := by
  rw [CommitStore.changedPaths, h.get hc]
  rfl

theorem Built.fileContent (h : store.Built) (hc : c ∈ store.commits) :
    store.fileContent c.revision.id path = .ok c.files[path]? := by
  rw [CommitStore.fileContent, h.get hc]
  rfl

theorem Built.listFiles (h : store.Built) (hc : c ∈ store.commits) :
    store.listFiles c.revision.id = .ok (.ofList c.files.keys) := by
  rw [CommitStore.listFiles, h.get hc]
  rfl

/-- The revisions among `commits` that changed a path. -/
def revisionsOf (commits : List StoredCommit) (path : String) : List Revision :=
  (commits.filter fun c => c.changed.contains path).map StoredCommit.revision

theorem revisionsOf_append_of_mem (h : path ∈ c.changed) :
    revisionsOf (commits ++ [c]) path = revisionsOf commits path ++ [c.revision] := by
  simp [revisionsOf, List.filter_append, h]

theorem revisionsOf_append_of_not_mem (h : path ∉ c.changed) :
    revisionsOf (commits ++ [c]) path = revisionsOf commits path := by
  simp [revisionsOf, List.filter_append, h]

theorem Built.pathHistory (h : store.Built) :
    store.toVersionControl.pathHistory path = .ok (revisionsOf store.commits path) := by
  have hfilter : ∀ cs : List StoredCommit, (∀ c ∈ cs, c ∈ store.commits) →
      VersionControl.filterChanged store.changedPaths path (cs.map StoredCommit.revision) =
        .ok (revisionsOf cs path) := by
    intro cs hcs
    induction cs with
    | nil => rfl
    | cons c cs ih =>
      obtain ⟨hc, hcs⟩ := List.forall_mem_cons.1 hcs
      simp only [List.map_cons, VersionControl.filterChanged, h.changedPaths hc, ih hcs, bind,
        Except.bind, revisionsOf]
      by_cases hp : c.changed.contains path = true <;> simp [hp, pure, Except.pure]
  exact hfilter store.commits fun _ hc => hc

theorem headFiles_append (done : List StoredCommit) (c : StoredCommit) :
    headFiles ⟨done ++ [c]⟩ = c.files := by
  simp [headFiles]

theorem getElem?_foldl_changeFile {changes : List (String × Option (List UInt8))}
    {files : NameMap (List UInt8)} (h : path ∉ changes.map Prod.fst) :
    (changes.foldl changeFile files)[path]? = files[path]? := by
  induction changes generalizing files with
  | nil => rfl
  | cons change changes ih =>
    obtain ⟨hp, hrest⟩ := not_or.1 (mt List.mem_cons.2 h)
    rw [List.foldl_cons, ih hrest, changeFile]
    split
    · exact NameMap.getElem?_insert_of_ne _ _ hp
    · exact NameMap.getElem?_erase_of_ne _ hp

/-- A commit leaves what it did not change. -/
theorem Built.files_of_not_mem (h : store.Built) (he : store.commits = done ++ c :: rest)
    (hp : path ∉ c.changed) : c.files[path]? = (headFiles ⟨done⟩)[path]? := by
  induction h generalizing rest with
  | empty =>
    change [] = done ++ c :: rest at he
    simp at he
  | @add store next commit _ hadd ih =>
    obtain ⟨-, rfl⟩ := add_eq_ok_iff.1 hadd
    rcases List.eq_nil_or_concat rest with rfl | ⟨rest, last, rfl⟩
    · obtain ⟨rfl, hc⟩ := List.append_inj' he rfl
      obtain rfl := List.singleton_inj.1 hc
      apply getElem?_foldl_changeFile
      rw [Std.ExtTreeMap.map_fst_toList_eq_keys]
      simpa using hp
    · rw [List.concat_eq_append, ← List.cons_append, ← List.append_assoc] at he
      exact ih (List.append_inj' he rfl).1

end SourceHistory.CommitStore
