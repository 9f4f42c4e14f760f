import SourceHistory.Proofs.CommitStore

namespace SourceHistory.CommitStore

variable {store : CommitStore} {commits done rest : List Commit} {c : Commit} {path : String}
  {changes : List (String × Option (List UInt8))} {files : NameMap (List UInt8)}

/-- What `commits` did last to a path: its new content, or `some none` for a deletion. -/
def lastChange? (commits : List Commit) (path : String) : Option (Option (List UInt8)) :=
  (commits.filterMap fun c => c.changes[path]?).getLast?

theorem lastChange?_append (commits : List Commit) (c : Commit) (path : String) :
    lastChange? (commits ++ [c]) path = c.changes[path]?.or (lastChange? commits path) := by
  cases hc : c.changes[path]? <;> simp [lastChange?, hc]

/-- The store that took `commits` one after the other, starting with none. -/
inductive Took : CommitStore → List Commit → Prop where
  | empty : Took .empty []
  | add {store next : CommitStore} {commits : List Commit} {c : Commit} :
    Took store commits → store.add c = .ok next → Took next (commits ++ [c])

theorem Took.built (h : store.Took commits) : store.Built := by
  induction h with
  | empty => exact .empty
  | add _ hadd ih => exact .add ih hadd

theorem getElem?_foldl_changeFile_of_mem {change : Option (List UInt8)}
    (hnd : (changes.map Prod.fst).Nodup) (hm : (path, change) ∈ changes) :
    (changes.foldl changeFile files)[path]? = change := by
  induction changes generalizing files with
  | nil => cases hm
  | cons head changes ih =>
    obtain ⟨hnew, hnd⟩ := List.nodup_cons.1 hnd
    rcases List.mem_cons.1 hm with rfl | hm
    · rw [List.foldl_cons, getElem?_foldl_changeFile hnew]
      cases change with
      | none => rw [changeFile, NameMap.getElem?_erase, if_pos rfl]
      | some content => rw [changeFile, NameMap.getElem?_insert, if_pos rfl]
    · exact ih hnd hm

/-- A commit leaves at each path what it says about it, and what was there if it says nothing. -/
theorem getElem?_foldl_changes (changes : NameMap (Option (List UInt8)))
    (files : NameMap (List UInt8)) (path : String) :
    (changes.toList.foldl changeFile files)[path]? = changes[path]?.getD files[path]? := by
  cases hp : changes[path]? with
  | none =>
    apply getElem?_foldl_changeFile
    rw [Std.ExtTreeMap.map_fst_toList_eq_keys]
    exact (NameMap.not_mem_keys_iff changes path).2 hp
  | some change =>
    apply getElem?_foldl_changeFile_of_mem
    · rw [Std.ExtTreeMap.map_fst_toList_eq_keys]
      exact Std.ExtTreeMap.nodup_keys
    · exact Std.ExtTreeMap.mem_toList_iff_getElem?_eq_some.2 hp

theorem join_lastChange?_append (commits : List Commit) (c : Commit) (path : String) :
    (lastChange? (commits ++ [c]) path).join =
      c.changes[path]?.getD (lastChange? commits path).join := by
  rw [lastChange?_append]
  cases c.changes[path]? <;> rfl

theorem Took.headFiles (h : store.Took commits) (path : String) :
    store.headFiles[path]? = (lastChange? commits path).join := by
  induction h with
  | empty => simp [CommitStore.headFiles, CommitStore.empty, lastChange?]
  | @add store next commits c _ hadd ih =>
    obtain ⟨-, rfl⟩ := add_eq_ok_iff.1 hadd
    rw [headFiles_append, getElem?_foldl_changes, ih, join_lastChange?_append]

theorem Took.listRevisions (h : store.Took commits) :
    store.listRevisions = commits.map Commit.revision := by
  induction h with
  | empty => rfl
  | add _ hadd ih =>
    obtain ⟨-, rfl⟩ := add_eq_ok_iff.1 hadd
    rw [CommitStore.listRevisions] at ih
    rw [CommitStore.listRevisions, List.map_append, ih, List.map_append]
    rfl

theorem Took.map_id (h : store.Took commits) :
    (store.commits.map fun c => c.revision.id) = commits.map fun c => c.revision.id := by
  have hids := congrArg (List.map Revision.id) h.listRevisions
  rwa [CommitStore.listRevisions, List.map_map, List.map_map] at hids

theorem Took.find?_eq_none_iff (h : store.Took commits) {id : String} :
    store.find? id = none ↔ id ∉ commits.map fun c => c.revision.id := by
  rw [← h.map_id, CommitStore.find?, List.find?_eq_none]
  simp

/-- A commit is taken exactly if its revision id is new. -/
theorem Took.exists_add_iff (h : store.Took commits) :
    (∃ next, store.add c = .ok next) ↔ c.revision.id ∉ commits.map fun c => c.revision.id := by
  simp only [add_eq_ok_iff, ← h.find?_eq_none_iff, exists_and_left, exists_eq, and_true]

/-- A commit with a known revision id is refused, with the id in the message. -/
theorem Took.add_of_mem (h : store.Took commits)
    (hc : c.revision.id ∈ commits.map fun c => c.revision.id) :
    store.add c = .error (.malformed ("duplicate revision '" ++ c.revision.id ++ "'")) := by
  have hfound : store.find? c.revision.id ≠ none := fun hnone => h.find?_eq_none_iff.1 hnone hc
  rw [CommitStore.add, if_pos (Option.isSome_iff_ne_none.2 hfound)]

/-- The stored form of a commit in the middle. -/
theorem Took.exists_stored (h : store.Took (done ++ c :: rest)) :
    ∃ s ∈ store.commits, s.revision = c.revision ∧ s.changed = .ofList c.changes.keys ∧
      ∀ path : String, s.files[path]? = (lastChange? (done ++ [c]) path).join := by
  generalize he : done ++ c :: rest = commits at h
  induction h generalizing rest with
  | empty => simp at he
  | @add store next commits last h hadd ih =>
    obtain ⟨-, rfl⟩ := add_eq_ok_iff.1 hadd
    rcases List.eq_nil_or_concat rest with rfl | ⟨rest, x, rfl⟩
    · obtain ⟨rfl, hlast⟩ := List.append_inj' he rfl
      obtain rfl := List.singleton_inj.1 hlast
      refine ⟨_, List.mem_append_right _ (List.mem_singleton_self _), rfl, rfl, fun path => ?_⟩
      rw [getElem?_foldl_changes, h.headFiles, join_lastChange?_append]
    · rw [List.concat_eq_append, ← List.cons_append, ← List.append_assoc] at he
      obtain ⟨s, hs, hstored⟩ := ih (List.append_inj' he rfl).1
      exact ⟨s, List.mem_append_left _ hs, hstored⟩

theorem Took.revision (h : store.Took (done ++ c :: rest)) :
    store.toVersionControl.revision c.revision.id = .ok (some c.revision) := by
  obtain ⟨s, hs, hrevision, -⟩ := h.exists_stored
  change Except.ok ((store.find? c.revision.id).map StoredCommit.revision) = _
  rw [← hrevision, h.built.find? hs, Option.map_some]

theorem Took.changedPaths (h : store.Took (done ++ c :: rest)) :
    store.changedPaths c.revision.id = .ok (.ofList c.changes.keys) := by
  obtain ⟨s, hs, hrevision, hchanged, -⟩ := h.exists_stored
  rw [← hrevision, h.built.changedPaths hs, hchanged]

theorem Took.fileContent (h : store.Took (done ++ c :: rest)) (path : String) :
    store.fileContent c.revision.id path = .ok (lastChange? (done ++ [c]) path).join := by
  obtain ⟨s, hs, hrevision, -, hfiles⟩ := h.exists_stored
  rw [← hrevision, h.built.fileContent hs, hfiles]

/-- What a commit does not change is as it was at the revision before. -/
theorem Took.fileContent_of_not_mem {before : List Commit} {b : Commit}
    (h : store.Took (before ++ b :: c :: rest)) (hpath : path ∉ c.changes) :
    store.fileContent c.revision.id path = store.fileContent b.revision.id path := by
  have hsame : c.changes[path]? = none := Std.ExtTreeMap.getElem?_eq_none hpath
  have hnext : store.Took ((before ++ [b]) ++ c :: rest) := by simpa using h
  rw [h.fileContent, hnext.fileContent, join_lastChange?_append, hsame, Option.getD_none]

/-- Listed are the paths that have content. -/
theorem Took.exists_listFiles (h : store.Took (done ++ c :: rest)) :
    ∃ files, store.listFiles c.revision.id = .ok files ∧ ∀ path,
      path ∈ files ↔ ∃ content, store.fileContent c.revision.id path = .ok (some content) := by
  obtain ⟨s, hs, hrevision, -⟩ := h.exists_stored
  refine ⟨.ofList s.files.keys, hrevision ▸ h.built.listFiles hs, fun path => ?_⟩
  rw [NameMap.mem_ofList_keys_iff, Option.ne_none_iff_exists', ← hrevision, h.built.fileContent hs]
  simp

theorem Took.pathHistory (h : store.Took commits) (path : String) :
    store.toVersionControl.pathHistory path =
      .ok ((commits.filter fun c => c.changes.contains path).map Commit.revision) := by
  rw [h.built.pathHistory]
  congr 1
  induction h with
  | empty => rfl
  | @add store next commits c _ hadd ih =>
    obtain ⟨-, rfl⟩ := add_eq_ok_iff.1 hadd
    rw [List.filter_append, List.map_append, ← ih]
    have hchanged : path ∈ (.ofList c.changes.keys : NameSet) ↔ c.changes.contains path = true := by
      rw [NameMap.mem_ofList_keys, Std.ExtTreeMap.contains_iff_mem]
    by_cases hp : c.changes.contains path = true
    · rw [revisionsOf_append_of_mem (hchanged.2 hp)]
      simp [hp]
    · rw [revisionsOf_append_of_not_mem (mt hchanged.1 hp)]
      simp [hp]

/-- A store tells its history from the changes of its commits alone. Revisions are told apart by
their ids, a commit with an id that is taken is refused, and each revision answers for its own
commit: which paths it changed, and at each path what the last change up to it has left. Files are
the paths with content, a path that a commit does not change stays as it was before, and the history
of a path is the revisions whose commits change it, oldest first. -/
theorem answers_follow_changes (h : store.Took commits) :
    let vcs := store.toVersionControl
    ((commits.map fun c => c.revision.id).Nodup ∧
      ∀ c : Commit, ((∃ next, store.add c = .ok next) ↔
          c.revision.id ∉ commits.map fun c => c.revision.id) ∧
        ((c.revision.id ∈ commits.map fun c => c.revision.id) →
          store.add c = .error (.malformed ("duplicate revision '" ++ c.revision.id ++ "'")))) ∧
    vcs.listRevisions = .ok (commits.map Commit.revision) ∧
    (∀ (done rest : List Commit) (c : Commit), commits = done ++ c :: rest →
      vcs.revision c.revision.id = .ok (some c.revision) ∧
      (∀ path, vcs.fileContent c.revision.id path = .ok (lastChange? (done ++ [c]) path).join) ∧
      (∃ files, vcs.listFiles c.revision.id = .ok files ∧ ∀ path,
        path ∈ files ↔ ∃ content, vcs.fileContent c.revision.id path = .ok (some content)) ∧
      ∃ changed, vcs.changedPaths c.revision.id = .ok changed ∧
        (∀ path, path ∈ changed ↔ path ∈ c.changes) ∧
        ∀ (before : List Commit) (b : Commit), done = before ++ [b] → ∀ path, path ∉ changed →
          vcs.fileContent c.revision.id path = vcs.fileContent b.revision.id path) ∧
    ∀ path, vcs.pathHistory path =
      .ok ((commits.filter fun c => c.changes.contains path).map Commit.revision) := by
  intro vcs
  refine ⟨⟨h.map_id ▸ h.built.nodup, fun c => ⟨h.exists_add_iff, h.add_of_mem⟩⟩,
    congrArg _ h.listRevisions, ?_, h.pathHistory⟩
  rintro done rest c rfl
  have hchanged := NameMap.mem_ofList_keys c.changes
  refine ⟨h.revision, h.fileContent, h.exists_listFiles, _, h.changedPaths, hchanged, ?_⟩
  rintro before b rfl path hpath
  rw [hchanged] at hpath
  have hbefore : store.Took (before ++ b :: c :: rest) := by simpa using h
  exact hbefore.fileContent_of_not_mem hpath

/-- A file that is deleted and written again, beside one that later commits do not touch. -/
theorem answers_follow_changes_of_deletion :
    let revision (id : String) : Revision := ⟨id, ⟨0, 0⟩, ""⟩
    let first := ((Commit.empty (revision "1")).write "a" [1]).write "b" [2]
    let second := (Commit.empty (revision "2")).delete "b"
    let third := (Commit.empty (revision "3")).write "b" [3]
    ∃ store, Took store [first, second, third] ∧
      store.fileContent "2" "b" = .ok none ∧ store.fileContent "3" "b" = .ok (some [3]) ∧
      store.fileContent "3" "a" = store.fileContent "2" "a" ∧
      store.toVersionControl.pathHistory "a" = .ok [revision "1"] ∧
      store.add (Commit.empty (revision "2")) = .error (.malformed "duplicate revision '2'") := by
  intro revision first second third
  have htook : Took _ [first, second, third] :=
    .add (.add (.add .empty (add_eq_ok_iff.2 ⟨by decide +kernel, rfl⟩))
      (add_eq_ok_iff.2 ⟨by decide +kernel, rfl⟩)) (add_eq_ok_iff.2 ⟨by decide +kernel, rfl⟩)
  obtain ⟨⟨-, hadd⟩, -, hcommits, hhistory⟩ := answers_follow_changes htook
  obtain ⟨-, hsecond, -⟩ := hcommits [first] [third] second rfl
  obtain ⟨-, hthird, -, changed, hchanged, hmem, hkept⟩ :=
    hcommits [first, second] [] third rfl
  have ha : "a" ∉ changed := fun hin => absurd ((hmem "a").1 hin) (by decide +kernel)
  refine ⟨_, htook, ?_, ?_, hkept [first] second rfl "a" ha, ?_, ?_⟩
  · exact (hsecond "b").trans (by decide +kernel)
  · exact (hthird "b").trans (by decide +kernel)
  · exact (hhistory "a").trans (by decide +kernel)
  · exact (hadd (Commit.empty (revision "2"))).2 (by decide +kernel)

end SourceHistory.CommitStore
