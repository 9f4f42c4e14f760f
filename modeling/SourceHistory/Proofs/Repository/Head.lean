import SourceHistory.Repository
import SourceHistory.Proofs.CommitStore
import SourceHistory.Proofs.History.Process

namespace SourceHistory

def SourceUnit.orEmpty (path : String) : Option SourceUnit → Except Error SourceUnit
  | some unit => .ok unit
  | none => SourceUnit.empty path

namespace Repository

open CommitStore (revisionsOf headFiles headFiles_append)

variable {store : CommitStore} {parser : Parser} {c : StoredCommit}
  {done rest : List StoredCommit} {s t final : Snapshot} {path : String}

/-- A version in front of the walk is read the way it resolves on top of what the walk gave. -/
theorem latestAmong_cons {r : Repository} {revision : Revision} {older : List Revision}
    {current resolved : Option SourceUnit} {content : Option (List UInt8)}
    (hcontent : r.vcs.fileContent revision.id path = .ok content)
    (hold : r.latestAmong path older = SourceUnit.orEmpty path current)
    (hres : History.resolve r.parser path current content = .ok resolved) :
    r.latestAmong path (revision :: older) = SourceUnit.orEmpty path resolved ∧
      (resolved = none ↔ content = none) := by
  rw [latestAmong, hcontent]
  cases content with
  | none =>
    cases hres
    exact ⟨rfl, by simp⟩
  | some bytes =>
    obtain ⟨outcome, hparse, hres⟩ := bind_eq_ok_iff.1 hres
    simp only [VersionControl.lift, Except.mapError, bind, Except.bind, hparse]
    cases outcome with
    | parsed v =>
      cases hres
      exact ⟨rfl, by simp⟩
    | syntaxError =>
      rw [hold]
      cases current with
      | some v =>
        cases hres
        exact ⟨rfl, by simp⟩
      | none =>
        obtain ⟨v, hv, hres⟩ := bind_eq_ok_iff.1 hres
        cases hres
        exact ⟨hv, by simp⟩

/-- The replay of the commits `done` has reached `s`: units stand at sources with files, and each is
what the walk back from there gives. A new commit of a path puts one version in front of that walk.
-/
structure Replayed (store : CommitStore) (parser : Parser) (done : List StoredCommit)
    (s : Snapshot) : Prop where
  coherent : s.Coherent
  source : ∀ {path : String} {u : SourceUnit}, s.units[path]? = some u →
    parser.accepts path = true ∧ Id.isValidPath path = true
  present : ∀ {path : String}, parser.accepts path = true → Id.isValidPath path = true →
    (s.units[path]? = none ↔ (headFiles ⟨done⟩)[path]? = none)
  latest : ∀ {path : String}, parser.accepts path = true → Id.isValidPath path = true →
    latestAmong ⟨store.toVersionControl, parser⟩ path (revisionsOf done path).reverse =
      SourceUnit.orEmpty path s.units[path]?

theorem replayed_nil : Replayed store parser [] .empty where
  coherent := Snapshot.coherent_empty
  source hu := by simp [Snapshot.empty] at hu
  present _ _ := by simp [Snapshot.empty, headFiles]
  latest _ _ := by simp [Snapshot.empty, revisionsOf, latestAmong, SourceUnit.orEmpty]

/-- One more commit. -/
theorem Replayed.step {h : History} {transaction : Transaction} (hb : store.Built)
    (hparser : h.parser.Constructs) (hvcs : h.vcs = store.toVersionControl)
    (hr : Replayed store h.parser done h.snapshot) (he : store.commits = done ++ c :: rest)
    (hproc : h.process c.revision = (t, .ok transaction)) :
    Replayed store h.parser (done ++ [c]) t := by
  have hc : c ∈ store.commits := he ▸ List.mem_append_right done List.mem_cons_self
  obtain ⟨changed, hchanged, hcoh, hres, hkeep⟩ := History.of_process hparser hr.coherent hproc
  have hsame : changed = c.changed := by
    rw [hvcs] at hchanged
    exact Except.ok.inj (hchanged.symm.trans (hb.changedPaths hc))
  subst hsame
  -- At a changed source the commit puts one version in front of the walk.
  have hnew : ∀ path : String, h.parser.accepts path = true → Id.isValidPath path = true →
      path ∈ c.changed → (t.units[path]? = none ↔ c.files[path]? = none) ∧
        latestAmong ⟨store.toVersionControl, h.parser⟩ path (revisionsOf (done ++ [c]) path).reverse =
          SourceUnit.orEmpty path t.units[path]? := by
    intro path ha hv hp
    obtain ⟨content, hcontent, hresolve⟩ :=
      hres path (History.mem_relevantPaths_iff.2 ⟨hp, ha, hv⟩)
    rw [hvcs] at hcontent
    have hfile : content = c.files[path]? :=
      Except.ok.inj (hcontent.symm.trans (hb.fileContent hc))
    obtain ⟨hlatest, hnone⟩ := latestAmong_cons (r := ⟨store.toVersionControl, h.parser⟩) hcontent
      (hr.latest ha hv) hresolve
    refine ⟨hfile ▸ hnone, ?_⟩
    rw [CommitStore.revisionsOf_append_of_mem hp, List.reverse_append]
    exact hlatest
  have hold : ∀ path : String, path ∉ c.changed → t.units[path]? = h.snapshot.units[path]? :=
    fun path hp => hkeep path fun hmem => hp (History.mem_relevantPaths_iff.1 hmem).1
  refine ⟨hcoh, ?_, ?_, ?_⟩
  · intro path u hu
    by_cases hmem : path ∈ History.relevantPaths h.parser c.changed
    · exact (History.mem_relevantPaths_iff.1 hmem).2
    · rw [hkeep path hmem] at hu
      exact hr.source hu
  · intro path ha hv
    rw [headFiles_append]
    by_cases hp : path ∈ c.changed
    · exact (hnew path ha hv hp).1
    · rw [hold path hp, hb.files_of_not_mem he hp]
      exact hr.present ha hv
  · intro path ha hv
    by_cases hp : path ∈ c.changed
    · exact (hnew path ha hv hp).2
    · rw [CommitStore.revisionsOf_append_of_not_mem hp, hold path hp]
      exact hr.latest ha hv

theorem Replayed.of_collect {h : History} {transactions : List Transaction} (hb : store.Built)
    (hparser : h.parser.Constructs) (hvcs : h.vcs = store.toVersionControl)
    (hr : Replayed store h.parser done h.snapshot) (he : store.commits = done ++ rest)
    (hcol : h.collect (rest.map StoredCommit.revision) = .ok (transactions, final)) :
    Replayed store h.parser store.commits final := by
  induction rest generalizing h done transactions with
  | nil =>
    cases hcol
    rw [he, List.append_nil]
    exact hr
  | cons c rest ih =>
    rw [List.map_cons, History.collect] at hcol
    split at hcol
    · cases hcol
    · next snapshot transaction hproc =>
      obtain ⟨⟨later, last⟩, hlater, hret⟩ := bind_eq_ok_iff.1 hcol
      obtain ⟨-, rfl⟩ := Prod.mk.inj (pure_eq_ok_iff.1 hret)
      have hnext := hr.step hb hparser hvcs he hproc
      have he' : store.commits = (done ++ [c]) ++ rest := by simp [he]
      exact ih (h := { h with snapshot := snapshot }) hparser hvcs hnext he' hlater

theorem replayed_of_build {emitEmpty : Bool} {transactions : List Transaction} (hb : store.Built)
    (hparser : parser.Constructs)
    (hbuild : History.build store.toVersionControl parser emitEmpty = .ok (transactions, final)) :
    Replayed store parser store.commits final :=
  Replayed.of_collect
    (h := ⟨store.toVersionControl, parser, emitEmpty, store.listRevisions, .empty, false⟩)
    hb hparser rfl replayed_nil rfl hbuild

theorem Replayed.latestParsed (hr : Replayed store parser store.commits s) (hb : store.Built)
    (ha : parser.accepts path = true) (hv : Id.isValidPath path = true) :
    Repository.latestParsed ⟨store.toVersionControl, parser⟩ path =
      SourceUnit.orEmpty path s.units[path]? := by
  rw [← hr.latest ha hv, Repository.latestParsed, hb.pathHistory]
  rfl

/-- The files of the last commit, as the queries see them. -/
theorem exists_head (hb : store.Built) (hne : store.commits ≠ []) :
    ∃ head, store.toVersionControl.headRevision = .ok head ∧
      store.toVersionControl.listFiles head.id = .ok (.ofList store.headFiles.keys) := by
  obtain ⟨c, hc⟩ := Option.ne_none_iff_exists'.1 (mt List.getLast?_eq_none_iff.1 hne)
  refine ⟨c.revision, ?_, ?_⟩
  · change store.headRevision = .ok c.revision
    rw [CommitStore.headRevision, hc]
  · change store.listFiles c.revision.id = .ok (.ofList store.headFiles.keys)
    rw [hb.listFiles (List.mem_of_getLast? hc), headFiles, hc]

theorem Replayed.exists_unit (hr : Replayed store parser store.commits s)
    (ha : parser.accepts path = true) (hv : Id.isValidPath path = true)
    (hf : store.headFiles[path]? ≠ none) : ∃ u, s.units[path]? = some u :=
  Option.ne_none_iff_exists'.1 fun hu => hf ((hr.present ha hv).1 hu)

theorem Replayed.source_eq (hr : Replayed store parser store.commits s) (hb : store.Built)
    (hne : store.commits ≠ []) (hv : Id.isValidPath path = true) :
    Repository.source ⟨store.toVersionControl, parser⟩ path = .ok s.units[path]? := by
  obtain ⟨head, hhead, hfiles⟩ := exists_head hb hne
  have hcheck : checkPath path = .ok () := by rw [checkPath, if_pos hv]
  cases ha : parser.accepts path with
  | false =>
    have hnone : s.units[path]? = none := by
      cases hu : s.units[path]? with
      | none => rfl
      | some u =>
        rw [(hr.source hu).1] at ha
        cases ha
    simp only [Repository.source, hcheck, ha, hnone, bind, Except.bind, Bool.false_eq_true, if_false]
    rfl
  | true =>
    simp only [Repository.source, hcheck, ha, hhead, hfiles, VersionControl.lift, Except.mapError,
      bind, Except.bind, if_true]
    by_cases hf : store.headFiles[path]? = none
    · have hmiss : (.ofList store.headFiles.keys : NameSet).contains path = false := by
        rw [← Bool.not_eq_true, Std.ExtTreeSet.contains_iff_mem, NameMap.mem_ofList_keys_iff, not_not, hf]
      rw [hmiss, (hr.present ha hv).2 hf]
      rfl
    · have hhit : (.ofList store.headFiles.keys : NameSet).contains path = true := by
        rw [Std.ExtTreeSet.contains_iff_mem, NameMap.mem_ofList_keys_iff]
        exact hf
      obtain ⟨u, hu⟩ := hr.exists_unit ha hv hf
      rw [hhit, hr.latestParsed hb ha hv, hu]
      rfl

theorem listSources_eq (hb : store.Built) (hne : store.commits ≠ []) :
    Repository.listSources ⟨store.toVersionControl, parser⟩ =
      .ok (History.relevantPaths parser (.ofList store.headFiles.keys)) := by
  obtain ⟨head, hhead, hfiles⟩ := exists_head hb hne
  simp only [Repository.listSources, hhead, hfiles, VersionControl.lift, Except.mapError, bind,
    Except.bind]
  rfl

/-- The current sources are the paths of the units. -/
theorem Replayed.mem_sources_iff (hr : Replayed store parser store.commits s) :
    path ∈ History.relevantPaths parser (.ofList store.headFiles.keys) ↔
      ∃ u, s.units[path]? = some u := by
  rw [History.mem_relevantPaths_iff, NameMap.mem_ofList_keys_iff]
  constructor
  · intro hp
    exact hr.exists_unit hp.2.1 hp.2.2 hp.1
  · intro hu
    obtain ⟨u, hu⟩ := hu
    obtain ⟨ha, hv⟩ := hr.source hu
    refine ⟨fun hf => ?_, ha, hv⟩
    rw [(hr.present ha hv).2 hf] at hu
    cases hu

theorem Replayed.snapshot_eq (hr : Replayed store parser store.commits s) (hb : store.Built)
    (hne : store.commits ≠ []) :
    Repository.snapshot ⟨store.toVersionControl, parser⟩ = .ok s := by
  have hparsed : ∀ path ∈ History.relevantPaths parser (.ofList store.headFiles.keys),
      ∃ u, Repository.latestParsed ⟨store.toVersionControl, parser⟩ path = .ok u ∧
        s.units[path]? = some u := by
    intro path hp
    obtain ⟨-, ha, hv⟩ := History.mem_relevantPaths_iff.1 hp
    obtain ⟨u, hu⟩ := hr.mem_sources_iff.1 hp
    refine ⟨u, ?_, hu⟩
    rw [hr.latestParsed hb ha hv, hu]
    rfl
  obtain ⟨units, hunits, hall⟩ := exists_mapM hparsed
  have hofUnits : Snapshot.ofUnits units = .ok s :=
    hr.coherent.ofUnits_eq (History.nodup_relevantPaths parser _) hall
      fun path u hu => hr.mem_sources_iff.2 ⟨u, hu⟩
  simp only [Repository.snapshot, listSources_eq hb hne, hunits, bind, Except.bind]
  exact hofUnits

/-- If the history of a repository can be replayed, its current snapshot and every current source are
what the replay ends with. -/
theorem head_eq_replayed {emitEmpty : Bool} {transactions : List Transaction} (hb : store.Built)
    (hne : store.commits ≠ []) (hparser : parser.Constructs)
    (hbuild : History.build store.toVersionControl parser emitEmpty = .ok (transactions, final)) :
    Repository.snapshot ⟨store.toVersionControl, parser⟩ = .ok final ∧
      ∀ path, Id.isValidPath path = true →
        Repository.source ⟨store.toVersionControl, parser⟩ path = .ok final.units[path]? := by
  have hr := replayed_of_build hb hparser hbuild
  exact ⟨hr.snapshot_eq hb hne, fun path hv => hr.source_eq hb hne hv⟩

/-- A file that parses at the first revision and is no text at the second. -/
theorem head_eq_replayed_of_broken_file :
    let parser : Parser := ⟨fun path => path == "a", fun _ _ => .ok (.parsed ⟨"a", []⟩)⟩
    ∃ first second transactions final,
      CommitStore.empty.add ((Commit.empty ⟨"1", ⟨0, 0⟩, ""⟩).write "a" []) = .ok first ∧
      first.add (((Commit.empty ⟨"2", ⟨1, 0⟩, ""⟩).write "a" [255]).delete "b") = .ok second ∧
      History.build second.toVersionControl parser true = .ok (transactions, final) ∧
      Repository.snapshot ⟨second.toVersionControl, parser⟩ = .ok final ∧
      Repository.source ⟨second.toVersionControl, parser⟩ "a" = .ok final.units["a"]? := by
  intro parser
  have hparser : parser.Constructs := by
    intro path raw u hu
    cases hu
    exact ⟨"a", [], nofun, by decide +kernel⟩
  have hsome : ((CommitStore.empty.add ((Commit.empty ⟨"1", ⟨0, 0⟩, ""⟩).write "a" [])).toOption.bind
      fun first => (first.add (((Commit.empty ⟨"2", ⟨1, 0⟩, ""⟩).write "a" [255]).delete
        "b")).toOption.bind fun second =>
          (History.build second.toVersionControl parser true).toOption).isSome = true := by
    decide +kernel
  obtain ⟨⟨transactions, final⟩, hx⟩ := Option.isSome_iff_exists.1 hsome
  obtain ⟨first, hfirst, hx⟩ := Option.bind_eq_some_iff.1 hx
  obtain ⟨second, hsecond, hbuild⟩ := Option.bind_eq_some_iff.1 hx
  rw [toOption_eq_some_iff] at hfirst hsecond hbuild
  have hb : second.Built := .add (.add .empty hfirst) hsecond
  have hne : second.commits ≠ [] := by
    rw [(CommitStore.add_eq_ok_iff.1 hsecond).2]
    simp
  obtain ⟨hsnapshot, hsource⟩ := head_eq_replayed hb hne hparser hbuild
  exact ⟨first, second, transactions, final, hfirst, hsecond, hbuild, hsnapshot,
    hsource "a" (by decide)⟩

end Repository

end SourceHistory
