import SourceHistory.History
import SourceHistory.Proofs.Diff.Unit
import SourceHistory.Proofs.Node.Constructed

namespace SourceHistory

variable {parser : Parser} {vcs : VersionControl} {path : String} {u : SourceUnit}

theorem VersionControl.lift_eq_ok_iff {α : Type} {answer : Except VcsError α} {a : α} :
    lift answer = .ok a ↔ answer = .ok a := by
  cases answer <;> simp [lift, Except.mapError]

theorem VersionControl.lift_eq_error_iff {α : Type} {answer : Except VcsError α} {error : Error} :
    lift answer = .error error ↔ ∃ cause, answer = .error cause ∧ error = .vcs cause := by
  cases answer <;> simp [lift, Except.mapError, eq_comm]

/-- Whatever the parser accepts as a unit is constructed. -/
def Parser.Constructs (parser : Parser) : Prop :=
  ∀ path raw u, parser.parse path raw = .ok (.parsed u) → u.Constructed

theorem Parser.Constructs.of_parseContent (h : parser.Constructs) {bytes : List UInt8}
    (hp : parser.parseContent path bytes = .ok (.parsed u)) :
    u.path = path ∧ u.validate = .ok () := by
  rw [parseContent] at hp
  split at hp
  · next raw _ =>
    rw [parseSource] at hp
    split at hp
    · obtain ⟨outcome, hparse, hp⟩ := bind_eq_ok_iff.1 hp
      cases outcome with
      | syntaxError => cases hp
      | parsed v =>
        by_cases hpath : v.path = path
        · simp only [hpath, if_true] at hp
          obtain rfl := ParseOutcome.parsed.inj (pure_eq_ok_iff.1 hp)
          exact ⟨hpath, (h path raw v hparse).validate⟩
        · simp [hpath, throw_eq_error] at hp
    · cases hp
  · cases hp

namespace History

variable {s t : Snapshot} {revision : Revision} {paths : List String}
  {current resolved : Option SourceUnit}

theorem isVersion_resolve (hparser : parser.Constructs) (hcur : SourceUnit.IsVersion path current)
    {content : Option (List UInt8)} (h : resolve parser path current content = .ok resolved) :
    SourceUnit.IsVersion path resolved := by
  cases content with
  | none =>
    cases h
    nofun
  | some bytes =>
    obtain ⟨outcome, hparse, h⟩ := bind_eq_ok_iff.1 h
    cases outcome with
    | parsed v =>
      cases h
      exact SourceUnit.isVersion_some.2 (hparser.of_parseContent hparse)
    | syntaxError =>
      cases current with
      | some v =>
        cases h
        exact hcur
      | none =>
        obtain ⟨v, hv, h⟩ := bind_eq_ok_iff.1 h
        cases h
        exact SourceUnit.isVersion_some.2
          ⟨SourceUnit.path_of_empty hv, (SourceUnit.constructed_of_empty hv).validate⟩

theorem pathEdits_eq_ok_iff {edits : List Edit} :
    pathEdits vcs parser s revision path = .ok edits ↔
      ∃ content, vcs.fileContent revision.id path = .ok content ∧
        ∃ resolved, resolve parser path s.units[path]? content = .ok resolved ∧
          diffUnit s.units[path]? resolved = .ok edits := by
  simp only [pathEdits, bind_eq_ok_iff, VersionControl.lift_eq_ok_iff]

def ResolvesTo (vcs : VersionControl) (parser : Parser) (s : Snapshot) (revision : Revision)
    (path : String) (resolved : Option SourceUnit) : Prop :=
  ∃ content, vcs.fileContent revision.id path = .ok content ∧
    resolve parser path s.units[path]? content = .ok resolved

/-- The edits of all paths, on any snapshot that still has the old units there. -/
theorem exists_replay_pathEdits (hparser : parser.Constructs) (ht : t.Coherent)
    (hnd : paths.Nodup) (hvalid : ∀ path ∈ paths, Id.isValidPath path = true)
    (hsame : ∀ path ∈ paths, t.units[path]? = s.units[path]?) {edits : List (List Edit)}
    (hmap : paths.mapM (pathEdits vcs parser s revision) = .ok edits) :
    ∃ final, t.replay edits.flatten = .ok final ∧ (∀ e ∈ edits.flatten, e.check = .ok ()) ∧
      final.Coherent ∧
      (∀ path ∈ paths, ResolvesTo vcs parser s revision path final.units[path]?) ∧
      ∀ path, path ∉ paths → final.units[path]? = t.units[path]? := by
  refine ht.exists_replay_diffUnits hnd (fun path hp => Id.parent?_of_isValidPath (hvalid path hp))
    hsame (fun path hp first hfirst => ?_) hmap
  obtain ⟨content, hcontent, resolved, hresolve, hdiff⟩ := pathEdits_eq_ok_iff.1 hfirst
  have hcurrent : SourceUnit.IsVersion path s.units[path]? := by
    rw [← hsame path hp]
    exact ht.isVersion path
  exact ⟨resolved, ⟨content, hcontent, hresolve⟩, isVersion_resolve hparser hcurrent hresolve, hdiff⟩

theorem mem_relevantPaths_iff {changed : NameSet} :
    path ∈ relevantPaths parser changed ↔
      path ∈ changed ∧ parser.accepts path = true ∧ Id.isValidPath path = true := by
  simp [relevantPaths]

theorem nodup_relevantPaths (parser : Parser) (changed : NameSet) :
    (relevantPaths parser changed).Nodup :=
  (nodup_toList changed).filter _

theorem revisionEdits_eq_ok_iff {edits : List Edit} :
    revisionEdits vcs parser s revision = .ok edits ↔
      ∃ changed, vcs.changedPaths revision.id = .ok changed ∧
        ∃ lists, (relevantPaths parser changed).mapM (pathEdits vcs parser s revision) = .ok lists ∧
          lists.flatten = edits := by
  simp only [revisionEdits, bind_eq_ok_iff, VersionControl.lift_eq_ok_iff, pure_eq_ok_iff]

/-- The edits of a revision take `h` to `t`, which has the resolved units at the relevant paths and the
old ones elsewhere. -/
structure Takes (h : History) (revision : Revision) (edits : List Edit) (t : Snapshot) : Prop where
  applyAll : h.snapshot.applyAll edits = .done t
  check : ∀ e ∈ edits, e.check = .ok ()
  coherent : t.Coherent
  units : ∃ changed, h.vcs.changedPaths revision.id = .ok changed ∧
    (∀ path ∈ relevantPaths h.parser changed,
      ResolvesTo h.vcs h.parser h.snapshot revision path t.units[path]?) ∧
    ∀ path, path ∉ relevantPaths h.parser changed → t.units[path]? = h.snapshot.units[path]?

theorem exists_takes {h : History} {edits : List Edit} (hparser : h.parser.Constructs)
    (hs : h.snapshot.Coherent)
    (hedits : revisionEdits h.vcs h.parser h.snapshot revision = .ok edits) :
    ∃ t, Takes h revision edits t := by
  obtain ⟨changed, hchanged, lists, hmap, rfl⟩ := revisionEdits_eq_ok_iff.1 hedits
  obtain ⟨final, hreplay, hchecks, hcoh, hres, hkeep⟩ :=
    exists_replay_pathEdits hparser hs (nodup_relevantPaths h.parser changed)
      (fun path hp => (mem_relevantPaths_iff.1 hp).2.2) (fun _ _ => rfl) hmap
  have happly : h.snapshot.applyAll lists.flatten = .done final := by
    rw [hs.applyAll_eq hchecks, hreplay]
  exact ⟨final, happly, hchecks, hcoh, changed, hchanged, hres, hkeep⟩

/-- A revision fails for want of its edits and changes nothing, or its edits are taken. -/
theorem process_cases {h : History} (hparser : h.parser.Constructs) (hs : h.snapshot.Coherent)
    (revision : Revision) :
    (∃ error, revisionEdits h.vcs h.parser h.snapshot revision = .error error ∧
      h.process revision = (h.snapshot, .error error)) ∨
    ∃ edits t, h.process revision = (t, .ok (.ofRevision revision edits)) ∧
      Takes h revision edits t := by
  rw [process]
  cases hedits : revisionEdits h.vcs h.parser h.snapshot revision with
  | error error => exact Or.inl ⟨error, rfl, rfl⟩
  | ok edits =>
    obtain ⟨t, ht⟩ := exists_takes hparser hs hedits
    refine Or.inr ⟨edits, t, ?_, ht⟩
    simp only [ht.applyAll, Attempt.error?_done, Attempt.state_done]

/-- A revision that goes through leaves the resolved units at its relevant paths. -/
theorem of_process {h : History} {transaction : Transaction} (hparser : h.parser.Constructs)
    (hs : h.snapshot.Coherent) (hproc : h.process revision = (t, .ok transaction)) :
    ∃ changed, h.vcs.changedPaths revision.id = .ok changed ∧ t.Coherent ∧
      (∀ path ∈ relevantPaths h.parser changed,
        ResolvesTo h.vcs h.parser h.snapshot revision path t.units[path]?) ∧
      ∀ path, path ∉ relevantPaths h.parser changed → t.units[path]? = h.snapshot.units[path]? := by
  rcases process_cases hparser hs revision with ⟨error, -, hfail⟩ | ⟨edits, final, hdone, htakes⟩
  · rw [hfail] at hproc
    cases hproc
  · rw [hdone] at hproc
    cases hproc
    obtain ⟨changed, hchanged, hres, hkeep⟩ := htakes.units
    exact ⟨changed, hchanged, htakes.coherent, hres, hkeep⟩

end History

end SourceHistory
