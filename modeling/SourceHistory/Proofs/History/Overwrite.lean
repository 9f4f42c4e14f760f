import SourceHistory.Proofs.History.Run

namespace SourceHistory.History

variable {vcs : VersionControl} {parser : Parser} {path : String} {h h' : History}
  {s t : Snapshot} {revision : Revision} {revisions done : List Revision}
  {current resolved : Option SourceUnit} {content : Option (List UInt8)} {error : Error}

/-- A version of a file in the place of the one before: no content is no unit, content that parses
is its unit, and anything else keeps the unit there is or starts with an empty one. -/
def overwrite (parser : Parser) (path : String) (current : Option SourceUnit)
    (content : Option (List UInt8)) : Except Error (Option SourceUnit) :=
  match content with
  | none => .ok none
  | some bytes =>
    match Text.decodeUtf8 bytes with
    | .error _ => .ok (some (current.getD ⟨path, []⟩))
    | .ok raw =>
      match parser.parse path raw with
      | .ok (.parsed unit) => .ok (some unit)
      | .ok .syntaxError => .ok (some (current.getD ⟨path, []⟩))
      | .error error => .error error

/-- The unit of a path after `revisions`, from those that changed it, oldest first. -/
def overwritten (vcs : VersionControl) (parser : Parser) (path : String)
    (revisions : List Revision) : Except Error (Option SourceUnit) := do
  let touching ← VersionControl.lift (VersionControl.filterChanged vcs.changedPaths path revisions)
  touching.foldlM (fun current revision => do
    let content ← VersionControl.lift (vcs.fileContent revision.id path)
    overwrite parser path current content) none

theorem overwrite_of_resolve (hv : Id.isValidPath path = true)
    (hres : resolve parser path current content = .ok resolved) :
    overwrite parser path current content = .ok resolved := by
  cases content with
  | none => exact hres
  | some bytes =>
    obtain ⟨outcome, hparse, hres⟩ := bind_eq_ok_iff.1 hres
    -- What a syntax error leaves, whether the parser reports it or the bytes are no text.
    have hkeep : outcome = .syntaxError → some (current.getD ⟨path, []⟩) = resolved := by
      rintro rfl
      cases current with
      | some unit => exact pure_eq_ok_iff.1 hres
      | none =>
        simp only [SourceUnit.empty_of_isValidPath hv] at hres
        exact pure_eq_ok_iff.1 hres
    simp only [overwrite, Parser.parseContent] at hparse ⊢
    cases hraw : Text.decodeUtf8 bytes with
    | error _ =>
      rw [hraw] at hparse
      rw [hkeep (Except.ok.inj hparse).symm]
    | ok raw =>
      simp only [hraw, Parser.parseSource, hv, if_true] at hparse
      obtain ⟨found, hfound, hparse⟩ := bind_eq_ok_iff.1 hparse
      cases found with
      | syntaxError =>
        simp only [hfound]
        rw [hkeep (pure_eq_ok_iff.1 hparse).symm]
      | parsed unit =>
        by_cases hpath : unit.path = path
        · simp only [hpath, if_true] at hparse
          obtain rfl := pure_eq_ok_iff.1 hparse
          simp only [hfound]
          exact congrArg Except.ok (pure_eq_ok_iff.1 hres)
        · simp [hpath, throw_eq_error] at hparse

theorem filterChanged_append {changedPaths : String → Except VcsError NameSet} {changed : NameSet}
    {touching : List Revision}
    (hdone : VersionControl.filterChanged changedPaths path done = .ok touching)
    (hchanged : changedPaths revision.id = .ok changed) :
    VersionControl.filterChanged changedPaths path (done ++ [revision]) =
      .ok (if changed.contains path then touching ++ [revision] else touching) := by
  induction done generalizing touching with
  | nil =>
    cases hdone
    simp only [List.nil_append, VersionControl.filterChanged, hchanged, bind, Except.bind, pure,
      Except.pure]
  | cons first done ih =>
    obtain ⟨firstChanged, hfirst, hdone⟩ := bind_eq_ok_iff.1 hdone
    obtain ⟨later, hlater, hdone⟩ := bind_eq_ok_iff.1 hdone
    obtain rfl := pure_eq_ok_iff.1 hdone
    rw [List.cons_append, VersionControl.filterChanged, hfirst, ih hlater]
    simp only [bind, Except.bind, pure, Except.pure]
    cases changed.contains path <;> cases firstChanged.contains path <;> rfl

theorem overwritten_append {changed : NameSet} (hdone : overwritten vcs parser path done = .ok current)
    (hchanged : vcs.changedPaths revision.id = .ok changed) :
    overwritten vcs parser path (done ++ [revision]) =
      if changed.contains path then
        VersionControl.lift (vcs.fileContent revision.id path) >>= overwrite parser path current
      else .ok current := by
  obtain ⟨touching, hlift, hfold⟩ := bind_eq_ok_iff.1 hdone
  have htouching := VersionControl.lift_eq_ok_iff.1 hlift
  rw [overwritten, filterChanged_append htouching hchanged]
  split
  · change List.foldlM _ none (touching ++ [revision]) = _
    rw [foldlM_append_of_ok hfold, List.foldlM_cons]
    simp only [List.foldlM_nil, bind_pure]
  · exact hfold

/-- After `done` a snapshot has units at accepted valid paths only, and there those of the rule. -/
structure Overwritten (vcs : VersionControl) (parser : Parser) (done : List Revision)
    (s : Snapshot) : Prop where
  coherent : s.Coherent
  outside : ∀ path, ¬ (parser.accepts path = true ∧ Id.isValidPath path = true) →
    s.units[path]? = none
  inside : ∀ path, parser.accepts path = true → Id.isValidPath path = true →
    overwritten vcs parser path done = .ok s.units[path]?

theorem overwritten_nil : Overwritten vcs parser [] .empty where
  coherent := Snapshot.coherent_empty
  outside _ _ := by simp [Snapshot.empty]
  inside _ _ _ := by
    simp [Snapshot.empty, overwritten, VersionControl.filterChanged, VersionControl.lift,
      Except.mapError, bind, Except.bind, pure, Except.pure]

theorem Overwritten.step {transaction : Transaction} (hparser : h.parser.Constructs)
    (ho : Overwritten h.vcs h.parser done h.snapshot)
    (hproc : h.process revision = (t, .ok transaction)) :
    Overwritten h.vcs h.parser (done ++ [revision]) t := by
  obtain ⟨changed, hchanged, hcoh, hres, hkeep⟩ := of_process hparser ho.coherent hproc
  refine ⟨hcoh, fun path hout => ?_, fun path ha hv => ?_⟩
  · rw [hkeep path fun hmem => hout (mem_relevantPaths_iff.1 hmem).2]
    exact ho.outside path hout
  · rw [overwritten_append (ho.inside path ha hv) hchanged]
    by_cases hmem : path ∈ changed
    · obtain ⟨content, hcontent, hresolve⟩ := hres path (mem_relevantPaths_iff.2 ⟨hmem, ha, hv⟩)
      rw [if_pos (Std.ExtTreeSet.contains_iff_mem.2 hmem), hcontent]
      exact overwrite_of_resolve hv hresolve
    · rw [if_neg (mt Std.ExtTreeSet.contains_iff_mem.1 hmem)]
      rw [hkeep path fun hrel => hmem (mem_relevantPaths_iff.1 hrel).1]

def absorb (h : History) : Except Error History :=
  match h.pending with
  | [] => .ok h
  | revision :: rest =>
    match h.process revision with
    | (_, .error error) => .error error
    | (snapshot, .ok _) => .ok { h with pending := rest, snapshot := snapshot }

/-- The history after its next `k` revisions, if none of them fails. -/
def absorbed (h : History) : (k : Nat) → Except Error History
  | 0 => .ok h
  | k + 1 => h.absorb >>= fun next => next.absorbed k

theorem absorbed_add (h : History) (j k : Nat) :
    h.absorbed (j + k) = h.absorbed j >>= fun next => next.absorbed k := by
  induction j generalizing h with
  | zero =>
    rw [Nat.zero_add]
    rfl
  | succ j ih =>
    rw [Nat.add_right_comm, absorbed, absorbed]
    cases h.absorb with
    | error error => rfl
    | ok next => exact ih next

theorem absorb_cases (habs : h.absorb = .ok h') :
    (h.pending = [] ∧ h' = h) ∨
    ∃ revision rest s transaction, h.pending = revision :: rest ∧
      h.process revision = (s, .ok transaction) ∧ h' = { h with pending := rest, snapshot := s } := by
  rw [absorb] at habs
  split at habs
  · next hp =>
    cases habs
    exact Or.inl ⟨hp, rfl⟩
  · next revision rest hp =>
    split at habs
    · cases habs
    · next s transaction hproc =>
      cases habs
      exact Or.inr ⟨revision, rest, s, transaction, hp, hproc, rfl⟩

theorem Overwritten.absorbed {k : Nat} (hparser : h.parser.Constructs)
    (ho : Overwritten h.vcs h.parser done h.snapshot) (habs : h.absorbed k = .ok h') :
    h'.parser = h.parser ∧ h'.vcs = h.vcs ∧
      Overwritten h.vcs h.parser (done ++ h.pending.take k) h'.snapshot := by
  induction k generalizing h done with
  | zero =>
    cases habs
    rw [List.take_zero, List.append_nil]
    exact ⟨rfl, rfl, ho⟩
  | succ k ih =>
    obtain ⟨next, hnext, hlater⟩ := bind_eq_ok_iff.1 habs
    rcases absorb_cases hnext with ⟨hp, rfl⟩ | ⟨revision, rest, s, transaction, hp, hproc, rfl⟩
    · have hrun := ih hparser ho hlater
      rw [hp, List.take_nil] at hrun ⊢
      exact hrun
    · have hstep := ho.step hparser hproc
      have hrun := ih (h := { h with pending := rest, snapshot := s }) hparser hstep hlater
      rw [List.append_assoc] at hrun
      rw [hp]
      exact hrun

theorem exists_absorbed_of_next (hok : ∀ error, h.next.2 ≠ some (.error error)) :
    ∃ k, h.absorbed k = .ok h.next.1 := by
  generalize hpend : h.pending = pending
  induction pending generalizing h with
  | nil => exact ⟨0, by rw [next_of_nil hpend]; rfl⟩
  | cons revision rest ih =>
    cases hf : h.failed with
    | true => exact ⟨0, by rw [next_of_failed hf]; rfl⟩
    | false =>
      rcases hproc : h.process revision with ⟨s, error | transaction⟩
      · rw [next_of_error hf hpend hproc] at hok
        exact absurd rfl (hok error)
      · have habs : h.absorb = .ok { h with pending := rest, snapshot := s } := by
          simp only [absorb, hpend, hproc]
        rw [next_of_ok hf hpend hproc] at hok ⊢
        split at hok
        · next hskip =>
          obtain ⟨k, hk⟩ := ih hok rfl
          refine ⟨k + 1, ?_⟩
          rw [History.absorbed, habs, if_pos hskip]
          exact hk
        · next hskip =>
          refine ⟨1, ?_⟩
          rw [History.absorbed, habs, if_neg hskip]
          rfl

theorem exists_absorbed_of_after {n : Nat}
    (hok : ∀ i, i < n → ∀ error, h.answer i ≠ some (.error error)) :
    ∃ k, h.absorbed k = .ok (h.after n) := by
  induction n generalizing h with
  | zero => exact ⟨0, rfl⟩
  | succ n ih =>
    obtain ⟨j, hj⟩ := exists_absorbed_of_next (h := h) (hok 0 (Nat.succ_pos n))
    obtain ⟨k, hk⟩ := ih (h := h.next.1) fun i hi => hok (i + 1) (Nat.succ_lt_succ hi)
    refine ⟨j + k, ?_⟩
    rw [absorbed_add, hj]
    exact hk

/-- Errors that version control or the parser answered at a revision. -/
inductive Answered (vcs : VersionControl) (parser : Parser) (revision : Revision) : Error → Prop where
  | changedPaths {cause : VcsError} : vcs.changedPaths revision.id = .error cause →
    Answered vcs parser revision (.vcs cause)
  | fileContent {path : String} {cause : VcsError} :
    vcs.fileContent revision.id path = .error cause → Answered vcs parser revision (.vcs cause)
  | parseContent {path : String} {bytes : List UInt8} {error : Error} :
    vcs.fileContent revision.id path = .ok (some bytes) →
    parser.parseContent path bytes = .error error → Answered vcs parser revision error

theorem parseContent_of_resolve_eq_error (hv : Id.isValidPath path = true)
    (hres : resolve parser path current content = .error error) :
    ∃ bytes, content = some bytes ∧ parser.parseContent path bytes = .error error := by
  cases content with
  | none => cases hres
  | some bytes =>
    refine ⟨bytes, rfl, ?_⟩
    rcases bind_eq_error_iff.1 hres with hparse | ⟨outcome, -, hres⟩
    · exact hparse
    · cases outcome with
      | parsed unit => cases hres
      | syntaxError =>
        cases current with
        | some unit => cases hres
        | none =>
          simp only [SourceUnit.empty_of_isValidPath hv] at hres
          cases hres

theorem answered_of_pathEdits (hparser : parser.Constructs) (hs : s.Coherent)
    (hv : Id.isValidPath path = true)
    (herr : pathEdits vcs parser s revision path = .error error) :
    Answered vcs parser revision error := by
  rcases bind_eq_error_iff.1 herr with hlift | ⟨content, hlift, herr⟩
  · obtain ⟨cause, hcause, rfl⟩ := VersionControl.lift_eq_error_iff.1 hlift
    exact .fileContent hcause
  · rcases bind_eq_error_iff.1 herr with hres | ⟨resolved, hres, hdiff⟩
    · obtain ⟨bytes, rfl, hparse⟩ := parseContent_of_resolve_eq_error hv hres
      exact .parseContent (VersionControl.lift_eq_ok_iff.1 hlift) hparse
    · -- Two versions of a unit always have a difference.
      have hversion := isVersion_resolve hparser (fun u hu => hs.keyed path u hu) hres
      obtain ⟨edits, hedits, -⟩ := hs.exists_diffUnit (Id.parent?_of_isValidPath hv) hversion
      rw [hedits] at hdiff
      cases hdiff

theorem Sound.answered (hs : h.Sound) (hproc : h.process revision = (s, .error error)) :
    Answered h.vcs h.parser revision error := by
  rcases process_cases hs.constructs hs.coherent revision with ⟨error', hedits, hfail⟩ | ⟨_, _, hdone, -⟩
  · obtain rfl : error = error' :=
      Except.error.inj (congrArg Prod.snd (hproc.symm.trans hfail))
    rcases bind_eq_error_iff.1 hedits with hlift | ⟨changed, -, hedits⟩
    · obtain ⟨cause, hcause, rfl⟩ := VersionControl.lift_eq_error_iff.1 hlift
      exact .changedPaths hcause
    · rcases bind_eq_error_iff.1 hedits with hmap | ⟨_, -, hret⟩
      · obtain ⟨path, hpath, herr⟩ := exists_of_mapM_eq_error hmap
        exact answered_of_pathEdits hs.constructs hs.coherent (mem_relevantPaths_iff.1 hpath).2.2 herr
      · cases hret
  · cases congrArg Prod.snd (hproc.symm.trans hdone)

/-- Version control tells what a revision changed, and the parser takes what it changed. -/
def Readable (vcs : VersionControl) (parser : Parser) (revision : Revision) : Prop :=
  ∃ changed, vcs.changedPaths revision.id = .ok changed ∧
    ∀ path ∈ relevantPaths parser changed, ∃ content, vcs.fileContent revision.id path = .ok content ∧
      ∀ bytes, content = some bytes → ∃ outcome, parser.parseContent path bytes = .ok outcome

theorem exists_pathEdits (hparser : parser.Constructs) (hs : s.Coherent)
    (hv : Id.isValidPath path = true) (hcontent : vcs.fileContent revision.id path = .ok content)
    (hparse : ∀ bytes, content = some bytes → ∃ outcome, parser.parseContent path bytes = .ok outcome) :
    ∃ edits, pathEdits vcs parser s revision path = .ok edits := by
  have hresolve : ∃ resolved, resolve parser path s.units[path]? content = .ok resolved := by
    cases hres : resolve parser path s.units[path]? content with
    | ok resolved => exact ⟨resolved, rfl⟩
    | error error =>
      obtain ⟨bytes, hbytes, herr⟩ := parseContent_of_resolve_eq_error hv hres
      obtain ⟨outcome, hok⟩ := hparse bytes hbytes
      rw [hok] at herr
      cases herr
  obtain ⟨resolved, hres⟩ := hresolve
  have hversion := isVersion_resolve hparser (fun u hu => hs.keyed path u hu) hres
  obtain ⟨edits, hedits, -⟩ := hs.exists_diffUnit (Id.parent?_of_isValidPath hv) hversion
  exact ⟨edits, pathEdits_eq_ok_iff.2 ⟨content, hcontent, resolved, hres, hedits⟩⟩

theorem Sound.exists_process (hs : h.Sound) (ha : Readable h.vcs h.parser revision) :
    ∃ t transaction, h.process revision = (t, .ok transaction) := by
  obtain ⟨changed, hchanged, hpaths⟩ := ha
  have hall : ∀ path ∈ relevantPaths h.parser changed,
      ∃ edits, pathEdits h.vcs h.parser h.snapshot revision path = .ok edits ∧ True := by
    intro path hpath
    obtain ⟨content, hcontent, hparse⟩ := hpaths path hpath
    obtain ⟨edits, hedits⟩ := exists_pathEdits hs.constructs hs.coherent
      (mem_relevantPaths_iff.1 hpath).2.2 hcontent hparse
    exact ⟨edits, hedits, trivial⟩
  obtain ⟨lists, hlists, -⟩ := exists_mapM hall
  have hedits := revisionEdits_eq_ok_iff.2 ⟨changed, hchanged, lists, hlists, rfl⟩
  rcases process_cases hs.constructs hs.coherent revision with ⟨error, herr, -⟩ | ⟨_, t, hdone, -⟩
  · rw [hedits] at herr
    cases herr
  · exact ⟨t, _, hdone⟩

/-- A run goes through where version control and the parser answer at every revision. -/
theorem Sound.exists_absorbed (hs : h.Sound)
    (ha : ∀ revision ∈ h.pending, Readable h.vcs h.parser revision) (k : Nat) :
    ∃ h', h.absorbed k = .ok h' := by
  induction k generalizing h with
  | zero => exact ⟨h, rfl⟩
  | succ k ih =>
    cases hp : h.pending with
    | nil =>
      have habs : h.absorb = .ok h := by rw [absorb, hp]
      rw [History.absorbed, habs]
      exact ih hs ha
    | cons revision rest =>
      rw [hp, List.forall_mem_cons] at ha
      obtain ⟨t, transaction, hproc⟩ := hs.exists_process ha.1
      have habs : h.absorb = .ok { h with pending := rest, snapshot := t } := by
        simp only [absorb, hp, hproc]
      obtain ⟨-, -, hcoh, -⟩ := of_process hs.constructs hs.coherent hproc
      rw [History.absorbed, habs]
      exact ih (h := { h with pending := rest, snapshot := t }) ⟨hs.constructs, hcoh⟩ ha.2

/-- After any number of revisions without an error, the units are those that overwriting gives, and
the next revision can fail with an error of version control or of the parser only. Every moment of a
run without an error is of that kind. -/
theorem snapshot_eq_overwritten {emitEmpty : Bool} (hparser : parser.Constructs)
    (hstart : start vcs parser emitEmpty = .ok h) :
    ∃ revisions, vcs.listRevisions = .ok revisions ∧
      (∀ k h', h.absorbed k = .ok h' →
        (∀ path, ¬ (parser.accepts path = true ∧ Id.isValidPath path = true) →
          h'.snapshot.units[path]? = none) ∧
        (∀ path, parser.accepts path = true → Id.isValidPath path = true →
          overwritten vcs parser path (revisions.take k) = .ok h'.snapshot.units[path]?) ∧
        ∀ revision s error, h'.process revision = (s, .error error) →
          Answered vcs parser revision error) ∧
      ∀ n, (∀ i, i < n → ∀ error, h.answer i ≠ some (.error error)) →
        ∃ k, h.absorbed k = .ok (h.after n) := by
  obtain ⟨revisions, hlist, rfl⟩ := start_eq_ok_iff.1 hstart
  refine ⟨revisions, hlist, fun k h' habs => ?_, fun n hok => exists_absorbed_of_after hok⟩
  obtain ⟨hp, hv, ho⟩ := overwritten_nil.absorbed hparser habs
  refine ⟨ho.outside, ho.inside, fun revision s error hproc => ?_⟩
  have hs : h'.Sound := ⟨hp ▸ hparser, ho.coherent⟩
  have hanswered := hs.answered hproc
  rw [hp, hv] at hanswered
  exact hanswered

/-- A file that parses, is no text, is deleted, and is no text again. -/
theorem snapshot_eq_overwritten_of_broken_file :
    let parser : Parser := ⟨fun path => path == "a",
      fun _ _ => .ok (.parsed ⟨"a", [⟨"a:x", .var ∅ [], []⟩]⟩)⟩
    let vcs : VersionControl := {
      headRevision := .ok ⟨"4", ⟨3, 0⟩, ""⟩
      listRevisions :=
        .ok [⟨"1", ⟨0, 0⟩, ""⟩, ⟨"2", ⟨1, 0⟩, ""⟩, ⟨"3", ⟨2, 0⟩, ""⟩, ⟨"4", ⟨3, 0⟩, ""⟩]
      revision := fun _ => .ok none
      pathHistory := fun _ => .ok []
      changedPaths := fun _ => .ok (.ofList ["a", "b"])
      listFiles := fun _ => .ok ∅
      fileContent := fun id _ =>
        .ok (if id = "1" then some [] else if id = "3" then none else some [255]) }
    ∃ h h', start vcs parser true = .ok h ∧ h.absorbed 4 = .ok h' ∧
      h'.snapshot.units["b"]? = none ∧
      overwritten vcs parser "a" h.pending = .ok h'.snapshot.units["a"]? ∧
      overwritten vcs parser "a" h.pending = .ok (some ⟨"a", []⟩) := by
  intro parser vcs
  have hparser : parser.Constructs := by
    intro path raw u hu
    cases hu
    refine ⟨"a", [⟨"a:x", .var ∅ [], []⟩], ?_, by decide +kernel⟩
    intro n hn
    rw [List.mem_singleton.1 hn, Node.constructed_iff]
    decide +kernel
  have hreadable : ∀ revision, Readable vcs parser revision := by
    intro revision
    refine ⟨.ofList ["a", "b"], rfl, fun path hpath => ⟨_, rfl, fun bytes _ => ?_⟩⟩
    obtain rfl : path = "a" := by simpa [parser] using (mem_relevantPaths_iff.1 hpath).2.1
    rw [Parser.parseContent]
    cases Text.decodeUtf8 bytes with
    | ok raw => exact ⟨.parsed ⟨"a", [⟨"a:x", .var ∅ [], []⟩]⟩, if_pos (by decide +kernel)⟩
    | error fault => exact ⟨.syntaxError, rfl⟩
  obtain ⟨h, hstart⟩ : ∃ h, start vcs parser true = .ok h := ⟨_, rfl⟩
  obtain ⟨revisions, hlist, hrun, -⟩ := snapshot_eq_overwritten hparser hstart
  obtain ⟨revisions', hlist', rfl⟩ := start_eq_ok_iff.1 hstart
  have hsound : Sound ⟨vcs, parser, true, revisions', .empty, false⟩ :=
    ⟨hparser, Snapshot.coherent_empty⟩
  obtain ⟨h', habs⟩ := hsound.exists_absorbed (fun revision _ => hreadable revision) 4
  obtain ⟨houtside, hinside, -⟩ := hrun 4 h' habs
  cases hlist
  cases hlist'
  refine ⟨_, h', hstart, habs, houtside "b" (by decide), hinside "a" rfl (by decide +kernel), ?_⟩
  decide +kernel

end SourceHistory.History
