import SourceHistory.Proofs.History.Process

namespace SourceHistory.History

variable {vcs : VersionControl} {parser : Parser} {h : History} {revision : Revision}
  {pending rest : List Revision} {n m : Nat} {s : Snapshot} {transaction : Transaction}
  {error : Error}

/-- The history after `n` calls of `next`. -/
def after (h : History) : (n : Nat) → History
  | 0 => h
  | n + 1 => h.next.1.after n

def answer (h : History) (n : Nat) : Option (Except Error Transaction) := (h.after n).next.2

def yielded (h : History) : (n : Nat) → List (Except Error Transaction)
  | 0 => []
  | n + 1 => h.next.2.toList ++ h.next.1.yielded n

theorem after_succ (h : History) (n : Nat) : h.after (n + 1) = (h.after n).next.1 := by
  induction n generalizing h with
  | zero => rfl
  | succ n ih => exact ih h.next.1

theorem after_add (h : History) (n m : Nat) : h.after (n + m) = (h.after n).after m := by
  induction n generalizing h with
  | zero => rw [Nat.zero_add, after]
  | succ n ih => rw [Nat.add_right_comm, after, after, ih]

theorem next_of_failed (hf : h.failed = true) : h.next = (h, none) := by
  rw [next, if_pos hf]

theorem next_of_nil (hp : h.pending = []) : h.next = (h, none) := by
  obtain ⟨vcs, parser, emitEmpty, pending, snapshot, failed⟩ := h
  obtain rfl : pending = [] := hp
  cases failed <;> rfl

theorem next_of_error (hf : h.failed = false) (hp : h.pending = revision :: rest)
    (hproc : h.process revision = (s, .error error)) :
    h.next = ({ h with pending := rest, snapshot := s, failed := true }, some (.error error)) := by
  simp only [next, hf, hp, advance, hproc, Bool.false_eq_true, if_false]

theorem next_of_ok (hf : h.failed = false) (hp : h.pending = revision :: rest)
    (hproc : h.process revision = (s, .ok transaction)) :
    h.next = if transaction.isEmpty && !h.emitEmpty then
        next { h with pending := rest, snapshot := s }
      else ({ h with pending := rest, snapshot := s }, some (.ok transaction)) := by
  simp only [next, hf, hp, advance, hproc, Bool.false_eq_true, if_false]

theorem after_of_next_eq (hnext : h.next = (h, none)) (n : Nat) :
    h.after n = h ∧ h.yielded n = [] := by
  induction n with
  | zero => exact ⟨rfl, rfl⟩
  | succ n ih =>
    rw [after, yielded, hnext]
    exact ih

/-- What a call of `next` can come to: the end, an error or a transaction. After the first two nothing
more comes. -/
inductive Call (h : History) : (next : History) → Option (Except Error Transaction) → Prop where
  | ended {h' : History} : h'.snapshot = h.snapshot → h'.next = (h', none) → Call h h' none
  | failed {h' : History} {error : Error} : h'.snapshot = h.snapshot → h'.next = (h', none) →
    Call h h' (some (.error error))
  | yielded {h' : History} {transaction : Transaction} :
    h.snapshot.applyAll transaction.edits = .done h'.snapshot →
    (∀ e ∈ transaction.edits, e.check = .ok ()) → Call h h' (some (.ok transaction))

/-- Both hold at the start and after every call. -/
structure Sound (h : History) : Prop where
  constructs : h.parser.Constructs
  coherent : h.snapshot.Coherent

theorem Sound.next (hs : h.Sound) : h.next.1.Sound ∧ Call h h.next.1 h.next.2 := by
  generalize hpend : h.pending = pending
  induction pending generalizing h with
  | nil =>
    have hnext := next_of_nil hpend
    rw [hnext]
    exact ⟨hs, .ended rfl hnext⟩
  | cons revision rest ih =>
    cases hf : h.failed with
    | true =>
      have hnext := next_of_failed hf
      rw [hnext]
      exact ⟨hs, .ended rfl hnext⟩
    | false =>
      rcases process_cases hs.constructs hs.coherent revision with
        ⟨error, -, hproc⟩ | ⟨edits, t, hproc, htakes⟩
      · rw [next_of_error hf hpend hproc]
        exact ⟨⟨hs.constructs, hs.coherent⟩, .failed rfl (next_of_failed rfl)⟩
      · have hrest : Sound { h with pending := rest, snapshot := t } :=
          ⟨hs.constructs, htakes.coherent⟩
        rw [next_of_ok hf hpend hproc]
        split
        · next hempty =>
          -- Passing over an empty transaction leaves the snapshot where it was.
          have hnil : edits = [] := by
            simpa [Transaction.isEmpty, Transaction.ofRevision] using (Bool.and_eq_true_iff.1 hempty).1
          have hsame : h.snapshot = t := by
            have happly := htakes.applyAll
            rw [hnil] at happly
            exact congrArg Attempt.state happly
          obtain ⟨hsound, hcall⟩ := ih hrest rfl
          refine ⟨hsound, ?_⟩
          generalize History.next { h with pending := rest, snapshot := t } = result at hcall ⊢
          obtain ⟨h', answer⟩ := result
          cases hcall with
          | ended hsnap hnext => exact .ended (hsnap.trans hsame.symm) hnext
          | failed hsnap hnext => exact .failed (hsnap.trans hsame.symm) hnext
          | yielded happly hchecks => exact .yielded (hsame ▸ happly) hchecks
        · exact ⟨hrest, .yielded htakes.applyAll htakes.check⟩

theorem Sound.after (hs : h.Sound) (n : Nat) : (h.after n).Sound := by
  induction n generalizing h with
  | zero => exact hs
  | succ n ih => exact ih hs.next.1

def transactions (items : List (Except Error Transaction)) : List Transaction :=
  items.filterMap Except.toOption

def applyTransactions (s : Snapshot) (transactions : List Transaction) : Except Error Snapshot :=
  transactions.foldlM (fun s transaction => (s.applyAll transaction.edits).toExcept) s

/-- What was yielded rebuilds the snapshot, one transaction after the other or all at once. -/
theorem Sound.rebuilds (hs : h.Sound) (n : Nat) :
    applyTransactions h.snapshot (transactions (h.yielded n)) = .ok (h.after n).snapshot ∧
      (∀ e ∈ (transactions (h.yielded n)).flatMap Transaction.edits, e.check = .ok ()) ∧
      h.snapshot.replay ((transactions (h.yielded n)).flatMap Transaction.edits) =
        .ok (h.after n).snapshot := by
  induction n generalizing h with
  | zero => exact ⟨rfl, nofun, rfl⟩
  | succ n ih =>
    obtain ⟨hsound, hcall⟩ := hs.next
    obtain ⟨happly, hchecks, hreplay⟩ := ih hsound
    rw [History.yielded, History.after]
    generalize h.next = result at hcall hsound happly hchecks hreplay ⊢
    obtain ⟨h', answer⟩ := result
    cases hcall with
    | ended hsnap _ => exact ⟨hsnap ▸ happly, hchecks, hsnap ▸ hreplay⟩
    | failed hsnap _ => exact ⟨hsnap ▸ happly, hchecks, hsnap ▸ hreplay⟩
    | @yielded transaction hdone hcheck =>
      have hcons : transactions ((some (.ok transaction) : Option (Except Error Transaction)).toList ++
          h'.yielded n) = transaction :: transactions (h'.yielded n) := rfl
      rw [hcons, List.flatMap_cons]
      have hstep := hs.coherent.replay_of_applyAll hcheck hdone
      refine ⟨?_, ?_, (foldlM_append_of_ok hstep).trans hreplay⟩
      · exact (foldlM_cons_of_ok (by rw [hdone, Attempt.toExcept_done])).trans happly
      · intro e he
        rcases List.mem_append.1 he with he | he
        · exact hcheck e he
        · exact hchecks e he

theorem Sound.of_answer_error (hs : h.Sound) (herr : h.answer n = some (.error error)) :
    (h.after (n + 1)).snapshot = (h.after n).snapshot ∧ ∀ m, n < m → h.answer m = none := by
  have hcall := (hs.after n).next.2
  rw [answer] at herr
  rw [herr, ← after_succ] at hcall
  generalize hlater : h.after (n + 1) = h' at hcall ⊢
  cases hcall with
  | failed hsnap hnext =>
    refine ⟨hsnap, fun m hm => ?_⟩
    obtain ⟨k, rfl⟩ : ∃ k, m = n + 1 + k := Nat.exists_eq_add_of_le hm
    rw [answer, after_add, hlater, (after_of_next_eq hnext k).1, hnext]

theorem Sound.eq_of_answer_error (hs : h.Sound) {error' : Error}
    (hn : h.answer n = some (.error error)) (hm : h.answer m = some (.error error')) : m = n := by
  have hnm : ¬ n < m := by
    intro hlt
    rw [(hs.of_answer_error hn).2 m hlt] at hm
    cases hm
  have hmn : ¬ m < n := by
    intro hlt
    rw [(hs.of_answer_error hm).2 n hlt] at hn
    cases hn
  omega

theorem Sound.process_error (hs : h.Sound) (hproc : h.process revision = (s, .error error)) :
    s = h.snapshot := by
  rcases process_cases hs.constructs hs.coherent revision with ⟨_, -, hfail⟩ | ⟨_, _, hdone, -⟩
  · rw [hproc] at hfail
    exact congrArg Prod.fst hfail
  · rw [hproc] at hdone
    cases congrArg Prod.snd hdone

/-- All that the revisions of `pending` lead to, empty transactions included, up to the first error;
and the snapshot at the end. -/
def trace (h : History) :
    (pending : List Revision) → List (Except Error Transaction) × Snapshot
  | [] => ([], h.snapshot)
  | revision :: rest =>
    match h.process revision with
    | (snapshot, .error error) => ([.error error], snapshot)
    | (snapshot, .ok transaction) =>
      let later := trace { h with pending := rest, snapshot := snapshot } rest
      (.ok transaction :: later.1, later.2)

def isSubstantial : Except Error Transaction → Bool
  | .ok transaction => !transaction.isEmpty
  | .error _ => true

def shows (h : History) (item : Except Error Transaction) : Bool := h.emitEmpty || isSubstantial item

theorem trace_congr (h h' : History) (hv : h.vcs = h'.vcs) (hp : h.parser = h'.parser)
    (hs : h.snapshot = h'.snapshot) (pending : List Revision) :
    h.trace pending = h'.trace pending := by
  induction pending generalizing h h' with
  | nil => rw [trace, trace, hs]
  | cons revision rest ih =>
    have hproc : h.process revision = h'.process revision := by simp only [process, hv, hp, hs]
    rw [trace, trace, hproc]
    rcases h'.process revision with ⟨s, error | transaction⟩
    · rfl
    · simp only [ih { h with pending := rest, snapshot := s }
        { h' with pending := rest, snapshot := s } hv hp rfl]

theorem shows_ok : h.shows (.ok transaction) = !(transaction.isEmpty && !h.emitEmpty) := by
  rw [shows, isSubstantial]
  cases transaction.isEmpty <;> cases h.emitEmpty <;> rfl

/-- As many calls as there are revisions show the whole trace, and then there is no more. -/
theorem run_eq_trace (hf : h.failed = false) (hpend : h.pending = pending)
    (hn : pending.length ≤ n) :
    h.yielded n = (h.trace pending).1.filter h.shows ∧
      (h.after n).snapshot = (h.trace pending).2 ∧ h.answer n = none := by
  induction pending generalizing h n with
  | nil =>
    have hnext := next_of_nil hpend
    obtain ⟨hafter, hyielded⟩ := after_of_next_eq hnext n
    rw [answer, hafter, hyielded, hnext]
    exact ⟨rfl, rfl, rfl⟩
  | cons revision rest ih =>
    obtain ⟨n, rfl⟩ : ∃ k, n = k + 1 :=
      Nat.exists_eq_succ_of_ne_zero (Nat.ne_of_gt (Nat.lt_of_lt_of_le (Nat.succ_pos _) hn))
    have hlen : rest.length ≤ n := Nat.le_of_succ_le_succ hn
    rw [answer, yielded, after, trace]
    rcases hproc : h.process revision with ⟨s, error | transaction⟩
    · have hnext := next_of_error hf hpend hproc
      have hstop := next_of_failed (h := { h with pending := rest, snapshot := s, failed := true }) rfl
      obtain ⟨hafter, hyielded⟩ := after_of_next_eq hstop n
      rw [hnext, hafter, hyielded, hstop]
      simp [shows, isSubstantial]
    · rw [next_of_ok hf hpend hproc, List.filter_cons, shows_ok]
      cases hskip : transaction.isEmpty && !h.emitEmpty with
      | true =>
        -- The call goes on from the next revision, so it counts as the first call from there.
        exact ih (h := { h with pending := rest, snapshot := s }) hf rfl (Nat.le_succ_of_le hlen)
      | false =>
        obtain ⟨hyielded, hafter, hanswer⟩ :=
          ih (h := { h with pending := rest, snapshot := s }) hf rfl hlen
        refine ⟨?_, hafter, hanswer⟩
        simp only [Bool.false_eq_true, if_false, hyielded]
        rfl

theorem collect_eq_trace (h : History) (pending : List Revision) :
    h.collect pending =
      (((h.trace pending).1.filter h.shows).mapM id).map fun found => (found, (h.trace pending).2) := by
  induction pending generalizing h with
  | nil => rfl
  | cons revision rest ih =>
    rw [collect, trace]
    rcases hproc : h.process revision with ⟨s, error | transaction⟩
    · simp [shows, isSubstantial, Except.map, bind, Except.bind]
    · have hsame := trace_congr { h with snapshot := s } { h with pending := rest, snapshot := s } rfl
        rfl rfl rest
      have hshows : shows { h with snapshot := s } = h.shows := rfl
      simp only [ih, hsame, hshows, List.filter_cons, shows_ok]
      generalize trace { h with pending := rest, snapshot := s } rest = later
      cases transaction.isEmpty && !h.emitEmpty with
      | true => simp
      | false =>
        cases hmap : List.mapM id (later.1.filter h.shows) <;>
          simp [hmap, Except.map, bind, Except.bind, pure, Except.pure]

theorem start_eq_ok_iff {emitEmpty : Bool} :
    start vcs parser emitEmpty = .ok h ↔
      ∃ revisions, vcs.listRevisions = .ok revisions ∧
        ⟨vcs, parser, emitEmpty, revisions, .empty, false⟩ = h := by
  simp only [start, bind_eq_ok_iff, VersionControl.lift_eq_ok_iff, pure_eq_ok_iff]

/-- The rules for a run that begins at `h`. -/
structure Disciplined (h : History) : Prop where
  /-- At every moment the transactions yielded so far rebuild the snapshot, batch by batch. -/
  rebuilds : ∀ n,
    applyTransactions .empty (transactions (h.yielded n)) = .ok (h.after n).snapshot
  /-- They also do so as one batch. -/
  rebuilds_at_once : ∀ n,
    Snapshot.empty.applyAll ((transactions (h.yielded n)).flatMap Transaction.edits) =
      .done (h.after n).snapshot
  /-- A revision that fails changes nothing. -/
  unchanged : ∀ n revision s error, (h.after n).process revision = (s, .error error) →
    s = (h.after n).snapshot
  /-- The error of a revision that is due is what the call yields. -/
  reported : ∀ n revision rest s error, (h.after n).failed = false →
    (h.after n).pending = revision :: rest →
    (h.after n).process revision = (s, .error error) → h.answer n = some (.error error)
  /-- A call that yields an error changes nothing, and no later call yields anything. -/
  stops : ∀ n error, h.answer n = some (.error error) →
    (h.after (n + 1)).snapshot = (h.after n).snapshot ∧ ∀ m, n < m → h.answer m = none
  /-- There is at most one error. -/
  one_error : ∀ n m error error', h.answer n = some (.error error) →
    h.answer m = some (.error error') → n = m

theorem Sound.disciplined (hs : h.Sound) (hempty : h.snapshot = .empty) : h.Disciplined where
  rebuilds n := hempty ▸ (hs.rebuilds n).1
  rebuilds_at_once n := by
    obtain ⟨-, hchecks, hreplay⟩ := hs.rebuilds n
    rw [← hempty, hs.coherent.applyAll_eq hchecks, hreplay]
  unchanged n _ _ _ hproc := (hs.after n).process_error hproc
  reported n _ _ _ _ hf hp hproc := by rw [answer, next_of_error hf hp hproc]
  stops _ _ herr := hs.of_answer_error herr
  one_error _ _ _ _ hn hm := (hs.eq_of_answer_error hn hm).symm

/-- Every run keeps to the rules. A run without empty transactions shows what a run with them shows
less these, up to the same error and the same snapshot, and building the history collects just
that. -/
theorem run_discipline (vcs : VersionControl) (hparser : parser.Constructs) :
    (∀ emitEmpty h, start vcs parser emitEmpty = .ok h → h.Disciplined ∧
      ∀ n, h.pending.length ≤ n → build vcs parser emitEmpty =
        ((h.yielded n).mapM id).map fun found => (found, (h.after n).snapshot)) ∧
    ∀ full quiet, start vcs parser true = .ok full → start vcs parser false = .ok quiet →
      ∀ n, full.pending.length ≤ n → full.answer n = none ∧ quiet.answer n = none ∧
        quiet.yielded n = (full.yielded n).filter isSubstantial ∧
        (quiet.after n).snapshot = (full.after n).snapshot := by
  refine ⟨fun emitEmpty h hstart => ?_, fun full quiet hfull hquiet n hn => ?_⟩
  · have hbuild : build vcs parser emitEmpty = h.collect h.pending := by
      rw [build, hstart]
      rfl
    obtain ⟨revisions, -, rfl⟩ := start_eq_ok_iff.1 hstart
    have hs : Sound ⟨vcs, parser, emitEmpty, revisions, .empty, false⟩ :=
      ⟨hparser, Snapshot.coherent_empty⟩
    refine ⟨hs.disciplined rfl, fun n hn => ?_⟩
    obtain ⟨hyielded, hafter, -⟩ := run_eq_trace rfl rfl hn
    rw [hbuild, collect_eq_trace, hyielded, hafter]
  · obtain ⟨revisions, hlist, rfl⟩ := start_eq_ok_iff.1 hfull
    obtain ⟨revisions', hlist', rfl⟩ := start_eq_ok_iff.1 hquiet
    obtain rfl : revisions = revisions' := Except.ok.inj (hlist.symm.trans hlist')
    obtain ⟨hfully, hfulla, hfullend⟩ := run_eq_trace
      (h := ⟨vcs, parser, true, revisions, .empty, false⟩) rfl rfl hn
    obtain ⟨hquiety, hquieta, hquietend⟩ := run_eq_trace
      (h := ⟨vcs, parser, false, revisions, .empty, false⟩) rfl rfl hn
    have hsame := trace_congr ⟨vcs, parser, false, revisions, .empty, false⟩
      ⟨vcs, parser, true, revisions, .empty, false⟩ rfl rfl rfl revisions
    have hall : ∀ items : List (Except Error Transaction),
        items.filter (shows ⟨vcs, parser, true, revisions, .empty, false⟩) = items := by
      intro items
      exact List.filter_eq_self.2 fun _ _ => rfl
    refine ⟨hfullend, hquietend, ?_, ?_⟩
    · rw [hquiety, hfully, hall, hsame]
      rfl
    · rw [hquieta, hfulla, hsame]

/-- A file is written, then a revision changes nothing, then version control fails. -/
theorem run_discipline_of_failure :
    let parser : Parser := ⟨fun path => path == "a", fun _ _ => .ok (.parsed ⟨"a", []⟩)⟩
    let vcs : VersionControl := {
      headRevision := .ok ⟨"3", ⟨2, 0⟩, ""⟩
      listRevisions := .ok [⟨"1", ⟨0, 0⟩, ""⟩, ⟨"2", ⟨1, 0⟩, ""⟩, ⟨"3", ⟨2, 0⟩, ""⟩]
      revision := fun _ => .ok none
      pathHistory := fun _ => .ok []
      changedPaths := fun id => if id = "3" then .error (.io "gone") else .ok (.ofList ["a"])
      listFiles := fun _ => .ok ∅
      fileContent := fun _ _ => .ok (some []) }
    ∃ full quiet, start vcs parser true = .ok full ∧ start vcs parser false = .ok quiet ∧
      full.Disciplined ∧ quiet.Disciplined ∧
      (full.yielded 3).length = 3 ∧ full.answer 2 = some (.error (.vcs (.io "gone"))) ∧
      quiet.yielded 3 = (full.yielded 3).filter isSubstantial ∧
      (quiet.after 3).snapshot = (full.after 3).snapshot := by
  intro parser vcs
  have hparser : parser.Constructs := by
    intro path raw u hu
    cases hu
    exact ⟨"a", [], nofun, by decide +kernel⟩
  obtain ⟨hruns, hcompare⟩ := run_discipline vcs hparser
  obtain ⟨-, -, hyielded, hafter⟩ := hcompare _ _ rfl rfl 3 (Nat.le_refl 3)
  refine ⟨_, _, rfl, rfl, (hruns true _ rfl).1, (hruns false _ rfl).1, ?_, ?_, hyielded, hafter⟩
  · decide +kernel
  · decide +kernel

end SourceHistory.History
