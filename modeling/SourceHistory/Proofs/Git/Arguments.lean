import Mathlib.Tactic.ByContra
import SourceHistory.Git.Driver
import SourceHistory.Proofs.Git.Session
import SourceHistory.Proofs.Revision

namespace SourceHistory.Git

namespace Driver

open Session

variable {P : List String → Prop} {d : Driver} {args : List String}

theorem asks_command (h : P (commonArgs ++ args)) : (d.command args).Asks P := by
  rw [command]
  split
  · exact ⟨h, fun reply => asks_ofExcept (d.outputOf args reply)⟩
  · exact asks_fail _

theorem asks_checked (h : P (commonArgs ++ args)) : (d.checked args).Asks P := by
  refine (asks_command h).bind fun output => ?_
  split
  · exact asks_pure output.stdout
  · exact asks_fail _

theorem asks_text (h : P (commonArgs ++ args)) : (d.text args).Asks P := by
  refine (asks_checked h).bind fun stdout => ?_
  split
  · exact asks_pure _
  · exact asks_fail _

end Driver

inductive Question where
  | headRevision
  | listRevisions
  | revision
  | pathHistory
  | changedPaths
  | listFiles
  | fileContent

def Question.Answer : Question → Type
  | headRevision => Revision
  | listRevisions => List Revision
  | revision => Option Revision
  | pathHistory => List Revision
  | changedPaths => NameSet
  | listFiles => NameSet
  | fileContent => Option (List UInt8)

/-- A question with the strings of the caller. Where it is about no revision or no path, that string
does not matter. -/
structure Call where
  question : Question
  id : String
  path : String

def Driver.ask (d : Driver) : (call : Call) → Session call.question.Answer
  | ⟨.headRevision, _, _⟩ => d.headRevision
  | ⟨.listRevisions, _, _⟩ => d.listRevisions
  | ⟨.revision, id, _⟩ => d.revision id
  | ⟨.pathHistory, _, path⟩ => d.pathHistory path
  | ⟨.changedPaths, id, _⟩ => d.changedPaths id
  | ⟨.listFiles, id, _⟩ => d.listFiles id
  | ⟨.fileContent, id, path⟩ => d.fileContent id path

/-- How an argument comes about. Only the last three hold strings of the caller. -/
inductive Word where
  | fixed (text : String)
  /-- The revision id, with a text of the driver behind it. -/
  | revision (suffix : String)
  /-- The path, by itself. -/
  | path
  /-- The file at the path in the revision. -/
  | file
  deriving DecidableEq

namespace Word

def text (d : Driver) (call : Call) : Word → String
  | fixed text => text
  | revision suffix => call.id ++ suffix
  | path => call.path
  | file => call.id ++ ":" ++ d.directory ++ call.path

def namesRevision : Word → Bool
  | revision _ => true
  | file => true
  | _ => false

def namesPath : Word → Bool
  | path => true
  | file => true
  | _ => false

theorem exists_text_eq (d : Driver) (call : Call) {word : Word}
    (h : word.namesRevision = true) :
    ∃ suffix, word.text d call = call.id ++ suffix := by
  cases word with
  | fixed text => cases h
  | revision suffix => exact ⟨suffix, rfl⟩
  | path => cases h
  | file => exact ⟨":" ++ d.directory ++ call.path, by simp [text, String.append_assoc]⟩

end Word

def headCheck : List Word := ["rev-parse", "--verify", "-q", head].map .fixed

def commitCheck : List Word := [.fixed "cat-file", .fixed "-e", .revision "^\x7bcommit\x7d"]

/-- The commands of a question. They are given without the strings of any caller, so a word of one
command cannot come from a string that is meant for another. -/
def Question.lines : Question → List (List Word)
  | headRevision => [headCheck, ["rev-list", "-1", commitFormat, head].map .fixed]
  | listRevisions =>
    [headCheck, ["rev-list", "--first-parent", "--reverse", commitFormat, head].map .fixed]
  | revision =>
    [headCheck, ["rev-list", "-1", commitFormat].map .fixed ++ [.revision "^\x7bcommit\x7d"]]
  | pathHistory =>
    [headCheck,
      ["rev-list", "--first-parent", "--reverse", commitFormat, head, "--"].map .fixed ++ [.path]]
  | changedPaths =>
    [commitCheck, ["diff-tree", "-m", "-r", "--root", "--name-only", "--relative",
      "--no-commit-id"].map .fixed ++ [.revision ""]]
  | listFiles => [commitCheck, ["ls-tree", "-r", "--name-only"].map .fixed ++ [.revision ""]]
  | fileContent => [commitCheck, ["cat-file", "blob"].map .fixed ++ [.file]]

variable {d : Driver} {call : Call} {words : List Word} {args : List String}

/-- In the table of commands no path stands by itself before the two dashes. -/
theorem dashes_before_path (question : Question) (hw : words ∈ question.lines) :
    ∀ i, (h : i < words.length) → words[i] = .path → .fixed "--" ∈ words.take i := by
  have htable : ∀ words ∈ question.lines, ∀ i, (h : i < words.length) → words[i] = .path →
      .fixed "--" ∈ words.take i := by
    cases question <;> decide
  exact htable words hw

/-- A command of a call in which no string of the caller can be taken for an option: its revision id
is valid and starts every argument that it goes into, and its path stands after two dashes or behind
the revision id. -/
def Guarded (d : Driver) (call : Call) (args : List String) : Prop :=
  ∃ words ∈ call.question.lines, args = commonArgs ++ words.map (Word.text d call) ∧
    ∀ before word after, words = before ++ word :: after →
      (word.namesRevision = true → Revision.isValidId call.id = true ∧
        call.id.toList <+: (word.text d call).toList ∧
          (word.text d call).toList.head? ≠ some '-') ∧
      (word.namesPath = true → .fixed "--" ∈ before ∨
        word.text d call = call.id ++ ":" ++ d.directory ++ call.path)

theorem guarded_of_mem (hw : words ∈ call.question.lines)
    (hid : (∃ word ∈ words, word.namesRevision = true) → Revision.isValidId call.id = true)
    (ha : args = words.map (Word.text d call)) : Guarded d call (commonArgs ++ args) := by
  refine ⟨words, hw, by rw [ha], ?_⟩
  rintro before word after rfl
  constructor
  · intro hrevision
    have hvalid := hid ⟨word, by simp, hrevision⟩
    obtain ⟨suffix, htext⟩ := Word.exists_text_eq d call hrevision
    rw [htext]
    refine ⟨hvalid, ?_, Revision.head?_append_ne_dash hvalid suffix⟩
    rw [String.toList_append]
    exact List.prefix_append _ _
  · intro hpath
    cases word with
    | fixed text => cases hpath
    | revision suffix => cases hpath
    | file => exact Or.inr rfl
    | path =>
      have hdashes := dashes_before_path call.question hw before.length (by simp) (by simp)
      rw [List.take_left] at hdashes
      exact Or.inl hdashes

theorem guarded_fixed {texts : List String} (hw : texts.map .fixed ∈ call.question.lines) :
    Guarded d call (commonArgs ++ texts) := by
  refine guarded_of_mem hw ?_ ?_
  · rintro ⟨word, hword, hrevision⟩
    obtain ⟨text, -, rfl⟩ := List.mem_map.1 hword
    cases hrevision
  · rw [List.map_map]
    exact (List.map_id texts).symm

namespace Driver

open Session

theorem asks_hasCommits (hw : headCheck ∈ call.question.lines) :
    (d.hasCommits).Asks (Guarded d call) :=
  (asks_command (guarded_fixed hw)).bind fun output => asks_pure output.succeeded

theorem asks_validate (hw : commitCheck ∈ call.question.lines) :
    (d.validate call.id).Asks (Guarded d call) := by
  rw [validate]
  split
  · next hid =>
    refine (asks_command (guarded_of_mem hw (fun _ => hid) rfl)).bind fun output => ?_
    split
    · exact asks_pure ()
    · exact asks_fail _
  · exact asks_fail _

/-- Behind the check of a revision id the id is valid. -/
theorem asks_validate_bind {α : Type} {f : Unit → Session α}
    (hw : commitCheck ∈ call.question.lines)
    (hf : Revision.isValidId call.id = true → (f ()).Asks (Guarded d call)) :
    (d.validate call.id >>= f).Asks (Guarded d call) := by
  by_cases hid : Revision.isValidId call.id = true
  · exact (asks_validate hw).bind fun _ => hf hid
  · rw [validate, if_neg hid]
    exact asks_fail _

/-- Every command of a call is one of its question, and guarded. -/
theorem asks_ask (d : Driver) (call : Call) : (d.ask call).Asks (Guarded d call) := by
  obtain ⟨question, id, path⟩ := call
  cases question with
  | headRevision =>
    refine (asks_hasCommits (by simp [Question.lines])).bind fun committed => ?_
    split
    · refine (asks_text (guarded_fixed (by simp [Question.lines]))).bind fun raw => ?_
      refine (asks_ofExcept (parseLog raw)).bind fun revisions => ?_
      split
      · exact asks_pure _
      · exact asks_fail _
    · exact asks_fail _
  | listRevisions =>
    refine (asks_hasCommits (by simp [Question.lines])).bind fun committed => ?_
    split
    · refine (asks_text (guarded_fixed (by simp [Question.lines]))).bind fun raw => ?_
      exact asks_ofExcept (parseLog raw)
    · exact asks_pure []
  | revision =>
    change (d.revision id).Asks _
    rw [revision]
    split
    · exact asks_pure none
    · next hinvalid =>
      have hid : Revision.isValidId id = true := by simpa using hinvalid
      refine (asks_hasCommits (by simp [Question.lines])).bind fun committed => ?_
      split
      · have hguarded : Guarded d ⟨.revision, id, path⟩
            (commonArgs ++ ["rev-list", "-1", commitFormat, commitObject id]) :=
          guarded_of_mem (List.mem_cons_of_mem headCheck List.mem_cons_self) (fun _ => hid) rfl
        refine (asks_command hguarded).bind fun output => ?_
        split
        · exact (asks_ofExcept _).bind fun revisions => asks_pure revisions.getLast?
        · exact asks_pure none
      · exact asks_pure none
  | pathHistory =>
    refine (asks_hasCommits (by simp [Question.lines])).bind fun committed => ?_
    split
    · have hguarded : Guarded d ⟨.pathHistory, id, path⟩ (commonArgs ++
          ["rev-list", "--first-parent", "--reverse", commitFormat, head, "--", path]) :=
        guarded_of_mem (List.mem_cons_of_mem headCheck List.mem_cons_self)
          (by simp [Word.namesRevision]) rfl
      exact (asks_text hguarded).bind fun raw => asks_ofExcept (parseLog raw)
    · exact asks_pure []
  | changedPaths =>
    refine asks_validate_bind (by simp [Question.lines]) fun hid => ?_
    have hguarded : Guarded d ⟨.changedPaths, id, path⟩ (commonArgs ++ ["diff-tree", "-m", "-r",
        "--root", "--name-only", "--relative", "--no-commit-id", id]) :=
      guarded_of_mem (List.mem_cons_of_mem commitCheck List.mem_cons_self) (fun _ => hid)
        (by simp [Word.text])
    exact (asks_text hguarded).bind fun raw => asks_pure (parsePaths raw)
  | listFiles =>
    refine asks_validate_bind (by simp [Question.lines]) fun hid => ?_
    have hguarded : Guarded d ⟨.listFiles, id, path⟩
        (commonArgs ++ ["ls-tree", "-r", "--name-only", id]) :=
      guarded_of_mem (List.mem_cons_of_mem commitCheck List.mem_cons_self) (fun _ => hid)
        (by simp [Word.text])
    exact (asks_text hguarded).bind fun raw => asks_pure (parsePaths raw)
  | fileContent =>
    refine asks_validate_bind (by simp [Question.lines]) fun hid => ?_
    have hguarded : Guarded d ⟨.fileContent, id, path⟩
        (commonArgs ++ ["cat-file", "blob", id ++ ":" ++ d.directory ++ path]) :=
      guarded_of_mem (List.mem_cons_of_mem commitCheck List.mem_cons_self) (fun _ => hid) rfl
    exact (asks_command hguarded).bind fun output => asks_pure _

/-- The check of a commit fails, whatever else git replies than that it succeeded. -/
theorem exists_fail_of_reply (d : Driver) (args : List String) (id : String) (reply : Reply)
    (h : ∀ stdout stderr, reply ≠ .exited (some 0) stdout stderr) :
    ∃ e, ((ofExcept (d.outputOf args reply) : Session Output) >>= fun output =>
      if output.succeeded then pure () else fail (.unknownRevision id)) = fail e := by
  cases reply with
  | notStarted reason => exact ⟨.io reason, rfl⟩
  | lost reason => exact ⟨.io reason, rfl⟩
  | unread => exact ⟨.malformed "output reader thread panicked", rfl⟩
  | timedOut => exact ⟨.timeout (d.commandText args) d.timeoutSeconds, rfl⟩
  | exited code stdout stderr =>
    have hcode : code ≠ some 0 := fun hc => h stdout stderr (by rw [hc])
    refine ⟨.unknownRevision id, if_neg ?_⟩
    simpa [Output.succeeded] using hcode

/-- Nothing follows the check of a commit unless it succeeded. -/
theorem commands_validate_bind {α : Type} {id : String} {f : Unit → Session α}
    {replies : List Reply} {first : List String} {rest : List (List String)}
    (h : (d.validate id >>= f).commands replies = first :: rest) :
    first = commonArgs ++ ["cat-file", "-e", commitObject id] ∧
      (rest ≠ [] → ∃ stdout stderr later, replies = .exited (some 0) stdout stderr :: later) := by
  have hnone (e : VcsError) (replies : List Reply) :
      ((fail e : Session Unit) >>= f).commands replies = [] := commands_fail replies e
  rw [validate] at h
  split at h
  · rw [command] at h
    split at h
    · cases replies with
      | nil =>
        obtain ⟨rfl, rfl⟩ := List.cons.inj h
        exact ⟨rfl, fun hrest => absurd rfl hrest⟩
      | cons reply replies =>
        obtain ⟨rfl, rfl⟩ := List.cons.inj h
        refine ⟨rfl, fun hrest => ?_⟩
        by_contra hreply
        obtain ⟨e, he⟩ := d.exists_fail_of_reply ["cat-file", "-e", commitObject id] id reply
          fun stdout stderr he => hreply ⟨stdout, stderr, replies, by rw [he]⟩
        exact hrest ((congrArg (fun s => (s >>= f).commands replies) he).trans (hnone e replies))
    · cases (hnone _ replies).symm.trans h
  · cases (hnone _ replies).symm.trans h

end Driver

def Question.asksForData : Question → Bool
  | changedPaths => true
  | listFiles => true
  | fileContent => true
  | _ => false

namespace Driver

theorem exists_ask_eq (d : Driver) (h : call.question.asksForData = true) :
    ∃ f, d.ask call = d.validate call.id >>= f := by
  obtain ⟨question, id, path⟩ := call
  cases question with
  | changedPaths => exact ⟨_, rfl⟩
  | listFiles => exact ⟨_, rfl⟩
  | fileContent => exact ⟨_, rfl⟩
  | _ => cases h

theorem ask_of_not_isValidId (h : call.question.asksForData = true)
    (hid : Revision.isValidId call.id = false) :
    d.ask call = .fail (.unknownRevision call.id) := by
  obtain ⟨f, hf⟩ := exists_ask_eq d h
  rw [hf, validate, if_neg (by simp [hid])]
  rfl

end Driver

/-- A call, the replies that git gives from then on, and the commands that are run for it. -/
structure Turn where
  call : Call
  replies : List Reply
  commands : List (List String)

/-- The turns of a program that makes one call after the other, while git replies with `replies` in
order. Nothing follows a command without a reply. -/
def Driver.turns (d : Driver) : (replies : List Reply) → (calls : List Call) → List Turn
  | _, [] => []
  | replies, call :: calls =>
    let commands := (d.ask call).commands replies
    ⟨call, replies, commands⟩ ::
      if commands.length ≤ replies.length then d.turns (replies.drop commands.length) calls else []

theorem Driver.commands_of_mem_turns {replies : List Reply} {calls : List Call} {turn : Turn}
    (h : turn ∈ d.turns replies calls) :
    turn.commands = (d.ask turn.call).commands turn.replies := by
  induction calls generalizing replies with
  | nil => cases h
  | cons call calls ih =>
    rcases List.mem_cons.1 h with rfl | h
    · rfl
    · split at h
      · exact ih h
      · cases h

theorem Driver.turns_calls_prefix (d : Driver) (replies : List Reply) (calls : List Call) :
    (d.turns replies calls).map Turn.call <+: calls := by
  induction calls generalizing replies with
  | nil => exact List.prefix_rfl
  | cons call calls ih =>
    rw [turns, List.map_cons, List.prefix_cons_inj]
    split
    · exact ih _
    · exact List.nil_prefix

/-- No string of a caller is an option of git, whatever calls are made and whatever git replies. A
revision id in an argument is valid and stands at its start, and a path comes after two dashes or
after the revision. A question about the data of a revision runs no command for an id that is not
valid, and otherwise first of all the check that there is such a commit; the data are asked for only
if that succeeded. -/
theorem no_option_injection (d : Driver) (replies : List Reply) (calls : List Call) :
    (d.turns replies calls).map Turn.call <+: calls ∧ ∀ turn ∈ d.turns replies calls,
      (∀ args ∈ turn.commands, Guarded d turn.call args) ∧
      (turn.call.question.asksForData = true →
        (Revision.isValidId turn.call.id = false → turn.commands = [] ∧
          ∀ git, (d.ask turn.call).eval git = .error (.unknownRevision turn.call.id)) ∧
        ∀ check rest, turn.commands = check :: rest →
          check = commonArgs ++ ["cat-file", "-e", commitObject turn.call.id] ∧
          (rest ≠ [] →
            ∃ stdout stderr later, turn.replies = .exited (some 0) stdout stderr :: later)) := by
  refine ⟨d.turns_calls_prefix replies calls, fun turn hturn => ?_⟩
  rw [Driver.commands_of_mem_turns hturn]
  refine ⟨fun args ha => (d.asks_ask turn.call).of_mem_commands ha, fun hdata => ⟨?_, ?_⟩⟩
  · intro hid
    rw [Driver.ask_of_not_isValidId hdata hid]
    exact ⟨Session.commands_fail _ _, fun _ => rfl⟩
  · intro check rest h
    obtain ⟨f, hf⟩ := Driver.exists_ask_eq d hdata
    rw [hf] at h
    exact Driver.commands_validate_bind h

/-- A path and a revision id with dashes: the path goes into a command behind a valid revision, the
revision id into none. -/
theorem no_option_injection_of_dashes :
    let d : Driver := ⟨"git", 60, "sub/"⟩
    let replies : List Reply := [.exited (some 0) [] [], .exited (some 0) [104, 105] []]
    let content : Call := ⟨.fileContent, "0a1b", "--output=x"⟩
    let files : Call := ⟨.listFiles, "--all", ""⟩
    let data := commonArgs ++ ["cat-file", "blob", "0a1b:sub/--output=x"]
    (∃ turn ∈ d.turns replies [content, files], turn.call = content ∧ data ∈ turn.commands ∧
      Guarded d content data ∧ ∃ stdout stderr later,
        turn.replies = .exited (some 0) stdout stderr :: later) ∧
      ∃ turn ∈ d.turns replies [content, files], turn.call = files ∧ turn.commands = [] := by
  intro d replies content files data
  have hcommands : (d.ask content).commands replies =
      [commonArgs ++ ["cat-file", "-e", "0a1b^\x7bcommit\x7d"], data] := by decide +kernel
  have hturns : d.turns replies [content, files] =
      [⟨content, replies, [commonArgs ++ ["cat-file", "-e", "0a1b^\x7bcommit\x7d"], data]⟩,
        ⟨files, [], (d.ask files).commands []⟩] := by
    rw [Driver.turns, hcommands]
    rfl
  obtain ⟨-, hall⟩ := no_option_injection d replies [content, files]
  rw [hturns] at hall ⊢
  obtain ⟨hfirst, hsecond⟩ := List.forall_mem_cons.1 hall
  obtain ⟨hguarded, hdata⟩ := hfirst
  obtain ⟨-, hcheck⟩ := hdata rfl
  obtain ⟨-, hdata⟩ := List.forall_mem_singleton.1 hsecond
  obtain ⟨hnone, -⟩ := hdata rfl
  refine ⟨⟨_, List.mem_cons_self, rfl, by simp, hguarded data (by simp), ?_⟩, _,
    List.mem_cons_of_mem _ List.mem_cons_self, rfl, (hnone (by decide +kernel)).1⟩
  exact (hcheck _ [data] rfl).2 (by simp)

end SourceHistory.Git
