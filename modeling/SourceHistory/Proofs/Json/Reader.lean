import SourceHistory.Json.Reader
import SourceHistory.Proofs.Json.Token

namespace SourceHistory.Json

variable {j : Json} {items : List Json} {fields : List (String × Json)} {stack : List Frame}
  {rest : List Char} {mode : Mode} {token : Token}

/-- Documents made of texts, natural numbers of 64 bits, arrays and records. -/
inductive Plain : Json → Prop where
  | text (s : String) : Plain (.text s)
  | nat {n : Nat} : n < 2 ^ 64 → Plain (.nat n)
  | array {items : List Json} : (∀ j ∈ items, Plain j) → Plain (.array items)
  | record {fields : List (String × Json)} : (∀ field ∈ fields, Plain field.2) →
    Plain (.record fields)

/-- How reading goes on once the value that was due is complete. -/
def deliver (value : Json) (stack : List Frame) (rest : List Token) : Document :=
  match stack with
  | [] => ⟨value, rest.isEmpty⟩
  | .array items :: stack => readFrom .next (.array (value :: items) :: stack) rest
  | .object fields key :: stack => readFrom .next (.object ((key, value) :: fields) key :: stack) rest

theorem readFrom_of_settle {value : Json} {below : List Frame} {tokens : List Token}
    (h : step mode stack token = settle value below) :
    readFrom mode stack (token :: tokens) = deliver value below tokens := by
  rw [readFrom, h]
  rcases below with _ | ⟨items | ⟨fields, key⟩, below⟩ <;> rfl

theorem readFrom_of_go {due : Mode} {below : List Frame} {tokens : List Token}
    (h : step mode stack token = .go due below) :
    readFrom mode stack (token :: tokens) = readFrom due below tokens := by
  rw [readFrom, h]

def Mode.ExpectsValue (mode : Mode) : Prop := mode = .value ∨ mode = .firstItem

def Mode.ExpectsKey (mode : Mode) : Prop := mode = .key ∨ mode = .firstKey

theorem step_value (hmode : mode.ExpectsValue) (htoken : token ≠ .closeArray) :
    step mode stack token = stepValue stack token := by
  rcases hmode with rfl | rfl
  · rfl
  · cases token with
    | closeArray => exact absurd rfl htoken
    | _ => rcases stack with _ | ⟨(_ | _) | _, _⟩ <;> rfl

theorem step_key (hmode : mode.ExpectsKey) (fields : List (Option String × Json))
    (key text : Option String) :
    step mode (.object fields key :: stack) (.string text) =
      .go .colon (.object fields text :: stack) := by
  rcases hmode with rfl | rfl
  · rfl
  · cases fields <;> rfl

/-- Reading along the text of `j` delivers `j`. -/
def ReadsBack (j : Json) : Prop :=
  ∀ (mode : Mode) (stack : List Frame) (rest : List Char), mode.ExpectsValue → Follows rest →
    readFrom mode stack (tokens (j.render ++ rest)) = deliver j stack (tokens rest)

theorem readsBack_text (s : String) : ReadsBack (.text s) := by
  intro mode stack rest hmode _
  rw [text, render, Option.getD_some, tokens_quote]
  exact readFrom_of_settle (step_value hmode (by simp))

theorem readsBack_nat (n : Nat) : ReadsBack (.nat n) := by
  intro mode stack rest hmode hrest
  have htext : render (.nat n) = Text.decimal n := by
    simp [nat, render, Numeral.render, Numeral.ofNat]
  rw [htext, tokens_decimal n hrest]
  exact readFrom_of_settle (step_value hmode (by simp))

theorem tokens_comma (cs : List Char) : tokens (',' :: cs) = .comma :: tokens cs :=
  tokens_mark (by decide) rfl cs

theorem tokens_colon (cs : List Char) : tokens (':' :: cs) = .colon :: tokens cs :=
  tokens_mark (by decide) rfl cs

theorem tokens_openArray (cs : List Char) : tokens ('[' :: cs) = .openArray :: tokens cs :=
  tokens_mark (by decide) rfl cs

theorem tokens_closeArray (cs : List Char) : tokens (']' :: cs) = .closeArray :: tokens cs :=
  tokens_mark (by decide) rfl cs

theorem tokens_openObject (cs : List Char) : tokens ('\x7b' :: cs) = .openObject :: tokens cs :=
  tokens_mark (by decide) rfl cs

theorem tokens_closeObject (cs : List Char) : tokens ('\x7d' :: cs) = .closeObject :: tokens cs :=
  tokens_mark (by decide) rfl cs

theorem readFrom_items {item : Json} (hitems : ∀ j ∈ item :: items, ReadsBack j)
    (hmode : mode.ExpectsValue) (done : List Json) (stack : List Frame) (rest : List Char) :
    readFrom mode (.array done :: stack) (tokens (renderItems (item :: items) ++ ']' :: rest)) =
      deliver (.array (done.reverse ++ item :: items)) stack (tokens rest) := by
  induction items generalizing item mode done with
  | nil =>
    obtain ⟨hitem, -⟩ := List.forall_mem_cons.1 hitems
    rw [renderItems, hitem _ _ _ hmode (follows_cons (by decide) rest), deliver, tokens_closeArray]
    apply readFrom_of_settle
    simp [step, stepNext]
  | cons following items ih =>
    obtain ⟨hitem, hitems⟩ := List.forall_mem_cons.1 hitems
    rw [renderItems, List.append_assoc, List.cons_append,
      hitem _ _ _ hmode (follows_cons (by decide) _), deliver, tokens_comma]
    have hnext : step .next (.array (item :: done) :: stack) .comma =
        .go .value (.array (item :: done) :: stack) := rfl
    rw [readFrom_of_go hnext, ih hitems (Or.inl rfl) (item :: done)]
    simp

theorem readsBack_array (hitems : ∀ j ∈ items, ReadsBack j) : ReadsBack (.array items) := by
  intro mode stack rest hmode _
  have htext : render (.array items) ++ rest = '[' :: (renderItems items ++ ']' :: rest) := by
    simp [render]
  have hopen : step mode stack .openArray = .go .firstItem (.array [] :: stack) :=
    step_value hmode (by simp)
  rw [htext, tokens_openArray, readFrom_of_go hopen]
  cases items with
  | nil =>
    rw [renderItems, List.nil_append, tokens_closeArray]
    exact readFrom_of_settle rfl
  | cons item items => exact readFrom_items hitems (Or.inr rfl) [] stack rest

theorem readFrom_field {value : Json} (hvalue : ReadsBack value) (hmode : mode.ExpectsKey)
    (hrest : Follows rest) (done : List (Option String × Json)) (before : Option String)
    (key : String) :
    readFrom mode (.object done before :: stack)
        (tokens (quote key ++ ':' :: (value.render ++ rest))) =
      readFrom .next (.object ((some key, value) :: done) (some key) :: stack) (tokens rest) := by
  have hcolon : step .colon (.object done (some key) :: stack) .colon =
      .go .value (.object done (some key) :: stack) := rfl
  rw [tokens_quote, readFrom_of_go (step_key hmode done before (some key)), tokens_colon,
    readFrom_of_go hcolon, hvalue _ _ _ (Or.inl rfl) hrest, deliver]

def keyed (fields : List (String × Json)) : List (Option String × Json) :=
  fields.map fun (key, value) => (some key, value)

theorem record_eq (fields : List (String × Json)) : record fields = object (keyed fields) := rfl

theorem readFrom_fields {field : String × Json} (hfields : ∀ f ∈ field :: fields, ReadsBack f.2)
    (hmode : mode.ExpectsKey) (done : List (Option String × Json)) (before : Option String)
    (stack : List Frame) (rest : List Char) :
    readFrom mode (.object done before :: stack)
        (tokens (renderFields (keyed (field :: fields)) ++ '\x7d' :: rest)) =
      deliver (.object (done.reverse ++ keyed (field :: fields))) stack (tokens rest) := by
  induction fields generalizing field mode done before with
  | nil =>
    obtain ⟨hfield, -⟩ := List.forall_mem_cons.1 hfields
    have htext : renderFields (keyed [field]) ++ '\x7d' :: rest =
        quote field.1 ++ ':' :: (field.2.render ++ '\x7d' :: rest) := by
      simp [keyed, renderFields]
    rw [htext, readFrom_field hfield hmode (follows_cons (by decide) rest), tokens_closeObject]
    apply readFrom_of_settle
    simp [step, stepNext, keyed]
  | cons following fields ih =>
    obtain ⟨hfield, hfields⟩ := List.forall_mem_cons.1 hfields
    have htext : renderFields (keyed (field :: following :: fields)) ++ '\x7d' :: rest =
        quote field.1 ++ ':' :: (field.2.render ++
          ',' :: (renderFields (keyed (following :: fields)) ++ '\x7d' :: rest)) := by
      simp [keyed, renderFields]
    have hnext : step .next (.object ((some field.1, field.2) :: done) (some field.1) :: stack)
        .comma = .go .key (.object ((some field.1, field.2) :: done) (some field.1) :: stack) := rfl
    rw [htext, readFrom_field hfield hmode (follows_cons (by decide) _), tokens_comma,
      readFrom_of_go hnext, ih hfields (Or.inl rfl)]
    simp [keyed]

theorem readsBack_record (hfields : ∀ field ∈ fields, ReadsBack field.2) :
    ReadsBack (.record fields) := by
  intro mode stack rest hmode _
  have htext : render (.record fields) ++ rest =
      '\x7b' :: (renderFields (keyed fields) ++ '\x7d' :: rest) := by
    simp [record_eq, render]
  have hopen : step mode stack .openObject = .go .firstKey (.object [] none :: stack) :=
    step_value hmode (by simp)
  rw [htext, tokens_openObject, readFrom_of_go hopen]
  cases fields with
  | nil =>
    have hempty : renderFields (keyed []) = [] := by simp [keyed, renderFields]
    rw [hempty, List.nil_append, tokens_closeObject]
    exact readFrom_of_settle rfl
  | cons field fields => exact readFrom_fields hfields (Or.inr rfl) [] none stack rest

theorem Plain.readsBack (hj : Plain j) : ReadsBack j := by
  induction hj with
  | text s => exact readsBack_text s
  | nat _ => exact readsBack_nat _
  | array _ ih => exact readsBack_array ih
  | record _ ih => exact readsBack_record ih

/-- Printing and reading gives the document again, with nothing after it. -/
theorem Plain.read_compact (hj : Plain j) : read j.compact = ⟨j, true⟩ := by
  have hread := hj.readsBack .value [] [] (Or.inl rfl) follows_nil
  rw [List.append_nil] at hread
  rw [read, compact, String.toList_ofList, hread, tokens]
  rfl

end SourceHistory.Json
