import SourceHistory.Proofs.Id.Grammar

namespace SourceHistory

variable {kind : Kind} {id parent : String} {segments : List (List Char)}

def Kind.fitsSegment : Kind → (segment : String) → Bool
  | .unit => Id.isValidPath
  | .type => Id.isValidName
  | .function => Id.isValidSignature
  | .var => Id.isValidName

/-- Whether a node of this kind can stand directly below the id `parent`. -/
def Kind.StandsBelow (kind : Kind) (parent : String) : Prop :=
  ∃ container : Kind, container.isValidId parent = true ∧ container.canContain kind = true

namespace Kind

theorem standsBelow_iff (hk : kind = .type ∨ kind = .function) :
    kind.StandsBelow parent ↔ Id.isValidPath parent = true ∨ Id.isValidType parent = true := by
  constructor
  · rintro ⟨container, hvalid, hholds⟩
    cases container with
    | unit => exact Or.inl hvalid
    | type => exact Or.inr hvalid
    | function => rcases hk with rfl | rfl <;> cases hholds
    | var => cases hholds
  · rintro (hvalid | hvalid)
    · exact ⟨.unit, hvalid, by rcases hk with rfl | rfl <;> rfl⟩
    · exact ⟨.type, hvalid, by rcases hk with rfl | rfl <;> rfl⟩

theorem standsBelow_var_iff :
    Kind.var.StandsBelow parent ↔ Id.isValidPath parent = true ∨ Id.isValidType parent = true ∨
      Id.isValidFunction parent = true := by
  constructor
  · rintro ⟨container, hvalid, hholds⟩
    cases container with
    | unit => exact Or.inl hvalid
    | type => exact Or.inr (Or.inl hvalid)
    | function => exact Or.inr (Or.inr hvalid)
    | var => cases hholds
  · rintro (hvalid | hvalid | hvalid)
    · exact ⟨.unit, hvalid, rfl⟩
    · exact ⟨.type, hvalid, rfl⟩
    · exact ⟨.function, hvalid, rfl⟩

end Kind

namespace Id

theorem names_iff_standsBelow (hk : kind = .type ∨ kind = .function)
    (h : segments? id = some segments) :
    (∀ s ∈ segments, isName s = true) ↔ kind.StandsBelow id := by
  rw [Kind.standsBelow_iff hk, isValidPath_iff, isValidType_iff h, h]
  cases segments <;> simp

theorem holdVars_iff_standsBelow (h : segments? id = some segments) :
    HoldVars segments ↔ Kind.var.StandsBelow id := by
  rw [Kind.standsBelow_var_iff, ← or_assoc, ← Kind.standsBelow_iff (Or.inl rfl),
    ← names_iff_standsBelow (Or.inl rfl) h, HoldVars]
  refine or_congr_right ⟨?_, fun hf => ?_⟩
  · rintro ⟨outer, last, rfl, hlast, houter⟩
    exact (isValidFunction_iff h).2 ⟨hlast, houter⟩
  · obtain ⟨outer, last, hseg, hlast⟩ := exists_of_isValidFunction hf
    obtain rfl := Option.some.inj (h.symm.trans hseg)
    exact ⟨outer, last, rfl, (isValidFunction_iff h).1 hf⟩

end Id

namespace Kind

/-- Types apart, no id fits two kinds. -/
theorem eq_of_isValidId {other : Kind} (hk : kind ≠ .type) (ho : other ≠ .type)
    (h : kind.isValidId id = true) (h' : other.isValidId id = true) : kind = other := by
  cases kind with
  | type => exact absurd rfl hk
  | unit => exact (eq_unit_of_isValidId h h').symm
  | function => exact (eq_function_of_isValidId h h').symm
  | var =>
    cases other with
    | type => exact absurd rfl ho
    | unit => exact eq_unit_of_isValidId h' h
    | function => exact eq_function_of_isValidId h' h
    | var => rfl

/-- Without a valid path an id has no segments and fits no kind. -/
theorem isValidId_of_segments?_none (h : Id.segments? id = none) : kind.isValidId id = false := by
  cases kind with
  | unit => simp [isValidId, Bool.eq_false_iff, Id.isValidPath_iff, h]
  | _ => simp [isValidId, Id.isValidType, Id.isValidFunction, Id.isValidVar, h]

theorem isValidId_iff_of_parent? (hk : kind ≠ .unit) (h : Id.parent? id = some parent) :
    kind.isValidId id = true ↔
      kind.StandsBelow parent ∧ kind.fitsSegment (Id.simpleName id) = true := by
  have hseg := Id.segments?_of_parent?_some h
  cases hp : Id.segments? parent with
  | none =>
    have hid : Id.segments? id = none := by rw [hseg, hp, Option.map_none]
    rw [isValidId_of_segments?_none hid]
    refine iff_of_false Bool.false_ne_true ?_
    rintro ⟨⟨container, hvalid, -⟩, -⟩
    rw [isValidId_of_segments?_none hp] at hvalid
    cases hvalid
  | some outer =>
    rw [hp, Option.map_some] at hseg
    cases kind with
    | unit => exact absurd rfl hk
    | type =>
      rw [← Id.names_iff_standsBelow (Or.inl rfl) hp, isValidId, Id.isValidType_iff hseg,
        List.forall_mem_append, List.forall_mem_singleton]
      exact and_iff_right (by simp)
    | function =>
      rw [← Id.names_iff_standsBelow (Or.inr rfl) hp, isValidId, Id.isValidFunction_iff hseg,
        and_comm]
      rfl
    | var =>
      rw [← Id.holdVars_iff_standsBelow hp, isValidId, Id.isValidVar_iff hseg, and_comm]
      rfl

/-- An id fits a kind of entities exactly if its parent fits a kind that may hold it and its last
segment is one for this kind. -/
theorem isValidId_iff_exists_parent (hk : kind ≠ .unit) :
    kind.isValidId id = true ↔ ∃ parent, Id.parent? id = some parent ∧
      kind.StandsBelow parent ∧ kind.fitsSegment (Id.simpleName id) = true := by
  constructor
  · intro h
    obtain ⟨parent, hp⟩ := exists_parent?_of_isValidId h hk
    exact ⟨parent, hp, (isValidId_iff_of_parent? hk hp).1 h⟩
  · rintro ⟨parent, hp, h⟩
    exact (isValidId_iff_of_parent? hk hp).2 h

end Kind

namespace Id

/-- The grammar agrees with containment. Units have no parent, and the other three kinds are known
by their parent and their last segment. So no id fits two kinds, except that every id of a type could
be one of a variable, and what stands above an entity fits a kind that may hold it. -/
theorem grammar_agrees_with_containment (id : String) :
    (isValidPath id = true → parent? id = none) ∧
    (isValidType id = true ↔ ∃ parent, parent? id = some parent ∧
      (isValidPath parent = true ∨ isValidType parent = true) ∧
        isValidName (simpleName id) = true) ∧
    (isValidFunction id = true ↔ ∃ parent, parent? id = some parent ∧
      (isValidPath parent = true ∨ isValidType parent = true) ∧
        isValidSignature (simpleName id) = true) ∧
    (isValidVar id = true ↔ ∃ parent, parent? id = some parent ∧
      (isValidPath parent = true ∨ isValidType parent = true ∨ isValidFunction parent = true) ∧
        isValidName (simpleName id) = true) ∧
    (∀ kind other : Kind, kind ≠ .type → other ≠ .type →
      kind.isValidId id = true → other.isValidId id = true → kind = other) ∧
    (isValidType id = true → isValidVar id = true) ∧
    ∀ kind : Kind, kind ≠ .unit → kind.isValidId id = true → ∃ (parent : String) (container : Kind),
      parent? id = some parent ∧ container.isValidId parent = true ∧
        container.canContain kind = true := by
  have htype := @Kind.isValidId_iff_exists_parent .type id nofun
  have hfunction := @Kind.isValidId_iff_exists_parent .function id nofun
  have hvar := @Kind.isValidId_iff_exists_parent .var id nofun
  simp only [Kind.standsBelow_iff (Or.inl rfl)] at htype
  simp only [Kind.standsBelow_iff (Or.inr rfl)] at hfunction
  simp only [Kind.standsBelow_var_iff] at hvar
  refine ⟨parent?_of_isValidPath, htype, hfunction, hvar, ?_, ?_, ?_⟩
  · intro kind other hk ho h h'
    exact Kind.eq_of_isValidId hk ho h h'
  · intro h
    obtain ⟨parent, hp, habove, hname⟩ := htype.1 h
    exact hvar.2 ⟨parent, hp, habove.imp_right Or.inl, hname⟩
  · intro kind hk h
    obtain ⟨parent, hp, ⟨container, hvalid, hholds⟩, -⟩ :=
      (Kind.isValidId_iff_exists_parent hk).1 h
    exact ⟨parent, container, hp, hvalid, hholds⟩

/-- A path, a member of a type, and a parameter of a function whose signature has blanks and slashes
in it. -/
theorem grammar_agrees_with_containment_of_parameter :
    parent? "src/M.java" = none ∧ isValidVar "a:T:U" = true ∧
      isValidFunction "a:T:f(int, x/y):p" = false ∧
      ∃ (parent : String) (container : Kind), parent? "a:T:f(int, x/y):p" = some parent ∧
        container.isValidId parent = true ∧ container.canContain .var = true := by
  obtain ⟨hpath, -⟩ := grammar_agrees_with_containment "src/M.java"
  obtain ⟨-, -, -, -, -, htype, -⟩ := grammar_agrees_with_containment "a:T:U"
  obtain ⟨-, -, -, -, hone, -, habove⟩ := grammar_agrees_with_containment "a:T:f(int, x/y):p"
  have hvar : Kind.var.isValidId "a:T:f(int, x/y):p" = true := by decide +kernel
  refine ⟨hpath (by decide +kernel), htype (by decide +kernel), ?_, habove .var nofun hvar⟩
  rw [Bool.eq_false_iff]
  intro hfunction
  cases hone .function .var nofun nofun hfunction hvar

end Id

end SourceHistory
