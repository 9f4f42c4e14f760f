import SourceHistory.Proofs.Node.WellFormed

namespace SourceHistory

variable {n : Node} {u : SourceUnit} {path : String}

theorem Node.make_eq_ok_iff {id : String} {attributes : Attributes} {children : List Node} :
    Node.make id attributes children = .ok n ↔
      n = ⟨id, attributes, if attributes.kind.isSorted then sortById children else children⟩ ∧
        n.WellFormed := by
  simp only [make, check_bind_eq_ok_iff, pure_eq_ok_iff, checkShallow_eq_ok_iff]
  constructor
  · intro hmake
    obtain ⟨hwf, rfl⟩ := hmake
    exact ⟨rfl, hwf⟩
  · intro hmake
    obtain ⟨rfl, hwf⟩ := hmake
    exact ⟨hwf, rfl⟩

/-- The constructors sort children, but take and leave none. -/
theorem Node.mem_children_of_make {id : String} {attributes : Attributes} {children : List Node}
    {c : Node} (h : Node.make id attributes children = .ok n) : c ∈ n.children ↔ c ∈ children := by
  obtain ⟨rfl, -⟩ := make_eq_ok_iff.1 h
  change c ∈ (if attributes.kind.isSorted then sortById children else children) ↔ c ∈ children
  split
  · exact List.mem_mergeSort
  · exact Iff.rfl

/-- Built by the constructors from the leaves up. -/
inductive Node.Constructed : Node → Prop where
  | make {id : String} {attributes : Attributes} {children : List Node} {n : Node} :
    (∀ c ∈ children, Constructed c) → Node.make id attributes children = .ok n → Constructed n

theorem Node.sortById_of_ascending {children : List Node}
    (h : (children.map Node.id).Pairwise (· < ·)) : sortById children = children := by
  apply List.mergeSort_of_pairwise
  rw [List.pairwise_map] at h
  exact h.imp fun hab => decide_eq_true (le_of_lt hab)

theorem Node.WellFormed.make_eq (h : n.WellFormed) :
    Node.make n.id n.attributes n.children = .ok n := by
  obtain ⟨id, attributes, children⟩ := n
  refine make_eq_ok_iff.2 ⟨?_, h⟩
  split
  · next hs =>
    have hsorted : (children.map Node.id).Pairwise (· < ·) := h.sorted hs
    rw [sortById_of_ascending hsorted]
  · rfl

/-- What the constructors can build is what passes the check of all levels. -/
theorem Node.constructed_iff : n.Constructed ↔ n.validate = .ok () := by
  constructor
  · intro h
    induction h with
    | @make id attributes children n _ hmake ih =>
      obtain ⟨-, hwf⟩ := make_eq_ok_iff.1 hmake
      exact validate_eq_ok_iff_children.2
        ⟨hwf, fun c hc => ih c ((mem_children_of_make hmake).1 hc)⟩
  · intro h
    induction n using children_induction with
    | node n ih =>
      obtain ⟨hwf, hv⟩ := validate_eq_ok_iff_children.1 h
      exact .make (fun c hc => ih c hc (hv c hc)) hwf.make_eq

def SourceUnit.Constructed (u : SourceUnit) : Prop :=
  ∃ path entities, (∀ n ∈ entities, n.Constructed) ∧ SourceUnit.make path entities = .ok u

theorem SourceUnit.make_eq_ok_iff {entities : List Node} :
    SourceUnit.make path entities = .ok u ↔ Node.make path .unit entities = .ok u.toNode := by
  simp only [make, bind_eq_ok_iff, pure_eq_ok_iff]
  constructor
  · intro hmake
    obtain ⟨n, hn, rfl⟩ := hmake
    obtain ⟨rfl, -⟩ := Node.make_eq_ok_iff.1 hn
    exact hn
  · intro hn
    exact ⟨u.toNode, hn, rfl⟩

theorem SourceUnit.Constructed.validate (h : u.Constructed) : u.validate = .ok () := by
  obtain ⟨path, entities, hentities, hmake⟩ := h
  exact Node.constructed_iff.1 (.make hentities (make_eq_ok_iff.1 hmake))

theorem SourceUnit.constructed_of_validate (h : u.validate = .ok ()) : u.Constructed := by
  obtain ⟨hwf, hentities⟩ := Node.validate_eq_ok_iff_children.1 h
  exact ⟨u.path, u.entities, fun n hn => Node.constructed_iff.2 (hentities n hn),
    make_eq_ok_iff.2 hwf.make_eq⟩

theorem SourceUnit.constructed_of_empty (h : SourceUnit.empty path = .ok u) : u.Constructed :=
  ⟨path, [], nofun, h⟩

theorem SourceUnit.path_of_empty (h : SourceUnit.empty path = .ok u) : u.path = path := by
  obtain ⟨hu, -⟩ := Node.make_eq_ok_iff.1 (make_eq_ok_iff.1 h)
  exact congrArg Node.id hu

theorem SourceUnit.empty_of_isValidPath (hv : Id.isValidPath path = true) :
    SourceUnit.empty path = .ok ⟨path, []⟩ := by
  have hsort : Node.sortById [] = [] := Node.sortById_of_ascending List.Pairwise.nil
  refine SourceUnit.make_eq_ok_iff.2 (Node.make_eq_ok_iff.2 ⟨by rw [hsort]; rfl, ?_⟩)
  exact ⟨hv, nofun, List.nodup_nil, fun _ => List.Pairwise.nil, nofun⟩

end SourceHistory
