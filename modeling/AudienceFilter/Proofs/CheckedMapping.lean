import AudienceFilter.Context
import AudienceFilter.Proofs.Results
import AudienceFilter.Schema.Catalog

/-!
# What a checked mapping promises

`Draft.build` checks all parts of a mapping, and what a policy says is checked when it is asked.
So arguments are stored in fields and node types with proper names, node types have filters on their
own fields only, and no node type apart from the main one has main documents (`Draft.checked`).
-/

namespace AudienceFilter

/-- What conversions rely on in a mapping. -/
structure Context.Checked (ctx : Context) : Prop where
  assignment {arg : String} {a : Assignment} (h : ctx.assignment arg = .ok a) :
    Text.isName a.field.nodeType = true
  field {arg : String} {a : Assignment} (h : ctx.assignment arg = .ok a) :
    Text.isName a.field.name = true
  nodeType {name : String} {info : NodeType} (h : ctx.mapping.nodeType name = .ok info) :
    Text.isName name = true
  filters {name : String} {info : NodeType} (h : ctx.mapping.nodeType name = .ok info) :
    ∀ f ∈ info.filters, f.nodeType = name
  filterField {name : String} {info : NodeType} (h : ctx.mapping.nodeType name = .ok info) :
    ∀ f ∈ info.filters, Text.isName f.field = true
  nature {name : String} {info : NodeType} (h : ctx.mapping.nodeType name = .ok info)
    (hn : ctx.mainType ≠ name) : info.nature ≠ .main

/-- Whether a filter was checked as one of a node type. -/
structure DocumentFilter.Checked (nodeType : String) (f : DocumentFilter) : Prop where
  field : Text.isName f.field = true
  nodeType : f.nodeType = nodeType
  template : Text.isBlankText f.template = false

/-- Whether a node type was checked. -/
structure NodeType.Checked (t : NodeType) : Prop where
  name : Text.isName t.name = true
  filters : ∀ f ∈ t.filters, f.Checked t.name

/-- Whether an assignment was checked against the declared node types. -/
structure Assignment.Checked (main : String) (declared : List String) (a : Assignment) : Prop where
  arg : Text.isBlankText a.arg = false
  field : Text.isName a.field.name = true
  nodeType : a.field.nodeType ∈ declared
  fits : a.argType.fits a.field.type.kind = true
  multiDoc : a.isMultiDoc = true → a.field.nodeType ≠ main

theorem forM_eq_ok {ε α : Type} {f : α → Except ε Unit} {xs : List α} (h : xs.forM f = .ok ()) :
    ∀ x ∈ xs, f x = .ok () := by
  induction xs with
  | nil => exact fun _ hx => absurd hx List.not_mem_nil
  | cons x xs ih =>
    obtain ⟨_, hx, h⟩ := bind_eq_ok.1 h
    exact List.forall_mem_cons.2 ⟨hx, ih h⟩

theorem isName_of_checkName {role : NameRole} {name : String} (h : checkName role name = .ok ()) :
    Text.isName name = true := by
  unfold checkName at h
  split at h
  · assumption
  · cases h

theorem checked_of_checkFilter {nodeType : String} {f : DocumentFilter}
    (h : checkFilter nodeType f = .ok ()) : f.Checked nodeType := by
  obtain ⟨_, hfield, h⟩ := bind_eq_ok.1 h
  dsimp only at h
  split at h
  · cases h
  · next hn =>
    split at h
    · cases h
    · next ht => exact ⟨isName_of_checkName hfield, Decidable.not_not.1 hn, by simpa using ht⟩

theorem checked_of_checkNodeType {t : NodeType} (h : checkNodeType t = .ok ()) : t.Checked := by
  obtain ⟨_, hn, hf⟩ := bind_eq_ok.1 h
  exact ⟨isName_of_checkName hn, fun f hm => checked_of_checkFilter (forM_eq_ok hf f hm)⟩

theorem checked_of_checkNodeTypes {declared : List String} {ts : List NodeType}
    (h : checkNodeTypes declared ts = .ok ()) : ∀ t ∈ ts, t.Checked ∧ t.nature ≠ .main := by
  induction ts generalizing declared with
  | nil => exact fun _ ht => absurd ht List.not_mem_nil
  | cons t ts ih =>
    rw [checkNodeTypes] at h
    obtain ⟨_, ht, h⟩ := bind_eq_ok.1 h
    dsimp only at h
    split at h
    · cases h
    · next hm =>
      split at h
      · cases h
      · exact List.forall_mem_cons.2 ⟨⟨checked_of_checkNodeType ht, hm⟩, ih h⟩

theorem checked_of_checkAssignment {main : String} {declared : List String} {a : Assignment}
    (h : checkAssignment main declared a = .ok ()) : a.Checked main declared := by
  unfold checkAssignment at h
  dsimp only at h
  split at h
  · cases h
  · next harg =>
    obtain ⟨_, hfield, h⟩ := bind_eq_ok.1 h
    split at h
    · cases h
    · next hd =>
      split at h
      · cases h
      · next hf =>
        split at h
        · cases h
        · next hm =>
          exact ⟨by simpa using harg, isName_of_checkName hfield, by simpa using hd,
            by simpa using hf, by simpa using hm⟩

theorem checked_of_checkAssignments {main : String} {declared assigned : List String}
    {as : List Assignment} (h : checkAssignments main declared assigned as = .ok ()) :
    ∀ a ∈ as, a.Checked main declared := by
  induction as generalizing assigned with
  | nil => exact fun _ ha => absurd ha List.not_mem_nil
  | cons a as ih =>
    rw [checkAssignments] at h
    obtain ⟨_, ha, h⟩ := bind_eq_ok.1 h
    dsimp only at h
    split at h
    · cases h
    · exact List.forall_mem_cons.2 ⟨checked_of_checkAssignment ha, ih h⟩

theorem Draft.build_eq_ok {d : Draft} {cat : Catalog} (h : d.build = .ok cat) :
    (∀ t ∈ cat.nodeTypes, t.Checked) ∧ (∀ t ∈ cat.others, t.nature ≠ .main) ∧
      ∀ a ∈ cat.assignments, a.Checked cat.main.name (cat.nodeTypes.map NodeType.name) := by
  obtain ⟨_, -, h⟩ := bind_eq_ok.1 h
  obtain ⟨_, hmain, h⟩ := bind_eq_ok.1 h
  obtain ⟨_, hothers, h⟩ := bind_eq_ok.1 h
  obtain ⟨_, has, h⟩ := bind_eq_ok.1 h
  obtain rfl := pure_eq_ok.1 h
  have hothers := checked_of_checkNodeTypes hothers
  refine ⟨List.forall_mem_cons.2 ⟨checked_of_checkNodeType hmain, fun t ht => (hothers t ht).1⟩,
    fun t ht => (hothers t ht).2, checked_of_checkAssignments has⟩

theorem Catalog.assignment_eq_ok {cat : Catalog} {arg : String} {a : Assignment}
    (h : cat.assignment arg = .ok a)
    (has : ∀ a ∈ cat.assignments, a.Checked cat.main.name (cat.nodeTypes.map NodeType.name)) :
    a.Checked cat.main.name (cat.nodeTypes.map NodeType.name) := by
  unfold Catalog.assignment at h
  split at h
  · next b hb =>
    cases h
    exact has _ (List.mem_of_find?_eq_some hb)
  · split at h
    · next b hb =>
      obtain ⟨_, hc, h⟩ := bind_eq_ok.1 h
      obtain rfl := pure_eq_ok.1 h
      exact checked_of_checkAssignment (mapError_eq_ok.1 hc)
    · cases h

theorem NodeType.find_eq_ok {types : List NodeType} {name : String} {t : NodeType}
    (h : NodeType.find types name = .ok t) : t ∈ types ∧ t.name = name := by
  unfold NodeType.find at h
  split at h
  · next ht =>
    cases h
    exact ⟨List.mem_of_find?_eq_some ht, by simpa using List.find?_some ht⟩
  · cases h

/-- A mapping that was built is checked. -/
theorem Draft.checked {d : Draft} {cat : Catalog} {ctx : Context} (hb : d.build = .ok cat)
    (hm : ctx.mapping = cat.toMapping) : ctx.Checked := by
  obtain ⟨htypes, hothers, has⟩ := Draft.build_eq_ok hb
  have hfind : ∀ {name info}, ctx.mapping.nodeType name = .ok info →
      info ∈ cat.nodeTypes ∧ info.name = name := by
    intro name info h
    rw [hm] at h
    exact NodeType.find_eq_ok h
  have hassigned : ∀ {arg a}, ctx.assignment arg = .ok a →
      a.Checked cat.main.name (cat.nodeTypes.map NodeType.name) := by
    intro arg a h
    rw [Context.assignment, hm] at h
    exact Catalog.assignment_eq_ok h has
  constructor
  · intro arg a h
    obtain ⟨t, ht, hn⟩ := List.mem_map.1 (hassigned h).nodeType
    exact hn ▸ (htypes t ht).name
  · intro arg a h
    exact (hassigned h).field
  · intro name info h
    obtain ⟨hi, rfl⟩ := hfind h
    exact (htypes info hi).name
  · intro name info h f hf
    obtain ⟨hi, rfl⟩ := hfind h
    exact ((htypes info hi).filters f hf).nodeType
  · intro name info h f hf
    exact ((htypes info (hfind h).1).filters f hf).field
  · intro name info h hn
    obtain ⟨hi, rfl⟩ := hfind h
    rw [Context.mainType, hm] at hn
    rcases List.mem_cons.1 hi with rfl | hi
    · exact absurd rfl hn
    · exact hothers info hi

end AudienceFilter
