import AudienceFilter.Proofs.CheckedMapping
import AudienceFilter.Proofs.EscapedValues

/-!
# Where arguments are stored

A catalog answers for every argument name, also for those that nobody assigned. Explicit
assignments are checked once, when the catalog is built, and those of policies each time they are
asked for. So an answer can be relied on whatever the policies are, but for the argument that it is
for: a policy may name another one, and only the policy of dynamic fields is known not to.

* `DynamicFields.checked_iff`: an assignment to a dynamic field passes the check if its node type is
  declared and it does not put several documents on the main one;
* `Catalog.Answers`: what an argument name is answered with, and which part of a draft decides;
* `build_answers`: a catalog that was built answers so, and it has one main node type.
-/

namespace AudienceFilter

/-! ## The checks of a draft -/

theorem checkAssignment_of_checked {main : String} {declared : List String} {a : Assignment}
    (h : a.Checked main declared) : checkAssignment main declared a = .ok () := by
  have hname : checkName .field a.field.name = .ok () := if_pos h.field
  have hmulti : (a.isMultiDoc && a.field.nodeType == main) = false := by simpa using h.multiDoc
  simp [checkAssignment, h.arg, hname, h.nodeType, h.fits, hmulti, bind, Except.bind, pure,
    Except.pure]

/-- Node types that pass the check have names of their own. -/
theorem nodup_of_checkNodeTypes {declared : List String} {ts : List NodeType}
    (h : checkNodeTypes declared ts = .ok ()) :
    (ts.map NodeType.name).Nodup ∧ ∀ t ∈ ts, t.name ∉ declared := by
  induction ts generalizing declared with
  | nil => exact ⟨List.nodup_nil, fun _ ht => absurd ht List.not_mem_nil⟩
  | cons t ts ih =>
    rw [checkNodeTypes] at h
    obtain ⟨_, -, h⟩ := bind_eq_ok.1 h
    dsimp only at h
    split at h
    · cases h
    · split at h
      · cases h
      · next hn =>
        obtain ⟨hnodup, hnew⟩ := ih h
        rw [List.contains_iff_mem] at hn
        grind

/-- Assignments that pass the check are for arguments of their own. -/
theorem nodup_of_checkAssignments {main : String} {declared assigned : List String}
    {as : List Assignment} (h : checkAssignments main declared assigned as = .ok ()) :
    (as.map Assignment.arg).Nodup ∧ ∀ a ∈ as, a.arg ∉ assigned := by
  induction as generalizing assigned with
  | nil => exact ⟨List.nodup_nil, fun _ ha => absurd ha List.not_mem_nil⟩
  | cons a as ih =>
    rw [checkAssignments] at h
    obtain ⟨_, -, h⟩ := bind_eq_ok.1 h
    dsimp only at h
    split at h
    · cases h
    · next hn =>
      obtain ⟨hnodup, hnew⟩ := ih h
      rw [List.contains_iff_mem] at hn
      grind

/-- What a list with distinct keys holds under a key is what is found there. -/
theorem find?_of_nodup {α : Type} {key : α → String} {xs : List α} (hn : (xs.map key).Nodup) {x : α}
    (hx : x ∈ xs) : (xs.find? fun y => key y = key x) = some x := by
  induction xs with
  | nil => exact absurd hx List.not_mem_nil
  | cons y ys ih =>
    rw [List.map_cons, List.nodup_cons] at hn
    rcases List.mem_cons.1 hx with rfl | hx
    · exact List.find?_cons_of_pos (by simp)
    · have hne : key y ≠ key x := fun h => hn.1 (h ▸ List.mem_map_of_mem hx)
      rw [List.find?_cons_of_neg (by simpa using hne), ih hn.2 hx]

/-! ## Policies -/

theorem eq_append_of_afterLead? {lead cs name : List Char} (h : afterLead? lead cs = some name) :
    cs = lead ++ name := by
  induction lead generalizing cs with
  | nil => exact Option.some.inj h
  | cons l lead ih =>
    cases cs with
    | nil => cases h
    | cons c cs =>
      rw [afterLead?] at h
      split at h
      · next hc => rw [hc, ih h, List.cons_append]
      · cases h

theorem fits_of_mem_dynamicSuffixes {s : Suffix} (h : s ∈ dynamicSuffixes) :
    s.argType.fits s.kind = true :=
  List.all_eq_true.1 (by decide : dynamicSuffixes.all (fun s => s.argType.fits s.kind) = true) s h

namespace DynamicFields

variable {p : DynamicFields} {arg : String} {a : Assignment}

/-- A dynamic field is for the argument itself, and can hold it. -/
theorem policy_eq_some (h : p.policy arg = some a) : a.arg = arg ∧ a.field.nodeType = p.nodeType ∧
    a.isMultiDoc = p.isMultiDoc ∧ Text.isName a.field.name = true ∧
      a.argType.fits a.field.type.kind = true ∧ Text.isBlankText arg = false := by
  obtain ⟨name, hlead, h⟩ := Option.bind_eq_some_iff.1 h
  split at h
  · next hname =>
    obtain ⟨suffix, hs, h⟩ := Option.bind_eq_some_iff.1 h
    obtain rfl := Option.some.inj h
    have hfield : Text.isName (String.ofList name) = true := by
      rwa [Text.isName, String.toList_ofList]
    refine ⟨rfl, rfl, rfl, hfield, fits_of_mem_dynamicSuffixes (List.mem_of_find?_eq_some hs), ?_⟩
    obtain ⟨c, rest, hc, hblank⟩ := Text.exists_of_isName hfield
    rw [String.toList_ofList] at hc
    rw [Text.isBlankText, eq_append_of_afterLead? hlead, hc, List.all_append, List.all_cons, hblank,
      Bool.false_and, Bool.and_false]
  · cases h

theorem checked_iff {main : String} {declared : List String} (h : p.policy arg = some a) :
    a.Checked main declared ↔
      p.nodeType ∈ declared ∧ (p.isMultiDoc = true → p.nodeType ≠ main) := by
  obtain ⟨harg, htype, hmulti, hfield, hfits, hblank⟩ := policy_eq_some h
  constructor
  · intro hc
    exact ⟨htype ▸ hc.nodeType, fun hp => htype ▸ hc.multiDoc (hmulti.trans hp)⟩
  · rintro ⟨hd, hm⟩
    exact ⟨harg ▸ hblank, hfield, htype ▸ hd, hfits, fun hp => htype ▸ hm (hmulti.symm.trans hp)⟩

end DynamicFields

/-! ## Answers of a catalog -/

/-- What a catalog answers for an argument name, and which part of its draft decides. -/
structure Catalog.Answers (cat : Catalog) (d : Draft) (arg : String) : Prop where
  /-- An answer is an assignment of the argument itself, if all policies are those of dynamic
  fields. -/
  own {a : Assignment} (hp : ∀ p ∈ d.policies, ∃ f : DynamicFields, p = f.policy)
    (h : cat.assignment arg = .ok a) : a.arg = arg
  /-- Its node type is declared, under a proper name. -/
  nodeType {a : Assignment} (h : cat.assignment arg = .ok a) : ∃ t ∈ cat.nodeTypes,
    t.name = a.field.nodeType ∧ Text.isName t.name = true ∧ cat.toMapping.nodeType t.name = .ok t
  field {a : Assignment} (h : cat.assignment arg = .ok a) : Text.isName a.field.name = true
  fits {a : Assignment} (h : cat.assignment arg = .ok a) :
    a.argType.fits a.field.type.kind = true
  multiDoc {a : Assignment} (h : cat.assignment arg = .ok a) :
    ¬ (a.isMultiDoc = true ∧ a.field.nodeType = cat.main.name)
  /-- An explicit assignment decides, whatever the policies say. -/
  assigned {a : Assignment} (ha : a ∈ d.assignments) (harg : a.arg = arg) :
    cat.assignment arg = .ok a
  /-- Otherwise the first policy that knows the argument decides: its assignment is the answer, or
  the answer is that it is refused, whatever later policies say. -/
  byPolicy {before after : List Policy} {p : Policy} {a : Assignment}
    (hn : ∀ b ∈ d.assignments, b.arg ≠ arg) (hp : d.policies = before ++ p :: after)
    (hbefore : ∀ q ∈ before, q arg = none) (ha : p arg = some a) :
    (a.Checked d.main.name d.declared ∧ cat.assignment arg = .ok a) ∨
    (¬ a.Checked d.main.name d.declared ∧ ∃ e, cat.assignment arg = .error (.mapping e))
  /-- If this is the policy of dynamic fields, it is refused only for its node type. -/
  byDynamicFields {before after : List Policy} {p : DynamicFields} {a : Assignment}
    (hn : ∀ b ∈ d.assignments, b.arg ≠ arg) (hp : d.policies = before ++ p.policy :: after)
    (hbefore : ∀ q ∈ before, q arg = none) (ha : p.policy arg = some a) :
    (p.nodeType ∈ d.declared ∧ (p.isMultiDoc = true → p.nodeType ≠ d.main.name) ∧
      cat.assignment arg = .ok a) ∨
    (¬ (p.nodeType ∈ d.declared ∧ (p.isMultiDoc = true → p.nodeType ≠ d.main.name)) ∧
      ∃ e, cat.assignment arg = .error (.mapping e))
  unassigned (hn : ∀ b ∈ d.assignments, b.arg ≠ arg) (hp : ∀ p ∈ d.policies, p arg = none) :
    cat.assignment arg = .error (.noMapping arg)

/-- The parts of a catalog are those of its draft, with names and arguments of their own. -/
theorem Draft.parts_of_build {d : Draft} {cat : Catalog} (h : d.build = .ok cat) :
    cat.main = { d.main with nature := .main } ∧ cat.others = d.others ∧
      cat.assignments = d.assignments ∧ cat.policies = d.policies ∧
        (cat.nodeTypes.map NodeType.name).Nodup ∧ (cat.assignments.map Assignment.arg).Nodup := by
  obtain ⟨_, -, h⟩ := bind_eq_ok.1 h
  obtain ⟨_, -, h⟩ := bind_eq_ok.1 h
  obtain ⟨_, hothers, h⟩ := bind_eq_ok.1 h
  obtain ⟨_, has, h⟩ := bind_eq_ok.1 h
  obtain rfl := pure_eq_ok.1 h
  obtain ⟨hnodup, hnew⟩ := nodup_of_checkNodeTypes hothers
  refine ⟨rfl, rfl, rfl, rfl, List.nodup_cons.2 ⟨?_, hnodup⟩, (nodup_of_checkAssignments has).1⟩
  intro hmem
  obtain ⟨t, ht, hname⟩ := List.mem_map.1 hmem
  exact hnew t ht (hname ▸ List.mem_singleton_self _)

theorem Catalog.find?_eq_none {cat : Catalog} {arg : String}
    (hn : ∀ b ∈ cat.assignments, b.arg ≠ arg) :
    (cat.assignments.find? fun b => b.arg = arg) = none :=
  List.find?_eq_none.2 fun b hb => by simpa using hn b hb

theorem Catalog.assignment_of_policies {cat : Catalog} {arg : String} {a : Assignment}
    (hn : ∀ b ∈ cat.assignments, b.arg ≠ arg)
    (ha : (cat.policies.findSome? fun p => p arg) = some a) :
    cat.assignment arg = (liftMapping
      (checkAssignment cat.main.name (cat.nodeTypes.map NodeType.name) a) >>= fun _ => .ok a) := by
  simp only [Catalog.assignment, Catalog.find?_eq_none hn, ha]
  rfl

theorem Catalog.assignment_of_no_policy {cat : Catalog} {arg : String}
    (hn : ∀ b ∈ cat.assignments, b.arg ≠ arg) (hp : ∀ p ∈ cat.policies, p arg = none) :
    cat.assignment arg = .error (.noMapping arg) := by
  simp only [Catalog.assignment, Catalog.find?_eq_none hn, List.findSome?_eq_none_iff.2 hp]

theorem Catalog.arg_of_assignment {cat : Catalog} {arg : String} {a : Assignment}
    (hp : ∀ p ∈ cat.policies, ∃ f : DynamicFields, p = f.policy)
    (h : cat.assignment arg = .ok a) : a.arg = arg := by
  unfold Catalog.assignment at h
  split at h
  · next b hb =>
    cases h
    simpa using List.find?_some hb
  · split at h
    · next b hb =>
      obtain ⟨_, -, h⟩ := bind_eq_ok.1 h
      obtain rfl := pure_eq_ok.1 h
      obtain ⟨p, hmem, hb⟩ := List.exists_of_findSome?_eq_some hb
      obtain ⟨f, rfl⟩ := hp p hmem
      exact (DynamicFields.policy_eq_some hb).1
    · cases h

theorem Draft.names_of_build {d : Draft} {cat : Catalog} (hb : d.build = .ok cat) :
    cat.main.name = d.main.name ∧ cat.nodeTypes.map NodeType.name = d.declared := by
  obtain ⟨hmain, hothers, -⟩ := Draft.parts_of_build hb
  rw [Catalog.nodeTypes, List.map_cons, hmain, hothers]
  exact ⟨rfl, rfl⟩

/-- The first policy that knows an argument without assignment decides. -/
theorem Draft.assignment_of_policy {d : Draft} {cat : Catalog} {arg : String} {p : Policy}
    {before after : List Policy} {a : Assignment} (hb : d.build = .ok cat)
    (hn : ∀ b ∈ d.assignments, b.arg ≠ arg) (hp : d.policies = before ++ p :: after)
    (hbefore : ∀ q ∈ before, q arg = none) (ha : p arg = some a) :
    (a.Checked d.main.name d.declared ∧ cat.assignment arg = .ok a) ∨
    (¬ a.Checked d.main.name d.declared ∧ ∃ e, cat.assignment arg = .error (.mapping e)) := by
  obtain ⟨-, -, hassignments, hpolicies, -⟩ := Draft.parts_of_build hb
  obtain ⟨hmain, hdeclared⟩ := Draft.names_of_build hb
  have hfirst : (cat.policies.findSome? fun q => q arg) = some a := by
    rw [hpolicies, hp, List.findSome?_append, List.findSome?_eq_none_iff.2 hbefore,
      List.findSome?_cons_of_isSome (by rw [ha]; rfl), ha, Option.none_or]
  have hcheck := Catalog.assignment_of_policies (hassignments ▸ hn) hfirst
  rw [hdeclared, hmain] at hcheck
  rw [hcheck]
  by_cases hc : a.Checked d.main.name d.declared
  · rw [checkAssignment_of_checked hc]
    exact .inl ⟨hc, rfl⟩
  · refine .inr ⟨hc, ?_⟩
    cases hr : checkAssignment d.main.name d.declared a with
    | ok _ => exact absurd (checked_of_checkAssignment hr) hc
    | error e => exact ⟨e, rfl⟩

/-- A catalog that was built answers for every argument name. -/
theorem Draft.answers {d : Draft} {cat : Catalog} (hb : d.build = .ok cat) (arg : String) :
    cat.Answers d arg := by
  obtain ⟨htypes, -, has⟩ := Draft.build_eq_ok hb
  obtain ⟨-, -, hassignments, hpolicies, hnames, hargs⟩ := Draft.parts_of_build hb
  constructor
  case own => exact fun hp => Catalog.arg_of_assignment (hpolicies ▸ hp)
  case nodeType =>
    intro a h
    obtain ⟨t, ht, hname⟩ := List.mem_map.1 (Catalog.assignment_eq_ok h has).nodeType
    have hfind : cat.toMapping.nodeType t.name = .ok t := by
      simp only [Catalog.toMapping, NodeType.find, find?_of_nodup hnames ht]
    exact ⟨t, ht, hname, (htypes t ht).name, hfind⟩
  case field => exact fun h => (Catalog.assignment_eq_ok h has).field
  case fits => exact fun h => (Catalog.assignment_eq_ok h has).fits
  case multiDoc => exact fun h hm => (Catalog.assignment_eq_ok h has).multiDoc hm.1 hm.2
  case assigned =>
    rintro a ha rfl
    simp only [Catalog.assignment, find?_of_nodup hargs (hassignments ▸ ha)]
  case byPolicy => exact Draft.assignment_of_policy hb
  case byDynamicFields =>
    intro before after p a hn hp hbefore ha
    rw [← and_assoc, ← DynamicFields.checked_iff ha]
    exact Draft.assignment_of_policy hb hn hp hbefore ha
  case unassigned =>
    intro hn hp
    exact Catalog.assignment_of_no_policy (hassignments ▸ hn) (hpolicies ▸ hp)

/-- Every answer of a catalog that was built is an assignment that conversions can rely on; the
catalog has one main node type, and the document filters of a node type are on that type. -/
theorem build_answers {d : Draft} {cat : Catalog} (hb : d.build = .ok cat) :
    (∀ arg, cat.Answers d arg) ∧
      (cat.nodeTypes.filter fun t => t.nature = .main) = [cat.main] ∧
        ∀ t ∈ cat.nodeTypes, ∀ f ∈ t.filters, f.nodeType = t.name := by
  obtain ⟨htypes, hothers, -⟩ := Draft.build_eq_ok hb
  have hmain : cat.main.nature = .main := by rw [(Draft.parts_of_build hb).1]
  refine ⟨Draft.answers hb, ?_, fun t ht f hf => ((htypes t ht).filters f hf).nodeType⟩
  rw [Catalog.nodeTypes, List.filter_cons_of_pos (by simpa using hmain),
    List.filter_eq_nil_iff.2 fun t ht => by simpa using hothers t ht]

/-! ## An archive -/

/-- Documents with items in them. Sizes are assigned, and of the policies the first takes some names
to a node type that does not exist. -/
def Draft.archive : Draft where
  main := { name := "doc", nature := .nested, filters := [⟨"doc", "site", "main"⟩] }
  others := [{ name := "item", nature := .nested, filters := [⟨"item", "kind", "box"⟩] }]
  assignments := [
    { arg := "size_s", argType := .integer, isMultiDoc := true,
      field := { nodeType := "item", name := "size", type := { kind := .long } } }]
  policies := [DynamicFields.policy { nodeType := "ghost", lead := "x_" },
    DynamicFields.policy { nodeType := "doc" }]

/-- The catalog of the draft. -/
def Catalog.archive : Catalog where
  main := { Draft.archive.main with nature := .main }
  others := Draft.archive.others
  assignments := Draft.archive.assignments
  policies := Draft.archive.policies
  nodeTypeField := "node_type"
  uniqueKeyField := "id"
  dependentKeyField := "main_id"

theorem build_answers_archive :
    Draft.archive.build = .ok Catalog.archive ∧
      (∃ a, Catalog.archive.assignment "size_s" = .ok a ∧ a.field.name = "size") ∧
      (∃ a, Catalog.archive.assignment "color_s" = .ok a ∧ a.arg = "color_s" ∧
        a.field.nodeType = "doc") ∧
      (∃ e, Catalog.archive.assignment "x_color_s" = .error (.mapping e)) ∧
      (Catalog.archive.nodeTypes.filter fun t => t.nature = .main) = [Catalog.archive.main] := by
  have hb : Draft.archive.build = .ok Catalog.archive := rfl
  obtain ⟨hanswers, hmain, -⟩ := build_answers hb
  have hsize : ∀ arg, arg ≠ "size_s" → ∀ b ∈ Draft.archive.assignments, b.arg ≠ arg := by
    intro arg h b hb
    rw [List.mem_singleton.1 hb]
    exact h.symm
  have hdynamic : ∀ p ∈ Draft.archive.policies, ∃ f : DynamicFields, p = f.policy :=
    List.forall_mem_cons.2 ⟨⟨_, rfl⟩, List.forall_mem_singleton.2 ⟨_, rfl⟩⟩
  refine ⟨hb, ⟨_, (hanswers _).assigned (List.mem_singleton_self _) rfl, rfl⟩, ?_, ?_, hmain⟩
  · have hp : Draft.archive.policies = [DynamicFields.policy ⟨"ghost", "x_", false⟩] ++
        DynamicFields.policy ⟨"doc", "", false⟩ :: [] := rfl
    rcases (hanswers _).byDynamicFields (hsize "color_s" (by decide)) hp
      (List.forall_mem_singleton.2 rfl) rfl with ⟨-, -, h⟩ | ⟨hno, -⟩
    · exact ⟨_, h, (hanswers _).own hdynamic h, rfl⟩
    · exact absurd hno (by decide)
  · have hp : Draft.archive.policies = [] ++ DynamicFields.policy ⟨"ghost", "x_", false⟩ ::
        [DynamicFields.policy ⟨"doc", "", false⟩] := rfl
    rcases (hanswers _).byDynamicFields (hsize "x_color_s" (by decide)) hp
      (fun _ hq => absurd hq List.not_mem_nil) rfl with ⟨hd, -⟩ | ⟨-, h⟩
    · exact absurd hd (by decide)
    · exact h

end AudienceFilter
