import AudienceFilter.Proofs.Fragments
import AudienceFilter.Proofs.KeptArguments

/-!
# The fields of fragments

For an argument, the field that it is stored in is used. Where that is a field of another node type
than the one at hand, so are the fields of the join on it: those by which the join finds documents
of the node type, and those that relate them to their main document.

* `Mapping.argFields`: the fields that are used for an argument;
* `Mapping.Accounts`: lists of all the fields that are used for arguments, and of no other;
* `Mapping.Accounts.joined`: from the inside of a join to the outside;
* `Condition.Proper`: what is asked of conditions; those that pass their check have it, and those
  that were given a value;
* `Context.accounts_leafFragment`, `Context.accounts_leafComplement`: fragments have the fields of
  the arguments of their leaf.
-/

namespace AudienceFilter

/-- The field of an assignment, as queries refer to it. -/
def Assignment.queryField (a : Assignment) : QueryField where
  nodeType := a.field.nodeType
  name := a.field.name

namespace Mapping

/-- The fields by which the documents of a node type are found: the one that holds the node type,
and those of the document filters. -/
def documentFields (m : Mapping) (nodeType : String) :
    Except ConversionError (List QueryField) := do
  let info ← m.nodeType nodeType
  return ⟨nodeType, m.nodeTypeField⟩ :: info.filters.map fun f => ⟨nodeType, f.field⟩

/-- The fields that relate the documents of a node type to their main document. -/
def linkFields (m : Mapping) (nodeType : String) : Nature → List QueryField
  | .main => []
  | .nested => [⟨m.main.name, m.nodeTypeField⟩]
  | .dependent => [⟨m.main.name, m.uniqueKeyField⟩, ⟨nodeType, m.dependentKeyField⟩]

/-- The fields of a join on a node type; there is none if it is the node type at hand. -/
def joinFields (m : Mapping) (here nodeType : String) :
    Except ConversionError (List QueryField) :=
  if here = nodeType then .ok []
  else do
    let info ← m.nodeType nodeType
    let documents ← m.documentFields nodeType
    return documents ++ m.linkFields nodeType info.nature

/-- The fields that are used for an argument: its own, and those of the join on its node type. -/
def argFields (m : Mapping) (here arg : String) : Except ConversionError (List QueryField) := do
  let a ← m.assignment arg
  let around ← m.joinFields here a.field.nodeType
  return a.queryField :: around

/-- Whether a list holds the fields that are used for arguments, all of them and no other. -/
structure Accounts (m : Mapping) (here : String) (args : List String) (fields : List QueryField) :
    Prop where
  given : ∀ arg ∈ args, ∃ part, m.argFields here arg = .ok part
  mem : ∀ f, f ∈ fields ↔ ∃ arg ∈ args, ∃ part, m.argFields here arg = .ok part ∧ f ∈ part

variable {m : Mapping} {here nodeType : String} {args args' : List String}
  {fields fields' around : List QueryField}

theorem joinFields_self (m : Mapping) (nodeType : String) :
    m.joinFields nodeType nodeType = .ok [] := if_pos rfl

theorem argFields_eq_ok {arg : String} {part : List QueryField}
    (h : m.argFields here arg = .ok part) : ∃ a around, m.assignment arg = .ok a ∧
      m.joinFields here a.field.nodeType = .ok around ∧ part = a.queryField :: around := by
  obtain ⟨a, ha, h⟩ := bind_eq_ok.1 h
  obtain ⟨around, hj, h⟩ := bind_eq_ok.1 h
  exact ⟨a, around, ha, hj, (pure_eq_ok.1 h).symm⟩

theorem argFields_of_assignment {arg : String} {a : Assignment} (ha : m.assignment arg = .ok a)
    (hj : m.joinFields here a.field.nodeType = .ok around) :
    m.argFields here arg = .ok (a.queryField :: around) :=
  bind_eq_ok.2 ⟨a, ha, bind_eq_ok.2 ⟨around, hj, rfl⟩⟩

theorem Accounts.congr (h : m.Accounts here args fields) (ha : ∀ arg, arg ∈ args' ↔ arg ∈ args)
    (hf : ∀ f, f ∈ fields' ↔ f ∈ fields) : m.Accounts here args' fields' where
  given arg harg := h.given arg ((ha arg).1 harg)
  mem f := by simp only [hf, h.mem, ha]

theorem accounts_nil (m : Mapping) (here : String) : m.Accounts here [] [] where
  given _ harg := absurd harg List.not_mem_nil
  mem f := by simp

/-- The fields that are used for some of the arguments once more. -/
theorem Accounts.absorb (h : m.Accounts here args fields) (h' : m.Accounts here args' fields')
    (hsub : args' ⊆ args) : m.Accounts here args (fields' ++ fields) where
  given := h.given
  mem f := by
    rw [List.mem_append, h.mem, h'.mem]
    constructor
    · rintro (⟨arg, harg, hf⟩ | hf)
      · exact ⟨arg, hsub harg, hf⟩
      · exact hf
    · exact .inr

theorem accounts_flatMap {α : Type} {xs : List α} {args : α → List String}
    {fields : α → List QueryField} (h : ∀ x ∈ xs, m.Accounts here (args x) (fields x)) :
    m.Accounts here (xs.flatMap args) (xs.flatMap fields) where
  given arg harg := by
    obtain ⟨x, hx, harg⟩ := List.mem_flatMap.1 harg
    exact (h x hx).given arg harg
  mem f := by
    rw [List.mem_flatMap]
    constructor
    · rintro ⟨x, hx, hf⟩
      obtain ⟨arg, harg, hf⟩ := ((h x hx).mem f).1 hf
      exact ⟨arg, List.mem_flatMap.2 ⟨x, hx, harg⟩, hf⟩
    · rintro ⟨arg, harg, hf⟩
      obtain ⟨x, hx, harg⟩ := List.mem_flatMap.1 harg
      exact ⟨x, hx, ((h x hx).mem f).2 ⟨arg, harg, hf⟩⟩

/-- The fields of assigned arguments on their own node type. -/
theorem accounts_of_assignments {as : List Assignment} (ha : args.mapM m.assignment = .ok as)
    (hn : ∀ a ∈ as, a.field.nodeType = nodeType)
    (hf : ∀ f, f ∈ fields ↔ f ∈ as.map Assignment.queryField) :
    m.Accounts nodeType args fields := by
  have hown : ∀ {arg a}, m.assignment arg = .ok a → a ∈ as →
      m.argFields nodeType arg = .ok [a.queryField] := by
    intro arg a h hmem
    exact argFields_of_assignment h (hn a hmem ▸ joinFields_self m _)
  constructor
  · intro arg harg
    obtain ⟨a, hmem, h⟩ := exists_of_mapM_eq_ok ha harg
    exact ⟨_, hown h hmem⟩
  · intro f
    rw [hf, List.mem_map]
    constructor
    · rintro ⟨a, hmem, rfl⟩
      obtain ⟨arg, harg, h⟩ := mem_of_mapM_eq_ok ha hmem
      exact ⟨arg, harg, _, hown h hmem, List.mem_singleton_self _⟩
    · rintro ⟨arg, harg, part, hpart, hmem⟩
      obtain ⟨a, has, h⟩ := exists_of_mapM_eq_ok ha harg
      obtain rfl := Except.ok.inj ((hown h has).symm.trans hpart)
      exact ⟨a, has, (List.mem_singleton.1 hmem).symm⟩

/-- Arguments on one node type, from outside: the join on it is used for each of them. -/
theorem Accounts.joined (h : m.Accounts nodeType args fields)
    (hon : ∀ f ∈ fields, f.nodeType = nodeType) (hne : args ≠ [])
    (hj : m.joinFields here nodeType = .ok around) : m.Accounts here args (fields ++ around) := by
  -- The own field of an argument is on the node type, so there is no join around it inside.
  have hpart : ∀ arg ∈ args, ∃ a : Assignment, m.argFields nodeType arg = .ok [a.queryField] ∧
      m.argFields here arg = .ok (a.queryField :: around) := by
    intro arg harg
    obtain ⟨part, hpart⟩ := h.given arg harg
    obtain ⟨a, inner, ha, hinner, rfl⟩ := argFields_eq_ok hpart
    have hn : a.field.nodeType = nodeType :=
      hon a.queryField ((h.mem _).2 ⟨arg, harg, _, hpart, List.mem_cons_self⟩)
    rw [hn, joinFields_self] at hinner
    obtain rfl := Except.ok.inj hinner
    exact ⟨a, hpart, argFields_of_assignment ha (hn.symm ▸ hj)⟩
  constructor
  · intro arg harg
    obtain ⟨a, -, hhere⟩ := hpart arg harg
    exact ⟨_, hhere⟩
  · intro f
    rw [List.mem_append]
    constructor
    · rintro (hf | hf)
      · obtain ⟨arg, harg, part, hown, hf⟩ := (h.mem f).1 hf
        obtain ⟨a, hinner, hhere⟩ := hpart arg harg
        obtain rfl := Except.ok.inj (hinner.symm.trans hown)
        exact ⟨arg, harg, _, hhere, List.mem_cons.2 (.inl (List.mem_singleton.1 hf))⟩
      · obtain ⟨arg, harg⟩ := List.exists_mem_of_ne_nil args hne
        obtain ⟨a, -, hhere⟩ := hpart arg harg
        exact ⟨arg, harg, _, hhere, List.mem_cons_of_mem _ hf⟩
    · rintro ⟨arg, harg, part, hp, hf⟩
      obtain ⟨a, hinner, hhere⟩ := hpart arg harg
      obtain rfl := Except.ok.inj (hhere.symm.trans hp)
      rcases List.mem_cons.1 hf with rfl | hf
      · exact .inl ((h.mem _).2 ⟨arg, harg, _, hinner, List.mem_cons_self⟩)
      · exact .inr hf

end Mapping

/-! ## Fragments -/

theorem FilterQuery.mem_fields_make {text : String} {fields : List QueryField}
    {kinds : List ConditionKind} {q : FilterQuery} (h : make text fields kinds = .ok q)
    {f : QueryField} : f ∈ q.fields ↔ f ∈ fields := by
  rw [(make_eq_ok h).1, Sorted.mem_ofList]

/-- Whether a condition refers to no other argument if it asks for an unknown one. It may have a
value, which then says nothing. -/
def Condition.Proper (c : Condition) : Prop := c.op = .isUnknown → c.reference? = none

instance (c : Condition) : Decidable c.Proper := inferInstanceAs (Decidable (_ → _))

/-- A condition that was given a value is proper, whatever it asks. -/
theorem Condition.proper_withValue (c : Condition) (value : String) : (c.withValue value).Proper :=
  fun _ => rfl

/-- So is one that passes its check. -/
theorem Condition.proper_of_isValid {c : Condition} (h : c.isValid = true) : c.Proper := by
  intro hu
  obtain ⟨arg, op, operand⟩ := c
  obtain rfl : op = .isUnknown := hu
  cases operand with
  | none => rfl
  | some operand =>
    rw [isValid, make] at h
    split at h <;> cases h

theorem Condition.Proper.args_eq {c : Condition} (h : c.Proper) (hu : c.op = .isUnknown) :
    c.args = [c.arg] := by
  rw [args, h hu]
  rfl

theorem Leaf.arg_subset_args (l : Leaf) : [l.arg] ⊆ l.args := by
  cases l <;> simp [arg, args, Condition.args]

theorem Leaf.args_ne_nil (l : Leaf) : l.args ≠ [] :=
  List.ne_nil_of_mem (l.arg_subset_args List.mem_cons_self)

namespace Context

variable {ctx : Context} {q : FilterQuery}

theorem queryField_eq_ok {a : Assignment} {f : QueryField} (h : queryField a = .ok f) :
    f = a.queryField := (QueryField.make_eq_ok (liftName_eq_ok.1 h)).2.2

theorem accounts_fieldFragment {arg text : String} {a : Assignment} {kind : ConditionKind}
    (ha : ctx.assignment arg = .ok a) (h : fieldFragment a text kind = .ok q) :
    ctx.mapping.Accounts a.field.nodeType [arg] q.fields := by
  obtain ⟨field, hfield, h⟩ := bind_eq_ok.1 h
  have ha : [arg].mapM ctx.mapping.assignment = .ok [a] :=
    mapM_cons_eq_ok.2 ⟨a, [], ha, rfl, rfl⟩
  refine Mapping.accounts_of_assignments ha (List.forall_mem_singleton.2 rfl) fun f => ?_
  rw [FilterQuery.mem_fields_make (liftFault_eq_ok.1 h), queryField_eq_ok hfield]
  rfl

theorem accounts_anyValue {arg : String} {a : Assignment} (ha : ctx.assignment arg = .ok a)
    (h : ctx.anyValue arg = .ok q) : ctx.mapping.Accounts a.field.nodeType [arg] q.fields := by
  obtain ⟨b, hb, h⟩ := bind_eq_ok.1 h
  obtain rfl := Except.ok.inj (ha.symm.trans (liftError_eq_ok.1 hb))
  exact accounts_fieldFragment ha h

theorem accounts_referenceFragment {c : Condition} {inclusive : Bool} {a : Assignment}
    (hr : c.isReference = true) (ha : ctx.assignment c.arg = .ok a)
    (h : ctx.referenceFragment c inclusive = .ok q) :
    ctx.mapping.Accounts a.field.nodeType c.args q.fields := by
  obtain ⟨other, ho⟩ := Option.isSome_iff_exists.1 hr
  unfold referenceFragment at h
  rw [ho] at h
  obtain ⟨a', ha', h⟩ := bind_eq_ok.1 h
  obtain rfl := Except.ok.inj (ha.symm.trans (liftError_eq_ok.1 ha'))
  obtain ⟨b, hb, h⟩ := bind_eq_ok.1 h
  obtain ⟨_, hcheck, h⟩ := bind_eq_ok.1 h
  split at h
  · cases h
  · obtain ⟨left, hl, h⟩ := bind_eq_ok.1 h
    obtain ⟨right, hr, h⟩ := bind_eq_ok.1 h
    have hab := (checkReference_eq_ok (liftError_eq_ok.1 hcheck)).nodeType
    have hboth : c.args.mapM ctx.mapping.assignment = .ok [a, b] := by
      rw [Condition.args, ho]
      exact mapM_cons_eq_ok.2 ⟨a, [b], ha, mapM_cons_eq_ok.2
        ⟨b, [], liftError_eq_ok.1 hb, rfl, rfl⟩, rfl⟩
    refine Mapping.accounts_of_assignments hboth (by simp [hab]) fun f => ?_
    rw [FilterQuery.mem_fields_make (liftFault_eq_ok.1 h), queryField_eq_ok hl,
      queryField_eq_ok hr]
    rfl

theorem accounts_singleFragment {s : Single} {a : Assignment} (hp : s.condition.Proper)
    (ha : ctx.assignment s.condition.arg = .ok a) (h : ctx.singleFragment s = .ok q) :
    ctx.mapping.Accounts a.field.nodeType s.condition.args q.fields := by
  unfold singleFragment at h
  dsimp only at h
  split at h
  · next hu =>
    rw [hp.args_eq hu]
    exact accounts_anyValue ha h
  · split at h
    · next hr => exact accounts_referenceFragment hr ha h
    · next hr =>
      rw [Condition.args_of_isReference_eq_false (Bool.eq_false_iff.2 hr)]
      obtain ⟨a', ha', h⟩ := bind_eq_ok.1 h
      obtain rfl := Except.ok.inj (ha.symm.trans (liftError_eq_ok.1 ha'))
      obtain ⟨⟨text, kind⟩, -, h⟩ := bind_eq_ok.1 h
      exact accounts_fieldFragment ha h

theorem accounts_multiFragment {m : Multi} {a : Assignment} (hm : (Leaf.multi m).Made ctx)
    (ha : ctx.assignment m.arg = .ok a) (h : ctx.multiFragment m = .ok q) :
    ctx.mapping.Accounts a.field.nodeType m.lead.args q.fields := by
  have hlead := (hm.members.1 m.lead List.mem_cons_self).2.2
  unfold multiFragment at h
  split at h
  · next hr => exact accounts_referenceFragment (hlead.trans hr) ha h
  · next hr =>
    rw [Condition.args_of_isReference_eq_false (hlead.trans (Bool.eq_false_iff.2 hr))]
    obtain ⟨a', ha', h⟩ := bind_eq_ok.1 h
    obtain rfl := Except.ok.inj (ha.symm.trans (liftError_eq_ok.1 ha'))
    dsimp only at h
    split at h
    · obtain ⟨range, -, h⟩ := bind_eq_ok.1 h
      exact accounts_fieldFragment ha h
    · split at h
      · obtain ⟨values, -, h⟩ := bind_eq_ok.1 h
        exact accounts_fieldFragment ha h
      · obtain ⟨conditions, -, h⟩ := bind_eq_ok.1 h
        exact accounts_fieldFragment ha h
    · obtain ⟨⟨text, kind⟩, -, h⟩ := bind_eq_ok.1 h
      exact accounts_fieldFragment ha h

theorem accounts_betweenFragment {b : Between} {a : Assignment} (ha : ctx.assignment b.arg = .ok a)
    (h : ctx.betweenFragment b = .ok q) :
    ctx.mapping.Accounts a.field.nodeType [b.arg] q.fields := by
  obtain ⟨a', ha', h⟩ := bind_eq_ok.1 h
  obtain rfl := Except.ok.inj (ha.symm.trans (liftError_eq_ok.1 ha'))
  obtain ⟨range, -, h⟩ := bind_eq_ok.1 h
  exact accounts_fieldFragment ha h

variable {l : Leaf}

theorem accounts_anyValue_leaf (hl : l.Made ctx) (h : ctx.anyValue l.arg = .ok q) :
    ctx.mapping.Accounts l.nodeType [l.arg] q.fields := by
  obtain ⟨a, ha, hn, -⟩ := hl.assignment
  exact hn ▸ accounts_anyValue ha h

/-- The fragment of a leaf has the fields of its arguments. -/
theorem accounts_leafFragment (hl : l.Made ctx) (hp : ∀ c ∈ l.conditions, c.Proper)
    (h : ctx.leafFragment l = .ok q) : ctx.mapping.Accounts l.nodeType l.args q.fields := by
  obtain ⟨a, ha, hn, -⟩ := hl.assignment
  rw [hn]
  cases l with
  | single s => exact accounts_singleFragment (hp _ (List.mem_singleton_self _)) ha h
  | multi m => exact accounts_multiFragment hl ha h
  | between b => exact accounts_betweenFragment ha h

/-- So has its complement among the documents with a value. -/
theorem accounts_leafComplement (hl : l.Made ctx) (hp : ∀ c ∈ l.conditions, c.Proper)
    (h : ctx.leafComplement l = .ok q) : ctx.mapping.Accounts l.nodeType l.args q.fields := by
  obtain ⟨positive, hpos, h⟩ := bind_eq_ok.1 h
  obtain ⟨any, hany, h⟩ := bind_eq_ok.1 h
  have hboth := (accounts_leafFragment hl hp hpos).absorb (accounts_anyValue_leaf hl hany)
    l.arg_subset_args
  refine hboth.congr (fun _ => Iff.rfl) fun f => ?_
  rw [FilterQuery.mem_fields_make (liftFault_eq_ok.1 h), List.mem_append, List.mem_append, or_comm]

/-! ## Document filters -/

theorem mem_fields_documentFilter {d : DocumentFilter} (h : ctx.documentFilter d = .ok q)
    {f : QueryField} : f ∈ q.fields ↔ f = ⟨d.nodeType, d.field⟩ := by
  obtain ⟨value, -, h⟩ := bind_eq_ok.1 h
  obtain ⟨field, hf, h⟩ := bind_eq_ok.1 h
  obtain ⟨-, -, rfl⟩ := QueryField.make_eq_ok (liftName_eq_ok.1 hf)
  rw [FilterQuery.mem_fields_make (liftFault_eq_ok.1 h), List.mem_singleton]

theorem mem_fields_documentFilters {nodeType : String} {info : NodeType} {qs : List FilterQuery}
    (hctx : ctx.Checked) (hi : ctx.mapping.nodeType nodeType = .ok info)
    (h : ctx.documentFilters nodeType = .ok qs) {f : QueryField} :
    f ∈ qs.flatMap FilterQuery.fields ↔
      f ∈ info.filters.map fun d => (⟨nodeType, d.field⟩ : QueryField) := by
  obtain ⟨info', hi', h⟩ := bind_eq_ok.1 h
  obtain rfl := Except.ok.inj (hi.symm.trans (liftError_eq_ok.1 hi'))
  rw [List.mem_flatMap, List.mem_map]
  constructor
  · rintro ⟨q, hq, hf⟩
    obtain ⟨d, hd, hdq⟩ := mem_of_mapM_eq_ok h hq
    rw [mem_fields_documentFilter hdq, hctx.filters hi d hd] at hf
    exact ⟨d, hd, hf.symm⟩
  · rintro ⟨d, hd, rfl⟩
    obtain ⟨q, hq, hdq⟩ := exists_of_mapM_eq_ok h hd
    refine ⟨q, hq, (mem_fields_documentFilter hdq).2 ?_⟩
    rw [hctx.filters hi d hd]

end Context

end AudienceFilter
