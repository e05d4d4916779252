import AudienceFilter.Fragment
import AudienceFilter.Proofs.LeafConstruction

/-!
# Fragments and their node types

A fragment has a text that is not blank, refers to fields of one node type, and has a kind.

* `FilterQuery.On`: what the builder relies on;
* `Context.on_leafFragment`, `Context.on_leafComplement`, `Context.on_anyValue`,
  `Context.on_documentFilter`: the fragments that are written have it.
-/

namespace AudienceFilter

namespace Text

theorem mem_trimStart {c : Char} {cs : List Char} (h : c ∈ cs) (hc : isBlank c = false) :
    c ∈ trimStart cs := by
  rw [← List.takeWhile_append_dropWhile (p := isBlank) (l := cs)] at h
  rcases List.mem_append.1 h with h | h
  · rw [List.all_eq_true.1 (List.all_takeWhile) c h] at hc
    cases hc
  · exact h

theorem mem_trimChars {c : Char} {cs : List Char} (h : c ∈ cs) (hc : isBlank c = false) :
    c ∈ trimChars cs := by
  rw [trimChars, List.mem_reverse]
  exact mem_trimStart (List.mem_reverse.2 (mem_trimStart h hc)) hc

theorem isBlankText_eq_false {s : String} :
    isBlankText s = false ↔ ∃ c ∈ s.toList, isBlank c = false := by
  simp [isBlankText]

theorem isEmpty_trim {s : String} : (trim s).isEmpty = false ↔ trimChars s.toList ≠ [] := by
  rw [String.isEmpty_eq_false_iff, trim, ne_eq, String.ofList_eq_empty_iff]

theorem isEmpty_trim_of_not_blank {s : String} (h : isBlankText s = false) :
    (trim s).isEmpty = false := by
  obtain ⟨c, hm, hc⟩ := isBlankText_eq_false.1 h
  exact isEmpty_trim.2 (List.ne_nil_of_mem (mem_trimChars hm hc))

/-- A text that is left after trimming is not blank. -/
theorem isBlankText_trim {s : String} (h : (trim s).isEmpty = false) :
    isBlankText (trim s) = false := by
  have hne : trimStart (trimStart s.toList).reverse ≠ [] :=
    fun hnil => isEmpty_trim.1 h (by rw [trimChars, hnil, List.reverse_nil])
  rw [isBlankText_eq_false, trim, String.toList_ofList]
  refine ⟨_, ?_, List.head_dropWhile_not isBlank hne⟩
  rw [trimChars, List.mem_reverse]
  exact List.head_mem hne

theorem isBlankText_append_left {s t : String} (h : isBlankText s = false) :
    isBlankText (s ++ t) = false := by
  obtain ⟨c, hm, hc⟩ := isBlankText_eq_false.1 h
  exact isBlankText_eq_false.2
    ⟨c, by rw [String.toList_append]; exact List.mem_append_left _ hm, hc⟩

theorem isBlankText_append_right {s t : String} (h : isBlankText t = false) :
    isBlankText (s ++ t) = false := by
  obtain ⟨c, hm, hc⟩ := isBlankText_eq_false.1 h
  exact isBlankText_eq_false.2
    ⟨c, by rw [String.toList_append]; exact List.mem_append_right _ hm, hc⟩

end Text

namespace FilterQuery

/-- What the builder relies on in a fragment: it is not blank, refers to fields of the node type
alone, and has a kind. -/
structure On (nodeType : String) (q : FilterQuery) : Prop where
  text : Text.isBlankText q.text = false
  fields : q.fields ≠ []
  nodeTypes : ∀ f ∈ q.fields, f.nodeType = nodeType
  kinds : q.kinds ≠ []

theorem On.nodeType? {nodeType : String} {q : FilterQuery} (h : q.On nodeType) :
    q.nodeType? = some nodeType := by
  rw [FilterQuery.nodeType?]
  cases hf : q.fields with
  | nil => exact absurd hf h.fields
  | cons f rest =>
    have hall : ∀ g ∈ f :: rest, g.nodeType = nodeType := hf ▸ h.nodeTypes
    rw [List.forall_mem_cons] at hall
    have hrest : (rest.all fun g => g.nodeType = f.nodeType) = true := by
      simpa [hall.1] using hall.2
    exact (if_pos hrest).trans (congrArg some hall.1)

theorem make_eq_ok {text : String} {fields : List QueryField} {kinds : List ConditionKind}
    {q : FilterQuery} (h : make text fields kinds = .ok q) :
    q = { text := Text.trim text, fields := Sorted.ofList fields, kinds := Sorted.ofList kinds } ∧
      (Text.trim text).isEmpty = false ∧ fields ≠ [] ∧ kinds ≠ [] := by
  unfold make at h
  dsimp only at h
  split at h
  · cases h
  · next ht =>
    split at h
    · cases h
    · next hf =>
      split at h
      · cases h
      · next hk =>
        cases h
        exact ⟨rfl, Bool.eq_false_iff.2 ht, by simpa using hf, by simpa using hk⟩

theorem ofList_ne_nil {α : Type} [Ord α] [Std.LawfulEqOrd α] {xs : List α} (h : xs ≠ []) :
    Sorted.ofList xs ≠ [] := by
  obtain ⟨x, hx⟩ := List.exists_mem_of_ne_nil xs h
  exact List.ne_nil_of_mem (Sorted.mem_ofList.2 hx)

theorem on_make {text nodeType : String} {fields : List QueryField} {kinds : List ConditionKind}
    {q : FilterQuery} (h : make text fields kinds = .ok q)
    (hn : ∀ f ∈ fields, f.nodeType = nodeType) : q.On nodeType := by
  obtain ⟨rfl, ht, hf, hk⟩ := make_eq_ok h
  exact ⟨Text.isBlankText_trim ht, ofList_ne_nil hf, fun f hm => hn f (Sorted.mem_ofList.1 hm),
    ofList_ne_nil hk⟩

end FilterQuery

theorem QueryField.make_eq_ok {nodeType name : String} {f : QueryField}
    (h : make nodeType name = .ok f) :
    Text.isName nodeType = true ∧ Text.isName name = true ∧ f = ⟨nodeType, name⟩ := by
  unfold make at h
  split at h
  · cases h
  · next hn =>
    split at h
    · cases h
    · next hf =>
      cases h
      exact ⟨by simpa using hn, by simpa using hf, rfl⟩

namespace Context

variable {ctx : Context}

theorem nodeType_queryField {a : Assignment} {f : QueryField} (h : queryField a = .ok f) :
    f.nodeType = a.field.nodeType := by
  obtain ⟨-, -, rfl⟩ := QueryField.make_eq_ok (liftName_eq_ok.1 h)
  rfl

theorem on_fieldFragment {a : Assignment} {text : String} {kind : ConditionKind} {q : FilterQuery}
    (h : fieldFragment a text kind = .ok q) : q.On a.field.nodeType := by
  obtain ⟨f, hf, h⟩ := bind_eq_ok.1 h
  refine FilterQuery.on_make (liftFault_eq_ok.1 h) ?_
  simpa using nodeType_queryField hf

theorem on_anyValue {arg : String} {a : Assignment} {q : FilterQuery}
    (ha : ctx.assignment arg = .ok a) (h : ctx.anyValue arg = .ok q) : q.On a.field.nodeType := by
  obtain ⟨b, hb, h⟩ := bind_eq_ok.1 h
  obtain rfl := Except.ok.inj (ha.symm.trans (liftError_eq_ok.1 hb))
  exact on_fieldFragment h

theorem on_documentFilter {f : DocumentFilter} {q : FilterQuery}
    (h : ctx.documentFilter f = .ok q) : q.On f.nodeType := by
  obtain ⟨value, -, h⟩ := bind_eq_ok.1 h
  obtain ⟨field, hf, h⟩ := bind_eq_ok.1 h
  obtain ⟨-, -, rfl⟩ := QueryField.make_eq_ok (liftName_eq_ok.1 hf)
  exact FilterQuery.on_make (liftFault_eq_ok.1 h) (by simp)

/-- What two arguments need to be compared, and to be compared by order. -/
structure PermitsComparison (ctx : Context) (a b : Assignment) (ordered : Bool) : Prop where
  enabled : ctx.isEnabled .disableReferences = false
  nodeType : a.field.nodeType = b.field.nodeType
  left : a.field.isCollection = false
  right : b.field.isCollection = false
  kinds : comparable a b = true
  order : ordered = true → ctx.isEnabled .disableOrder = false ∧
    a.field.type.kind.supportsFunctionOrder = true ∧ b.field.type.kind.supportsFunctionOrder = true

theorem checkReference_eq_ok {a b : Assignment} {ordered : Bool}
    (h : ctx.checkReference a b ordered = .ok ()) : ctx.PermitsComparison a b ordered := by
  unfold checkReference at h
  by_cases he : ctx.isEnabled .disableReferences = true
  · cases (if_pos he).symm.trans h
  replace h := (if_neg he).symm.trans h
  by_cases hn : a.field.nodeType ≠ b.field.nodeType
  · cases (if_pos hn).symm.trans h
  replace h := (if_neg hn).symm.trans h
  by_cases ha : a.field.isCollection = true
  · cases (if_pos ha).symm.trans h
  replace h := (if_neg ha).symm.trans h
  by_cases hb : b.field.isCollection = true
  · cases (if_pos hb).symm.trans h
  replace h := (if_neg hb).symm.trans h
  by_cases hk : (!comparable a b) = true
  · cases (if_pos hk).symm.trans h
  replace h := (if_neg hk).symm.trans h
  refine ⟨by simpa using he, by simpa using hn, by simpa using ha, by simpa using hb,
    by simpa using hk, ?_⟩
  rintro rfl
  replace h := (if_pos rfl).symm.trans h
  by_cases ho : ctx.isEnabled .disableOrder = true
  · cases (if_pos ho).symm.trans h
  replace h := (if_neg ho).symm.trans h
  by_cases hl : (!a.field.type.kind.supportsFunctionOrder) = true
  · cases (if_pos hl).symm.trans h
  replace h := (if_neg hl).symm.trans h
  by_cases hr : (!b.field.type.kind.supportsFunctionOrder) = true
  · cases (if_pos hr).symm.trans h
  exact ⟨by simpa using ho, by simpa using hl, by simpa using hr⟩

theorem on_referenceFragment {c : Condition} {inclusive : Bool} {a : Assignment} {q : FilterQuery}
    (ha : ctx.assignment c.arg = .ok a) (h : ctx.referenceFragment c inclusive = .ok q) :
    q.On a.field.nodeType := by
  unfold referenceFragment at h
  obtain ⟨a', ha', h⟩ := bind_eq_ok.1 h
  obtain rfl := Except.ok.inj (ha.symm.trans (liftError_eq_ok.1 ha'))
  obtain ⟨b, hb, h⟩ := bind_eq_ok.1 h
  obtain ⟨_, hcheck, h⟩ := bind_eq_ok.1 h
  split at h
  · cases h
  · obtain ⟨left, hl, h⟩ := bind_eq_ok.1 h
    obtain ⟨right, hr, h⟩ := bind_eq_ok.1 h
    refine FilterQuery.on_make (liftFault_eq_ok.1 h) ?_
    have hab := (checkReference_eq_ok (liftError_eq_ok.1 hcheck)).nodeType
    simp [nodeType_queryField hl, nodeType_queryField hr, hab]

theorem on_singleFragment {s : Single} {a : Assignment} {q : FilterQuery}
    (ha : ctx.assignment s.condition.arg = .ok a) (h : ctx.singleFragment s = .ok q) :
    q.On a.field.nodeType := by
  unfold singleFragment at h
  dsimp only at h
  split at h
  · exact on_anyValue ha h
  · split at h
    · exact on_referenceFragment ha h
    · obtain ⟨a', ha', h⟩ := bind_eq_ok.1 h
      obtain rfl := Except.ok.inj (ha.symm.trans (liftError_eq_ok.1 ha'))
      obtain ⟨⟨text, kind⟩, -, h⟩ := bind_eq_ok.1 h
      exact on_fieldFragment h

theorem on_multiFragment {m : Multi} {a : Assignment} {q : FilterQuery}
    (ha : ctx.assignment m.arg = .ok a) (h : ctx.multiFragment m = .ok q) :
    q.On a.field.nodeType := by
  unfold multiFragment at h
  split at h
  · exact on_referenceFragment ha h
  · obtain ⟨a', ha', h⟩ := bind_eq_ok.1 h
    obtain rfl := Except.ok.inj (ha.symm.trans (liftError_eq_ok.1 ha'))
    dsimp only at h
    split at h
    · obtain ⟨range, -, h⟩ := bind_eq_ok.1 h
      exact on_fieldFragment h
    · split at h
      · obtain ⟨values, -, h⟩ := bind_eq_ok.1 h
        exact on_fieldFragment h
      · obtain ⟨conditions, -, h⟩ := bind_eq_ok.1 h
        exact on_fieldFragment h
    · obtain ⟨⟨text, kind⟩, -, h⟩ := bind_eq_ok.1 h
      exact on_fieldFragment h

theorem on_betweenFragment {b : Between} {a : Assignment} {q : FilterQuery}
    (ha : ctx.assignment b.arg = .ok a) (h : ctx.betweenFragment b = .ok q) :
    q.On a.field.nodeType := by
  obtain ⟨a', ha', h⟩ := bind_eq_ok.1 h
  obtain rfl := Except.ok.inj (ha.symm.trans (liftError_eq_ok.1 ha'))
  obtain ⟨range, -, h⟩ := bind_eq_ok.1 h
  exact on_fieldFragment h

/-- The fragment of a leaf is on its node type. -/
theorem on_leafFragment {l : Leaf} {q : FilterQuery} (hl : l.Made ctx)
    (h : ctx.leafFragment l = .ok q) : q.On l.nodeType := by
  obtain ⟨a, ha, hn, -⟩ := hl.assignment
  rw [hn]
  cases l with
  | single s => exact on_singleFragment ha h
  | multi m => exact on_multiFragment ha h
  | between b => exact on_betweenFragment ha h

/-- The complement of a leaf among the documents with a value is on its node type. -/
theorem on_leafComplement {l : Leaf} {q : FilterQuery} (hl : l.Made ctx)
    (h : ctx.leafComplement l = .ok q) : q.On l.nodeType := by
  obtain ⟨a, ha, hn, -⟩ := hl.assignment
  obtain ⟨positive, hp, h⟩ := bind_eq_ok.1 h
  obtain ⟨any, hany, h⟩ := bind_eq_ok.1 h
  refine FilterQuery.on_make (liftFault_eq_ok.1 h) fun f hf => ?_
  rcases List.mem_append.1 hf with hf | hf
  · exact (on_leafFragment hl hp).nodeTypes f hf
  · exact hn ▸ (on_anyValue ha hany).nodeTypes f hf

end Context

end AudienceFilter
