import AudienceFilter.Proofs.GroupingTruth
import AudienceFilter.Proofs.ScriptGrammar

/-!
# What scripts say

The script of a tree is written on a node type, for the documents of that type. `Says` keeps
together that steps follow the grammar and what their formula says of such a document, so that
scripts are put together from parts without their formulas.

* `Says.braced`, `Says.complement`, `Says.join`: the parts;
* `says_ofLeaf`: a leaf, on its node type or in a join;
* `says_joins`: a tree inside a join;
* `says_grouped`, `asks_grouped`: a tree on the main documents, inside a query and as a whole one.
-/

namespace AudienceFilter

namespace World

variable {V : Type} {ctx : Context} {w : World V} {d : Document V}

theorem holdsFormulas_eq_map (fs : List (Formula (Labelled ctx))) :
    w.holdsFormulas ctx d fs = fs.map (w.holdsFormula ctx d) := by
  induction fs with
  | nil => rfl
  | cons f fs ih => rw [holdsFormulas, ih, List.map_cons]

theorem holdsFormula_combined (j : Connective) (fs : List (Formula (Labelled ctx))) :
    w.holdsFormula ctx d (.combined j fs) = j.truth (fs.map (w.holdsFormula ctx d)) := by
  rw [holdsFormula, holdsFormulas_eq_map]

/-- A document passes the filters of its node type. -/
theorem holdsAtom_filter {info : NodeType} {f : DocumentFilter}
    (hi : ctx.mapping.nodeType d.nodeType = .ok info) (hf : f ∈ info.filters) :
    w.holdsAtom ctx d (.filter f) = true := by
  simp only [holdsAtom, hi]
  exact List.contains_iff_mem.2 hf

theorem documentsOf_main (hw : w.Placed ctx) (hd : d ∈ w.documentsOf ctx.mainType) :
    w.documentsOf ctx.mainType = [d] := by
  obtain ⟨m, hm⟩ := hw.main
  rw [hm, List.mem_singleton] at hd
  rw [hm, hd]

/-- The documents of a node type that a condition written for a document is about: the document
itself, or the documents in a join. -/
def inScope (w : World V) (here nodeType : String) (d : Document V) : List (Document V) :=
  if here = nodeType then [d] else w.documentsOf nodeType

/-- A leaf that requires no value is a plain complement or none. -/
theorem leafAmong_plain {l : Leaf} (hv : l.polarity.verifies = false)
    (ha : l.inDocumentArg? = none) (ds : List (Document V)) :
    w.leafAmong ctx ds l = ((ds.any fun d => w.finds ctx d l) != l.isComplement) := by
  rw [leafAmong, required_of_verifies hv, ha]
  cases l.isComplement <;> simp

/-- A complement that requires a value says that some document has one and none matches. -/
theorem leafAmong_value {l : Leaf} (ha : l.inDocumentArg? = some l.arg) (ds : List (Document V)) :
    w.leafAmong ctx ds l =
      ((ds.any fun d => ctx.knows d l.arg) && !ds.any fun d => w.finds ctx d l) := by
  obtain ⟨-, hc, hv⟩ := Leaf.arg_of_inDocumentArg? ha
  rw [leafAmong, hc, required_of_verifies hv, ha, if_pos rfl, Bool.and_comm]
  simp

end World

theorem any_congr_mem {α : Type} {p q : α → Bool} {xs : List α} (h : ∀ x ∈ xs, p x = q x) :
    xs.any p = xs.any q := by
  rw [Bool.eq_iff_iff, List.any_eq_true, List.any_eq_true]
  exact exists_congr fun x => and_congr_right fun hx => by rw [h x hx]

namespace Script

universe u

/-- What may be said of a document of a world. -/
abbrev Meaning := (V : Type) → World V → Document V → Bool

/-- Whether steps are an operand that has a meaning for the documents of a node type. -/
def Says (ctx : Context) (here : String) (steps : List Step) (p : Meaning) : Prop :=
  ∃ φ, Operand ctx here steps φ ∧ (Succeeds steps → ∀ (V : Type) (w : World V), w.Placed ctx →
    ∀ d ∈ w.documentsOf here, w.holdsFormula ctx d φ = p V w d)

/-- Whether steps are a filter query that has a meaning for the main document. -/
def Asks (ctx : Context) (steps : List Step) (p : Meaning) : Prop :=
  ∃ φ, Query ctx steps φ ∧ (Succeeds steps → ∀ (V : Type) (w : World V), w.Placed ctx →
    ∀ d ∈ w.documentsOf ctx.mainType, w.holdsFormula ctx d φ = p V w d)

variable {ctx : Context} {here : String} {steps : List Step} {p q : Meaning} {j : Connective}

theorem Says.congr (h : Says ctx here steps p)
    (hp : ∀ (V : Type) (w : World V), w.Placed ctx → ∀ d ∈ w.documentsOf here,
      p V w d = q V w d) : Says ctx here steps q := by
  obtain ⟨φ, hφ, ht⟩ := h
  exact ⟨φ, hφ, fun hs V w hw d hd => (ht hs V w hw d hd).trans (hp V w hw d hd)⟩

theorem Asks.congr (h : Asks ctx steps p)
    (hp : ∀ (V : Type) (w : World V), w.Placed ctx → ∀ d ∈ w.documentsOf ctx.mainType,
      p V w d = q V w d) : Asks ctx steps q := by
  obtain ⟨φ, hφ, ht⟩ := h
  exact ⟨φ, hφ, fun hs V w hw d hd => (ht hs V w hw d hd).trans (hp V w hw d hd)⟩

theorem Says.asks (h : Says ctx ctx.mainType steps p) : Asks ctx steps p := by
  obtain ⟨φ, hφ, ht⟩ := h
  exact ⟨φ, .operand hφ, ht⟩

/-- Steps that fail say whatever one likes. -/
theorem says_failed (f : Failure) (rest : List Step) : Says ctx here (.fail f :: rest) p :=
  ⟨.atom (.nodeType ctx here), .failed f rest _, fun hs => absurd List.mem_cons_self (hs f)⟩

theorem says_andThen {α : Type} {r : Result α} {next : α → List Step}
    (h : ∀ a, r = .ok a → Says ctx here (next a) p) : Says ctx here (andThen r next) p := by
  cases r with
  | error f => exact says_failed f []
  | ok a => exact h a rfl

theorem says_append {a : Labelled ctx} {f : FilterQuery} (ha : a.term = .fragment f)
    (hf : f.On here) :
    Says ctx here [.call (.append f)] fun _ w d => w.holdsAtom ctx d a.atom :=
  ⟨.atom a, .fragment ha hf, fun _ _ _ _ _ _ => by rw [World.holdsFormula]⟩

section Members

variable {α : Type u} {xs : List α} {part : α → List Step} {meaning : α → Meaning}

/-- Members with the formulas that they stand for. -/
theorem exists_members (h : ∀ x ∈ xs, Says ctx here (part x) (meaning x)) :
    ∃ ms : List (List Step × Formula (Labelled ctx)), ms.map Prod.fst = xs.map part ∧
      (∀ m ∈ ms, Operand ctx here m.1 m.2) ∧
      ((∀ x ∈ xs, Succeeds (part x)) → ∀ (V : Type) (w : World V), w.Placed ctx →
        ∀ d ∈ w.documentsOf here,
          (ms.map Prod.snd).map (w.holdsFormula ctx d) = xs.map fun x => meaning x V w d) := by
  induction xs with
  | nil => exact ⟨[], rfl, fun _ hm => absurd hm List.not_mem_nil, fun _ _ _ _ _ _ => rfl⟩
  | cons x xs ih =>
    rw [List.forall_mem_cons] at h
    obtain ⟨⟨φ, hφ, ht⟩, hrest⟩ := h
    obtain ⟨ms, hms, ho, htruth⟩ := ih hrest
    refine ⟨(part x, φ) :: ms, by simp [hms], List.forall_mem_cons.2 ⟨hφ, ho⟩, ?_⟩
    intro hs V w hw d hd
    rw [List.forall_mem_cons] at hs
    simp only [List.map_cons, htruth hs.2 V w hw d hd, ht hs.1 V w hw d hd]

theorem Says.braced (hlen : 2 ≤ xs.length) (h : ∀ x ∈ xs, Says ctx here (part x) (meaning x)) :
    Says ctx here (braced (separated j (xs.map part)))
      fun V w d => j.truth (xs.map fun x => meaning x V w d) := by
  obtain ⟨ms, hms, ho, ht⟩ := exists_members h
  have hlen' : ms.length = xs.length := by simpa using congrArg List.length hms
  rw [← hms]
  refine ⟨_, .brace (hlen' ▸ hlen) ho, fun hs V w hw d hd => ?_⟩
  rw [Script.braced, succeeds_cons_call, succeeds_append, hms] at hs
  have hs := List.forall_mem_map.1 (succeeds_separated hs.1)
  rw [World.holdsFormula_combined, ht hs V w hw d hd]

theorem asks_combined (hlen : 2 ≤ xs.length)
    (h : ∀ x ∈ xs, Says ctx ctx.mainType (part x) (meaning x)) :
    Asks ctx (separated j (xs.map part))
      fun V w d => j.truth (xs.map fun x => meaning x V w d) := by
  obtain ⟨ms, hms, ho, ht⟩ := exists_members h
  have hlen' : ms.length = xs.length := by simpa using congrArg List.length hms
  rw [← hms]
  refine ⟨_, .combined (hlen' ▸ hlen) ho, fun hs V w hw d hd => ?_⟩
  rw [hms] at hs
  have hs := List.forall_mem_map.1 (succeeds_separated hs)
  rw [World.holdsFormula_combined, ht hs V w hw d hd]

end Members

theorem Says.bracedTwo {steps' : List Step} (hp : Says ctx here steps p)
    (hq : Says ctx here steps' q) :
    Says ctx here (Script.braced (steps ++ .call (.separator j) :: steps'))
      fun V w d => j.truth [p V w d, q V w d] := by
  have hm : ∀ m ∈ [(steps, p), (steps', q)], Says ctx here m.1 m.2 := by simp [hp, hq]
  have hlen : 2 ≤ [(steps, p), (steps', q)].length := Nat.le_refl 2
  have hb := Says.braced (j := j) hlen hm
  rwa [List.map_cons, List.map_singleton, separated_cons_cons, separated_singleton] at hb

theorem Says.complement (h : Says ctx here steps p) :
    Says ctx here (.call .openComplement :: (steps ++ [.call .closeBrace]))
      fun V w d => !p V w d := by
  obtain ⟨φ, hφ, ht⟩ := h
  refine ⟨.complement φ, .complement hφ, fun hs V w hw d hd => ?_⟩
  rw [succeeds_cons_call, succeeds_append] at hs
  rw [World.holdsFormula, ht hs.1 V w hw d hd]

/-- The filters of a join with the atoms that they are written for. -/
theorem exists_filters {fs : List DocumentFilter} {qs : List FilterQuery}
    (h : fs.mapM ctx.documentFilter = .ok qs) :
    ∃ ls : List (Labelled ctx), ls.map Labelled.term = qs.map .fragment ∧
      ls.map Labelled.atom = fs.map .filter := by
  induction fs generalizing qs with
  | nil =>
    rw [List.mapM_nil, pure_eq_ok] at h
    exact ⟨[], by rw [← h]; rfl, rfl⟩
  | cons f fs ih =>
    obtain ⟨q, qs, hq, hqs, rfl⟩ := mapM_cons_eq_ok.1 h
    obtain ⟨ls, hterm, hatom⟩ := ih hqs
    refine ⟨⟨.filter f, .fragment q, by rw [Atom.term, hq]; rfl⟩ :: ls, ?_, ?_⟩
    · rw [List.map_cons, hterm, List.map_cons]
    · rw [List.map_cons, hatom, List.map_cons]

/-- A join fails to open, or a command opens it with the filters of the node type. -/
theorem startJoin_cases (ctx : Context) (here nodeType : String) :
    (∃ f, startJoin ctx here nodeType = [.fail f]) ∨
      ∃ c qs info, startJoin ctx here nodeType = [.call c] ∧ c.Opens nodeType qs ∧
        ctx.mapping.nodeType nodeType = .ok info ∧
        info.filters.mapM ctx.documentFilter = .ok qs := by
  rw [startJoin]
  cases hq : ctx.documentFilters nodeType with
  | error f => exact .inl ⟨f, rfl⟩
  | ok qs =>
    obtain ⟨info, hi, hq⟩ := bind_eq_ok.1 hq
    rw [andThen, hi, andThen]
    cases info.nature with
    | main => exact .inl ⟨_, rfl⟩
    | nested => exact .inr ⟨_, qs, info, rfl, .inl rfl, liftError_eq_ok.1 hi, hq⟩
    | dependent => exact .inr ⟨_, qs, info, rfl, .inr rfl, liftError_eq_ok.1 hi, hq⟩

/-- A join says that some document of its node type satisfies all members. -/
theorem Says.join {α : Type u} {xs : List α} {part : α → List Step} {meaning : α → Meaning}
    {nodeType : String} (hctx : ctx.Checked) (hn : ctx.mainType ≠ nodeType) (hne : xs ≠ [])
    (h : ∀ x ∈ xs, Says ctx nodeType (part x) (meaning x)) :
    Says ctx ctx.mainType
      (startJoin ctx ctx.mainType nodeType ++ (separated .and (xs.map part) ++ [.call .endJoin]))
      fun V w _ => (w.documentsOf nodeType).any fun d =>
        Connective.and.truth (xs.map fun x => meaning x V w d) := by
  rcases startJoin_cases ctx ctx.mainType nodeType with ⟨f, hf⟩ | ⟨c, qs, info, hc, ho, hi, hq⟩
  · rw [hf]
    exact says_failed f _
  · obtain ⟨ls, hterm, hatom⟩ := exists_filters hq
    obtain ⟨ms, hms, hops, ht⟩ := exists_members h
    have hon : ∀ q ∈ qs, q.On nodeType := by
      intro q hmem
      obtain ⟨f, hf, hfq⟩ := mem_of_mapM_eq_ok hq hmem
      exact hctx.filters hi f hf ▸ Context.on_documentFilter hfq
    have hne' : ms ≠ [] := by
      rintro rfl
      exact hne (List.map_eq_nil_iff.1 hms.symm)
    rw [hc, List.singleton_append, ← hms]
    refine ⟨_, .join ho hn hterm hon hne' hops, fun hs V w hw d hd => ?_⟩
    rw [succeeds_cons_call, succeeds_append, hms] at hs
    have hs := List.forall_mem_map.1 (succeeds_separated hs.1)
    rw [World.holdsFormula]
    refine any_congr_mem fun d hd => ?_
    obtain ⟨-, hdn⟩ := World.mem_documentsOf.1 hd
    -- The document has the node type and passes its filters.
    have hfilters : ∀ a ∈ ls, w.holdsAtom ctx d a.atom = true := by
      intro a ha
      obtain ⟨f, hf, hfa⟩ := List.mem_map.1 (hatom ▸ List.mem_map_of_mem ha)
      rw [← hfa]
      exact World.holdsAtom_filter (hdn.symm ▸ hi) hf
    have hnode : w.holdsAtom ctx d (.nodeType nodeType) = true := decide_eq_true hdn
    rw [World.holdsFormula_combined, ← ht hs V w hw d hd]
    refine Connective.truth_map_congr ?_
    rw [List.forall_mem_cons, List.forall_mem_append, List.forall_mem_map]
    exact ⟨fun hall => hall.2.2, fun hall => ⟨hnode, hfilters, hall⟩⟩

/-- A join around one operand. -/
theorem Says.joinOne {nodeType : String} (hctx : ctx.Checked) (hn : ctx.mainType ≠ nodeType)
    (h : Says ctx nodeType steps p) :
    Says ctx ctx.mainType
      (startJoin ctx ctx.mainType nodeType ++ (steps ++ [.call .endJoin]))
      fun V w _ => (w.documentsOf nodeType).any fun d => p V w d := by
  have hm : ∀ m ∈ [(steps, p)], Says ctx nodeType m.1 m.2 := by simpa using h
  have hjoin := Says.join hctx hn (List.cons_ne_nil _ _) hm
  rw [List.map_singleton, separated_singleton] at hjoin
  exact hjoin.congr fun V w _ d _ => by simp [Connective.truth]

/-! ## Leaves -/

/-- A fragment is about the documents in scope. -/
theorem says_inScope {nodeType : String} {a : Labelled ctx} {f : FilterQuery} (hctx : ctx.Checked)
    (ha : a.term = .fragment f) (hf : f.On nodeType)
    (hh : here = nodeType ∨ here = ctx.mainType) :
    Says ctx here (inScope ctx here nodeType f) fun _ w d =>
      (w.inScope here nodeType d).any fun d => w.holdsAtom ctx d a.atom := by
  rw [inScope, joined]
  split
  · next hn =>
    subst hn
    exact (says_append ha hf).congr fun V w _ d _ => by simp [World.inScope]
  · next hn =>
    obtain rfl := hh.resolve_left hn
    exact ((says_append ha hf).joinOne hctx hn).congr fun V w _ d _ => by
      simp [World.inScope, hn]

theorem says_complement {nodeType : String} {a : Labelled ctx} {f : FilterQuery}
    (hctx : ctx.Checked) (ha : a.term = .fragment f) (hf : f.On nodeType)
    (hh : here = nodeType ∨ here = ctx.mainType) :
    Says ctx here (complement ctx here nodeType f) fun _ w d =>
      !(w.inScope here nodeType d).any fun d => w.holdsAtom ctx d a.atom :=
  (says_inScope hctx ha hf hh).complement

/-- The fragment of a leaf, labelled. -/
def found {l : Leaf} {f : FilterQuery} (h : ctx.leafFragment l = .ok f) : Labelled ctx :=
  ⟨.found l, .fragment f, by rw [Atom.term, h]; rfl⟩

/-- The fragment that an argument has a value, labelled. -/
def known {arg : String} {f : FilterQuery} (h : ctx.anyValue arg = .ok f) : Labelled ctx :=
  ⟨.known arg, .fragment f, by rw [Atom.term, h]; rfl⟩

/-- The complement of a leaf among the documents with a value, labelled. -/
def missed {l : Leaf} {f : FilterQuery} (h : ctx.leafComplement l = .ok f) : Labelled ctx :=
  ⟨.missed l, .fragment f, by rw [Atom.term, h]; rfl⟩

theorem says_plain {l : Leaf} (hctx : ctx.Checked) (hm : l.Made ctx)
    (hv : l.polarity.verifies = false) (ha : l.inDocumentArg? = none)
    (hu : l.isUnknownCheck = false) (hh : here = l.nodeType ∨ here = ctx.mainType) :
    Says ctx here (plain ctx here l) fun _ w d =>
      w.leafAmong ctx (w.inScope here l.nodeType d) l := by
  refine says_andThen fun f hf => ?_
  have hcomp := Leaf.isComplement_eq l
  rw [hu, Bool.bne_false] at hcomp
  split
  · next hp =>
    refine (says_inScope (a := found hf) hctx rfl (Context.on_leafFragment hm hf) hh).congr ?_
    intro V w _ d _
    rw [World.leafAmong_plain hv ha, hcomp, hp]
    exact (Bool.bne_false _).symm
  · next hp =>
    refine (says_complement (a := found hf) hctx rfl (Context.on_leafFragment hm hf) hh).congr ?_
    intro V w _ d _
    have hneg : l.polarity.isNegated = true := by simpa [Polarity.isNegated] using hp
    rw [World.leafAmong_plain hv ha, hcomp, hneg]
    exact (Bool.bne_true _).symm

theorem on_known {l : Leaf} {f : FilterQuery} (hm : l.Made ctx) (h : ctx.anyValue l.arg = .ok f) :
    f.On l.nodeType := by
  obtain ⟨a, ha, hn, -⟩ := hm.assignment
  exact hn ▸ Context.on_anyValue ha h

/-- A leaf that checks whether its argument is unknown. -/
theorem says_unknown {s : Single} (hctx : ctx.Checked) (hm : (Leaf.single s).Made ctx)
    (hv : s.polarity.verifies = false) (hu : s.isUnknownCheck = true)
    (hh : here = s.nodeType ∨ here = ctx.mainType) :
    Says ctx here (andThen (ctx.anyValue s.condition.arg) fun any =>
        if s.polarity = .positive then complement ctx here s.nodeType any
        else inScope ctx here s.nodeType any) fun _ w d =>
      w.leafAmong ctx (w.inScope here s.nodeType d) (.single s) := by
  refine says_andThen fun f hf => ?_
  have hon : f.On s.nodeType := on_known hm hf
  have hcomp : (Leaf.single s).isComplement = !s.polarity.isNegated := by
    rw [Leaf.isComplement_eq]
    exact (congrArg _ hu).trans (Bool.bne_true _)
  have hfinds : ∀ {V : Type} (w : World V) (d : Document V),
      w.finds ctx d (.single s) = ctx.knows d s.condition.arg := by
    intro V w d
    rw [World.finds, if_pos hu]
  split
  · next hp =>
    refine (says_complement (a := known hf) hctx rfl hon hh).congr fun V w _ d _ => ?_
    rw [World.leafAmong_plain (l := .single s) hv rfl, hcomp, hp]
    simp [hfinds, known, World.holdsAtom, Polarity.isNegated]
  · next hp =>
    refine (says_inScope (a := known hf) hctx rfl hon hh).congr fun V w _ d _ => ?_
    have hneg : s.polarity.isNegated = true := by simpa [Polarity.isNegated] using hp
    rw [World.leafAmong_plain (l := .single s) hv rfl, hcomp, hneg]
    simp [hfinds, known, World.holdsAtom]

/-- A leaf that is negated among the documents with a value. -/
theorem says_inDocument {l : Leaf} (hctx : ctx.Checked) (hm : l.Made ctx)
    (ha : l.inDocumentArg? = some l.arg) (hh : here = l.nodeType ∨ here = ctx.mainType) :
    Says ctx here (inDocument ctx here l) fun _ w d =>
      w.leafAmong ctx (w.inScope here l.nodeType d) l := by
  refine says_andThen fun multiDoc hmd => ?_
  split
  · refine says_andThen fun any hany => says_andThen fun f hf => ?_
    have hknown := says_inScope (a := known hany) hctx rfl (on_known hm hany) hh
    have hnone := says_complement (a := found hf) hctx rfl (Context.on_leafFragment hm hf) hh
    refine (hknown.bracedTwo hnone).congr fun V w _ d _ => ?_
    rw [World.leafAmong_value ha]
    simp [Connective.truth, known, found, World.holdsAtom]
  · next hsingle =>
    refine says_andThen fun f hf => ?_
    have hon := Context.on_leafComplement hm hf
    refine (says_inScope (a := missed hf) hctx rfl hon hh).congr fun V w hw d _ => ?_
    -- In each document the fragment says what the leaf does there.
    have hmissed : ∀ d, w.holdsAtom ctx d (missed hf).atom = w.leafAmong ctx [d] l := by
      intro d
      rw [World.leafAmong_value ha]
      simp [missed, World.holdsAtom]
    simp only [hmissed]
    by_cases hn : here = l.nodeType
    · simp [World.inScope, hn]
    · rw [if_neg hn] at hmd
      have hmd : ctx.isMultiDoc l.arg = .ok false :=
        (Bool.not_eq_true _ ▸ hsingle) ▸ liftError_eq_ok.1 hmd
      obtain ⟨-, -, hv⟩ := Leaf.arg_of_inDocumentArg? ha
      rw [World.inScope, if_neg hn]
      exact (World.leafAmong_inDocument hw hm hv ha hmd).symm

/-- A leaf is about the documents in scope. -/
theorem says_ofLeaf {l : Leaf} (hctx : ctx.Checked) (hm : l.Made ctx)
    (hv : l.polarity.verifies = false) (hh : here = l.nodeType ∨ here = ctx.mainType) :
    Says ctx here (ofLeaf ctx here l) fun _ w d =>
      w.leafAmong ctx (w.inScope here l.nodeType d) l := by
  rw [ofLeaf.eq_def, hv, if_neg Bool.false_ne_true]
  cases l with
  | single s =>
    dsimp only
    split
    · next hu => exact says_unknown hctx hm hv hu hh
    · next hu => exact says_plain hctx hm hv rfl (Bool.eq_false_iff.2 hu) hh
  | multi m =>
    dsimp only
    split
    · next hneg =>
      rw [Bool.and_eq_true, Bool.not_eq_true'] at hneg
      refine says_inDocument hctx hm ?_ hh
      exact if_pos ⟨Polarity.eq_negated hneg.1 hv, hneg.2⟩
    · next hneg =>
      refine says_plain hctx hm hv (if_neg ?_) rfl hh
      rintro ⟨hp, hr⟩
      exact hneg (by rw [hp, hr]; rfl)
  | between b =>
    dsimp only
    split
    · next hneg =>
      exact says_inDocument hctx hm (if_pos (Polarity.eq_negated hneg hv)) hh
    · next hneg =>
      refine says_plain hctx hm hv (if_neg ?_) rfl hh
      intro hp
      exact hneg (by rw [hp]; rfl)

/-! ## Trees -/

theorem ofTrees_eq_map (ts : List MatchTree) :
    ofTrees ctx here ts = ts.map (ofTree ctx here false) := by
  induction ts with
  | nil => rfl
  | cons t ts ih => rw [ofTrees, ih, List.map_cons]

open MatchTree (Joins Grouped)

/-- A tree in a join is about the one document. -/
theorem says_joins {t : MatchTree} (hctx : ctx.Checked) (ht : Joins ctx here t) :
    Says ctx here (ofTree ctx here false t) fun _ w d => t.holds (w.leafAmong ctx [d]) := by
  induction t using MatchTree.memberInduction with
  | combined j children ih => cases ht
  | leaf l =>
    cases ht with
    | leaf hm hv hj hn =>
      rw [ofTree]
      refine (says_ofLeaf hctx hm hv (.inl hn.symm)).congr fun V w _ d _ => ?_
      rw [World.inScope, if_pos hn.symm, MatchTree.holds]
  | group j nodeType children ih =>
    cases ht with
    | group hlen hc =>
      rw [ofTree, ofTrees_eq_map, joined, if_pos rfl, if_pos rfl]
      refine (Says.braced hlen fun t ht => ih t ht (hc t ht)).congr fun V w _ d _ => ?_
      rw [MatchTree.holds_group]

/-- A group on another node type than the main one is a join. -/
theorem says_group {j : Connective} {nodeType : String} {children : List MatchTree} {top : Bool}
    (hctx : ctx.Checked) (hn : ctx.mainType ≠ nodeType)
    (ht : Joins ctx nodeType (.group j nodeType children)) :
    Says ctx ctx.mainType (ofTree ctx ctx.mainType top (.group j nodeType children))
      fun _ w _ => w.holdsTree ctx (.group j nodeType children) := by
  cases ht with
  | group hlen hc =>
    have hsays : ∀ t ∈ children, Says ctx nodeType (ofTree ctx nodeType false t) _ :=
      fun t ht => says_joins hctx (hc t ht)
    have htruth : ∀ (V : Type) (w : World V),
        ((w.documentsOf nodeType).any fun d =>
          j.truth (children.map fun t => t.holds (w.leafAmong ctx [d]))) =
            w.holdsTree ctx (.group j nodeType children) := by
      intro V w
      simp only [World.holdsTree_group, MatchTree.holds_group]
    rw [ofTree, ofTrees_eq_map, joined, if_neg hn, if_neg hn]
    cases j with
    | or =>
      refine ((Says.braced hlen hsays).joinOne hctx hn).congr fun V w _ d _ => ?_
      exact htruth V w
    | and =>
      have hne : children ≠ [] := List.ne_nil_of_length_pos (by omega)
      refine (Says.join hctx hn hne hsays).congr fun V w _ d _ => ?_
      exact htruth V w

/-- A leaf on the main documents, or in a join. -/
theorem says_leaf {l : Leaf} {top : Bool} (hctx : ctx.Checked) (hm : l.Made ctx)
    (hv : l.polarity.verifies = false) :
    Says ctx ctx.mainType (ofTree ctx ctx.mainType top (.leaf l))
      fun _ w _ => w.holdsTree ctx (.leaf l) := by
  rw [ofTree]
  refine (says_ofLeaf hctx hm hv (.inr rfl)).congr fun V w hw d hd => ?_
  rw [World.holdsTree, World.leafAmong_documentsOf hm hv, World.inScope]
  split
  · next hn => rw [← hn, World.documentsOf_main hw hd]
  · rfl

/-- A group on the main documents is about the main document. -/
theorem holdsTree_main {V : Type} {w : World V} {d : Document V} {t : MatchTree}
    (hw : w.Placed ctx) (hd : d ∈ w.documentsOf ctx.mainType) (ht : Joins ctx ctx.mainType t) :
    t.holds (w.leafAmong ctx [d]) = w.holdsTree ctx t := by
  rw [World.holdsTree_joins hw ht, World.documentsOf_main hw hd]
  simp

/-- A tree inside a filter query says what the tree does. -/
theorem says_grouped {t : MatchTree} (hctx : ctx.Checked) (ht : Grouped ctx t) :
    Says ctx ctx.mainType (ofTree ctx ctx.mainType false t) fun _ w _ => w.holdsTree ctx t := by
  induction t using MatchTree.memberInduction with
  | leaf l =>
    cases ht with
    | leaf hm hv => exact says_leaf hctx hm hv
  | combined j children ih =>
    cases ht with
    | combined hlen h =>
      rw [ofTree, ofTrees_eq_map]
      refine (Says.braced hlen fun t ht => ih t ht (h t ht)).congr fun V w _ d _ => ?_
      rw [World.holdsTree_combined]
  | group j nodeType children ih =>
    cases ht with
    | group h =>
      by_cases hn : ctx.mainType = nodeType
      · subst hn
        exact (says_joins hctx h).congr fun V w hw d hd => holdsTree_main hw hd h
      · exact says_group hctx hn h

/-- A tree as a whole filter query says what the tree does. -/
theorem asks_grouped {t : MatchTree} (hctx : ctx.Checked) (ht : Grouped ctx t) :
    Asks ctx (ofTree ctx ctx.mainType true t) fun _ w _ => w.holdsTree ctx t := by
  cases ht with
  | leaf hm hv => exact (says_leaf hctx hm hv).asks
  | combined hlen h =>
    rw [ofTree, ofTrees_eq_map]
    refine (asks_combined hlen fun t ht => says_grouped hctx (h t ht)).congr fun V w _ d _ => ?_
    rw [World.holdsTree_combined]
  | @group j nodeType children h =>
    by_cases hn : ctx.mainType = nodeType
    · subst hn
      cases h with
      | group hlen hc =>
        rw [ofTree, ofTrees_eq_map, joined, if_pos rfl, if_pos rfl]
        refine (asks_combined hlen fun t ht => says_joins hctx (hc t ht)).congr ?_
        intro V w hw d hd
        rw [← holdsTree_main hw hd (.group hlen hc), MatchTree.holds_group]
    · exact (says_group hctx hn h).asks

end Script

end AudienceFilter
