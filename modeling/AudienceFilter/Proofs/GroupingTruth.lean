import AudienceFilter.MatchTree.Grouped
import AudienceFilter.Proofs.ConsolidationTruth

/-!
# Grouping keeps the truth

Members of a combination move under one join, that is, they are looked up in one document. For a
disjunction it does not matter in which. For a conjunction all members are about arguments with
one document, and a member that holds in a document shows that this is the one.

* `Joins`: trees that may stand in a join on a node type;
* `holdsTree_joins`: such a tree holds if it does in one of the documents;
* `holdsTree_groupLevel`, `holdsTree_grouped`: the truth is kept.
-/

namespace AudienceFilter.MatchTree

/-- Whether a tree may stand in a join on a node type. -/
inductive Joins (ctx : Context) (nodeType : String) : MatchTree → Prop
  | leaf {l : Leaf} (hm : l.Made ctx) (hv : l.polarity.verifies = false)
      (hj : l.joinable = true) (hn : l.nodeType = nodeType) : Joins ctx nodeType (.leaf l)
  | group {j : Connective} {children : List MatchTree} (hlen : 2 ≤ children.length)
      (hc : ∀ t ∈ children, Joins ctx nodeType t) :
      Joins ctx nodeType (.group j nodeType children)

/-- Whether a tree holds groups of trees that may stand in their join. -/
inductive Grouped (ctx : Context) : MatchTree → Prop
  | leaf {l : Leaf} (hm : l.Made ctx) (hv : l.polarity.verifies = false) : Grouped ctx (.leaf l)
  | combined {j : Connective} {children : List MatchTree} (hlen : 2 ≤ children.length)
      (h : ∀ t ∈ children, Grouped ctx t) : Grouped ctx (.combined j children)
  | group {j : Connective} {nodeType : String} {children : List MatchTree}
      (h : Joins ctx nodeType (.group j nodeType children)) :
      Grouped ctx (.group j nodeType children)

variable {V : Type} {ctx : Context} {w : World V} {nodeType : String}

theorem holds_group (v : Leaf → Bool) (j : Connective) (nodeType : String)
    (children : List MatchTree) :
    (MatchTree.group j nodeType children).holds v = j.truth (children.map (holds v)) := by
  rw [holds, holdsEach_eq_map]

end AudienceFilter.MatchTree

namespace AudienceFilter

namespace World

open MatchTree

variable {V : Type} {ctx : Context} {w : World V} {nodeType : String}

theorem holdsTrees_eq_map (ctx : Context) (w : World V) (ts : List MatchTree) :
    w.holdsTrees ctx ts = ts.map (w.holdsTree ctx) := by
  induction ts with
  | nil => rfl
  | cons t ts ih => rw [holdsTrees, ih, List.map_cons]

theorem holdsTree_combined (ctx : Context) (w : World V) (j : Connective)
    (children : List MatchTree) : w.holdsTree ctx (.combined j children) =
      j.truth (children.map (w.holdsTree ctx)) := by
  rw [holdsTree, holdsTrees_eq_map]

theorem holdsTree_group (ctx : Context) (w : World V) (j : Connective) (nodeType : String)
    (children : List MatchTree) : w.holdsTree ctx (.group j nodeType children) =
      (w.documentsOf nodeType).any fun d =>
        (MatchTree.group j nodeType children).holds (w.leafAmong ctx [d]) := by
  rw [holdsTree]
  rfl

/-- A tree without groups is read leaf by leaf. -/
theorem holdsTree_plain {t : MatchTree} (ht : Plain ctx t) :
    w.holdsTree ctx t = t.holds (w.reads ctx fun _ => false) := by
  induction t using memberInduction with
  | leaf l => exact leafAmong_documents l
  | group j nodeType children ih => cases ht
  | combined j children ih =>
    rw [holdsTree_combined, holds_combined]
    exact congrArg j.truth (List.map_congr_left fun t h => ih t h (ht.children t h))

theorem mem_documentsOf {d : Document V} :
    d ∈ w.documentsOf nodeType ↔ d ∈ w.documents ∧ d.nodeType = nodeType := by
  simp [documentsOf]

/-! ## One document -/

theorem required_of_verifies {l : Leaf} (h : l.polarity.verifies = false) :
    required l = l.inDocumentArg?.toList := by
  rw [required, verifiedArgs_eq_nil h, List.nil_append]

theorem any_documentsOf {p : Document V → Bool} (h : ∀ d, p d = true → d.nodeType = nodeType) :
    w.documents.any p = (w.documentsOf nodeType).any p := by
  rw [Bool.eq_iff_iff, List.any_eq_true, List.any_eq_true]
  constructor
  · rintro ⟨d, hd, hp⟩
    exact ⟨d, mem_documentsOf.2 ⟨hd, h d hp⟩, hp⟩
  · rintro ⟨d, hd, hp⟩
    exact ⟨d, (mem_documentsOf.1 hd).1, hp⟩

/-- Only the documents of its node type matter to a leaf. -/
theorem leafAmong_documentsOf {l : Leaf} (hm : l.Made ctx) (hv : l.polarity.verifies = false) :
    w.leafAmong ctx w.documents l = w.leafAmong ctx (w.documentsOf l.nodeType) l := by
  obtain ⟨a, ha, hn, -⟩ := hm.assignment
  have hknows : ∀ d : Document V, ctx.knows d l.arg = true → d.nodeType = l.nodeType :=
    fun d hk => (Context.nodeType_of_knows ha hk).trans hn.symm
  have hfinds : ∀ d, w.finds ctx d l = true → d.nodeType = l.nodeType :=
    fun d hf => hknows d (knows_of_finds hm hf)
  have hrequired : ((required l).all fun arg => w.documents.any fun d => ctx.knows d arg) =
      (required l).all fun arg => (w.documentsOf l.nodeType).any fun d => ctx.knows d arg := by
    rw [required_of_verifies hv]
    cases hr : l.inDocumentArg? with
    | none => rfl
    | some arg =>
      obtain rfl := (Leaf.arg_of_inDocumentArg? hr).1
      simp [any_documentsOf hknows]
  rw [leafAmong, leafAmong, any_documentsOf hfinds, hrequired]

/-- A complement that requires a value holds in one of the documents, if only one of them can
have it. -/
theorem leafAmong_inDocument {l : Leaf} (hw : w.Placed ctx) (hm : l.Made ctx)
    (hv : l.polarity.verifies = false) (ha : l.inDocumentArg? = some l.arg)
    (hd : ctx.isMultiDoc l.arg = .ok false) :
    w.leafAmong ctx (w.documentsOf l.nodeType) l =
      (w.documentsOf l.nodeType).any fun d => w.leafAmong ctx [d] l := by
  obtain ⟨-, hc, -⟩ := Leaf.arg_of_inDocumentArg? ha
  have hlone : ∀ ds : List (Document V), w.leafAmong ctx ds l = true ↔
      (∀ d ∈ ds, w.finds ctx d l = false) ∧ ∃ d ∈ ds, ctx.knows d l.arg = true := by
    intro ds
    simp [leafAmong, hc, required_of_verifies hv, ha]
  rw [Bool.eq_iff_iff, hlone, List.any_eq_true]
  simp only [hlone, List.mem_singleton, forall_eq, exists_eq_left]
  constructor
  · rintro ⟨hall, d, hd, hk⟩
    exact ⟨d, hd, hall d hd, hk⟩
  · rintro ⟨d, hd₁, hf, hk⟩
    refine ⟨fun d' hd₂ => ?_, d, hd₁, hk⟩
    rw [Bool.eq_false_iff]
    intro hf'
    -- A second document with a match would have a value too.
    obtain ⟨hd₁, hn₁⟩ := mem_documentsOf.1 hd₁
    obtain ⟨hd₂, hn₂⟩ := mem_documentsOf.1 hd₂
    obtain rfl := hw.document hd₁ hd₂ (hn₁.trans hn₂.symm) hd hd hk (knows_of_finds hm hf')
    rw [hf] at hf'
    cases hf'

/-- A leaf that may share a join holds if it does in one of the documents. -/
theorem leafAmong_joinable {l : Leaf} (hw : w.Placed ctx) (hm : l.Made ctx)
    (hv : l.polarity.verifies = false) (hj : l.joinable = true) :
    w.leafAmong ctx w.documents l =
      (w.documentsOf l.nodeType).any fun d => w.leafAmong ctx [d] l := by
  rw [leafAmong_documentsOf hm hv]
  rcases hm.joinable hj with hmain | ⟨-, hc | ⟨ha, hd⟩⟩
  · obtain ⟨d, hd⟩ := hw.main
    rw [Context.isMain, beq_iff_eq] at hmain
    rw [← hmain, hd]
    simp
  · simp [leafAmong, hc]
  · exact leafAmong_inDocument hw hm hv ha hd

/-- A tree that may stand in a join holds if it does in one of the documents. -/
theorem holdsTree_joins {t : MatchTree} (hw : w.Placed ctx) (ht : Joins ctx nodeType t) :
    w.holdsTree ctx t =
      (w.documentsOf nodeType).any fun d => t.holds (w.leafAmong ctx [d]) := by
  cases ht with
  | leaf hm hv hj hn =>
    rw [← hn]
    exact leafAmong_joinable hw hm hv hj
  | group hlen hc => exact holdsTree_group ctx w _ nodeType _

/-- A leaf in a join that holds in a document shows that it is the one, by a value. -/
theorem knows_of_leafAmong {l : Leaf} {d : Document V} (hm : l.Made ctx) (hj : l.joinable = true)
    (h : w.leafAmong ctx [d] l = true) :
    ctx.isMain l.nodeType = true ∨ ctx.knows d l.arg = true := by
  refine (hm.joinable hj).imp_right ?_
  rintro ⟨hv, hc | ⟨ha, -⟩⟩
  · exact knows_of_finds hm (show w.finds ctx d l = true by simpa [leafAmong, hc] using h)
  · obtain ⟨-, hc, -⟩ := Leaf.arg_of_inDocumentArg? ha
    simp only [leafAmong, hc, required_of_verifies hv, ha, if_true, Bool.and_eq_true] at h
    simpa using h.2

/-- A tree in a join on arguments with one document shows which one that is. -/
theorem knows_of_holds {t : MatchTree} {d : Document V} (ht : Joins ctx nodeType t)
    (ha : ∀ l ∈ t.leaves, ∀ arg ∈ l.args, ctx.isMultiDoc arg = .ok false)
    (h : t.holds (w.leafAmong ctx [d]) = true) :
    ctx.isMain nodeType = true ∨
      ∃ arg, ctx.isMultiDoc arg = .ok false ∧ ctx.knows d arg = true := by
  induction t using memberInduction with
  | combined j children ih => cases ht
  | leaf l =>
    cases ht with
    | leaf hm hv hj hn =>
      refine hn ▸ (knows_of_leafAmong hm hj h).imp_right fun hk => ⟨l.arg, ?_, hk⟩
      refine ha l (List.mem_singleton_self l) l.arg ?_
      cases l <;> exact List.mem_cons_self
  | group j nodeType children ih =>
    cases ht with
    | group hlen hc =>
      have hne : children ≠ [] := List.ne_nil_of_length_pos (by omega)
      -- Some member holds, in a conjunction any of them.
      have hmember : ∃ t ∈ children, t.holds (w.leafAmong ctx [d]) = true := by
        rw [holds_group] at h
        cases j with
        | and =>
          obtain ⟨t, ht⟩ := List.exists_mem_of_ne_nil children hne
          exact ⟨t, ht, Connective.truth_map_eq_neutral.1 h t ht⟩
        | or => simpa [Connective.truth] using h
      obtain ⟨t, ht, h⟩ := hmember
      refine ih t ht (hc t ht) (fun l hl => ha l ?_) h
      rw [leaves_group]
      exact List.mem_flatMap.2 ⟨t, ht, hl⟩

/-- Members that a tree brings into a group say there what it said. -/
theorem holds_groupMembers {v : Leaf → Bool} {j : Connective} {t : MatchTree} :
    (∀ x ∈ groupMembers j t, x.holds v = j.neutral.truth) ↔ t.holds v = j.neutral.truth := by
  cases t with
  | leaf l => simp [groupMembers]
  | combined i children => simp [groupMembers]
  | group i nodeType children =>
    rw [groupMembers]
    split
    · next hi =>
      subst hi
      rw [holds_group, Connective.truth_map_eq_neutral]
    · simp

/-- Two trees in a join on arguments with one document hold in the same one. -/
theorem document_unique {t t' : MatchTree} {d d' : Document V} (hw : w.Placed ctx)
    (ht : Joins ctx nodeType t) (ht' : Joins ctx nodeType t')
    (ha : ∀ l ∈ t.leaves, ∀ arg ∈ l.args, ctx.isMultiDoc arg = .ok false)
    (ha' : ∀ l ∈ t'.leaves, ∀ arg ∈ l.args, ctx.isMultiDoc arg = .ok false)
    (hd : d ∈ w.documentsOf nodeType) (hd' : d' ∈ w.documentsOf nodeType)
    (h : t.holds (w.leafAmong ctx [d]) = true) (h' : t'.holds (w.leafAmong ctx [d']) = true) :
    d = d' := by
  by_cases hm : ctx.isMain nodeType = true
  · obtain ⟨m, hmain⟩ := hw.main
    rw [Context.isMain, beq_iff_eq] at hm
    rw [← hm, hmain, List.mem_singleton] at hd hd'
    rw [hd, hd']
  · obtain ⟨arg, hma, hk⟩ := (knows_of_holds ht ha h).resolve_left hm
    obtain ⟨arg', hma', hk'⟩ := (knows_of_holds ht' ha' h').resolve_left hm
    obtain ⟨hd₁, hn₁⟩ := mem_documentsOf.1 hd
    obtain ⟨hd₂, hn₂⟩ := mem_documentsOf.1 hd'
    exact hw.document hd₁ hd₂ (hn₁.trans hn₂.symm) hma hma' hk hk'

/-- A group says what its trees said outside. -/
theorem holdsTree_groupMembers {j : Connective} {trees : List MatchTree} (hw : w.Placed ctx)
    (hne : trees ≠ []) (ht : ∀ t ∈ trees, Joins ctx nodeType t)
    (ha : j = .and → ∀ t ∈ trees, ∀ l ∈ t.leaves, ∀ arg ∈ l.args,
      ctx.isMultiDoc arg = .ok false) :
    w.holdsTree ctx (.group j nodeType (trees.flatMap (groupMembers j))) = j.neutral.truth ↔
      ∀ t ∈ trees, w.holdsTree ctx t = j.neutral.truth := by
  have hdoc : ∀ d, (MatchTree.group j nodeType (trees.flatMap (groupMembers j))).holds
      (w.leafAmong ctx [d]) = j.neutral.truth ↔
        ∀ t ∈ trees, t.holds (w.leafAmong ctx [d]) = j.neutral.truth := by
    intro d
    rw [holds_group, Connective.truth_map_eq_neutral]
    simp only [List.mem_flatMap, forall_exists_index, and_imp]
    constructor
    · intro h t ht
      exact holds_groupMembers.1 fun x hx => h x t ht hx
    · intro h x t ht hx
      exact holds_groupMembers.2 (h t ht) x hx
  have hjoins : ∀ t ∈ trees, w.holdsTree ctx t =
      (w.documentsOf nodeType).any fun d => t.holds (w.leafAmong ctx [d]) :=
    fun t h => holdsTree_joins hw (ht t h)
  rw [holdsTree_group]
  cases j with
  | or =>
    simp only [Connective.neutral, Extent.truth] at hdoc ⊢
    simp only [List.any_eq_false, Bool.not_eq_true]
    constructor
    · intro h t ht
      simp only [hjoins t ht, List.any_eq_false, Bool.not_eq_true]
      exact fun d hd => (hdoc d).1 (h d hd) t ht
    · intro h d hd
      refine (hdoc d).2 fun t ht => ?_
      have := h t ht
      simp only [hjoins t ht, List.any_eq_false, Bool.not_eq_true] at this
      exact this d hd
  | and =>
    simp only [Connective.neutral, Extent.truth] at hdoc ⊢
    rw [List.any_eq_true]
    constructor
    · rintro ⟨d, hd, h⟩ t ht
      rw [hjoins t ht, List.any_eq_true]
      exact ⟨d, hd, (hdoc d).1 h t ht⟩
    · intro h
      have hin : ∀ t ∈ trees, ∃ d ∈ w.documentsOf nodeType,
          t.holds (w.leafAmong ctx [d]) = true := by
        intro t ht
        have := h t ht
        rwa [hjoins t ht, List.any_eq_true] at this
      obtain ⟨t₀, ht₀⟩ := List.exists_mem_of_ne_nil trees hne
      obtain ⟨d, hd, h₀⟩ := hin t₀ ht₀
      refine ⟨d, hd, (hdoc d).2 fun t htt => ?_⟩
      -- Every other tree holds in this document too, since there is no second one.
      obtain ⟨d', hd', h'⟩ := hin t htt
      rwa [document_unique hw (ht t₀ ht₀) (ht t htt) (ha rfl t₀ ht₀) (ha rfl t htt) hd hd' h₀ h']

end World

namespace MatchTree

variable {ctx : Context} {nodeType : String}

theorem anyMultiDoc_eq_ok {args : List String} (h : anyMultiDoc ctx args = .ok false) :
    ∀ arg ∈ args, ctx.isMultiDoc arg = .ok false := by
  induction args with
  | nil => exact fun _ ha => absurd ha List.not_mem_nil
  | cons arg rest ih =>
    obtain ⟨b, hb, h⟩ := bind_eq_ok.1 h
    cases b with
    | true => cases h
    | false =>
      intro a ha
      rcases List.mem_cons.1 ha with rfl | ha
      · exact hb
      · exact ih h a ha

/-- A tree with a key has its node type, and under a conjunction its arguments have one document
each. -/
theorem groupKey?_eq_some {j : Connective} {t : MatchTree}
    (h : groupKey? ctx j t = .ok (some nodeType)) :
    joinNodeType? t = some nodeType ∧ (j = .and → ∀ l ∈ t.leaves, ∀ arg ∈ l.args,
      ctx.isMultiDoc arg = .ok false) := by
  unfold groupKey? at h
  split at h
  · cases h
  · next n hn =>
    split at h
    · cases h
      exact ⟨hn, nofun⟩
    · obtain ⟨multiDoc, hmd, h⟩ := map_eq_ok.1 h
      split at h
      · cases h
      · next hfalse =>
        cases h
        rw [Bool.not_eq_true] at hfalse
        rw [hfalse] at hmd
        refine ⟨hn, fun _ l hl arg ha => anyMultiDoc_eq_ok hmd arg ?_⟩
        exact Distinct.mem_ofList.2 (List.mem_flatMap.2 ⟨l, hl, ha⟩)

theorem joins_of_grouped {t : MatchTree} (ht : Grouped ctx t)
    (h : joinNodeType? t = some nodeType) : Joins ctx nodeType t := by
  cases ht with
  | leaf hm hv =>
    rw [joinNodeType?] at h
    simp only [Option.ite_none_right_eq_some, Option.some.injEq] at h
    exact .leaf hm hv h.1 h.2
  | combined hlen hc => cases h
  | group hg => exact Option.some.inj h ▸ hg

/-- A tree with a key may stand in the join, and under a conjunction its arguments have one
document each. -/
theorem groupKey?_eq_ok {j : Connective} {t : MatchTree} (ht : Grouped ctx t)
    (h : groupKey? ctx j t = .ok (some nodeType)) :
    Joins ctx nodeType t ∧ (j = .and → ∀ l ∈ t.leaves, ∀ arg ∈ l.args,
      ctx.isMultiDoc arg = .ok false) :=
  (groupKey?_eq_some h).imp_left (joins_of_grouped ht)

theorem joins_groupMembers {j : Connective} {t : MatchTree} (ht : Joins ctx nodeType t) :
    ∀ x ∈ groupMembers j t, Joins ctx nodeType x := by
  cases ht with
  | leaf hm hv hj hn => simpa [groupMembers] using .leaf hm hv hj hn
  | @group i children hlen hc =>
    rw [groupMembers]
    split
    · exact hc
    · simpa using .group hlen hc

theorem groupTrees_eq_ok {j : Connective} {trees : List MatchTree} {g : MatchTree}
    (h : groupTrees j nodeType trees = .ok (some g)) :
    2 ≤ trees.length ∧ 2 ≤ (trees.flatMap (groupMembers j)).length ∧
      g = .group j nodeType (trees.flatMap (groupMembers j)) := by
  unfold groupTrees at h
  split at h
  · obtain ⟨t, ht, h⟩ := map_eq_ok.1 h
    obtain ⟨hlen, -, rfl⟩ := makeGroup_eq_ok.1 (liftFault_eq_ok.1 ht)
    exact ⟨Nat.le_add_left 2 _, hlen, (Option.some.inj h).symm⟩
  · cases h

/-- Grouping one level gives a grouped tree and keeps the truth. -/
theorem holdsTree_groupLevel {j : Connective} {children : List MatchTree} {r : MatchTree}
    (hc : ∀ t ∈ children, Grouped ctx t) (h : groupLevel ctx j children = .ok r) :
    Grouped ctx r ∧ ∀ {V : Type} (w : World V), w.Fits ctx →
      w.holdsTree ctx r = j.truth (children.map (w.holdsTree ctx)) := by
  obtain ⟨keyed, hkeyed, h⟩ := bind_eq_ok.1 h
  obtain ⟨members, hmerge, h⟩ := bind_eq_ok.1 h
  have hkey := Classes.mem_keyed hkeyed
  -- The trees of one class fit in one join.
  have hclass : ∀ n, ∀ t ∈ Classes.members keyed n, Joins ctx n t ∧
      (j = .and → ∀ l ∈ t.leaves, ∀ arg ∈ l.args, ctx.isMultiDoc arg = .ok false) := by
    intro n t ht
    obtain ⟨hm, hk⟩ := hkey _ (Classes.mem_members.1 ht)
    exact groupKey?_eq_ok (hc t hm) (liftError_eq_ok.1 hk)
  have hgrouped : ∀ t ∈ members, Grouped ctx t := by
    intro t ht
    rcases Classes.mem_merge hmerge ht with ⟨p, hp, rfl⟩ | ⟨n, hn⟩
    · exact hc _ (hkey p hp).1
    · obtain ⟨-, hlen, rfl⟩ := groupTrees_eq_ok hn
      refine .group (.group hlen fun x hx => ?_)
      obtain ⟨t, ht, hx⟩ := List.mem_flatMap.1 hx
      exact joins_groupMembers (hclass n t ht).1 x hx
  have htruth : ∀ {V : Type} (w : World V), w.Fits ctx →
      j.truth (members.map (w.holdsTree ctx)) = j.truth (children.map (w.holdsTree ctx)) := by
    intro V w hw
    refine Connective.eq_of_neutral_iff j ?_
    rw [Connective.truth_map_eq_neutral, Connective.truth_map_eq_neutral,
      Classes.forall_merge hmerge]
    · exact Classes.forall_keyed (P := (w.holdsTree ctx · = j.neutral.truth)) hkeyed
    · intro n g hg
      obtain ⟨hlen, -, rfl⟩ := groupTrees_eq_ok hg
      have hne := List.ne_nil_of_length_pos (Nat.lt_of_lt_of_le Nat.two_pos hlen)
      exact World.holdsTree_groupMembers hw.toPlaced hne (fun t ht => (hclass n t ht).1)
        fun hj t ht => (hclass n t ht).2 hj
  rcases joined_eq_ok.1 (liftFault_eq_ok.1 h) with rfl | ⟨hlen, rfl⟩
  · refine ⟨hgrouped r (List.mem_singleton_self r), fun w hw => ?_⟩
    rw [← htruth w hw]
    cases j <;> simp [Connective.truth]
  · refine ⟨.combined hlen hgrouped, fun w hw => ?_⟩
    rw [World.holdsTree_combined, htruth w hw]

theorem groupedAll_eq_mapM (ts : List MatchTree) : groupedAll ctx ts = ts.mapM (grouped ctx) := by
  induction ts with
  | nil => rfl
  | cons t ts ih => rw [groupedAll, ih, List.mapM_cons]

/-- Grouping gives a grouped tree and keeps the truth. -/
theorem holdsTree_grouped {t r : MatchTree} (ht : Plain ctx t) (h : grouped ctx t = .ok r) :
    Grouped ctx r ∧ ∀ {V : Type} (w : World V), w.Fits ctx →
      w.holdsTree ctx r = w.holdsTree ctx t := by
  induction t using memberInduction generalizing r with
  | group j nodeType children ih => cases ht
  | leaf l =>
    cases h
    cases ht with
    | leaf hm hv => exact ⟨.leaf hm hv, fun w _ => rfl⟩
  | combined j children ih =>
    rw [grouped] at h
    obtain ⟨cs, hcs, h⟩ := bind_eq_ok.1 h
    rw [groupedAll_eq_mapM] at hcs
    have hgrouped : ∀ c ∈ cs, Grouped ctx c := by
      intro c hc
      obtain ⟨t, ht', h'⟩ := mem_of_mapM_eq_ok hcs hc
      exact (ih t ht' (ht.children t ht') h').1
    obtain ⟨hr, htruth⟩ := holdsTree_groupLevel hgrouped h
    refine ⟨hr, fun w hw => ?_⟩
    rw [htruth w hw, World.holdsTree_combined]
    refine congrArg j.truth (map_of_mapM_eq_ok hcs fun t ht' r' h' => ?_)
    exact (ih t ht' (ht.children t ht') h').2 w hw

end MatchTree

end AudienceFilter
