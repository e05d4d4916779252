import AudienceFilter.Proofs.ScriptMeaning
import AudienceFilter.Proofs.TreeMeaning

/-!
# Filter queries mean what match trees do

A tree is written into several filter queries, which a main document has to pass all.

* `holdsTree_parts`: the trees that get a filter query each hold together if the tree does;
* `filterQueries_read`: the scripts of a grouped tree have readings, so that no level mixes
  connectives, and these hold together if the tree does.
-/

namespace AudienceFilter

open MatchTree (Joins Grouped)

variable {ctx : Context}

theorem MatchTree.Joins.grouped {nodeType : String} {t : MatchTree} (h : Joins ctx nodeType t) :
    Grouped ctx t := by
  cases h with
  | leaf hm hv hj hn => exact .leaf hm hv
  | group hlen hc => exact .group (.group hlen hc)

namespace Script

theorem grouped_mainConjuncts {t : MatchTree} (ht : Grouped ctx t) :
    ∀ c ∈ mainConjuncts ctx t, Grouped ctx c := by
  unfold mainConjuncts
  split
  · split
    · cases ht with
      | group h =>
        cases h with
        | group hlen hc => exact fun c hm => (hc c hm).grouped
    · simpa using ht
  · simpa using ht

/-- A conjunction on the main documents holds if its members do. -/
theorem holdsTree_mainConjuncts {t : MatchTree} {V : Type} {w : World V} (ht : Grouped ctx t)
    (hw : w.Placed ctx) : (mainConjuncts ctx t).all (w.holdsTree ctx) = w.holdsTree ctx t := by
  unfold mainConjuncts
  split
  · next nodeType children =>
    split
    · next hn =>
      rw [Context.isMain, beq_iff_eq] at hn
      subst hn
      cases ht with
      | group h =>
        obtain ⟨d, hd⟩ := hw.main
        have hd : d ∈ w.documentsOf ctx.mainType := hd ▸ List.mem_singleton_self d
        rw [← holdsTree_main hw hd h, MatchTree.holds_group]
        cases h with
        | group hlen hc =>
          rw [List.map_congr_left fun c hm => holdsTree_main hw hd (hc c hm)]
          simp [Connective.truth]
    · simp
  · simp

theorem grouped_parts {t : MatchTree} (ht : Grouped ctx t) : ∀ c ∈ parts ctx t, Grouped ctx c := by
  unfold parts
  split
  · cases ht with
    | combined hlen h =>
      intro c hc
      obtain ⟨x, hx, hc⟩ := List.mem_flatMap.1 hc
      exact grouped_mainConjuncts (h x hx) c hc
  · exact grouped_mainConjuncts ht

/-- The trees that get a filter query each hold together if the tree does. -/
theorem holdsTree_parts {t : MatchTree} {V : Type} {w : World V} (ht : Grouped ctx t)
    (hw : w.Placed ctx) : (parts ctx t).all (w.holdsTree ctx) = w.holdsTree ctx t := by
  unfold parts
  split
  · next children =>
    cases ht with
    | combined hlen h =>
      rw [World.holdsTree_combined, Connective.truth, List.all_map, List.all_flatMap,
        Bool.eq_iff_iff, List.all_eq_true, List.all_eq_true]
      refine forall_congr' fun x => forall_congr' fun hx => ?_
      rw [holdsTree_mainConjuncts (h x hx) hw]
      rfl
  · exact holdsTree_mainConjuncts ht hw

theorem succeeds_of_run {b b' : Builder} {steps : List Step} (h : b.run steps = .ok b') :
    Succeeds steps := by
  induction steps generalizing b with
  | nil => exact fun f hf => absurd hf List.not_mem_nil
  | cons s steps ih =>
    cases s with
    | fail f => cases h
    | call c =>
      obtain ⟨b₁, -, h⟩ := bind_eq_ok.1 h
      exact succeeds_cons_call.2 (ih h)

theorem succeeds_of_runAll {b : Builder} {scripts : List (List Step)} {qs : List FilterQuery}
    (h : b.runAll scripts = .ok qs) :
    qs.length = scripts.length ∧ ∀ steps ∈ scripts, Succeeds steps := by
  induction scripts generalizing b qs with
  | nil =>
    cases h
    exact ⟨rfl, fun _ hm => absurd hm List.not_mem_nil⟩
  | cons steps scripts ih =>
    obtain ⟨b₁, hb, h⟩ := bind_eq_ok.1 h
    obtain ⟨⟨q, b₂⟩, -, h⟩ := bind_eq_ok.1 h
    obtain ⟨qs', hqs, h⟩ := bind_eq_ok.1 h
    obtain rfl := pure_eq_ok.1 h
    obtain ⟨hlen, hall⟩ := ih hqs
    exact ⟨by simp [hlen], List.forall_mem_cons.2 ⟨succeeds_of_run hb, hall⟩⟩

/-- Queries with their formulas. -/
theorem exists_formulas {ts : List MatchTree} (hctx : ctx.Checked) (ht : ∀ t ∈ ts, Grouped ctx t)
    (hs : ∀ t ∈ ts, Succeeds (ofTree ctx ctx.mainType true t)) :
    ∃ fs : List (Formula (Labelled ctx)),
      (ts.map (ofTree ctx ctx.mainType true)).map read? =
        fs.map (fun φ => some (φ.map Labelled.term)) ∧
      ∀ (V : Type) (w : World V), w.Placed ctx → ∀ d ∈ w.documentsOf ctx.mainType,
        fs.map (w.holdsFormula ctx d) = ts.map (w.holdsTree ctx) := by
  induction ts with
  | nil => exact ⟨[], rfl, fun _ _ _ _ _ => rfl⟩
  | cons t ts ih =>
    rw [List.forall_mem_cons] at ht hs
    obtain ⟨φ, hφ, htruth⟩ := asks_grouped hctx ht.1
    obtain ⟨fs, hread, hall⟩ := ih ht.2 hs.2
    refine ⟨φ :: fs, ?_, fun V w hw d hd => ?_⟩
    · rw [List.map_cons, List.map_cons, hread, read?_of_query hφ hs.1, List.map_cons]
    · rw [List.map_cons, List.map_cons, htruth hs.1 V w hw d hd, hall V w hw d hd]

end Script

theorem grouped_groupedTree {e : Expression} {t : MatchTree} (ht : ctx.groupedTree e = .ok t) :
    Grouped ctx t := by
  obtain ⟨built, hb, ht⟩ := bind_eq_ok.1 ht
  obtain ⟨consolidated, hc, hg⟩ := bind_eq_ok.1 ht
  obtain ⟨hplain, hnone⟩ := MatchTree.plain_build hb (Expression.covered_guarded e)
  exact (MatchTree.holdsTree_grouped (MatchTree.holds_consolidated hplain hnone hc).1 hg).1

/-- The scripts of a grouped tree are read as formulas, one for each filter query, which are all
true of a main document exactly if the tree holds. -/
theorem filterQueries_read {d : Draft} {cat : Catalog} {e : Expression} {t : MatchTree}
    {qs : List FilterQuery} (hb : d.build = .ok cat) (hm : ctx.mapping = cat.toMapping)
    (ht : ctx.groupedTree e = .ok t) (hq : t.filterQueries ctx = .ok qs) :
    ∃ fs : List (Formula (Labelled ctx)), qs.length = fs.length ∧
      (Script.ofRoot ctx t).map Script.read? = fs.map (fun φ => some (φ.map Labelled.term)) ∧
      ∀ (V : Type) (w : World V), w.Placed ctx → ∀ d ∈ w.documentsOf ctx.mainType,
        fs.all (w.holdsFormula ctx d) = w.holdsTree ctx t := by
  have hgrouped := grouped_groupedTree ht
  obtain ⟨b, -, hrun⟩ := bind_eq_ok.1 hq
  obtain ⟨hlen, hs⟩ := Script.succeeds_of_runAll hrun
  obtain ⟨fs, hread, hall⟩ := Script.exists_formulas (Draft.checked hb hm)
    (Script.grouped_parts hgrouped) (List.forall_mem_map.1 hs)
  refine ⟨fs, ?_, hread, fun V w hw d hd => ?_⟩
  · have := congrArg List.length hread
    simp only [List.length_map] at this
    rw [hlen, Script.ofRoot, List.length_map, this]
  · rw [← Script.holdsTree_parts hgrouped hw]
    simpa [List.all_map] using congrArg (fun bs => bs.all id) (hall V w hw d hd)

/-- A strict negation about nested documents, whose guard needs a brace of its own. -/
def Expression.outOfTown : Expression :=
  .combined .or [.negation true (.withOperator "city" .equals "Rome"),
    .condition (.withOperator "name" .equals "Ada")]

theorem filterQueries_read_outOfTown :
    Draft.people.build = .ok Catalog.people ∧
      Context.people.mapping = Catalog.people.toMapping ∧
      ∃ (t : MatchTree) (qs : List FilterQuery) (fs : List (Formula (Labelled .people))),
        Context.people.groupedTree Expression.outOfTown = .ok t ∧
        t.filterQueries .people = .ok qs ∧ qs.length = fs.length ∧
        (Script.ofRoot .people t).map Script.read? =
          fs.map (fun φ => some (φ.map Labelled.term)) ∧
        ∀ d ∈ World.person.documentsOf "person",
          fs.all (World.person.holdsFormula .people d) = World.person.holdsTree .people t := by
  have hok : (Context.people.groupedTree Expression.outOfTown >>= fun t =>
      t.filterQueries .people).isOk = true := by
    decide +kernel
  obtain ⟨qs, hqs⟩ := exists_of_isOk hok
  obtain ⟨t, ht, hq⟩ := bind_eq_ok.1 hqs
  obtain ⟨fs, hlen, hread, hall⟩ := filterQueries_read (d := Draft.people) rfl rfl ht hq
  exact ⟨rfl, rfl, t, qs, fs, ht, hq, hlen, hread,
    hall String World.person World.person_fits.toPlaced⟩

end AudienceFilter
