import DependentWatch.Proofs.Manifest.Reading
import DependentWatch.Proofs.Registration.Reports
/-! A list is the same as its items in its place, as documents of their own: for the manifest, and
for the registrations of its owners. With a bad item there is nothing of it. -/
namespace DependentWatch
open Yaml (Value)

namespace Manifest
open DocumentResult

/-- An item that is a resource, without a tag, is the same resource as a document. -/
theorem unplaced_item {v : Value} {entries : List (Value × Value)} (hv : v = .mapping entries)
    (h : isResource v = true) :
    ∃ r, item 0 v = .ok r ∧ ∀ index, (ofDocuments index [some v]).unplaced = ⟨[r], none⟩ := by
  subst hv
  simp only [isResource, Value.untagged, Bool.and_eq_true, Bool.not_eq_true'] at h
  obtain ⟨hl, hr⟩ := h
  obtain ⟨fault, hf⟩ | ⟨r, hr⟩ := Resource.ofEntries_cases entries
  · simp [hf, Except.isOk, Except.toBool] at hr
  · refine ⟨{ r with index := 0 }, ?_, fun index => ?_⟩
    · simp [item, Value.untagged, hl, hr]
    · simp [ofDocuments, DocumentResult.resources, hl, hr, Except.map, unplaced,
        Resource.unplaced]

theorem unplaced_items {items : List Value}
    (h : ∀ v ∈ items, isResource v = true ∧ ∃ entries, v = .mapping entries) :
    ∃ rs, items.mapM (item 0) = .ok rs ∧
      ∀ index, (ofDocuments index (items.map some)).unplaced = ⟨rs, none⟩ := by
  induction items with
  | nil => exact ⟨[], rfl, fun _ => rfl⟩
  | cons v items ih =>
    obtain ⟨hv, entries, he⟩ := h v List.mem_cons_self
    obtain ⟨r, hr, hd⟩ := unplaced_item he hv
    obtain ⟨rs, hrs, hds⟩ := ih fun x hx => h x (List.mem_cons_of_mem v hx)
    refine ⟨r :: rs, by simp [List.mapM_cons, hr, hrs, bind, Except.bind, pure, Except.pure],
      fun index => ?_⟩
    rw [List.map_cons, ofDocuments_cons, unplaced_append, hd, hds]
    rfl

theorem unplaced_list {entries : List (Value × Value)} {items : List Value}
    (hl : isList entries = true) (hi : valueAt? "items" entries = some (.sequence items))
    (h : ∀ v ∈ items, isResource v = true ∧ ∃ entries, v = .mapping entries) (i j : Nat) :
    (ofDocuments i [some (.mapping entries)]).unplaced =
      (ofDocuments j (items.map some)).unplaced := by
  obtain ⟨rs, hrs, hds⟩ := unplaced_items h
  rw [hds, unplaced_ofDocuments]
  have hz : rs.map Resource.unplaced = rs := by
    have := mapM_unplacedBy (item_unplaced 0) items
    rw [hrs] at this
    exact Except.ok.inj this
  simp [ofDocuments, DocumentResult.resources, hl, DocumentResult.items, hi, hrs, unplaced, hz]

/-- Up to the places, the items of a list may stand in its place. -/
theorem unplaced_expand {entries : List (Value × Value)} {items : List Value}
    (hl : isList entries = true) (hi : valueAt? "items" entries = some (.sequence items))
    (h : ∀ v ∈ items, isResource v = true ∧ ∃ entries, v = .mapping entries)
    (before after : List DocumentResult) :
    (ofDocuments 0 (before ++ items.map some ++ after)).unplaced =
      (ofDocuments 0 (before ++ some (.mapping entries) :: after)).unplaced := by
  rw [List.append_assoc, ofDocuments_append 0 before, ofDocuments_append 0 before,
    ofDocuments_append _ (items.map some), ofDocuments_cons _ (some (.mapping entries))]
  simp only [unplaced_append]
  rw [← unplaced_list hl hi h (0 + before.length), unplaced_ofDocuments _ after,
    unplaced_ofDocuments (0 + before.length + 1) after]

end Manifest

/-! A registration sees nothing of the places but in errors. -/

theorem WatchError.unplaced_unplaced (e : WatchError) : e.unplaced.unplaced = e.unplaced := by
  cases e <;> rfl

/-- The outcome with a result whose error names no place. -/
def Outcome.unplaced {σ : Type} (o : Outcome σ) : Outcome σ :=
  { o with result := unplacedBy id o.result }

theorem Outcome.unplaced_after {σ : Type} (queries : List Query) (o : Outcome σ) :
    (o.after queries).unplaced = o.unplaced.after queries := rfl

/-- The report with a result whose error names no place. -/
def Report.unplaced (r : Report) : Report := { r with result := r.result.map (unplacedBy id) }

namespace Registration
variable {σ : Type}

def unplaced (g : Registration) : Registration := { g with manifest := g.manifest.unplaced }

theorem outcome_unplaced (b : Backend σ) (g : Registration) (world : σ) (set : KindSet)
    (rs : List Resource) :
    (g.outcome b world set rs).unplaced =
      (g.unplaced.outcome b world set (rs.map .unplaced)).unplaced := by
  induction rs generalizing world set with
  | nil =>
    simp only [List.map_nil, outcome, unplaced, Manifest.unplaced]
    cases g.manifest.error with
    | none => rfl
    | some e =>
      simp only [Option.map_some, Outcome.unplaced, unplacedBy, WatchError.unplaced_unplaced]
  | cons r rest ih =>
    rw [List.map_cons]
    by_cases h : r.gvk ∈ set
    · rw [outcome, if_pos h, outcome, Resource.gvk_unplaced, if_pos h, ih]
    · have h' : r.unplaced.gvk ∉ set := h
      have ho : g.unplaced.owner = g.owner := rfl
      rw [g.outcome_cons b h, g.unplaced.outcome_cons b h', fromOwner, fromOwner, ho]
      cases b.scope world g.owner with
      | mk answer world =>
      cases answer with
      | error e => rfl
      | ok owner =>
      simp only [fromDependent, Resource.gvk_unplaced]
      cases b.scope world r.gvk with
      | mk answer world =>
      cases answer with
      | error e => rfl
      | ok dependent =>
      -- Both registrations are about to make the same subscription.
      have hs : g.unplaced.subscription owner dependent r.unplaced =
          g.subscription owner dependent r := rfl
      simp only [fromCall, fromAnswer, hs]
      cases b.answer _ (g.subscription owner dependent r) with
      | mk answer world =>
      cases answer with
      | error e => rfl
      | ok u =>
        simp only [Outcome.unplaced_after]
        rw [ih]

/-- Registrations that differ in places only come to the same outcome, up to the places. -/
theorem outcome_congr (b : Backend σ) {g g' : Registration} (h : g.unplaced = g'.unplaced)
    (world : σ) (set : KindSet) :
    (g.outcome b world set g.manifest.resources).unplaced =
      (g'.outcome b world set g'.manifest.resources).unplaced := by
  have hr (x : Registration) : x.manifest.resources.map .unplaced = x.unplaced.manifest.resources :=
    rfl
  rw [outcome_unplaced, outcome_unplaced b g', hr, hr, h]

end Registration

namespace Registrar
variable {σ : Type}

theorem report_congr (b : Backend σ) (atOnce : Bool) (g : Registrar σ) {task task' : Registration}
    (free : task.owner ∉ g.busy) (h : task.unplaced = task'.unplaced) :
    (g.report b atOnce task).1.result.isSome ∧
    (g.report b atOnce task).1.unplaced = (g.report b atOnce task').1.unplaced ∧
    (g.report b atOnce task).2.world = (g.report b atOnce task').2.world ∧
    ∀ o, (g.report b atOnce task).2.set o = (g.report b atOnce task').2.set o := by
  have hown : task.owner = task'.owner := congrArg (·.owner) h
  have ho := Registration.outcome_congr b.noting h (g.world, []) (g.set task.owner)
  obtain ⟨hr, hw, hset, _⟩ := g.report_eq b atOnce free
  obtain ⟨hr', hw', hset', _⟩ := g.report_eq b atOnce (hown ▸ free)
  rw [← hown] at hr' hw' hset'
  have hworld := congrArg Outcome.world ho
  refine ⟨?_, ?_, ?_, fun o => ?_⟩
  · rw [hr]
    rfl
  · rw [hr, hr']
    have hres := congrArg Outcome.result ho
    have hq := congrArg Outcome.queries ho
    simp only [Outcome.unplaced] at hres hq hworld
    simp only [Report.unplaced, Option.map_some, hres, hq, hworld]
  · rw [hw, hw']
    exact congrArg Prod.fst hworld
  · rw [hset, hset']
    have hs := congrArg Outcome.set ho
    simp only [Outcome.unplaced] at hs
    rw [hs]

end Registrar

namespace Manifest
open DocumentResult

/-- A list stands for its items. Where each of them is a resource without a tag, the manifest is
the same, up to the places, with the items in the place of the list as documents of their own, and
so is each registration: it asks for the same, makes the same subscriptions, leaves the same kinds
registered and has the same result, up to the place. Otherwise there is nothing of the list and of
what comes after it, and all that comes before: where none of that has a fault, the resources are
what those documents stand for, and the error is that of the first bad item, at the place of the
list. -/
theorem list_stands_for_items (before after : List DocumentResult)
    {entries : List (Value × Value)} {items : List Value} (list : isList entries = true)
    (hi : valueAt? "items" entries = some (.sequence items)) :
    let whole := ofDocuments 0 (before ++ some (.mapping entries) :: after)
    let apart := ofDocuments 0 (before ++ items.map some ++ after)
    ((∀ v ∈ items, isResource v = true ∧ ∃ fields, v = .mapping fields) →
      whole.unplaced = apart.unplaced ∧
      ∀ (σ : Type) (b : Backend σ) atOnce (g : Registrar σ) owner filters, owner ∉ g.busy →
        let inWhole := g.report b atOnce ⟨owner, filters, whole⟩
        let inParts := g.report b atOnce ⟨owner, filters, apart⟩
        inWhole.1.result.isSome ∧ inWhole.1.unplaced = inParts.1.unplaced ∧
          inWhole.2.world = inParts.2.world ∧ ∀ o, inWhole.2.set o = inParts.2.set o) ∧
    ∀ v, items.find? (!isResource ·) = some v →
      ∃ e, ItemFault before.length v e ∧
        whole = ⟨(ofDocuments 0 before).resources, (ofDocuments 0 before).error.or (some e)⟩ ∧
        (Faultless 0 before → ∃ rss, Delivers 0 before rss ∧ whole = ⟨rss.flatten, some e⟩) := by
  intro whole apart
  constructor
  · intro h
    have hw : whole.unplaced = apart.unplaced := (unplaced_expand list hi h before after).symm
    refine ⟨hw, fun σ b atOnce g owner filters free => ?_⟩
    exact g.report_congr b atOnce free (congrArg (Registration.mk owner filters) hw)
  · intro v hv
    obtain ⟨e, _, hitem⟩ := mapM_item_error before.length hv
    have hfault : Fault before.length (some (.mapping entries)) e := .item list hi hv hitem
    refine ⟨e, hitem, ofDocuments_of_error (resources_eq_error_iff.2 hfault), fun h => ?_⟩
    obtain ⟨rss, hrss⟩ := exists_delivers h
    exact ⟨rss, hrss, ofDocuments_of_fault hrss hfault after⟩

/-- A list of two resources behind one of its own and an empty document, and before a text. With a
list among the items it is refused, and the resource before it stays. -/
theorem list_stands_for_items_two :
    let bare (kind : String) : Value :=
      .mapping [(.str "apiVersion", .str "v1"), (.str "kind", .str kind)]
    let list (items : List Value) := [(.str "kind", .str "List"), (.str "items", .sequence items)]
    let good := [bare "ConfigMap", bare "Namespace"]
    let bad := [bare "ConfigMap", bare "List", .str "text"]
    let before : List DocumentResult := [some (bare "Secret"), some .null]
    let after : List DocumentResult := [some (.str "text")]
    let whole (items : List Value) := ofDocuments 0 (before ++ some (.mapping (list items)) :: after)
    let apart := ofDocuments 0 (before ++ good.map some ++ after)
    let secret : Resource := ⟨0, ⟨"", "v1", "Secret"⟩, none, none, .empty⟩
    let g : Registrar (ScopeTable × Recorder) := .start (.builtins, .empty)
    let owner : GroupVersionKind := ⟨"apps", "v1", "Deployment"⟩
    (isList (list good) = true ∧ valueAt? "items" (list good) = some (.sequence good) ∧
      (∀ v ∈ good, isResource v = true ∧ ∃ fields, v = .mapping fields) ∧ owner ∉ g.busy) ∧
    (whole good).unplaced = apart.unplaced ∧
    (g.report Backend.recording false ⟨owner, [], whole good⟩).1.unplaced =
      (g.report Backend.recording false ⟨owner, [], apart⟩).1.unplaced ∧
    bad.find? (!isResource ·) = some (bare "List") ∧ Faultless 0 before ∧
    ∃ e, ItemFault 2 (bare "List") e ∧ whole bad = ⟨[secret], some e⟩ := by
  intro bare list good bad before after whole apart secret g owner
  have hl (items : List Value) : isList (list items) = true := rfl
  have hi (items : List Value) : valueAt? "items" (list items) = some (.sequence items) := rfl
  have hgood : ∀ v ∈ good, isResource v = true ∧ ∃ fields, v = .mapping fields := by
    intro v hv
    obtain rfl | rfl : v = bare "ConfigMap" ∨ v = bare "Namespace" := by simpa [good] using hv
    · exact ⟨by rfl, _, rfl⟩
    · exact ⟨by rfl, _, rfl⟩
  have free : owner ∉ g.busy := List.not_mem_nil
  have hfirst : bad.find? (!isResource ·) = some (bare "List") := rfl
  have hsecret : StandsFor 0 (some (bare "Secret")) [secret] := resources_eq_ok_iff.1 rfl
  have faultless : Faultless 0 before :=
    faultless_cons.2 ⟨hsecret.not_fault,
      faultless_cons.2 ⟨StandsFor.nothing.not_fault, faultless_nil⟩⟩
  obtain ⟨hsame, hreport⟩ := (list_stands_for_items before after (hl good) (hi good)).1 hgood
  obtain ⟨e, hitem, _, hdelivered⟩ :=
    (list_stands_for_items before after (hl bad) (hi bad)).2 _ hfirst
  obtain ⟨rss, hrss, hwhole⟩ := hdelivered faultless
  have hbefore : (⟨[secret], none⟩ : Manifest) = ⟨rss.flatten, none⟩ := ofDocuments_of_delivers hrss
  have hflatten : [secret] = rss.flatten := congrArg Manifest.resources hbefore
  exact ⟨⟨hl good, hi good, hgood, free⟩, hsame,
    (hreport _ Backend.recording false g owner [] free).2.1, hfirst, faultless, e, hitem,
    hflatten ▸ hwhole⟩

end Manifest
end DependentWatch
