import DependentWatch.Proofs.Routing.Filters
import DependentWatch.Proofs.TextMaps
/-! The labels by which the server selects what it sends, against the filters for what arrives. -/
namespace DependentWatch

/-- The object has this label with this value. -/
def Object.Carries (o : Object) (key value : String) : Prop :=
  o.metadata.labels.bind (·.get? key) = some value

instance (o : Object) (key value : String) : Decidable (o.Carries key value) :=
  inferInstanceAs (Decidable (_ = _))

theorem Object.hasLabels_iff (o : Object) (selector : TextMap) :
    o.hasLabels selector ↔ ∀ key value, selector.get? key = some value → o.Carries key value := by
  simp only [hasLabels, List.all_eq_true, beq_iff_eq, Prod.forall, TextMap.mem_entries_iff, Carries]

namespace Filter

/-- The labels that the filters ask for, with their values, filter by filter. -/
def asked (filters : List Filter) : List (String × String) :=
  filters.flatMap fun
    | matchLabels labels => labels.entries
    | dependentChanges => []

/-- No two filters ask for different values of one label. -/
def Agree (filters : List Filter) : Prop :=
  ∀ m n, matchLabels m ∈ filters → matchLabels n ∈ filters →
    ∀ key v w, m.get? key = some v → n.get? key = some w → v = w

theorem asked_append (fs gs : List Filter) : asked (fs ++ gs) = asked fs ++ asked gs :=
  List.flatMap_append

theorem mem_asked_iff {filters : List Filter} {key value : String} :
    (key, value) ∈ asked filters ↔
      ∃ m, matchLabels m ∈ filters ∧ m.get? key = some value := by
  simp only [asked, List.mem_flatMap, ← TextMap.mem_entries_iff]
  constructor
  · rintro ⟨f, hf, hm⟩
    cases f with
    | dependentChanges => simp at hm
    | matchLabels m => exact ⟨m, hf, hm⟩
  · rintro ⟨m, hf, hm⟩
    exact ⟨matchLabels m, hf, hm⟩

theorem agree_iff (filters : List Filter) :
    Agree filters ↔ ∀ p ∈ asked filters, ∀ q ∈ asked filters, p.1 = q.1 → p.2 = q.2 := by
  simp only [Agree, Prod.forall, mem_asked_iff]
  constructor
  · rintro h key v ⟨m, hm, hv⟩ _ w ⟨n, hn, hw⟩ rfl
    exact h m n hm hn key v w hv hw
  · rintro h m n hm hn key v w hv hw
    exact h key v ⟨m, hm, hv⟩ key w ⟨n, hn, hw⟩ rfl

instance : DecidablePred Agree := fun filters => decidable_of_iff' _ (agree_iff filters)

/-- What is selected under a key is what the last filter with this key asks for. -/
theorem get?_labels (filters : List Filter) (key : String) :
    (labels filters).get? key = (asked filters).reverse.lookup key :=
  TextMap.get?_ofList (asked filters) key

theorem mem_asked_of_get? {filters : List Filter} {key value : String}
    (h : (labels filters).get? key = some value) : (key, value) ∈ asked filters := by
  rw [get?_labels] at h
  exact List.mem_reverse.1 (mem_of_lookup h)

theorem exists_get?_of_mem_asked {filters : List Filter} {key value : String}
    (h : (key, value) ∈ asked filters) : ∃ w, (labels filters).get? key = some w := by
  rw [← Option.isSome_iff_exists, Option.isSome_iff_ne_none, get?_labels]
  intro hn
  simpa using List.lookup_eq_none_iff.1 hn _ (List.mem_reverse.2 h)

theorem get?_labels_iff {filters : List Filter} (agree : Agree filters) {key value : String} :
    (labels filters).get? key = some value ↔ (key, value) ∈ asked filters := by
  refine ⟨mem_asked_of_get?, fun h => ?_⟩
  obtain ⟨w, hl⟩ := exists_get?_of_mem_asked h
  obtain ⟨m, hm, hv⟩ := mem_asked_iff.1 h
  obtain ⟨n, hn, hw⟩ := mem_asked_iff.1 (mem_asked_of_get? hl)
  rw [hl, agree m n hm hn key value w hv hw]

/-! The filters and the selector on one object. -/

theorem allows_single_iff {e : Event} {o : Object} (h : e ∈ [.create o, .delete o, .generic o])
    (f : Filter) :
    f.allows e ↔ ∀ m, f = matchLabels m → o.hasLabels m := by
  cases f with
  | dependentChanges =>
    have hs : e = .create o ∨ e = .delete o ∨ e = .generic o := by simpa using h
    obtain rfl | rfl | rfl := hs <;> simp [allows]
  | matchLabels m =>
    have hs : e.objects = [o] := by
      simp only [List.mem_cons, List.not_mem_nil, or_false] at h
      obtain rfl | rfl | rfl := h <;> rfl
    simp [allows, hs]

/-- One object passes just where it carries all that the filters ask for. -/
theorem allowsAll_single_iff {e : Event} {o : Object} (h : e ∈ [.create o, .delete o, .generic o])
    (filters : List Filter) :
    allowsAll filters e ↔ ∀ p ∈ asked filters, o.Carries p.1 p.2 := by
  simp only [allowsAll_iff, allows_single_iff h, Object.hasLabels_iff, Prod.forall, mem_asked_iff]
  constructor
  · rintro hall key value ⟨m, hm, hv⟩
    exact hall _ hm m rfl key value hv
  · rintro hall f hf m rfl key value hv
    exact hall key value ⟨m, hf, hv⟩

theorem carries_of_allowsAll {e : Event} {o : Object} (h : e ∈ [.create o, .delete o, .generic o])
    {filters : List Filter} (hall : allowsAll filters e) :
    ∀ p ∈ (labels filters).entries, o.Carries p.1 p.2 := by
  intro p hp
  exact (allowsAll_single_iff h filters).1 hall p (mem_asked_of_get? (TextMap.mem_entries_iff.1 hp))

theorem allowsAll_of_carries {e : Event} {o : Object} (h : e ∈ [.create o, .delete o, .generic o])
    {filters : List Filter} (agree : Agree filters)
    (hall : ∀ p ∈ (labels filters).entries, o.Carries p.1 p.2) : allowsAll filters e := by
  refine (allowsAll_single_iff h filters).2 fun p hp => hall p ?_
  exact TextMap.mem_entries_iff.2 ((get?_labels_iff agree).2 hp)

/-! The selector as a text. -/

theorem selector?_eq_none_iff (filters : List Filter) :
    selector? filters = none ↔ ∀ m, matchLabels m ∈ filters → m.entries = [] := by
  have hempty : selector? filters = none ↔ (labels filters).entries = [] := by simp [selector?]
  rw [hempty]
  constructor
  · intro h m hm
    refine List.eq_nil_iff_forall_not_mem.2 fun (key, value) hp => ?_
    have hasked := mem_asked_iff.2 ⟨m, hm, TextMap.mem_entries_iff.1 hp⟩
    obtain ⟨w, hw⟩ := exists_get?_of_mem_asked hasked
    simp [TextMap.get?, h] at hw
  · intro h
    refine List.eq_nil_iff_forall_not_mem.2 fun (key, value) hp => ?_
    have hasked := mem_asked_of_get? (TextMap.mem_entries_iff.1 hp)
    obtain ⟨m, hm, hv⟩ := mem_asked_iff.1 hasked
    simp [TextMap.get?, h m hm] at hv

/-- A text without the two characters that the selector puts between the labels. -/
def Plain (s : String) : Prop := ',' ∉ s.toList ∧ '=' ∉ s.toList

instance : DecidablePred Plain := fun _ => inferInstanceAs (Decidable (_ ∧ _))

theorem splitOn_pair {key value : String} (hk : Plain key) (hv : Plain value) :
    (key ++ "=" ++ value).toList.splitOn '=' = [key.toList, value.toList] := by
  have hjoin : (key ++ "=" ++ value).toList = ['='].intercalate [key.toList, value.toList] := by
    simp [List.intercalate]
  rw [hjoin]
  refine List.splitOn_intercalate '=' ?_ (List.cons_ne_nil _ _)
  simp [hk.2, hv.2]

/-- Cut at the commas, and each part at its equals sign, the selector is the labels again. -/
theorem splitOn_selector {filters : List Filter} {text : String} (h : selector? filters = some text)
    (plain : ∀ p ∈ (labels filters).entries, Plain p.1 ∧ Plain p.2) :
    (text.toList.splitOn ',').map (·.splitOn '=') =
      (labels filters).entries.map fun p => [p.1.toList, p.2.toList] := by
  simp only [selector?, Option.ite_none_left_eq_some, Option.some.injEq, List.isEmpty_iff] at h
  obtain ⟨hne, rfl⟩ := h
  have hparts : (",".intercalate ((labels filters).entries.map fun p => p.1 ++ "=" ++ p.2)).toList
      = [','].intercalate ((labels filters).entries.map fun p => (p.1 ++ "=" ++ p.2).toList) := by
    rw [String.toList_intercalate, List.map_map]
    rfl
  refine (congrArg (fun cs => (cs.splitOn ',').map (·.splitOn '=')) hparts).trans ?_
  rw [List.splitOn_intercalate]
  · rw [List.map_map]
    exact List.map_congr_left fun p hp => splitOn_pair (plain p hp).1 (plain p hp).2
  · simp only [List.mem_map]
    rintro _ ⟨p, hp, rfl⟩
    simp [(plain p hp).1.1, (plain p hp).2.1]
  · simpa using hne

theorem lookup_asked_of_perm {fs gs : List Filter} (agree : Agree fs) (h : fs.Perm gs)
    (key : String) : (asked gs).reverse.lookup key = (asked fs).reverse.lookup key := by
  have agree' : Agree gs := fun m n hm hn => agree m n (h.mem_iff.2 hm) (h.mem_iff.2 hn)
  rw [← get?_labels, ← get?_labels]
  ext value
  rw [get?_labels_iff agree, get?_labels_iff agree', mem_asked_iff, mem_asked_iff]
  simp only [h.mem_iff]

theorem selector?_of_perm {fs gs : List Filter} (agree : Agree fs) (h : fs.Perm gs)
    (before after : List Filter) :
    selector? (before ++ gs ++ after) = selector? (before ++ fs ++ after) := by
  have hlabels : labels (before ++ gs ++ after) = labels (before ++ fs ++ after) := by
    refine TextMap.eq_of_get?_eq fun key => ?_
    simp only [get?_labels, asked_append, List.reverse_append, List.lookup_append,
      lookup_asked_of_perm agree h]
  rw [selector?, selector?, hlabels]

/-- The server selects by what the filters ask for. It withholds nothing that they pass, and where
they agree, all that it sends passes them. There is no selector just where there is no label in any
filter. Its text is taken apart into the labels of all filters, in order, each once and with the
value that was asked for last; filters that agree among themselves may come in any order. -/
theorem selector_stands_for_filters (filters : List Filter) :
    (∀ o, ∀ e ∈ [Event.create o, .delete o, .generic o],
      (allowsAll filters e → ∀ p ∈ (labels filters).entries, o.Carries p.1 p.2) ∧
      (Agree filters →
        selector? filters = none ∨ (∀ p ∈ (labels filters).entries, o.Carries p.1 p.2) →
        allowsAll filters e)) ∧
    (selector? filters = none ↔ ∀ m, matchLabels m ∈ filters → m.entries = []) ∧
    (∀ text, selector? filters = some text →
      (∀ p ∈ (labels filters).entries, Plain p.1 ∧ Plain p.2) →
      (text.toList.splitOn ',').map (·.splitOn '=') =
        (labels filters).entries.map fun p => [p.1.toList, p.2.toList]) ∧
    (labels filters).entries.Pairwise (fun p q => p.1 < q.1) ∧
    (∀ key value, (key, value) ∈ (labels filters).entries ↔
      (asked filters).reverse.lookup key = some value) ∧
    ∀ before fs gs after, filters = before ++ fs ++ after → Agree fs → fs.Perm gs →
      selector? (before ++ gs ++ after) = selector? filters := by
  refine ⟨fun o e he => ⟨carries_of_allowsAll he, fun agree hsent => ?_⟩,
    selector?_eq_none_iff filters, fun text => splitOn_selector, (labels filters).sorted,
    fun key value => ?_, ?_⟩
  · obtain hnone | hall := hsent
    · refine (allowsAll_single_iff he filters).2 fun p hp => ?_
      obtain ⟨m, hm, hv⟩ := mem_asked_iff.1 hp
      simp [TextMap.get?, (selector?_eq_none_iff filters).1 hnone m hm] at hv
    · exact allowsAll_of_carries he agree hall
  · rw [TextMap.mem_entries_iff, get?_labels]
  · rintro before fs gs after rfl agree hperm
    exact selector?_of_perm agree hperm before after

theorem selector_stands_for_filters_web :
    let web : TextMap := .ofList [("tier", ""), ("app", "web")]
    let filters := [matchLabels (.ofList [("app", "web")]), dependentChanges, matchLabels web]
    let pod : Object := ⟨none, { ObjectMeta.empty with labels := some (web.insert "zone" "a") }, []⟩
    (Agree filters ∧ selector? filters = some "app=web,tier=" ∧
      ∀ p ∈ (labels filters).entries, Plain p.1 ∧ Plain p.2) ∧
    allowsAll filters (.create pod) ∧
    ("app=web,tier=".toList.splitOn ',').map (·.splitOn '=') =
      [["app".toList, "web".toList], ["tier".toList, []]] ∧
    selector? filters.reverse = some "app=web,tier=" := by
  intro web filters pod
  have agree : Agree filters := by decide
  have htext : selector? filters = some "app=web,tier=" := by decide
  have plain : ∀ p ∈ (labels filters).entries, Plain p.1 ∧ Plain p.2 := by decide
  have hcarried : ∀ p ∈ (labels filters).entries, pod.Carries p.1 p.2 := by decide
  obtain ⟨hsingle, hnone, hsplit, hsorted, hmerged, hperm⟩ := selector_stands_for_filters filters
  refine ⟨⟨agree, htext, plain⟩, (hsingle pod _ List.mem_cons_self).2 agree (.inr hcarried),
    hsplit _ htext plain, ?_⟩
  rw [← htext]
  exact hperm [] filters filters.reverse [] (by simp) agree filters.reverse_perm.symm

end Filter
end DependentWatch
