import DependentWatch.Proofs.ObjectCache.Notices
import DependentWatch.Proofs.Routing.Filters
import DependentWatch.Proofs.Routing.Requests
/-! The owner that a dependent had is told when the dependent goes to another owner, or goes. -/
namespace DependentWatch

namespace Handler
variable (h : Handler)

/-- No owner is named by what the filter of changes leaves out of the comparison. -/
theorem request?_eq_of_sameContent {a b : Object} (hs : a.SameContent b) :
    h.request? a = h.request? b := by
  refine h.request?_congr ?_ ?_ ?_
  · exact (congrArg ObjectMeta.ns hs.metadata :)
  · exact (congrArg ObjectMeta.ownerReferences hs.metadata :)
  · exact (congrArg ObjectMeta.annotations hs.metadata :)

theorem not_sameContent {old new : Object}
    (hr : h.requests (.create new) ≠ h.requests (.create old)) : ¬ old.SameContent new := by
  intro hs
  refine hr ?_
  rw [h.requests_eq_toList (e := .create new) rfl, h.requests_eq_toList (e := .create old) rfl,
    h.request?_eq_of_sameContent hs]

end Handler

namespace Filter

/-- The update to another owner passes the filters whose labels one of its objects has. -/
theorem allowsAll_update (h : Handler) {filters : List Filter} {old new : Object}
    (hr : h.requests (.create new) ≠ h.requests (.create old))
    (hl : ∀ labels, .matchLabels labels ∈ filters → old.hasLabels labels ∨ new.hasLabels labels) :
    allowsAll filters (.update old new) := by
  refine (allowsAll_iff _ _).2 fun f hf => ?_
  cases f with
  | dependentChanges => exact (allows_update old new).2 (h.not_sameContent hr)
  | matchLabels labels =>
    refine (allows_matchLabels_iff _ _).2 ?_
    simpa [Event.objects] using hl labels hf

theorem allowsAll_delete {filters : List Filter} {o : Object}
    (hl : ∀ labels, .matchLabels labels ∈ filters → o.hasLabels labels) :
    allowsAll filters (.delete o) := by
  refine (allowsAll_iff _ _).2 fun f hf => ?_
  cases f with
  | dependentChanges => rfl
  | matchLabels labels =>
    refine (allows_matchLabels_iff _ _).2 ?_
    simpa [Event.objects] using hl labels hf

end Filter

namespace ObjectCache
variable {c : ObjectCache}

/-- A list goes on, and the key was not in it so far. -/
def Unlisted (c : ObjectCache) (k : ObjectKey) : Prop := ∃ keys, c.seen = some keys ∧ k ∉ keys

theorem Unlisted.observe {k : ObjectKey} (h : c.Unlisted k) {n : Notice} (hn : n ≠ .listEnd)
    (hk : n.key? ≠ some k) : (c.observe n).2.Unlisted k := by
  obtain ⟨keys, hs, hm⟩ := h
  cases n with
  | listStart => exact ⟨[], rfl, List.not_mem_nil⟩
  | listed o =>
    refine ⟨o.key?.toList ++ keys, ?_, ?_⟩
    · rw [observe_listed, hs]
      rfl
    · have ho : o.key? ≠ some k := hk
      simpa [hm] using ho
  | listEnd => exact absurd rfl hn
  | applied o => exact ⟨keys, (c.seen_apply o).trans hs, hm⟩
  | deleted o => exact ⟨keys, (c.seen_deleted o).trans hs, hm⟩

/-- While a list goes on without an object, the object stays as it was. -/
theorem unlisted_run {k : ObjectKey} {o : Object} (hk : c.get? k = some o) {middle : List Notice}
    (hm : ∀ m ∈ middle, m ≠ .listEnd ∧ m.key? ≠ some k) :
    let d := system.run c (.listStart :: middle)
    d.Unlisted k ∧ d.get? k = some o := by
  have keep : ∀ (c : ObjectCache) (_ : List Event) n, c.Unlisted k ∧ c.get? k = some o →
      n ≠ .listEnd ∧ n.key? ≠ some k →
      (c.observe n).2.Unlisted k ∧ (c.observe n).2.get? k = some o := by
    intro c _ n hc hn
    refine ⟨hc.1.observe hn.1 hn.2, ?_⟩
    rw [get?_observe_of_ne hn.2 hn.1, hc.2]
  have start : (c.observe .listStart).2.Unlisted k ∧ (c.observe .listStart).2.get? k = some o :=
    ⟨⟨[], rfl, List.not_mem_nil⟩, hk⟩
  exact system.invariant (s := (c.observe .listStart).2) (l := []) keep start
    (system.throughout_of_forall (fun m hmem _ => hm m hmem) _)

/-- The only event of an object that was not listed is its deletion. -/
theorem Keyed.deletes_unlisted (h : Keyed c) {k : ObjectKey} {o : Object} (hu : c.Unlisted k)
    (hk : c.get? k = some o) :
    (c.observe .listEnd).1.filter (·.key? = some k) = [.delete o] := by
  obtain ⟨keys, hs, hm⟩ := hu
  have ho : o.key? = some k := h.key?_of_get? hk
  obtain ⟨before, after, he⟩ :=
    List.append_of_mem ((h.mem_listEnd_iff hs (.delete o)).2 ⟨k, o, hk, hm, rfl⟩)
  obtain ⟨hb, ha⟩ := Event.key?_ne_of_nodup (h.nodup_keys .listEnd) he ho
  have hb : before.filter (·.key? = some k) = [] := by simpa using hb
  have ha : after.filter (·.key? = some k) = [] := by simpa using ha
  rw [he, List.filter_append, List.filter_cons, hb, ha]
  simp [Event.key?, ho]

/-- When an object that was seen is told anew with other owners, the event passes the filters whose
labels it has, or had, and asks for the owners of before and of now. When a list goes by without it,
the event at its end passes the filters whose labels it had, and asks for its owners. -/
theorem previous_owners_are_told (ns : List Notice) (k : ObjectKey) (o : Object)
    (hk : (empty.observeAll ns).2.get? k = some o) (h : Handler) (filters : List Filter) :
    let c := (empty.observeAll ns).2
    (∀ (n : Object) (notice : Notice), notice = .applied n ∨ notice = .listed n →
      n.key? = some k → h.requests (.create n) ≠ h.requests (.create o) →
      (∀ labels, .matchLabels labels ∈ filters → o.hasLabels labels ∨ n.hasLabels labels) →
      (c.observe notice).1 = [.update o n] ∧ Filter.allowsAll filters (.update o n) ∧
      (∀ r, r ∈ h.requests (.update o n) ↔
        r ∈ h.requests (.create o) ∨ r ∈ h.requests (.create n)) ∧
      (h.requests (.update o n)).Pairwise fun a b => a.before b) ∧
    ∀ middle : List Notice, (∀ m ∈ middle, m ≠ .listEnd ∧ m.key? ≠ some k) →
      (∀ labels, .matchLabels labels ∈ filters → o.hasLabels labels) →
      (((c.observeAll (.listStart :: middle)).2.observe .listEnd).1.filter (·.key? = some k) =
        [.delete o]) ∧
      Filter.allowsAll filters (.delete o) ∧ h.requests (.delete o) = h.requests (.create o) := by
  intro c
  have hc : Keyed c := keyed_observeAll ns
  refine ⟨fun n notice hn hnk hr hl => ⟨?_, ?_, ?_, ?_⟩, fun middle hm hl => ⟨?_, ?_, ?_⟩⟩
  · have ha : (c.apply n).1 = .update o n := congrArg Prod.fst (apply_update hnk hk)
    obtain rfl | rfl := hn
    · exact congrArg (fun e => [e]) ha
    · rw [observe_listed, ha]
  · exact Filter.allowsAll_update h hr hl
  · exact h.mem_requests_update_iff o n
  · exact h.pairwise_requests _
  · have hd := unlisted_run hk hm
    simp only [observeAll_eq]
    exact (hc.run _).deletes_unlisted hd.1 hd.2
  · exact Filter.allowsAll_delete hl
  · rw [h.requests_eq_toList (e := .delete o) rfl, h.requests_eq_toList (e := .create o) rfl]

def podOf (name owner version : String) (labels : TextMap) : Object :=
  ⟨some ⟨"v1", "Pod"⟩,
    { ObjectMeta.empty with
      name := some name
      ns := some "ns"
      labels := some labels
      resourceVersion := some version
      ownerReferences := some [⟨"apps/v1", "Deployment", owner, "u", some true, none⟩] },
    [("status", .str version)]⟩

/-- A pod goes from one deployment to another, loses its label and gets another status. -/
theorem previous_owners_are_told_moved :
    let web : TextMap := .ofList [("app", "web")]
    let old := podOf "pod" "before" "1" web
    let new := podOf "pod" "after" "2" .empty
    let other := podOf "other" "before" "1" web
    let key : ObjectKey := (some "ns", "pod")
    let h := Handler.ownerReference "apps" "Deployment" .namespaced
    let filters := [.dependentChanges, .matchLabels web]
    let c := (empty.observeAll [.applied old]).2
    c.get? key = some old ∧ h.requests (.create new) ≠ h.requests (.create old) ∧
      (c.observe (.listed new)).1 = [.update old new] ∧
      Filter.allowsAll filters (.update old new) ∧
      (⟨some "ns", "before"⟩ ∈ h.requests (.update old new) ↔
        ⟨some "ns", "before"⟩ ∈ h.requests (.create old) ∨
          ⟨some "ns", "before"⟩ ∈ h.requests (.create new)) ∧
      (((c.observeAll [.listStart, .listed other, .listStart]).2.observe .listEnd).1.filter
        (·.key? = some key) = [.delete old]) ∧
      Filter.allowsAll filters (.delete old) ∧ h.requests (.delete old) = h.requests (.create old) := by
  intro web old new other key h filters c
  have hk : c.get? key = some old := by decide
  have hr : h.requests (.create new) ≠ h.requests (.create old) := by decide
  have hl : ∀ labels, .matchLabels labels ∈ filters → old.hasLabels labels := by
    intro labels hm
    obtain rfl : labels = web := by simpa [filters] using hm
    decide
  obtain ⟨hmoved, hgone⟩ := previous_owners_are_told [.applied old] key old hk h filters
  obtain ⟨he, ha, hu, _⟩ :=
    hmoved new (.listed new) (.inr rfl) rfl hr fun labels hm => .inl (hl labels hm)
  obtain ⟨hd, hda, hdr⟩ := hgone [.listed other, .listStart] (by decide) hl
  exact ⟨hk, hr, he, ha, hu _, hd, hda, hdr⟩

end ObjectCache
end DependentWatch
