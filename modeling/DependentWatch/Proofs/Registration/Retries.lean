import DependentWatch.Proofs.History
import DependentWatch.Proofs.Manifest.Places
import DependentWatch.Proofs.Registration.Reports
/-! A registration that is tried again until it succeeds. Whatever failed before, all the kinds of
the manifest are registered then, each by one subscription, and nothing is left to ask for. -/
namespace DependentWatch.Registrar
variable {σ : Type}

/-- The same registration again and again, each time in a world of its own. -/
def retries (b : Backend σ) (atOnce : Bool) (task : Registration) :
    System (Registrar σ) σ Report where
  step g world := ((g.withWorld world).report b atOnce task).2
  marks g world := [((g.withWorld world).report b atOnce task).1]

theorem retries_registers (b : Backend σ) (atOnce : Bool) {g : Registrar σ} {task : Registration}
    (free : task.owner ∉ g.busy) (worlds : List σ) :
    g.Registers task ((retries b atOnce task).log g worlds)
      ((retries b atOnce task).run g worlds) := by
  induction worlds generalizing g with
  | nil => exact .nil g task
  | cons world worlds ih =>
    have hfirst := ((g.withWorld world).report_registers b atOnce free).of_withWorld
    exact hfirst.append (ih (hfirst.busy ▸ free))

/-- Attempts at a registration leave its owner kind with the kinds that were registered before and,
once one of them has succeeded, with all those of the manifest. -/
theorem Registers.mem_set_iff {g after : Registrar σ} {task : Registration} {reports : List Report}
    (h : Registers g task reports after) (hs : ∃ r ∈ reports, r.result = some (.ok ()))
    (k : GroupVersionKind) :
    k ∈ after.set task.owner ↔
      k ∈ g.set task.owner ∨ ∃ r ∈ task.manifest.resources, r.gvk = k := by
  constructor
  · intro hk
    refine ((h.gains.mem_iff k).1 hk).imp_right fun hn => ?_
    obtain ⟨s, hs, rfl⟩ := List.mem_map.1 hn
    exact h.kinds s hs
  · intro hk
    obtain hk | ⟨r, hr, rfl⟩ := hk
    · exact h.gains.mem hk
    · exact h.all hs r hr

/-- However often a registration failed before it succeeded, and however the world changed in
between: then just the kinds of its manifest are registered besides those that were, and one
subscription was made to each that is new. The documents may come in any other order, and other
attempts may fail. After that a registration of such kinds asks for nothing, changes nothing and
succeeds, in any world. -/
theorem retries_converge (b : Backend σ) (atOnce : Bool) (g : Registrar σ)
    (owner : GroupVersionKind) (filters : List Filter) (free : owner ∉ g.busy)
    (documents : List DocumentResult) (sound : (Manifest.ofDocuments 0 documents).error = none)
    (worlds : List σ) :
    let task (ds : List DocumentResult) : Registration := ⟨owner, filters, .ofDocuments 0 ds⟩
    let kinds := (task documents).manifest.resources.map (·.gvk)
    let reports := (retries b atOnce (task documents)).log g worlds
    let after := (retries b atOnce (task documents)).run g worlds
    (∀ r ∈ reports, r.result.isSome) ∧
    ((∃ r ∈ reports, r.result = some (.ok ())) →
      (∀ k, k ∈ after.set owner ↔ k ∈ g.set owner ∨ k ∈ kinds) ∧
      (let made := (reports.flatMap (·.made)).map (·.kind)
       made.Nodup ∧ ∀ k, k ∈ made ↔ k ∈ kinds ∧ k ∉ g.set owner) ∧
      (∀ (b' : Backend σ) ds worlds', documents.Perm ds →
        (∃ r ∈ (retries b' atOnce (task ds)).log g worlds', r.result = some (.ok ())) →
        ∀ k, k ∈ ((retries b' atOnce (task ds)).run g worlds').set owner ↔ k ∈ after.set owner) ∧
      ∀ (b' : Backend σ) world again, again.owner = owner → again.manifest.error = none →
        (∀ r ∈ again.manifest.resources, r.gvk ∈ after.set owner) →
        let last := (after.withWorld world).report b' atOnce again
        last.1 = ⟨owner, some (.ok ()), [], []⟩ ∧ last.2.world = world ∧
          ∀ o, last.2.set o = after.set o) := by
  intro task kinds reports after
  have hr : g.Registers (task documents) reports after := retries_registers b atOnce free worlds
  have hkinds (k : GroupVersionKind) :
      k ∈ kinds ↔ ∃ r ∈ (task documents).manifest.resources, r.gvk = k := List.mem_map
  refine ⟨hr.ended, fun hs => ?_⟩
  have hmem := hr.mem_set_iff hs
  refine ⟨fun k => ?_, ⟨hr.gains.nodup, fun k => ?_⟩, ?_, ?_⟩
  · rw [hkinds]
    exact hmem k
  · have hnew : k ∈ (reports.flatMap (·.made)).map (·.kind) ↔
        k ∈ after.set owner ∧ k ∉ g.set owner := hr.gains.mem_new_iff k
    rw [hnew, hkinds]
    constructor
    · intro h
      exact ⟨((hmem k).1 h.1).resolve_left h.2, h.2⟩
    · intro h
      exact ⟨(hmem k).2 (.inr h.1), h.2⟩
  · intro b' ds worlds' hp hs' k
    have hr' : g.Registers (task ds) _ _ := retries_registers b' atOnce free worlds'
    have hp := Manifest.exists_gvk_iff_of_perm hp sound k
    have hm' := hr'.mem_set_iff hs' k
    calc
      k ∈ ((retries b' atOnce (task ds)).run g worlds').set owner
          ↔ k ∈ g.set owner ∨ ∃ r ∈ (task ds).manifest.resources, r.gvk = k := hm'
      _ ↔ k ∈ g.set owner ∨ ∃ r ∈ (task documents).manifest.resources, r.gvk = k :=
          or_congr_right hp.symm
      _ ↔ k ∈ after.set owner := (hmem k).symm
  · intro b' world again hown hm hall last
    have hfree : again.owner ∉ (after.withWorld world).busy := by
      rw [busy_withWorld, hr.busy, hown]
      exact free
    obtain ⟨hlast, hw, hset⟩ :=
      (after.withWorld world).report_of_forall_mem b' atOnce hfree hm (by rw [hown]; exact hall)
    exact ⟨hown ▸ hlast, hw, hset⟩

/-- A document that names its kind and no more. -/
def bareDocument (kind : String) : DocumentResult :=
  some (.mapping [(.str "apiVersion", .str "v1"), (.str "kind", .str kind)])

/-- A subscription is refused at first, and the next attempt makes it. -/
theorem retries_converge_refused_once :
    let owner : GroupVersionKind := ⟨"apps", "v1", "Deployment"⟩
    let documents := [bareDocument "ConfigMap", bareDocument "Namespace"]
    let task : Registration := ⟨owner, [.dependentChanges], .ofDocuments 0 documents⟩
    let g : Registrar (ScopeTable × Recorder) := .start (.builtins, .empty)
    let worlds : List (ScopeTable × Recorder) :=
      [(.builtins, Recorder.empty.refuse ⟨"", "v1", "Namespace"⟩ "not now"), (.builtins, .empty)]
    let reports := (retries Backend.recording false task).log g worlds
    let after := (retries Backend.recording false task).run g worlds
    owner ∉ g.busy ∧ task.manifest.error = none ∧
      reports.map (·.result) =
        [some (.error (.subscription "v1/Namespace" "not now")), some (.ok ())] ∧
      (∃ r ∈ reports, r.result = some (.ok ())) ∧
      ∀ k, k ∈ after.set owner ↔ k ∈ g.set owner ∨ k ∈ task.manifest.resources.map (·.gvk) := by
  intro owner documents task g worlds reports after
  have free : owner ∉ g.busy := List.not_mem_nil
  have sound : (Manifest.ofDocuments 0 documents).error = none := rfl
  have hres : reports.map (·.result) =
      [some (.error (.subscription "v1/Namespace" "not now")), some (.ok ())] := by decide +kernel
  have hlast : some (.ok ()) ∈ reports.map (·.result) := by
    rw [hres]
    simp
  have success : ∃ r ∈ reports, r.result = some (.ok ()) := List.mem_map.1 hlast
  have h := retries_converge Backend.recording false g owner [.dependentChanges] free documents sound
    worlds
  exact ⟨free, sound, hres, success, (h.2 success).1⟩

end DependentWatch.Registrar
