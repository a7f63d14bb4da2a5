import DependentWatch.ClusterWatch
import DependentWatch.Proofs.ObjectCache.Notices
import DependentWatch.Proofs.Routing.Filters
/-! A list of all objects makes the cache what the list says, and its events are the difference to
what was cached before. -/
namespace DependentWatch

/-- A list that started and was given up. -/
def Notice.attempt (os : List Object) : List Notice := .listStart :: os.map .listed

namespace ObjectCache
variable {c : ObjectCache}

/-! While a list goes on, its objects replace those of the same keys. -/

theorem seen_run_listed {keys : List ObjectKey} (hs : c.seen = some keys) (os : List Object) :
    ∃ listed, (system.run c (os.map .listed)).seen = some listed ∧
      ∀ k, k ∈ listed ↔ (∃ o ∈ os, o.key? = some k) ∨ k ∈ keys := by
  induction os generalizing c keys with
  | nil => exact ⟨keys, hs, fun k => by simp⟩
  | cons o os ih =>
    have ho : (c.observe (.listed o)).2.seen = some (o.key?.toList ++ keys) := by
      rw [observe_listed, hs]
      rfl
    obtain ⟨listed, hl, hm⟩ := ih ho
    refine ⟨listed, hl, fun k => ?_⟩
    have hc : (∃ p ∈ o :: os, p.key? = some k) ↔ o.key? = some k ∨ ∃ p ∈ os, p.key? = some k := by
      simp
    rw [hm, hc, List.mem_append, Option.mem_toList, or_left_comm, or_assoc]

theorem get?_run_listed {os : List Object} (hd : (os.map Object.key?).Nodup) (k : ObjectKey)
    (x : Object) : (system.run c (os.map .listed)).get? k = some x ↔
      (x ∈ os ∧ x.key? = some k) ∨ ((∀ o ∈ os, o.key? ≠ some k) ∧ c.get? k = some x) := by
  induction os generalizing c with
  | nil => simp [System.run]
  | cons o os ih =>
    obtain ⟨ho, hos⟩ := List.nodup_cons.1 hd
    have hrun : system.run c ((o :: os).map .listed) =
        system.run (c.observe (.listed o)).2 (os.map .listed) := rfl
    rw [hrun, ih hos, get?_listed, List.forall_mem_cons, List.mem_cons]
    -- The first object of its key is also the last one, so that it stays to the end.
    by_cases hk : o.key? = some k
    · have hn : ∀ p ∈ os, p.key? ≠ some k := fun p hp hpk =>
        ho (hk.trans hpk.symm ▸ List.mem_map_of_mem hp)
      have hx : ¬ (x ∈ os ∧ x.key? = some k) := fun h => hn x h.1 h.2
      rw [if_pos hk, or_iff_right hx, Option.some.injEq]
      constructor
      · rintro ⟨_, rfl⟩
        exact .inl ⟨.inl rfl, hk⟩
      · rintro (⟨rfl | hm, hxk⟩ | ⟨⟨hne, _⟩, _⟩)
        · exact ⟨hn, rfl⟩
        · exact absurd ⟨hm, hxk⟩ hx
        · exact absurd hk hne
    · have hx : (x = o ∨ x ∈ os) ∧ x.key? = some k ↔ x ∈ os ∧ x.key? = some k := by
        constructor
        · rintro ⟨rfl | hm, hxk⟩
          · exact absurd hxk hk
          · exact ⟨hm, hxk⟩
        · exact fun h => ⟨.inr h.1, h.2⟩
      rw [if_neg hk, hx]
      simp [hk]

/-- Objects of different keys: each is compared with what was cached before the list. -/
theorem log_listed {os : List Object} (hd : (os.map Object.key?).Nodup) :
    system.log c (os.map .listed) = os.map fun o => (c.apply o).1 := by
  induction os generalizing c with
  | nil => rfl
  | cons o os ih =>
    obtain ⟨ho, hos⟩ := List.nodup_cons.1 hd
    have hlog : system.log c ((o :: os).map .listed) =
        (c.observe (.listed o)).1 ++ system.log (c.observe (.listed o)).2 (os.map .listed) := rfl
    rw [hlog, ih hos, observe_listed, List.map_cons, List.singleton_append]
    congr 1
    refine List.map_congr_left fun p hp => apply_fst_congr fun k hk => ?_
    have hne : o.key? ≠ some k := fun h => ho (h.trans hk.symm ▸ List.mem_map_of_mem hp)
    exact (c.get?_apply o k).trans (if_neg hne)

/-! A whole list. -/

/-- The cache when all objects of a list were told, before it ends. -/
def listing (c : ObjectCache) (os : List Object) : ObjectCache :=
  system.run (c.observe .listStart).2 (os.map .listed)

theorem observeAll_list (c : ObjectCache) (os : List Object) :
    c.observeAll (Notice.list os) =
      (system.log (c.observe .listStart).2 (os.map .listed) ++ ((c.listing os).observe .listEnd).1,
        ((c.listing os).observe .listEnd).2) := by
  have hn : Notice.list os = [.listStart] ++ os.map .listed ++ [.listEnd] := rfl
  rw [observeAll_eq, hn, system.log_append, system.log_append, system.run_append,
    system.run_append]
  simp [System.log, System.run, system, listing, observe]

theorem events_list {os : List Object} (hd : (os.map Object.key?).Nodup) :
    (c.observeAll (Notice.list os)).1 =
      (os.map fun o => (c.apply o).1) ++ ((c.listing os).observe .listEnd).1 := by
  have hstart : (fun o => ((c.observe .listStart).2.apply o).1) = fun o => (c.apply o).1 :=
    funext fun o => apply_fst_congr fun _ _ => rfl
  rw [observeAll_list, log_listed hd, hstart]

theorem seen_listing (c : ObjectCache) (os : List Object) :
    ∃ listed, (c.listing os).seen = some listed ∧ ∀ k, k ∈ listed ↔ ∃ o ∈ os, o.key? = some k := by
  have hs : (c.observe .listStart).2.seen = some [] := rfl
  obtain ⟨listed, hl, hm⟩ := seen_run_listed hs os
  exact ⟨listed, hl, fun k => by simpa using hm k⟩

theorem get?_listing {os : List Object} (hd : (os.map Object.key?).Nodup) (k : ObjectKey)
    (x : Object) : (c.listing os).get? k = some x ↔
      (x ∈ os ∧ x.key? = some k) ∨ ((∀ o ∈ os, o.key? ≠ some k) ∧ c.get? k = some x) :=
  get?_run_listed hd k x

/-- After a list the cache is what the list says, whatever it was. -/
theorem get?_list {os : List Object} (hd : (os.map Object.key?).Nodup) (k : ObjectKey)
    (x : Object) :
    (c.observeAll (Notice.list os)).2.get? k = some x ↔ x ∈ os ∧ x.key? = some k := by
  obtain ⟨listed, hl, hm⟩ := c.seen_listing os
  rw [observeAll_list, get?_listEnd hl]
  split
  · next hk =>
    obtain ⟨o, ho, hok⟩ := (hm k).1 hk
    rw [get?_listing hd, or_iff_left]
    exact fun h => h.1 o ho hok
  · next hk => simpa using fun hx hxk => hk ((hm k).2 ⟨x, hx, hxk⟩)

/-- The difference between the objects that were cached and those of a list. -/
inductive Differs (c : ObjectCache) (os : List Object) : Event → Prop where
  | create {o : Object} {k : ObjectKey} (listed : o ∈ os) (key : o.key? = some k)
      (unknown : c.get? k = none) : Differs c os (.create o)
  | update {o old : Object} {k : ObjectKey} (listed : o ∈ os) (key : o.key? = some k)
      (known : c.get? k = some old) : Differs c os (.update old o)
  | delete {old : Object} {k : ObjectKey} (known : c.get? k = some old)
      (missing : ∀ o ∈ os, o.key? ≠ some k) : Differs c os (.delete old)

theorem differs_apply {os : List Object} {o : Object} (hm : o ∈ os) (hn : o.key?.isSome) :
    Differs c os (c.apply o).1 := by
  obtain ⟨h, _⟩ | ⟨k, h, hk, ha⟩ | ⟨k, old, h, hk, ha⟩ := c.apply_cases o
  · simp [h] at hn
  · rw [ha]
    exact .create hm h hk
  · rw [ha]
    exact .update hm h hk

theorem Keyed.mem_list_iff (h : Keyed c) {os : List Object} (hn : ∀ o ∈ os, o.key?.isSome)
    (hd : (os.map Object.key?).Nodup) (e : Event) :
    e ∈ (c.observeAll (Notice.list os)).1 ↔ Differs c os e := by
  obtain ⟨listed, hl, hm⟩ := c.seen_listing os
  have hk : Keyed (c.listing os) := (h.observe .listStart).run _
  rw [events_list hd, List.mem_append, List.mem_map, hk.mem_listEnd_iff hl]
  constructor
  · rintro (⟨o, ho, rfl⟩ | ⟨k, o, hg, hlk, rfl⟩)
    · exact differs_apply ho (hn o ho)
    · have hmiss : ∀ p ∈ os, p.key? ≠ some k := fun p hp hpk => hlk ((hm k).2 ⟨p, hp, hpk⟩)
      obtain ⟨ho, hok⟩ | ⟨_, hg⟩ := (get?_listing hd k o).1 hg
      · exact absurd hok (hmiss o ho)
      · exact .delete hg hmiss
  · rintro (⟨ho, hok, hg⟩ | ⟨ho, hok, hg⟩ | ⟨hg, hmiss⟩)
    · exact .inl ⟨_, ho, congrArg Prod.fst (apply_create hok hg)⟩
    · exact .inl ⟨_, ho, congrArg Prod.fst (apply_update hok hg)⟩
    · refine .inr ⟨_, _, (get?_listing hd _ _).2 (.inr ⟨hmiss, hg⟩), fun hlk => ?_, rfl⟩
      obtain ⟨p, hp, hpk⟩ := (hm _).1 hlk
      exact hmiss p hp hpk

theorem Keyed.nodup_list (h : Keyed c) {os : List Object} (hd : (os.map Object.key?).Nodup) :
    (c.observeAll (Notice.list os)).1.Nodup := by
  obtain ⟨listed, hl, hm⟩ := c.seen_listing os
  have hk : Keyed (c.listing os) := (h.observe .listStart).run _
  have hkeys : Event.key? ∘ (fun o => (c.apply o).1) = Object.key? := funext c.key?_apply
  -- The keys of the events are those of the list, and then those that the list left out.
  have hnodup : ((c.observeAll (Notice.list os)).1.map Event.key?).Nodup := by
    rw [events_list hd, List.map_append, List.map_map, hkeys, hk.keys_listEnd hl]
    refine List.nodup_append.2 ⟨hd, ?_, ?_⟩
    · exact List.Pairwise.map some (fun _ _ hne he => hne (Option.some.inj he))
        (hk.filter _ none).nodup
    · rintro _ ha _ hb rfl
      obtain ⟨k, hkey, rfl⟩ := List.mem_map.1 hb
      obtain ⟨o, ho, hok⟩ := List.mem_map.1 ha
      obtain ⟨e, he, rfl⟩ := List.mem_map.1 hkey
      have hout := (List.mem_filter.1 he).2
      have hin : e.1 ∈ listed := (hm e.1).2 ⟨o, ho, hok⟩
      simp [hin] at hout
  exact List.Pairwise.of_map Event.key? (fun _ _ hne he => hne (congrArg Event.key? he)) hnodup

/-- A list of the cached objects, which may have another status and other bookkeeping by now. -/
structure Repeats (c : ObjectCache) (os : List Object) : Prop where
  listed (o : Object) : o ∈ os → ∃ k old, o.key? = some k ∧ c.get? k = some old ∧ old.SameContent o
  cached (k : ObjectKey) (old : Object) : c.get? k = some old → ∃ o ∈ os, o.key? = some k

theorem Differs.not_allows {os : List Object} {e : Event} (h : Differs c os e) (hr : Repeats c os) :
    ¬ Filter.dependentChanges.allows e := by
  rw [Filter.allows_dependentChanges_iff, Classical.not_not]
  have cached {o : Object} {k : ObjectKey} (ho : o ∈ os) (hk : o.key? = some k) :
      ∃ old, c.get? k = some old ∧ old.SameContent o := by
    obtain ⟨l, old, hl, hc, hs⟩ := hr.listed o ho
    exact ⟨old, Option.some.inj (hl.symm.trans hk) ▸ hc, hs⟩
  cases h with
  | create ho hk hn =>
    obtain ⟨old, hc, _⟩ := cached ho hk
    exact nomatch hn.symm.trans hc
  | @update o old k ho hk hc =>
    obtain ⟨old', hc', hs⟩ := cached ho hk
    obtain rfl := Option.some.inj (hc.symm.trans hc')
    exact ⟨old, o, rfl, hs⟩
  | delete hc hmiss =>
    obtain ⟨o, ho, hk⟩ := hr.cached _ _ hc
    exact absurd hk (hmiss o ho)

/-- After a list, and any number of lists before that were given up, the cache is what the list
says. Its events are the difference to what was cached, each once, and the filter of changes lets
through those that change more than the status and the bookkeeping. So a list that repeats the
cached objects reaches no handler behind this filter. -/
theorem list_tells_difference (ns : List Notice) (attempts : List (List Object)) (os : List Object)
    (hn : ∀ o ∈ os, o.key?.isSome) (hd : (os.map Object.key?).Nodup) :
    let c := (empty.observeAll ns).2
    let es := (c.observeAll (Notice.list os)).1
    (∀ k o, (c.observeAll (attempts.flatMap Notice.attempt ++ Notice.list os)).2.get? k = some o ↔
      o ∈ os ∧ o.key? = some k) ∧
    es.Nodup ∧ (∀ e, e ∈ es ↔ Differs c os e) ∧
    (∀ e ∈ es, Filter.dependentChanges.allows e ↔
      ¬ ∃ old new, e = .update old new ∧ old.SameContent new) ∧
    (Repeats c os → ∀ kind handler filters q, .dependentChanges ∈ filters →
      es.filter (Filter.allowsAll filters) = [] ∧
      ((⟨kind, handler, filters, c⟩ : ClusterWatch).deliver (Notice.list os) q).2 = q) := by
  intro c es
  have hc : Keyed c := keyed_observeAll ns
  have hes (e : Event) : e ∈ es ↔ Differs c os e := hc.mem_list_iff hn hd e
  refine ⟨fun k o => ?_, hc.nodup_list hd, hes, fun e _ => Filter.allows_dependentChanges_iff e, ?_⟩
  · rw [observeAll_eq, system.run_append]
    have hl := get?_list (c := system.run c (attempts.flatMap Notice.attempt)) hd k o
    rwa [observeAll_eq] at hl
  · intro hr kind handler filters q hf
    have hnone : es.filter (Filter.allowsAll filters) = [] := by
      refine List.filter_eq_nil_iff.2 fun e he ha => ?_
      exact ((hes e).1 he).not_allows hr ((Filter.allowsAll_iff _ _).1 ha _ hf)
    refine ⟨hnone, ?_⟩
    show ((es.filter (Filter.allowsAll filters)).foldl _ q) = q
    rw [hnone]
    rfl

def configMap (name version value : String) : Object :=
  ⟨some ⟨"v1", "ConfigMap"⟩,
    { ObjectMeta.empty with
      name := some name
      ns := some "ns"
      resourceVersion := some version },
    [("data", .obj [("key", .str value)]), ("status", .str version)]⟩

/-- One list changes one object, leaves one out and adds one; the other list repeats both. -/
theorem list_tells_difference_config_maps :
    let c := (empty.observeAll [.applied (configMap "a" "1" "x"), .applied (configMap "b" "1" "x")]).2
    let os := [configMap "c" "3" "x", configMap "a" "2" "y"]
    let same := [configMap "b" "2" "x", configMap "a" "2" "x"]
    (∀ o ∈ os, o.key?.isSome) ∧ (os.map Object.key?).Nodup ∧
      (∀ k o, (c.observeAll (Notice.attempt [configMap "d" "1" "x"] ++ Notice.list os)).2.get? k =
        some o ↔ o ∈ os ∧ o.key? = some k) ∧
      (∀ e, e ∈ (c.observeAll (Notice.list os)).1 ↔ Differs c os e) ∧
      Repeats c same ∧
      ((⟨⟨"", "v1", "ConfigMap"⟩, .annotations "App", [.dependentChanges], c⟩ :
        ClusterWatch).deliver (Notice.list same) .empty).2 = .empty := by
  intro c os same
  have hn : ∀ o ∈ os, o.key?.isSome := by decide
  have hd : (os.map Object.key?).Nodup := by decide
  have hc : c.objects = [((some "ns", "b"), configMap "b" "1" "x"),
      ((some "ns", "a"), configMap "a" "1" "x")] := by decide
  have hr : Repeats c same := by
    constructor
    · intro o ho
      obtain rfl | rfl : o = configMap "b" "2" "x" ∨ o = configMap "a" "2" "x" := by
        simpa [same] using ho
      · exact ⟨_, configMap "b" "1" "x", rfl, by decide, rfl, rfl, by decide⟩
      · exact ⟨_, configMap "a" "1" "x", rfl, by decide, rfl, rfl, by decide⟩
    · intro k old hk
      have hm : (k, old) ∈ c.objects := mem_of_lookup hk
      obtain ⟨rfl, -⟩ | ⟨rfl, -⟩ : (k = (some "ns", "b") ∧ _) ∨ (k = (some "ns", "a") ∧ _) := by
        simpa [hc] using hm
      · exact ⟨configMap "b" "2" "x", by decide, rfl⟩
      · exact ⟨configMap "a" "2" "x", by decide, rfl⟩
  have ho := list_tells_difference
    [.applied (configMap "a" "1" "x"), .applied (configMap "b" "1" "x")]
    [[configMap "d" "1" "x"]] os hn hd
  have hs := list_tells_difference
    [.applied (configMap "a" "1" "x"), .applied (configMap "b" "1" "x")] [] same
    (by decide) (by decide)
  exact ⟨hn, hd, ho.1, ho.2.2.1, hr, (hs.2.2.2.2 hr _ _ _ _ (by decide)).2⟩

end ObjectCache
end DependentWatch
