import DependentWatch.Proofs.ObjectCache.Notices
/-! Whoever follows the events knows the cached objects without a look at the cache. -/
namespace DependentWatch

/-- The objects as the events tell of them. -/
abbrev Replica := ObjectKey → Option Object

namespace Replica

def empty : Replica := fun _ => none

def store (r : Replica) (o : Object) : Replica := fun x => if o.key? = some x then some o else r x

def drop (r : Replica) (o : Object) : Replica := fun x => if o.key? = some x then none else r x

def follow (r : Replica) : Event → Replica
  | .create o => r.store o
  | .update _ new => r.store new
  | .delete o => r.drop o
  | .generic _ => r

def followAll (r : Replica) (es : List Event) : Replica := es.foldl follow r

theorem followAll_append (r : Replica) (es fs : List Event) :
    r.followAll (es ++ fs) = (r.followAll es).followAll fs :=
  List.foldl_append

theorem follow_congr {r s : Replica} {x : ObjectKey} (h : r x = s x) (e : Event) :
    r.follow e x = s.follow e x := by
  cases e with
  | create o => simp only [follow, store, h]
  | update old new => simp only [follow, store, h]
  | delete o => simp only [follow, drop, h]
  | generic o => exact h

theorem follow_of_ne (r : Replica) {e : Event} {x : ObjectKey} (h : e.key? ≠ some x) :
    r.follow e x = r x := by
  cases e with
  | create o => exact if_neg h
  | update old new => exact if_neg h
  | delete o => exact if_neg h
  | generic o => rfl

/-- Events of other objects leave what is known of an object. -/
theorem followAll_of_ne {es : List Event} {x : ObjectKey} (h : ∀ e ∈ es, e.key? ≠ some x)
    (r : Replica) : r.followAll es x = r x := by
  induction es generalizing r with
  | nil => rfl
  | cons e es ih =>
    have he : e.key? ≠ some x := h e List.mem_cons_self
    have hes : ∀ e ∈ es, e.key? ≠ some x := fun e hm => h e (List.mem_cons_of_mem _ hm)
    calc
      r.followAll (e :: es) x = (r.follow e).followAll es x := rfl
      _ = r.follow e x := ih hes _
      _ = r x := r.follow_of_ne he

/-- Among events of different objects, an event finds its object as it was before all of them. -/
theorem followAll_before {es before after : List Event} {e : Event} {x : ObjectKey}
    (h : (es.filterMap Event.key?).Nodup) (he : es = before ++ e :: after) (hx : e.key? = some x)
    (r : Replica) : r.followAll before x = r x :=
  followAll_of_ne (Event.key?_ne_of_nodup h he hx).1 r

/-- Among events of different objects, an object becomes what its own event makes of it. -/
theorem followAll_of_mem {es : List Event} {e : Event} {x : ObjectKey}
    (h : (es.filterMap Event.key?).Nodup) (he : e ∈ es) (hx : e.key? = some x) (r : Replica) :
    r.followAll es x = r.follow e x := by
  obtain ⟨before, after, hes⟩ := List.append_of_mem he
  have hafter := (Event.key?_ne_of_nodup h hes hx).2
  calc
    r.followAll es x = ((r.followAll before).follow e).followAll after x := by
      rw [hes, followAll_append]
      rfl
    _ = (r.followAll before).follow e x := followAll_of_ne hafter _
    _ = r.follow e x := follow_congr (followAll_before h hes hx r) e

end Replica

namespace ObjectCache
variable {c : ObjectCache}

theorem follow_apply (c : ObjectCache) (o : Object) :
    Replica.follow c.get? (c.apply o).1 = (c.apply o).2.get? := by
  funext x
  rw [get?_apply]
  obtain ⟨h, ha⟩ | ⟨k, h, _, ha⟩ | ⟨k, old, h, _, ha⟩ := c.apply_cases o
  · simp [ha, Replica.follow, h]
  · simp only [ha, Replica.follow, Replica.store]
  · simp only [ha, Replica.follow, Replica.store]

theorem Keyed.followAll_listEnd (h : Keyed c) :
    Replica.followAll c.get? (c.observe .listEnd).1 = (c.observe .listEnd).2.get? := by
  cases hs : c.seen with
  | none =>
    rw [observe_listEnd_none hs]
    rfl
  | some keys =>
    funext x
    rw [get?_listEnd hs]
    -- An object that was listed, or was not there, has no event; any other has its deletion.
    by_cases hx : x ∈ keys ∨ c.get? x = none
    · have hne : ∀ e ∈ (c.observe .listEnd).1, e.key? ≠ some x := by
        intro e he hk
        obtain ⟨k, o, hc, hn, rfl⟩ := (h.mem_listEnd_iff hs e).1 he
        have hkx : k = x := Option.some.inj ((h.key?_of_get? hc).symm.trans hk)
        rw [hkx] at hc hn
        obtain hx | hx := hx
        · exact hn hx
        · exact nomatch hc.symm.trans hx
      rw [Replica.followAll_of_ne hne]
      split
      · rfl
      · next hn => exact hx.resolve_left hn
    · obtain ⟨hn, hx⟩ := not_or.1 hx
      obtain ⟨o, ho⟩ := Option.ne_none_iff_exists'.1 hx
      have hd : .delete o ∈ (c.observe .listEnd).1 := (h.mem_listEnd_iff hs _).2 ⟨x, o, ho, hn, rfl⟩
      have hk : o.key? = some x := h.key?_of_get? ho
      rw [Replica.followAll_of_mem (h.nodup_keys _) hd hk, if_neg hn]
      exact if_pos hk

theorem Keyed.followAll_observe (h : Keyed c) (n : Notice) :
    Replica.followAll c.get? (c.observe n).1 = (c.observe n).2.get? := by
  cases n with
  | listStart => rfl
  | listed o =>
    rw [observe_listed]
    exact c.follow_apply o
  | listEnd => exact h.followAll_listEnd
  | applied o => exact c.follow_apply o
  | deleted o =>
    funext x
    exact (c.get?_deleted o x).symm

/-- An object that is put into the cache makes the only event of its notice. -/
theorem eq_apply_of_mem {n : Notice} {e : Event} (h : e ∈ (c.observe n).1)
    (hd : ∀ o, e ≠ .delete o) : ∃ o, e = (c.apply o).1 := by
  cases n with
  | listStart => cases h
  | listed o =>
    rw [observe_listed] at h
    exact ⟨o, List.mem_singleton.1 h⟩
  | listEnd =>
    cases hs : c.seen with
    | none =>
      rw [observe_listEnd_none hs] at h
      cases h
    | some keys =>
      rw [observe_listEnd hs] at h
      obtain ⟨g, _, rfl⟩ := List.mem_map.1 h
      exact absurd rfl (hd g.2)
  | applied o => exact ⟨o, List.mem_singleton.1 h⟩
  | deleted o => exact absurd (List.mem_singleton.1 h) (hd o)

theorem get?_of_create {n : Notice} {o : Object} (h : .create o ∈ (c.observe n).1) :
    ∃ k, o.key? = some k ∧ c.get? k = none := by
  obtain ⟨p, hp⟩ := eq_apply_of_mem h (by simp)
  obtain ⟨_, ha⟩ | ⟨k, hk, hc, ha⟩ | ⟨k, old, _, _, ha⟩ := c.apply_cases p
  · simp [ha] at hp
  · obtain rfl : o = p := by simpa [ha] using hp
    exact ⟨k, hk, hc⟩
  · simp [ha] at hp

theorem get?_of_update {n : Notice} {old new : Object} (h : .update old new ∈ (c.observe n).1) :
    ∃ k, new.key? = some k ∧ c.get? k = some old := by
  obtain ⟨p, hp⟩ := eq_apply_of_mem h (by simp)
  obtain ⟨_, ha⟩ | ⟨k, _, _, ha⟩ | ⟨k, o, hk, hc, ha⟩ := c.apply_cases p
  · simp [ha] at hp
  · simp [ha] at hp
  · obtain ⟨rfl, rfl⟩ : old = o ∧ new = p := by simpa [ha] using hp
    exact ⟨k, hk, hc⟩

theorem Keyed.get?_of_delete (h : Keyed c) {o : Object} (hd : .delete o ∈ (c.observe .listEnd).1) :
    ∃ k, o.key? = some k ∧ c.get? k = some o := by
  cases hs : c.seen with
  | none =>
    rw [observe_listEnd_none hs] at hd
    cases hd
  | some keys =>
    obtain ⟨k, p, hp, _, he⟩ := (h.mem_listEnd_iff hs _).1 hd
    obtain rfl : o = p := by simpa using he
    exact ⟨k, h.key?_of_get? hp, hp⟩

/-- What is known from the events of a run is what is cached after it. -/
theorem followAll_run (ns : List Notice) :
    Replica.empty.followAll (system.log .empty ns) = (system.run .empty ns).get? := by
  have keep : ∀ (c : ObjectCache) log n, Keyed c ∧ Replica.empty.followAll log = c.get? → True →
      Keyed (c.observe n).2 ∧
        Replica.empty.followAll (log ++ (c.observe n).1) = (c.observe n).2.get? := by
    intro c log n hc _
    refine ⟨hc.1.observe n, ?_⟩
    rw [Replica.followAll_append, hc.2, hc.1.followAll_observe]
  have start : Keyed .empty ∧ Replica.empty.followAll [] = ObjectCache.empty.get? :=
    ⟨.empty, rfl⟩
  exact (system.invariant keep start (system.throughout_of_forall (fun _ _ _ => trivial) .empty)).2

/-- After any notices, what is known from the events alone is what is cached. The events of the next
notice fit to it: an object is created where there was none, updated from the one that was there,
and deleted at the end of a list as it was there; and no two events are about the same object. -/
theorem events_tell_the_cache (ns : List Notice) (n : Notice) :
    let c := (empty.observeAll ns).2
    let r := Replica.empty.followAll (empty.observeAll ns).1
    let es := (c.observe n).1
    r = c.get? ∧
    (∀ o, BeforeEach (.create o) (fun before =>
      ∃ k, o.key? = some k ∧ r.followAll before k = none) es) ∧
    (∀ old new, BeforeEach (.update old new) (fun before =>
      ∃ k, old.key? = some k ∧ new.key? = some k ∧ r.followAll before k = some old) es) ∧
    (∀ o, BeforeEach (.delete o) (fun before =>
      ∃ k, o.key? = some k ∧ r.followAll before k = some o) (c.observe .listEnd).1) ∧
    (es.filterMap Event.key?).Nodup := by
  intro c r es
  have hc : Keyed c := keyed_observeAll ns
  have hr : r = c.get? := by
    simp only [r, c, observeAll_eq]
    exact followAll_run ns
  have hes : (es.filterMap Event.key?).Nodup := hc.nodup_keys n
  refine ⟨hr, ?_, ?_, ?_, hes⟩
  · intro o before after he
    obtain ⟨k, hk, hn⟩ := get?_of_create (c := c) (n := n) (he ▸ List.mem_append_cons_self)
    refine ⟨k, hk, ?_⟩
    rw [Replica.followAll_before hes he hk, hr, hn]
  · intro old new before after he
    obtain ⟨k, hk, ho⟩ := get?_of_update (c := c) (n := n) (he ▸ List.mem_append_cons_self)
    refine ⟨k, hc.key?_of_get? ho, hk, ?_⟩
    rw [Replica.followAll_before hes he hk, hr, ho]
  · intro o before after he
    obtain ⟨k, hk, ho⟩ := hc.get?_of_delete (o := o) (he ▸ List.mem_append_cons_self)
    refine ⟨k, hk, ?_⟩
    rw [Replica.followAll_before (hc.nodup_keys .listEnd) he hk, hr, ho]

end ObjectCache
end DependentWatch
