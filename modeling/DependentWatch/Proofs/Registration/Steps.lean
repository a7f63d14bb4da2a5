import DependentWatch.Proofs.Lookup
import DependentWatch.Registration.Registrar
/-! What a step of a pass, and an answer to it, does to the pass, to the turns and to the kinds that
are registered. -/
namespace DependentWatch

theorem KindSet.mem_insert (s : KindSet) (k x : GroupVersionKind) :
    x ∈ s.insert k ↔ x = k ∨ x ∈ s := by
  unfold insert
  split
  · next h =>
    constructor
    · exact .inr
    · intro hx
      obtain rfl | hx := hx
      · exact h
      · exact hx
  · show x ∈ s.kinds ++ [k] ↔ x = k ∨ x ∈ s.kinds
    rw [List.mem_append, List.mem_singleton, or_comm]

namespace Pass

/-- The kind that a pass is about to register. It has its turn as long as there is one. -/
def kind? : Pass → Option GroupVersionKind
  | .askOwner r _ | .askDependent _ r _ => some r.gvk
  | .subscribe s _ | .subscribing s _ => some s.kind
  | .waiting | .finished _ => none

end Pass

namespace Registration
variable (g : Registration) (set : KindSet)

theorem kind?_seek {rs : List Resource} {k : GroupVersionKind} (h : (g.seek set rs).kind? = some k) :
    k ∉ set := by
  induction rs with
  | nil => simp [seek, Pass.kind?] at h
  | cons r rest ih =>
    unfold seek at h
    split at h
    · exact ih h
    · next hr =>
      obtain rfl : r.gvk = k := by simpa [Pass.kind?] using h
      exact hr

theorem seek_ne_waiting (rs : List Resource) : g.seek set rs ≠ .waiting := by
  induction rs with
  | nil => simp [seek]
  | cons r rest ih =>
    unfold seek
    split
    · exact ih
    · simp

theorem kind?_of_asked {p : Pass} {k : GroupVersionKind} (h : g.asked? p = some k) :
    p.kind?.isSome := by
  cases p with
  | askOwner r rest => rfl
  | askDependent owner r rest => rfl
  | _ => simp [asked?] at h

theorem onScope_ne_waiting {p : Pass} {k : GroupVersionKind} (h : g.asked? p = some k)
    (answer : Except WatchError Scope) : g.onScope answer p ≠ .waiting := by
  cases p with
  | askOwner r rest => cases answer <;> simp [onScope]
  | askDependent owner r rest => cases answer <;> simp [onScope]
  | _ => simp [asked?] at h

theorem kind?_onScope {answer : Except WatchError Scope} {p : Pass} {k : GroupVersionKind}
    (h : (g.onScope answer p).kind? = some k) : p.kind? = some k := by
  cases p with
  | askOwner r rest =>
    cases answer with
    | ok owner => exact h
    | error e => simp [onScope, Pass.kind?] at h
  | askDependent owner r rest =>
    cases answer with
    | ok dependent => exact h
    | error e => simp [onScope, Pass.kind?] at h
  | _ => exact h

end Registration

namespace Job

def hasTurn (j : Job) (owner : GroupVersionKind) : Bool :=
  j.pass.kind?.isSome && j.task.owner = owner

def turns (j : Job) (owner : GroupVersionKind) : Nat := if j.hasTurn owner then 1 else 0

theorem turns_eq_ite {j : Job} (h : j.pass.kind?.isSome) (o : GroupVersionKind) :
    j.turns o = if j.task.owner = o then 1 else 0 := by
  unfold turns hasTurn
  rw [h, Bool.true_and]
  by_cases ho : j.task.owner = o <;> simp [ho]

theorem turns_eq_zero {j : Job} (h : j.pass.kind? = none) (o : GroupVersionKind) :
    j.turns o = 0 := by
  simp [turns, hasTurn, h]

end Job

namespace Registrar
variable {σ : Type} (b : Backend σ) (g : Registrar σ) (j : Job)

theorem set_putSet (owner o : GroupVersionKind) (s : KindSet) :
    (g.putSet owner s).set o = if o = owner then s else g.set o := by
  simp only [set, putSet, lookup_put]
  split <;> rfl

@[simp] theorem sets_moveTo (p : Pass) : (g.moveTo j p).1.sets = g.sets := by
  cases p <;> rfl

@[simp] theorem set_moveTo (p : Pass) (o : GroupVersionKind) : (g.moveTo j p).1.set o = g.set o := by
  simp only [set, sets_moveTo]

@[simp] theorem moveTo_snd (p : Pass) : (g.moveTo j p).2 = { j with pass := p } := by
  cases p <;> rfl

theorem nodup_moveTo {g : Registrar σ} (h : g.busy.Nodup) (p : Pass) :
    (g.moveTo j p).1.busy.Nodup := by
  cases p with
  | finished result => exact h.erase _
  | _ => exact h

/-- The turn of a job is over at the end of its pass, and not before. -/
theorem count_busy_moveTo {g : Registrar σ} {j : Job} {p : Pass} (hp : p ≠ .waiting)
    (h : j.task.owner ∈ g.busy) (o : GroupVersionKind) :
    (g.moveTo j p).1.busy.count o + (if j.task.owner = o then 1 else 0) =
      g.busy.count o + (g.moveTo j p).2.turns o := by
  cases p with
  | waiting => exact absurd rfl hp
  | finished result =>
    rw [Job.turns_eq_zero rfl]
    simp only [moveTo, Nat.add_zero, List.count_erase, beq_iff_eq]
    by_cases ho : j.task.owner = o
    · have : 0 < g.busy.count o := List.count_pos_iff.2 (ho ▸ h)
      simp only [if_pos ho]
      omega
    · simp [ho]
  | _ =>
    rw [Job.turns_eq_ite rfl]
    rfl

/-! The steps at each stage. -/

variable {b g j}

theorem step_waiting (hp : j.pass = .waiting) (hb : j.task.owner ∉ g.busy) :
    g.step b j = { g with busy := j.task.owner :: g.busy }.moveTo j
      (j.task.start (g.set j.task.owner)) := by
  simp [step, hp, hb]

theorem step_asked {k : GroupVersionKind} (hk : j.task.asked? j.pass = some k) :
    g.step b j = { g with world := (b.scope g.world k).2 }.moveTo j
      (j.task.onScope (b.scope g.world k).1 j.pass) := by
  cases hp : j.pass with
  | askOwner r rest =>
    obtain rfl : j.task.owner = k := by simpa [hp, Registration.asked?] using hk
    simp [step, hp, Registration.asked?]
  | askDependent owner r rest =>
    obtain rfl : r.gvk = k := by simpa [hp, Registration.asked?] using hk
    simp [step, hp, Registration.asked?]
  | _ => simp [hp, Registration.asked?] at hk

theorem step_subscribe {s : Subscription} {rest : List Resource} (hp : j.pass = .subscribe s rest) :
    g.step b j = { g with world := b.call g.world s }.moveTo j (.subscribing s rest) := by
  simp [step, hp]

theorem step_subscribing {s : Subscription} {rest : List Resource}
    (hp : j.pass = .subscribing s rest) : g.step b j = (g, j) := by
  simp [step, hp]

theorem step_finished {result : Except WatchError Unit} (hp : j.pass = .finished result) :
    g.step b j = (g, j) := by
  simp [step, hp]

variable (b g j)

theorem step_cases :
    g.step b j = (g, j) ∨
    ∃ world p, p ≠ .waiting ∧
      (∀ k, p.kind? = some k → j.pass.kind? = some k ∨ k ∉ g.set j.task.owner) ∧
      (j.pass.kind?.isSome ∧ g.step b j = { g with world }.moveTo j p ∨
        j.pass = .waiting ∧ j.task.owner ∉ g.busy ∧
          g.step b j = { g with world, busy := j.task.owner :: g.busy }.moveTo j p) := by
  cases hk : j.task.asked? j.pass with
  | some k =>
    refine .inr ⟨_, _, ?_, ?_, .inl ⟨j.task.kind?_of_asked hk, step_asked hk⟩⟩
    · exact j.task.onScope_ne_waiting hk _
    · exact fun _ h => .inl (j.task.kind?_onScope h)
  | none =>
    cases hp : j.pass with
    | waiting =>
      by_cases hb : j.task.owner ∈ g.busy
      · exact .inl (by simp [step, hp, hb])
      · refine .inr ⟨_, _, ?_, ?_, .inr ⟨rfl, hb, step_waiting hp hb⟩⟩
        · exact j.task.seek_ne_waiting _ _
        · exact fun _ h => .inr (j.task.kind?_seek _ h)
    | subscribe s rest =>
      refine .inr ⟨_, .subscribing s rest, ?_, fun _ h => .inl h, .inl ⟨rfl, step_subscribe hp⟩⟩
      simp
    | subscribing s rest => exact .inl (step_subscribing hp)
    | finished result => exact .inl (step_finished hp)
    | _ => simp [hp, Registration.asked?] at hk

theorem set_step (o : GroupVersionKind) : (g.step b j).1.set o = g.set o := by
  obtain h | ⟨world, p, _, _, ⟨_, h⟩ | ⟨_, _, h⟩⟩ := g.step_cases b j
  · rw [h]
  · rw [h, set_moveTo]
    rfl
  · rw [h, set_moveTo]
    rfl

theorem answer_cases :
    (∀ s rest, j.pass ≠ .subscribing s rest) ∧ g.answer b j = (g, j) ∨
    ∃ s rest world, j.pass = .subscribing s rest ∧
      ((∃ e, b.answer g.world s = (.error e, world) ∧
          g.answer b j = ({ g with world }.putSet j.task.owner (g.set j.task.owner)).moveTo j
            (.finished (.error e))) ∨
        b.answer g.world s = (.ok (), world) ∧
          g.answer b j =
            ({ g with world }.putSet j.task.owner ((g.set j.task.owner).insert s.kind)).moveTo j
              (j.task.seek ((g.set j.task.owner).insert s.kind) rest)) := by
  cases hp : j.pass with
  | subscribing s rest =>
    refine .inr ⟨s, rest, (b.answer g.world s).2, rfl, ?_⟩
    cases ha : b.answer g.world s with
    | mk answer world =>
      cases answer with
      | error e => exact .inl ⟨e, rfl, by simp [answer, hp, ha, Registration.onSubscribed]⟩
      | ok u => exact .inr ⟨rfl, by simp [answer, hp, ha, Registration.onSubscribed]⟩
  | _ => exact .inl ⟨by simp, by simp [answer, hp]⟩

/-! The kind that a pass is about to register is not registered yet. -/

theorem step_fresh {g : Registrar σ} {j : Job}
    (h : ∀ k, j.pass.kind? = some k → k ∉ g.set j.task.owner) {k : GroupVersionKind}
    (hk : (g.step b j).2.pass.kind? = some k) : k ∉ (g.step b j).1.set j.task.owner := by
  rw [set_step]
  obtain hs | ⟨world, p, _, hp, ⟨_, hs⟩ | ⟨_, _, hs⟩⟩ := g.step_cases b j
  · rw [hs] at hk
    exact h k hk
  · rw [hs, moveTo_snd] at hk
    exact (hp k hk).elim (h k) id
  · rw [hs, moveTo_snd] at hk
    exact (hp k hk).elim (h k) id

theorem answer_fresh {g : Registrar σ} {j : Job}
    (h : ∀ k, j.pass.kind? = some k → k ∉ g.set j.task.owner) {k : GroupVersionKind}
    (hk : (g.answer b j).2.pass.kind? = some k) : k ∉ (g.answer b j).1.set j.task.owner := by
  obtain ⟨_, hs⟩ | ⟨s, rest, world, _, ⟨e, _, hs⟩ | ⟨_, hs⟩⟩ := g.answer_cases b j
  · rw [hs] at hk ⊢
    exact h k hk
  · rw [hs, moveTo_snd] at hk
    simp [Pass.kind?] at hk
  · rw [hs, moveTo_snd] at hk
    rw [hs, set_moveTo, set_putSet, if_pos rfl]
    exact j.task.kind?_seek _ hk

/-! The turns: whether a pass goes on or gets an answer, the owner kinds that are busy are those of
the jobs that have their turn. -/

/-- A job goes over to another one, and the turns with it. -/
structure Moves (g : Registrar σ) (j : Job) (g' : Registrar σ) (j' : Job) : Prop where
  owner : j'.task.owner = j.task.owner
  nodup : g.busy.Nodup → g'.busy.Nodup
  count (h : j.pass.kind?.isSome → j.task.owner ∈ g.busy) (o : GroupVersionKind) :
    g'.busy.count o + j.turns o = g.busy.count o + j'.turns o

theorem moves_refl : Moves g j g j := ⟨rfl, id, fun _ _ => rfl⟩

/-- A job that has its turn goes over to a later stage. -/
theorem moves_moveTo {g g' : Registrar σ} {j : Job} {p : Pass} (hb : g'.busy = g.busy)
    (hj : j.pass.kind?.isSome) (hp : p ≠ .waiting) :
    Moves g j (g'.moveTo j p).1 (g'.moveTo j p).2 where
  owner := by rw [moveTo_snd]
  nodup h := g'.nodup_moveTo j (hb ▸ h) p
  count h o := by
    rw [Job.turns_eq_ite hj, count_busy_moveTo hp (hb ▸ h hj), hb]

/-- The turn of a job that is dropped is over. -/
def release : Registrar σ :=
  if j.pass.kind?.isSome then { g with busy := g.busy.erase j.task.owner } else g

theorem count_release {g : Registrar σ} {j : Job} (h : j.pass.kind?.isSome → j.task.owner ∈ g.busy)
    (o : GroupVersionKind) : (g.release j).busy.count o + j.turns o = g.busy.count o := by
  unfold release
  split
  · next hj =>
    rw [Job.turns_eq_ite hj]
    exact count_busy_moveTo (p := .finished (.ok ())) (by simp) (h hj) o
  · next hj => rw [Job.turns_eq_zero (by simpa using hj), Nat.add_zero]

theorem step_moves : Moves g j (g.step b j).1 (g.step b j).2 := by
  obtain h | ⟨world, p, hp, _, ⟨hj, h⟩ | ⟨hj, hb, h⟩⟩ := g.step_cases b j
  · rw [h]
    exact g.moves_refl j
  · rw [h]
    exact moves_moveTo rfl hj hp
  · rw [h]
    refine ⟨by rw [moveTo_snd], fun hn => ?_, fun _ o => ?_⟩
    · exact nodup_moveTo j (List.nodup_cons.2 ⟨hb, hn⟩) p
    · have hc : _ = (j.task.owner :: g.busy).count o + _ :=
        count_busy_moveTo (g := ⟨world, g.sets, _⟩) hp List.mem_cons_self o
      have hz : j.turns o = 0 := Job.turns_eq_zero (by rw [hj]; rfl) o
      have hcons : (j.task.owner :: g.busy).count o =
          g.busy.count o + if j.task.owner = o then 1 else 0 := by
        simp [List.count_cons]
      omega

theorem answer_moves : Moves g j (g.answer b j).1 (g.answer b j).2 := by
  obtain ⟨_, h⟩ | ⟨s, rest, world, hp, ⟨e, _, h⟩ | ⟨_, h⟩⟩ := g.answer_cases b j
  · rw [h]
    exact g.moves_refl j
  · rw [h]
    exact moves_moveTo rfl (by simp [hp, Pass.kind?]) (by simp)
  · rw [h]
    exact moves_moveTo rfl (by simp [hp, Pass.kind?]) (j.task.seek_ne_waiting _ _)

end Registrar
end DependentWatch
