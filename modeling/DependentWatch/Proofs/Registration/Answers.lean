import DependentWatch.Proofs.History
import DependentWatch.Proofs.Registration.Reports
/-! Registrations where every answer depends only on the kind that is asked for: what they come to
for one owner kind depends on nothing but the kinds that are registered for it. -/
namespace DependentWatch

/-- An answer for each kind: its scope, and whether a subscription to it is made. -/
structure Answers where
  scope : GroupVersionKind → Except WatchError Scope
  subscription : GroupVersionKind → Except WatchError Unit

namespace Answers

/-- The backend that gives these answers, whatever happened before. -/
def backend (a : Answers) : Backend Unit where
  scope _ k := (a.scope k, ())
  call _ _ := ()
  answer _ s := (a.subscription s.kind, ())

/-- What a table of scopes and a recorder answer as long as nothing is added and no other kinds are
refused. -/
def recorded (t : ScopeTable) (r : Recorder) : Answers where
  scope := t.answer
  subscription k :=
    match r.refused.lookup k with
    | some reason => .error (.subscription k.label reason)
    | none => .ok ()

end Answers

/-- A backend gives these answers as long as its world has a property that no question changes. -/
structure Backend.Gives {σ : Type} (b : Backend σ) (a : Answers) (P : σ → Prop) : Prop where
  scope {w : σ} (h : P w) (k : GroupVersionKind) : ∃ w', b.scope w k = (a.scope k, w') ∧ P w'
  call {w : σ} (h : P w) (s : Subscription) : P (b.call w s)
  answer {w : σ} (h : P w) (s : Subscription) :
    ∃ w', b.answer w s = (a.subscription s.kind, w') ∧ P w'

theorem Backend.Gives.noting {σ : Type} {b : Backend σ} {a : Answers} {P : σ → Prop}
    (hb : b.Gives a P) : b.noting.Gives a fun w => P w.1 where
  scope {w} h k := by
    obtain ⟨w', hs, hw⟩ := hb.scope h k
    exact ⟨(w', w.2), by simp [Backend.noting, hs], hw⟩
  call h s := hb.call h s
  answer {w} h s := by
    obtain ⟨w', ha, hw⟩ := hb.answer h s
    refine ⟨((b.noting.answer w s).2.1, (b.noting.answer w s).2.2), ?_, ?_⟩
    · simp [Backend.noting, ha]
    · simpa [Backend.noting, ha] using hw

/-- Neither a question nor a subscription changes the table or the refused kinds. -/
theorem Backend.recording_gives (t : ScopeTable) (r : Recorder) :
    Backend.recording.Gives (.recorded t r)
      fun w => w.1.kinds = t.kinds ∧ w.2.refused = r.refused where
  scope {w} h k := by
    have hk : w.1.answer k = t.answer k := by
      simp only [ScopeTable.answer, ScopeTable.scope?, ScopeTable.versions, h.1]
    exact ⟨_, congrArg (·, _) hk, h⟩
  call h _ := h
  answer {w} h s := by
    have ha : Backend.recording.answer w s = ((w.2.answer s).1, w.1, (w.2.answer s).2) := rfl
    rw [ha]
    simp only [Recorder.answer, Answers.recorded, h.2]
    cases r.refused.lookup s.kind with
    | none => exact ⟨_, rfl, h.1, rfl⟩
    | some reason => exact ⟨_, rfl, h⟩

def Query.subscription? : Query → Option Subscription
  | .lookup _ => none
  | .subscribe s => some s

namespace Outcome
variable {σ : Type}

/-- The subscriptions that are called for. -/
def calls (o : Outcome σ) : List Subscription := o.queries.filterMap Query.subscription?

theorem calls_after (queries : List Query) (o : Outcome σ) :
    (o.after queries).calls = queries.filterMap Query.subscription? ++ o.calls :=
  List.filterMap_append

/-- Two outcomes are the same but for the world, and the world has a property. -/
def Matches (P : σ → Prop) (o : Outcome σ) (o' : Outcome Unit) : Prop :=
  o.result = o'.result ∧ o.set = o'.set ∧ o.queries = o'.queries ∧ P o.world

theorem Matches.after {P : σ → Prop} {o : Outcome σ} {o' : Outcome Unit} (h : Matches P o o')
    (queries : List Query) : Matches P (o.after queries) (o'.after queries) :=
  ⟨h.1, h.2.1, congrArg (queries ++ ·) h.2.2.1, h.2.2.2⟩

end Outcome

namespace Registration
variable {σ : Type} {b : Backend σ} {a : Answers} {P : σ → Prop}

theorem outcome_gives (hb : b.Gives a P) (g : Registration) (world : σ) (h : P world)
    (set : KindSet) (rs : List Resource) :
    (g.outcome b world set rs).Matches P (g.outcome a.backend () set rs) := by
  induction rs generalizing world set with
  | nil =>
    unfold outcome
    cases g.manifest.error <;> exact ⟨rfl, rfl, rfl, h⟩
  | cons r rest ih =>
    by_cases hr : r.gvk ∈ set
    · rw [outcome, if_pos hr, outcome, if_pos hr]
      exact ih _ h set
    · rw [g.outcome_cons b hr, g.outcome_cons a.backend hr, fromOwner, fromOwner]
      obtain ⟨world, hs, hw⟩ := hb.scope h g.owner
      simp only [hs, Answers.backend]
      cases a.scope g.owner with
      | error e => exact ⟨rfl, rfl, rfl, hw⟩
      | ok owner =>
      refine .after ?_ _
      obtain ⟨world, hs, hw⟩ := hb.scope hw r.gvk
      simp only [fromDependent, hs]
      cases a.scope r.gvk with
      | error e => exact ⟨rfl, rfl, rfl, hw⟩
      | ok dependent =>
      refine .after (.after ?_ _) _
      have hc := hb.call hw (g.subscription owner dependent r)
      obtain ⟨world, hs, hw⟩ := hb.answer hc (g.subscription owner dependent r)
      simp only [fromAnswer, hs]
      cases a.subscription _ with
      | error e => exact ⟨rfl, rfl, rfl, hw⟩
      | ok u => exact ih _ hw _

end Registration

/-- What the registrations for one owner kind come to: their results, the kinds that are registered
then, and the subscriptions that they call for. -/
structure Upshot where
  results : List (Option (Except WatchError Unit))
  set : KindSet
  calls : List Subscription
deriving DecidableEq

/-- The upshot when these subscriptions were called for before. -/
def Upshot.after (calls : List Subscription) (u : Upshot) : Upshot :=
  { u with calls := calls ++ u.calls }

namespace Answers
variable (a : Answers)

/-- What is left of a job when these kinds are registered. -/
def rest (set : KindSet) (j : Job) : Outcome Unit := j.task.remaining a.backend () set j.pass

/-- What the jobs of one owner kind come to, one after the other. -/
def upshot (set : KindSet) : List Job → Upshot
  | [] => ⟨[], set, []⟩
  | j :: js =>
    let o := a.rest set j
    let u := upshot o.set js
    ⟨some o.result :: u.results, u.set, o.calls ++ u.calls⟩

end Answers

/-- The subscriptions that a registration called for. -/
def Report.calls (r : Report) : List Subscription := r.queries.filterMap Query.subscription?

namespace Registrar
variable {σ : Type} {b : Backend σ} {a : Answers} {P : σ → Prop}

/-- Registrations one after the other. -/
def oneByOne (b : Backend σ) (atOnce : Bool) : System (Registrar σ) Registration Report where
  step g task := (g.report b atOnce task).2
  marks g task := [(g.report b atOnce task).1]

theorem report_gives (hb : b.Gives a P) (atOnce : Bool) {g : Registrar σ} {task : Registration}
    (free : task.owner ∉ g.busy) (world : P g.world) :
    let o := a.rest (g.set task.owner) (.start task)
    (g.report b atOnce task).1.owner = task.owner ∧
    (g.report b atOnce task).1.result = some o.result ∧
    (g.report b atOnce task).1.calls = o.calls ∧
    P (g.report b atOnce task).2.world ∧
    (∀ owner, (g.report b atOnce task).2.set owner =
      if owner = task.owner then o.set else g.set owner) ∧
    (g.report b atOnce task).2.busy = g.busy := by
  intro o
  obtain ⟨hr, hw, hset, hbusy⟩ := g.report_eq b atOnce free
  have ho : Outcome.Matches _ _ o :=
    task.outcome_gives hb.noting (g.world, []) world (g.set task.owner)
      task.manifest.resources
  obtain ⟨hres, hos, hq, hp⟩ := ho
  refine ⟨?_, ?_, ?_, ?_, ?_, hbusy⟩
  · rw [hr]
  · rw [hr, hres]
  · rw [hr]
    exact congrArg (·.filterMap Query.subscription?) hq
  · rw [hw]
    exact hp
  · intro owner
    rw [hset, hos]

/-- Registrations one after the other, for whatever owner kinds, come to the upshot of those for
each owner kind. -/
theorem oneByOne_upshot (hb : b.Gives a P) (atOnce : Bool) {g : Registrar σ} (free : g.busy = [])
    (world : P g.world) (tasks : List Registration) (o : GroupVersionKind) :
    let reports := ((oneByOne b atOnce).log g tasks).filter (·.owner = o)
    a.upshot (g.set o) ((tasks.filter (·.owner = o)).map .start) =
      ⟨reports.map (·.result), ((oneByOne b atOnce).run g tasks).set o,
        reports.flatMap (·.calls)⟩ := by
  induction tasks generalizing g with
  | nil => rfl
  | cons task tasks ih =>
    have hfree : task.owner ∉ g.busy := by simp [free]
    obtain ⟨hown, hres, hcalls, hw, hset, hbusy⟩ := report_gives hb atOnce hfree world
    have hrest := ih (hbusy.trans free) hw
    have hlog : (oneByOne b atOnce).log g (task :: tasks) =
        (g.report b atOnce task).1 :: (oneByOne b atOnce).log (g.report b atOnce task).2 tasks := rfl
    have hrun : (oneByOne b atOnce).run g (task :: tasks) =
        (oneByOne b atOnce).run (g.report b atOnce task).2 tasks := rfl
    rw [hset] at hrest
    simp only [hlog, hrun, List.filter_cons, hown]
    by_cases ho : task.owner = o
    · subst ho
      rw [if_pos rfl] at hrest
      simp only [decide_true, if_true, List.map_cons, List.flatMap_cons, Answers.upshot, hres,
        hcalls]
      dsimp only at hrest
      rw [hrest]
    -- A registration for another owner kind leaves the kinds of this one as they are.
    · rw [if_neg (Ne.symm ho)] at hrest
      simpa [ho] using hrest

end Registrar
end DependentWatch
