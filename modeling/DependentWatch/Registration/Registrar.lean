import DependentWatch.Registration.Pass
/-! The kinds that are registered for all owner kinds, and passes that go on side by side. Passes
for one owner kind take turns. -/
namespace DependentWatch

/-- Whom passes ask. A subscription is first called for; its answer may come later. -/
structure Backend (σ : Type) where
  scope : σ → GroupVersionKind → Except WatchError Scope × σ
  call : σ → Subscription → σ
  answer : σ → Subscription → Except WatchError Unit × σ

/-- `busy` holds the owner kinds for which a pass has its turn. -/
structure Registrar (σ : Type) where
  world : σ
  sets : List (GroupVersionKind × KindSet)
  busy : List GroupVersionKind

/-- A registration with its pass. -/
structure Job where
  task : Registration
  pass : Pass

namespace Job

def start (task : Registration) : Job := ⟨task, .waiting⟩

def result? (j : Job) : Option (Except WatchError Unit) :=
  match j.pass with
  | .finished result => some result
  | _ => none

/-- A pass is at its end after so many steps. -/
def fuel (j : Job) : Nat := 4 * j.task.manifest.resources.length + 1

end Job

namespace Registrar
variable {σ : Type}

def start (world : σ) : Registrar σ := ⟨world, [], []⟩

/-- The kinds that are registered for an owner kind. -/
def set (g : Registrar σ) (owner : GroupVersionKind) : KindSet :=
  (g.sets.lookup owner).getD .empty

def putSet (g : Registrar σ) (owner : GroupVersionKind) (s : KindSet) : Registrar σ :=
  { g with sets := (owner, s) :: g.sets.filter (·.1 ≠ owner) }

/-- Goes over to a later stage of a pass; at its end the turn is over. -/
def moveTo (g : Registrar σ) (j : Job) (p : Pass) : Registrar σ × Job :=
  match p with
  | .finished _ => ({ g with busy := g.busy.erase j.task.owner }, { j with pass := p })
  | _ => (g, { j with pass := p })

/-- One step of a pass. It does not go beyond a call for a subscription. -/
def step (b : Backend σ) (g : Registrar σ) (j : Job) : Registrar σ × Job :=
  match j.pass with
  | .waiting =>
    if j.task.owner ∈ g.busy then (g, j)
    else
      { g with busy := j.task.owner :: g.busy }.moveTo j (j.task.start (g.set j.task.owner))
  | .askOwner .. | .askDependent .. =>
    match j.task.asked? j.pass with
    | some k =>
      let (answer, world) := b.scope g.world k
      { g with world }.moveTo j (j.task.onScope answer j.pass)
    | none => (g, j)
  | .subscribe s rest => { g with world := b.call g.world s }.moveTo j (.subscribing s rest)
  | .subscribing .. | .finished _ => (g, j)

/-- The answer to a call for a subscription. -/
def answer (b : Backend σ) (g : Registrar σ) (j : Job) : Registrar σ × Job :=
  match j.pass with
  | .subscribing s _ =>
    let (answer, world) := b.answer g.world s
    let (pass, set) := j.task.onSubscribed (g.set j.task.owner) answer j.pass
    ({ g with world }.putSet j.task.owner set).moveTo j pass
  | _ => (g, j)

/-- Lets a pass go on until it has to wait. Answers come at once, or only later. -/
def advance (b : Backend σ) (atOnce : Bool) (g : Registrar σ) (j : Job) : Registrar σ × Job :=
  j.fuel.repeat (fun (g, j) =>
    match j.pass with
    | .subscribing .. => if atOnce then g.answer b j else (g, j)
    | _ => g.step b j) (g, j)

/-- Gives each pass, one after the other, the answer it waits for, and lets it go on. -/
def round (b : Backend σ) (atOnce : Bool) (g : Registrar σ) :
    List Job → Registrar σ × List Job
  | [] => (g, [])
  | j :: js =>
    let (g, j) := g.answer b j
    let (g, j) := g.advance b atOnce j
    let (g, js) := g.round b atOnce js
    (g, j :: js)

/-- Rounds until all passes are at their ends, and how many came after the first. -/
def rounds (b : Backend σ) (atOnce : Bool) :
    Nat → Registrar σ → List Job → Nat × Registrar σ × List Job
  | 0, g, js => (0, g, js)
  | fuel + 1, g, js =>
    let (g, js) := g.round b atOnce js
    if js.all (·.result?.isSome) then (0, g, js)
    else
      let (n, rest) := rounds b atOnce fuel g js
      (n + 1, rest)

/-- Runs registrations side by side. -/
def run (b : Backend σ) (atOnce : Bool) (g : Registrar σ) (tasks : List Registration) :
    Nat × Registrar σ × List Job :=
  let jobs := tasks.map Job.start
  rounds b atOnce ((jobs.map Job.fuel).foldr (· + ·) 1) g jobs

end Registrar
end DependentWatch
