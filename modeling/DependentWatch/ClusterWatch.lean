import DependentWatch.Discovery
import DependentWatch.ObjectCache
import DependentWatch.WorkQueue.Sink
/-! Watches of a cluster. Their events pass filters and go through a handler into one queue; owners
with a retry are left out. -/
namespace DependentWatch

structure ClusterWatch where
  kind : GroupVersionKind
  handler : Handler
  filters : List Filter
  cache : ObjectCache

namespace ClusterWatch

/-- Handles the events that pass all filters. -/
def handleAll (w : ClusterWatch) (events : List Event) (q : WorkQueue Request) :
    WorkQueue Request :=
  (events.filter (Filter.allowsAll w.filters)).foldl
    (fun q e => Sink.queue.skipRetried.handle w.handler e q) q

def deliver (w : ClusterWatch) (notices : List Notice) (q : WorkQueue Request) :
    ClusterWatch × WorkQueue Request :=
  let (events, cache) := w.cache.observeAll notices
  ({ w with cache }, w.handleAll events q)

end ClusterWatch

/-- The watches that run, and the queue they feed. -/
structure ClusterRegistry where
  api : List ApiGroup
  watches : List ClusterWatch
  queue : WorkQueue Request

namespace ClusterRegistry

def start (api : List ApiGroup) : ClusterRegistry := ⟨api, [], .empty⟩

/-- A kind can be watched in a version that serves it. -/
def serves (g : ClusterRegistry) (k : GroupVersionKind) : Bool :=
  g.api.any fun group => group.group = k.group && group.versions.any fun v =>
    v.version = k.version && v.kinds.any (·.1 = k.kind)

/-- Starts a watch, which lists the objects that there are. -/
def subscribe (g : ClusterRegistry) (k : GroupVersionKind) (h : Handler) (filters : List Filter)
    (objects : List Object) : Except WatchError Unit × ClusterRegistry :=
  if g.serves k then
    let w : ClusterWatch := ⟨k, h, filters, .empty⟩
    let (w, queue) := w.deliver (Notice.list objects) g.queue
    (.ok (), { g with watches := g.watches ++ [w], queue })
  else (.error (.subscription k.label ""), g)

/-- All watches of a kind get these notices. -/
def deliver (g : ClusterRegistry) (k : GroupVersionKind) (notices : List Notice) :
    ClusterRegistry :=
  let (watches, queue) := g.watches.foldl (fun (done, q) w =>
    if w.kind = k then
      let (w, q) := w.deliver notices q
      (done ++ [w], q)
    else (done ++ [w], q)) ([], g.queue)
  { g with watches, queue }

def shutDown (g : ClusterRegistry) : ClusterRegistry := { g with watches := [] }

/-- Takes all requests out of the queue, and is done with each. -/
def drain (g : ClusterRegistry) : List Request × ClusterRegistry :=
  let (requests, queue) := g.queue.queue.length.repeat (fun (done, q) =>
    match q.take with
    | (.item r, q) => (done ++ [r], q.done r)
    | (_, q) => (done, q)) (([] : List Request), g.queue)
  (requests, { g with queue })

end ClusterRegistry
end DependentWatch
