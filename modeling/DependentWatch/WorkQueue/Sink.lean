import DependentWatch.Handler
import DependentWatch.WorkQueue.Timed
/-! Queues of requests as sinks of handlers. -/
namespace DependentWatch.Sink

def queue : Sink (WorkQueue Request) where
  add := WorkQueue.add
  retryCount := WorkQueue.retryCount

def timed : Sink (TimedQueue Request) where
  add := TimedQueue.add
  retryCount q := q.work.retryCount

end DependentWatch.Sink
