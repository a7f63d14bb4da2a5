import DependentWatch.Duration.Text
import DependentWatch.Object.Printer
import DependentWatch.WatchesFile
/-! Watches files as trees of fields. A selector without labels is left out. -/
namespace DependentWatch

def Backoff.toJson (b : Backoff) : Json :=
  .ofFields [("baseDelay", .str b.base.text), ("maxDelay", .str b.max.text)]

def Watch.toJson (w : Watch) : Json :=
  .ofPresent [
    ("group", some (.str w.gvk.group)),
    ("version", some (.str w.gvk.version)),
    ("kind", some (.str w.gvk.kind)),
    ("watchDependentResources", some (.bool w.watchDependents)),
    ("selector", if w.selector.isEmpty then none else some w.selector.toJson),
    ("backoff", some w.backoff.toJson)]

def WatchesFile.toJson (f : WatchesFile) : Json := .arr (f.watches.map Watch.toJson)

end DependentWatch
