/-! What can go wrong, as causes, and the sentence for each. -/
namespace DependentWatch

inductive DocumentFault where
  | notMapping
  | missingType
  /-- The text is no document of the format, or a field has the wrong form. -/
  | malformed
  | stated (text : String)
deriving DecidableEq

def DocumentFault.text : DocumentFault → String
  | .notMapping => "document is not a mapping"
  | .missingType => "resource missing apiVersion or kind"
  | .malformed => "malformed document"
  | .stated text => text

inductive ListFault where
  | missingItems
  | itemsNotSequence
  | itemNotMapping
  | stated (text : String)
deriving DecidableEq

def ListFault.text : ListFault → String
  | .missingItems => "missing items"
  | .itemsNotSequence => "items is not a sequence"
  | .itemNotMapping => "list item is not a mapping"
  | .stated text => text

inductive ConfigFault where
  | emptyVersion (kind : String)
  | emptyKind (group : String)
  | invertedDelays (kind : String)
  | duplicateWatch (group version kind : String)
  | ownerWithoutType
  | ownerWithoutName
  | stated (text : String)
deriving DecidableEq

def ConfigFault.text : ConfigFault → String
  | .emptyVersion kind => "watch for kind '" ++ kind ++ "' has an empty version"
  | .emptyKind group => "watch for group '" ++ group ++ "' has an empty kind"
  | .invertedDelays kind => "watch for kind '" ++ kind ++ "' has baseDelay greater than maxDelay"
  | .duplicateWatch group version kind =>
    "duplicate watch for " ++ group ++ "/" ++ version ++ " " ++ kind
  | .ownerWithoutType => "owner is missing apiVersion or kind"
  | .ownerWithoutName => "owner is missing metadata.name"
  | .stated text => text

inductive WatchError where
  | manifestParse (index : Nat) (fault : DocumentFault)
  | invalidList (index : Nat) (fault : ListFault)
  | nestedList (index : Nat)
  | kindNotFound (group kind : String) (versions : List String)
  | subscription (label text : String)
  | api (text : String)
  | invalidConfig (fault : ConfigFault)
  | serialization (text : String)
  | io (text : String)
deriving DecidableEq

namespace WatchError

def message : WatchError → String
  | manifestParse index fault =>
    "failed to parse manifest document " ++ toString index ++ ": " ++ fault.text
  | invalidList index fault =>
    "invalid List in manifest document " ++ toString index ++ ": " ++ fault.text
  | nestedList index => "nested List in manifest document " ++ toString index ++ " is not supported"
  | kindNotFound group kind versions =>
    "no matches for kind \"" ++ kind ++ "\" in group \"" ++ group ++ "\" (searched versions: "
      ++ ", ".intercalate versions ++ ")"
  | subscription label text => "failed to watch dependent kind " ++ label ++ ": " ++ text
  | api text => "Kubernetes API error: " ++ text
  | invalidConfig fault => "invalid configuration: " ++ fault.text
  | serialization text => "serialization error: " ++ text
  | io text => "IO error: " ++ text

def isKindNotFound : WatchError → Bool
  | kindNotFound .. => true
  | _ => false

/-- The errors that come from decoding a manifest. -/
def isParseError : WatchError → Bool
  | manifestParse .. | invalidList .. | nestedList .. => true
  | _ => false

end WatchError
end DependentWatch
