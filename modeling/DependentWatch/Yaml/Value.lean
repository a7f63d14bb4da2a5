import DependentWatch.Binary64
/-! Values with their tags. -/
namespace DependentWatch.Yaml

inductive Value where
  | null
  | bool (b : Bool)
  | int (n : Int)
  | float (x : Binary64)
  | str (s : String)
  | sequence (items : List Value)
  | mapping (entries : List (Value × Value))
  | tagged (tag : String) (value : Value)

namespace Value

instance : Inhabited Value := ⟨null⟩

mutual
/-- Two mappings are the same with their entries in any order. -/
def same : Value → Value → Bool
  | null, null => true
  | bool a, bool b => a == b
  | int a, int b => a == b
  | float a, float b => a == b
  | str a, str b => a == b
  | sequence a, sequence b => sameItems a b
  | mapping a, mapping b => a.length == b.length && sameEntries a b
  | tagged s a, tagged t b => s == t && same a b
  | _, _ => false
def sameItems : List Value → List Value → Bool
  | [], [] => true
  | a :: as, b :: bs => same a b && sameItems as bs
  | _, _ => false
def sameEntries : List (Value × Value) → List (Value × Value) → Bool
  | [], _ => true
  | (k, v) :: es, fs => (fs.any fun f => same k f.1 && same v f.2) && sameEntries es fs
end

/-- A key that an earlier entry has. -/
def hasDuplicate : List (Value × Value) → Bool
  | [] => false
  | (k, _) :: es => es.any (fun e => same k e.1) || hasDuplicate es

/-- What stands behind the tags. -/
def untagged : Value → Value
  | tagged _ v => untagged v
  | v => v

end Value

end DependentWatch.Yaml
