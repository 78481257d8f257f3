import Pipewright.Transforms.Aggregate
import Pipewright.Transforms.Registry
import Pipewright.Transforms.Texts

/-!
# Transforms and catalogs

The transforms that are there from the start. A registry may give any of them a name other than its own; the
transform then still speaks of itself in its errors. A catalog is a registry of these and of others that know as
little as they do of the limits of a run.
-/
namespace Pipewright

/-- The transforms that are there from the start. -/
inductive Transform where
  | filter
  | map
  | pluck
  | unique
  | sort
  | reverse
  | slice
  | chunk
  | flatten
  | merge
  | first
  | last
  | keys
  | values
  | groupBy
  | count
  | sum
  | average
  | min
  | max
  | join
  | split
  | trim
  | uppercase
  | lowercase
deriving DecidableEq

namespace Transform

def all : List Transform :=
  [.filter, .map, .pluck, .unique, .sort, .reverse, .slice, .chunk, .flatten, .merge, .first, .last, .keys,
   .values, .groupBy, .count, .sum, .average, .min, .max, .join, .split, .trim, .uppercase, .lowercase]

def name : Transform → String
  | .filter => "filter"
  | .map => "map"
  | .pluck => "pluck"
  | .unique => "unique"
  | .sort => "sort"
  | .reverse => "reverse"
  | .slice => "slice"
  | .chunk => "chunk"
  | .flatten => "flatten"
  | .merge => "merge"
  | .first => "first"
  | .last => "last"
  | .keys => "keys"
  | .values => "values"
  | .groupBy => "group_by"
  | .count => "count"
  | .sum => "sum"
  | .average => "average"
  | .min => "min"
  | .max => "max"
  | .join => "join"
  | .split => "split"
  | .trim => "trim"
  | .uppercase => "uppercase"
  | .lowercase => "lowercase"

/-- The result of a transform. The input is looked at before the parameters. -/
def apply (params : Transforms.Params) (data : Value) : Transform → Except Transforms.Fault Value
  | .filter => do return .arr (← Transforms.filter params (← Transforms.array data))
  | .map => do return .arr (← Transforms.map params (← Transforms.array data))
  | .pluck => do return .arr (← Transforms.pluck params (← Transforms.array data))
  | .unique => do return .arr (Transforms.unique params (← Transforms.array data))
  | .sort => do return .arr (← Transforms.sort params (← Transforms.array data))
  | .reverse => do return .arr (← Transforms.array data).reverse
  | .slice => do return .arr (← Transforms.slice params (← Transforms.array data))
  | .chunk => do return .arr (← Transforms.chunk params (← Transforms.array data))
  | .flatten => do return .arr (← Transforms.flatten params (← Transforms.array data))
  | .merge => Transforms.merge params data
  | .first => do return (← Transforms.array data).head?.getD .null
  | .last => do return (← Transforms.array data).getLast?.getD .null
  | .keys => Transforms.keys data
  | .values => Transforms.values data
  | .groupBy => do Transforms.groupBy params (← Transforms.array data)
  | .count => .ok (.nat (Transforms.count data))
  | .sum => do return Transforms.sum (Transforms.operands params (← Transforms.array data))
  | .average => do return Transforms.average (Transforms.operands params (← Transforms.array data))
  | .min => do return Transforms.pick Transforms.lesser (Transforms.operands params (← Transforms.array data))
  | .max => do return Transforms.pick Transforms.greater (Transforms.operands params (← Transforms.array data))
  | .join => do return Transforms.join params (← Transforms.array data)
  | .split => do return .arr (← Transforms.split params (← Transforms.string data))
  | .trim => do return .str (String.ofList (Transforms.trim params (← Transforms.string data)))
  | .uppercase => do return .str (String.ofList (Text.uppercase (← Transforms.string data)))
  | .lowercase => do return .str (String.ofList (Text.lowercase (← Transforms.string data)))

/-- The function that a registry holds for the transform. -/
def run (t : Transform) : TransformFn := fun data params =>
  (t.apply params data).mapError (Transforms.Fault.toError t.name)

/-- Every transform under its own name. -/
def table : Fields Transform := all.foldl (fun table t => Fields.insert t.name t table) []

end Transform

theorem Transforms.Fault.toError_isFatal (transform : String) (fault : Fault) :
    (fault.toError transform).isFatal = false := by
  cases fault <;> rfl

theorem Transform.isFatal_of_run {t : Transform} {data : Value} {params : Transforms.Params} {error : RunError}
    (h : t.run data params = .error error) : error.isFatal = false := by
  rw [run] at h
  cases hresult : t.apply params data with
  | ok v =>
    rw [hresult] at h
    cases h
  | error fault =>
    rw [hresult] at h
    cases h
    exact fault.toError_isFatal t.name

/-- A registry of transforms that fail for ordinary reasons only: the limits of a run are not theirs to raise. -/
structure Catalog where
  registry : Registry
  ordinary : ∀ entry ∈ registry, ∀ data params error, entry.2 data params = .error error → error.isFatal = false

namespace Catalog

/-- Transforms of the start, each under a name that is chosen for it. -/
def of (transforms : Fields Transform) : Catalog where
  registry := transforms.map fun entry => (entry.1, entry.2.run)
  ordinary := by
    intro entry hentry data params error herror
    obtain ⟨_, -, rfl⟩ := List.mem_map.mp hentry
    exact Transform.isFatal_of_run herror

def empty : Catalog := of []

/-- Every transform of the start under its own name. -/
def builtin : Catalog := of Transform.table

/-- The names in order. -/
def names (catalog : Catalog) : List String := catalog.registry.names

/-- Applies the transform of a name. -/
def run (catalog : Catalog) : String → Value → Transforms.Params → Except RunError Value := catalog.registry.run

/-- Under a name that was chosen for it, a transform of the start is what is applied. -/
theorem run_of (transforms : Fields Transform) (name : String) (data : Value) (params : Transforms.Params) :
    (of transforms).run name data params =
      match Fields.get? name transforms with
      | none => .error (.unknownTransform name)
      | some t => t.run data params := by
  rw [run, Registry.run, of, Fields.get?_map Transform.run]
  cases Fields.get? name transforms <;> rfl

theorem names_of (transforms : Fields Transform) : (of transforms).names = Fields.keys transforms := by
  rw [names, Registry.names, of, Fields.keys, List.map_map]
  rfl

end Catalog

end Pipewright
