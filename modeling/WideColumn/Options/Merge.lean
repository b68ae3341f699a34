import WideColumn.Options.Shape
import WideColumn.Request

/-!
# Options on requests

Every kind of request lists the options that it accepts: for each a key, the shape that the value
must have, and the field that it sets. `merge` applies a list of options to a request in order.
Absent values and keys that the request does not list are passed over; the first value of a wrong
shape is the error.
-/

namespace WideColumn

/-- An option that a record accepts. -/
structure Setting (ρ : Type) where
  /-- The key. -/
  key : String
  /-- Read a value and set the field. -/
  apply : OptionValue → ρ → Except Error ρ

/-- The option `key` whose value, once read, is put into a record. -/
def Setting.of {ρ α : Type} (key : String) (read : String → OptionValue → Except Error α)
    (put : ρ → α → ρ) : Setting ρ :=
  ⟨key, fun v r => (read key v).map (put r)⟩

/-- Records that accept options. -/
class Configurable (ρ : Type) where
  /-- The options accepted. -/
  settings : List (Setting ρ)

namespace Configurable

variable {ρ : Type} [Configurable ρ]

/-- The keys of the options accepted, in order. -/
def keys (ρ : Type) [Configurable ρ] : List String := (settings (ρ := ρ)).map (·.key)

/-- The option of a key. -/
def setting? (key : String) : Option (Setting ρ) := settings.find? fun s => s.key == key

/-- Apply one option. -/
def applyOption (record : ρ) (option : String × OptionValue) : Except Error ρ :=
  if option.2.isAbsent then .ok record
  else
    match setting? option.1 with
    | none => .ok record
    | some s => s.apply option.2 record

end Configurable

/-- Apply options to a record in order, so that of several values of a key the last counts. -/
def merge {ρ : Type} [Configurable ρ] (record : ρ) (options : OptionList) : Except Error ρ :=
  options.entries.foldlM Configurable.applyOption record

/-! ### The options of each record -/

/-- A reader that needs no key for its error. -/
def keyless {α : Type} (read : OptionValue → Except Error α) (_ : String) (v : OptionValue) :
    Except Error α := read v

open Setting Shape

instance : Configurable GetRow where
  settings := [
    of "columns_to_get" columns fun r x => { r with columns := x },
    of "max_versions" integer fun r x => { r with maxVersions := some x },
    of "time_range" (keyless timeRange) fun r x => { r with timeRange := some x },
    of "filter" filter fun r x => { r with filter := some x },
    of "start_column" text fun r x => { r with startColumn := some x },
    of "end_column" text fun r x => { r with endColumn := some x },
    of "transaction_id" text fun r x => { r with transaction := some x }]

instance : Configurable PutRow where
  settings := [
    of "condition" condition fun r x => { r with condition := x },
    of "return_type" (keyless returnType) fun r x => { r with returnType := x },
    of "transaction_id" text fun r x => { r with transaction := some x }]

instance : Configurable UpdateRow where
  settings := [
    of "condition" condition fun r x => { r with condition := x },
    of "return_type" (keyless returnType) fun r x => { r with returnType := x },
    of "return_columns" columns fun r x => { r with returnColumns := x },
    of "transaction_id" text fun r x => { r with transaction := some x }]

instance : Configurable DeleteRow where
  settings := [
    of "condition" condition fun r x => { r with condition := x },
    of "return_type" (keyless returnType) fun r x => { r with returnType := x },
    of "transaction_id" text fun r x => { r with transaction := some x }]

instance : Configurable GetRange where
  settings := [
    of "direction" (keyless direction) fun r x => { r with direction := x },
    of "columns_to_get" columns fun r x => { r with columns := x },
    of "max_versions" integer fun r x => { r with maxVersions := some x },
    of "time_range" (keyless timeRange) fun r x => { r with timeRange := some x },
    of "limit" integer fun r x => { r with limit := some x },
    of "filter" filter fun r x => { r with filter := some x },
    of "start_column" text fun r x => { r with startColumn := some x },
    of "end_column" text fun r x => { r with endColumn := some x },
    of "transaction_id" text fun r x => { r with transaction := some x }]

instance : Configurable CreateTable where
  settings := [
    of "reserved_throughput_read" integer fun r x => { r with reserved.read := x },
    of "reserved_throughput_write" integer fun r x => { r with reserved.write := x },
    of "time_to_live" integer fun r x => { r with options.timeToLive := some x },
    of "max_versions" integer fun r x => { r with options.maxVersions := some x },
    of "deviation_cell_version_in_sec" integer fun r x => { r with options.deviation := some x },
    of "allow_update" flag fun r x => { r with options.allowUpdate := some x },
    of "stream_spec" streamSpec fun r x => { r with stream := some x },
    of "defined_columns" records fun r x => { r with columns := x },
    of "index_metas" records fun r x => { r with indexes := x }]

instance : Configurable UpdateTable where
  settings := [
    of "reserved_throughput_read" integer fun r x => { r with reservedRead := some x },
    of "reserved_throughput_write" integer fun r x => { r with reservedWrite := some x },
    of "time_to_live" integer fun r x => { r with options.timeToLive := some x },
    of "max_versions" integer fun r x => { r with options.maxVersions := some x },
    of "deviation_cell_version_in_sec" integer fun r x => { r with options.deviation := some x },
    of "allow_update" flag fun r x => { r with options.allowUpdate := some x },
    of "stream_spec" streamSpec fun r x => { r with stream := some x }]

instance : Configurable RowsQuery where
  settings := [
    of "columns_to_get" columns fun r x => { r with columns := x },
    of "max_versions" integer fun r x => { r with maxVersions := some x },
    of "time_range" (keyless timeRange) fun r x => { r with timeRange := some x },
    of "filter" filter fun r x => { r with filter := some x },
    of "start_column" text fun r x => { r with startColumn := some x },
    of "end_column" text fun r x => { r with endColumn := some x }]

instance : Configurable RowWrite where
  settings := [
    of "condition" condition fun r x => { r with condition := x },
    of "return_type" (keyless returnType) fun r x => { r with returnType := x },
    of "return_columns" columns fun r x => { r with returnColumns := x }]

instance : Configurable BatchWrite where
  settings := [
    of "transaction_id" text fun r x => { r with transaction := some x },
    of "is_atomic" flag fun r x => { r with isAtomic := some x }]

instance : Configurable Search where
  settings := [
    of "search_query" json fun r x => { r with query := x },
    of "columns_to_get" columns fun r x => { r with columns := x },
    of "routing_values" primaryKeys fun r x => { r with routing := x },
    of "timeout_ms" integer fun r x => { r with timeout := some x }]

end WideColumn
