import Edgehost.Common.SlotMap
import Edgehost.Core.EdgeConfig

/-!
# The state store (`state_store.c`)

The store is a table of at most 32 namespaces, each with a fixed array of entries allocated when the
namespace is registered. An entry is found by a scan for its key, a new key takes the first free
entry, and deleting only clears the use flag: the value bytes stay behind. A registration may find no
memory, which `alloc` says. Store, namespace, key and value pointers are not NULL here, and a NULL
prefix is the empty one.
-/

namespace Edgehost

def EDGE_STATE_NS_MAX : ℕ := 32
def EDGE_STATE_KEY_MAX : ℕ := 128
def EDGE_STATE_VALUE_DEFAULT : ℕ := 4096
def EDGE_STATE_VALUE_MAX : ℕ := 65536
def EDGE_STATE_KEYS_DEFAULT : ℕ := 1024
def EDGE_STATE_LIST_CAP : ℕ := 1000

/-- `edge_state_err_t`. -/
inductive EdgeStateErr
  | ok
  | notFound
  | denied
  | tooLarge
  | nsFull
  | nsDisabled
  | badKey
  | badJson
  | badNs
  | nomem
  deriving DecidableEq

/-- `edge_state_entry_t`; `value` is the whole value buffer. -/
structure StateEntry where
  used : Bool
  key : Bytes
  value : Bytes
  valueLen : ℕ
  deriving DecidableEq

/-- `edge_state_ns_t`; the capacity is the length of `entries`. -/
structure StateNs where
  name : Bytes
  enabled : Bool
  registered : Bool
  entries : List StateEntry
  count : ℕ
  deriving DecidableEq

/-- `struct edge_state_store`, with the first `n_ns` namespaces of its table. -/
structure StateStore where
  ns : List StateNs
  maxKeys : ℕ
  maxValue : ℕ
  deriving DecidableEq

/-- The entries of a namespace as found by key. -/
def entryView : SlotView StateEntry Bytes where
  live e := e.used
  key e := e.key

/-- The namespaces as found by name. -/
def nsView : SlotView StateNs Bytes where
  live n := n.registered
  key n := n.name

/-! ## Namespaces -/

/-- `edge_state_err_name`. -/
def edgeStateErrName : EdgeStateErr → Bytes
  | .ok => bytes "OK"
  | .notFound => bytes "NOT_FOUND"
  | .denied => bytes "DENIED"
  | .tooLarge => bytes "TOO_LARGE"
  | .nsFull => bytes "NS_FULL"
  | .nsDisabled => bytes "NS_DISABLED"
  | .badKey => bytes "BAD_KEY"
  | .badJson => bytes "BAD_JSON"
  | .badNs => bytes "BAD_NS"
  | .nomem => bytes "NOMEM"

def islower (c : UInt8) : Bool := 97 ≤ c && c ≤ 122

/-- A byte that a key may hold. -/
def keyByteOk (c : UInt8) : Bool :=
  islower c || isdigit c || c = charByte '_' || c = charByte '.' || c = charByte '/' ||
    c = charByte ':' || c = charByte '-'

/-- `edge_state_key_valid`. -/
def edgeStateKeyValid (key : Bytes) : Bool :=
  if key = [] then false
  else if key.length > EDGE_STATE_KEY_MAX - 1 then false
  else key.all keyByteOk

/-- `edge_state_json_ok`: only the first byte after white space is looked at. -/
def edgeStateJsonOk (value : Bytes) : Bool :=
  match value.dropWhile isspace with
  | [] => false
  | c :: _ =>
    c = 0x7b || c = charByte '[' || c = charByte '"' || c = charByte '-' ||
      (charByte '0' ≤ c && c ≤ charByte '9') || c = charByte 't' || c = charByte 'f' ||
      c = charByte 'n'

/-- `find_ns`, as the index of the namespace and its record. -/
def findNs (st : StateStore) (ns : Bytes) : Option (ℕ × StateNs) := nsView.locate st.ns ns

/-- Write one namespace record. -/
def setNs (st : StateStore) (i : ℕ) (n : StateNs) : StateStore := { st with ns := st.ns.set i n }

/-- The record of a namespace that was just registered. -/
def newNs (st : StateStore) (name : Bytes) (enabled : Bool) : StateNs where
  name := snprintf 64 name
  enabled := enabled
  registered := true
  entries := List.replicate st.maxKeys
    { used := false, key := [], value := List.replicate (st.maxValue + 1) 0, valueLen := 0 }
  count := 0

/-- `register_ns`. -/
def registerNs (st : StateStore) (name : Bytes) (enabled alloc : Bool) : StateStore × ℤ :=
  if name = [] ∨ name.length ≥ 64 then (st, -1)
  else
    match findNs st name with
    | some (i, n) => (setNs st i { n with enabled }, 0)
    | none =>
      if st.ns.length ≥ EDGE_STATE_NS_MAX then (st, -1)
      else if !alloc then (st, -1)
      else ({ st with ns := st.ns ++ [newNs st name enabled] }, 0)

/-- The limits of `edge_state_config_t`; `0` asks for the default. -/
structure EdgeStateConfig where
  maxKeysPerNs : ℕ
  maxValueBytes : ℕ

/-- The number of keys a namespace may hold. -/
def EdgeStateConfig.maxKeys (cfg : EdgeStateConfig) : ℕ :=
  if cfg.maxKeysPerNs > 0 then cfg.maxKeysPerNs else EDGE_STATE_KEYS_DEFAULT

/-- The longest value. -/
def EdgeStateConfig.maxValue (cfg : EdgeStateConfig) : ℕ :=
  if cfg.maxValueBytes > 0 then
    if cfg.maxValueBytes > EDGE_STATE_VALUE_MAX then EDGE_STATE_VALUE_MAX else cfg.maxValueBytes
  else EDGE_STATE_VALUE_DEFAULT

/-- `edge_state_create_with_config`, when its allocations succeed. -/
def edgeStateCreateWithConfig (cfg : EdgeStateConfig) : StateStore :=
  let st : StateStore := { ns := [], maxKeys := cfg.maxKeys, maxValue := cfg.maxValue }
  let st := (registerNs st (bytes "net.core") true true).1
  let st := (registerNs st (bytes "map.dynamic") true true).1
  -- Registered disabled hooks.
  let st := (registerNs st (bytes "net.pon") false true).1
  let st := (registerNs st (bytes "net.home") false true).1
  let st := (registerNs st (bytes "electric") false true).1
  (registerNs st (bytes "inventory") false true).1

/-- `edge_state_ns_set_enabled`. -/
def edgeStateNsSetEnabled (st : StateStore) (ns : Bytes) (enabled alloc : Bool) : StateStore × ℤ :=
  match findNs st ns with
  | none => registerNs st ns enabled alloc
  | some (i, n) => (setNs st i { n with enabled }, 0)

/-- `edge_state_ns_enabled`. -/
def edgeStateNsEnabled (st : StateStore) (ns : Bytes) : Bool :=
  match findNs st ns with
  | none => false
  | some (_, n) => n.enabled

/-- The namespaces that the configuration switches, with their flags. -/
def configuredNs (cfg : EdgeConfig) : List (Bytes × Bool) :=
  [(bytes "net.core", cfg.stateNetCoreEnabled), (bytes "map.dynamic", cfg.stateMapDynamicEnabled),
    (bytes "net.pon", cfg.stateNetPonEnabled), (bytes "net.home", cfg.stateNetHomeEnabled),
    (bytes "electric", cfg.stateElectricEnabled), (bytes "inventory", cfg.stateInventoryEnabled)]

/-- `edge_state_apply_config`: one `edge_state_ns_set_enabled` for each configured namespace. -/
def edgeStateApplyConfig (st : StateStore) (cfg : EdgeConfig) (alloc : Bytes → Bool) : StateStore :=
  (configuredNs cfg).foldl (fun st p => (edgeStateNsSetEnabled st p.1 p.2 (alloc p.1)).1) st

/-! ## Entries -/

/-- `find_entry`. -/
def findEntry (n : StateNs) (key : Bytes) : Option (ℕ × StateEntry) := entryView.locate n.entries key

/-- `find_free`. -/
def findFree (n : StateNs) : Option (ℕ × StateEntry) := locateFree entryView.live n.entries

/-- Store a value and its terminator; the bytes beyond stay. -/
def StateEntry.write (e : StateEntry) (value : Bytes) : StateEntry :=
  { e with value := value ++ 0 :: e.value.drop (value.length + 1), valueLen := value.length }

/-- `edge_state_put`. -/
def edgeStatePut (st : StateStore) (ns key value : Bytes) : StateStore × EdgeStateErr :=
  match findNs st ns with
  | none => (st, .badNs)
  | some (i, n) =>
    if !n.enabled then (st, .nsDisabled)
    else if !edgeStateKeyValid key then (st, .badKey)
    else if value.length > st.maxValue then (st, .tooLarge)
    else if !edgeStateJsonOk value then (st, .badJson)
    else
      match findEntry n key with
      | some (j, e) =>
        (setNs st i { n with entries := n.entries.set j (e.write value) }, .ok)
      | none =>
        match findFree n with
        | none => (st, .nsFull)
        | some (j, e) =>
          let e := { e with key := snprintf EDGE_STATE_KEY_MAX key, used := true }
          (setNs st i { n with entries := n.entries.set j (e.write value), count := n.count + 1 },
            .ok)

/-- `edge_state_get`: what it writes to a buffer of `outCap` bytes, less the terminator, and
`*out_len`. -/
def edgeStateGet (st : StateStore) (ns key : Bytes) (outCap : ℕ) : Except EdgeStateErr (Bytes × ℕ) :=
  match findNs st ns with
  | none => .error .badNs
  | some (_, n) =>
    if !n.enabled then .error .nsDisabled
    else if !edgeStateKeyValid key then .error .badKey
    else
      match findEntry n key with
      | none => .error .notFound
      | some (_, e) =>
        let copy := if e.valueLen ≥ outCap then outCap - 1 else e.valueLen
        .ok (e.value.take copy, e.valueLen)

/-- `edge_state_delete`. -/
def edgeStateDelete (st : StateStore) (ns key : Bytes) : StateStore × EdgeStateErr :=
  match findNs st ns with
  | none => (st, .badNs)
  | some (i, n) =>
    if !n.enabled then (st, .nsDisabled)
    else
      match findEntry n key with
      | none => (st, .notFound)
      | some (j, e) =>
        let e := { e with used := false, valueLen := 0, key := [] }
        let count := if n.count > 0 then n.count - 1 else n.count
        (setNs st i { n with entries := n.entries.set j e, count }, .ok)

/-- `edge_state_list`: the keys written, or `none` for the return value -1. -/
def edgeStateList (st : StateStore) (ns pfx : Bytes) (maxKeys : ℕ) : Option (List Bytes) :=
  if maxKeys = 0 then none
  else
    match findNs st ns with
    | none => none
    | some (_, n) =>
      if !n.enabled then none
      else
        let maxKeys := if maxKeys > EDGE_STATE_LIST_CAP then EDGE_STATE_LIST_CAP else maxKeys
        let hits := n.entries.filter fun e => e.used && pfx.isPrefixOf e.key
        some ((hits.take maxKeys).map fun e => snprintf EDGE_STATE_KEY_MAX e.key)

/-- `edge_state_count`. -/
def edgeStateCount (st : StateStore) (ns : Bytes) : ℕ :=
  match findNs st ns with
  | none => 0
  | some (_, n) => n.count

end Edgehost
