/-
Documents of the library's own types.
-/
import Changefeed.Wire.Format
import Changefeed.Config
namespace Changefeed.Wire

open Json (OfDoc required withDefault)

instance : ToValue EventKind := ⟨fun k => .alternative k.position k.name⟩

instance : OfDoc EventKind := ⟨Json.Doc.alternative? (EventKind.all.map fun k => (k.name, k))⟩

/-- a kind is its position in the compact form -/
instance : OfCompact EventKind where
  ofCompact? bytes := do
    let (n, rest) ← Varint.read? .w32 bytes
    return (← EventKind.all[n]?, rest)

instance : ToValue MemoryFormat where
  toValue
    | .object => .alternative 0 MemoryFormat.object.name
    | .binary => .alternative 1 MemoryFormat.binary.name

instance : OfDoc MemoryFormat :=
  ⟨Json.Doc.alternative? ([.object, .binary].map fun f : MemoryFormat => (f.name, f))⟩

instance : ToValue JournalConfig where
  toValue c :=
    .fields [("enabled", toValue c.enabled), ("capacity", toValue c.capacity),
      ("time_to_live_seconds", toValue c.ttlSeconds)]

/-- every field has a default -/
instance : OfDoc JournalConfig where
  ofDoc? t := do
    let config : JournalConfig := {}
    match ← t.fields? ["enabled", "capacity", "time_to_live_seconds"] true with
    | [enabled, capacity, ttl] =>
      return ⟨← withDefault config.enabled enabled, ← withDefault config.capacity capacity,
        ← withDefault config.ttlSeconds ttl⟩
    | _ => none

instance : ToValue StorageConfig where
  toValue c :=
    .fields [("capacity", toValue c.capacity), ("time_to_live_seconds", toValue c.ttlSeconds),
      ("backup_count", toValue c.backups), ("async_backup_count", toValue c.asyncBackups),
      ("in_memory_format", toValue c.format)]

instance : OfDoc StorageConfig where
  ofDoc? t := do
    let names := ["capacity", "time_to_live_seconds", "backup_count", "async_backup_count",
      "in_memory_format"]
    match ← t.fields? names false with
    | [capacity, ttl, backups, asyncBackups, format] =>
      return ⟨← required capacity, ← required ttl, ← required backups, ← required asyncBackups,
        ← required format⟩
    | _ => none

/-- the retained range of a journal when a consumer starts, as a document -/
structure SubscriberState where
  oldest : Signed .w64
  newest : Signed .w64
deriving DecidableEq, Repr

instance : ToValue SubscriberState where
  toValue s :=
    .fields [("oldest_sequence", toValue s.oldest), ("newest_sequence", toValue s.newest)]

instance : OfDoc SubscriberState where
  ofDoc? t := do
    match ← t.fields? ["oldest_sequence", "newest_sequence"] false with
    | [oldest, newest] => return ⟨← required oldest, ← required newest⟩
    | _ => none

variable {κ ν : Type}

instance [ToValue κ] [ToValue ν] : ToValue (MapEvent κ ν) where
  toValue e :=
    .fields [("key", toValue e.key), ("new_value", toValue e.newValue),
      ("old_value", toValue e.oldValue), ("event_type", toValue e.kind)]

/-- in an object, a value that is not given is not there -/
instance [OfDoc κ] [OfDoc ν] : OfDoc (MapEvent κ ν) where
  ofDoc? t := do
    match ← t.fields? ["key", "new_value", "old_value", "event_type"] false with
    | [key, new, old, kind] =>
      return ⟨← required key, ← withDefault none new, ← withDefault none old, ← required kind⟩
    | _ => none

instance [OfCompact κ] [OfCompact ν] : OfCompact (MapEvent κ ν) where
  ofCompact? bytes := do
    let (key, bytes) ← ofCompact? bytes
    let (new, bytes) ← ofCompact? bytes
    let (old, bytes) ← ofCompact? bytes
    let (kind, bytes) ← ofCompact? bytes
    return (⟨key, new, old, kind⟩, bytes)

end Changefeed.Wire
