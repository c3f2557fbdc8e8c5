/-
Settings of one journal: what a user asks for over all partitions, and the share of one partition.
-/
import Changefeed.JournalError
namespace Changefeed

/-- what a user asks for; capacity counts the records of all partitions together -/
structure JournalConfig where
  enabled : Bool := false
  capacity : UInt32 := 10000
  /-- `0`: records do not expire -/
  ttlSeconds : UInt32 := 0
deriving DecidableEq, Repr, Inhabited

/-- how records are held in memory -/
inductive MemoryFormat where
  | object
  | binary
deriving DecidableEq, Repr, Inhabited

def MemoryFormat.name : MemoryFormat → String
  | object => "Object"
  | binary => "Binary"

/-- the settings of one partition's journal -/
structure StorageConfig where
  capacity : UInt32
  /-- `0`: records do not expire -/
  ttlSeconds : UInt32 := 0
  backups : UInt32 := 0
  asyncBackups : UInt32 := 0
  format : MemoryFormat := .object
deriving DecidableEq, Repr, Inhabited

/-- records expire -/
def StorageConfig.expires (c : StorageConfig) : Bool := 0 < c.ttlSeconds

/-- why a journal's settings are refused -/
inductive ConfigError where
  | invalid (name reason : String)
  /-- a name with more than one wildcard -/
  | invalidPattern (pattern : String)
  /-- the text is no settings document -/
  | malformed
deriving DecidableEq, Repr

def ConfigError.message : ConfigError → String
  | invalid name reason => "invalid event journal config for " ++ name ++ ": " ++ reason
  | invalidPattern pattern =>
    "journal name pattern " ++ pattern ++ " contains more than one '*'"
  | malformed => "failed to parse journal settings"

namespace JournalConfig

/-- an enabled journal whose records do not expire -/
def ofCapacity (capacity : UInt32) : JournalConfig := ⟨true, capacity, 0⟩

/-- an enabled journal needs room -/
def validate (c : JournalConfig) (name : String) : Except ConfigError Unit :=
  if c.enabled ∧ c.capacity = 0 then .error (.invalid name "capacity must be positive") else .ok ()

/-- the share of one of `partitions` partitions: an equal part of the capacity, rounded down, which
must leave room for a record; the time to live is the same, and there are no backups -/
def split (c : JournalConfig) (partitions : UInt32) : Except JournalError StorageConfig :=
  if partitions = 0 then .error (.invalidConfig "partition count must be positive")
  else
    let capacity := c.capacity / partitions
    if capacity = 0 then
      .error (.invalidConfig ("journal capacity " ++ toString c.capacity ++
        " leaves no room across " ++ toString partitions ++ " partitions"))
    else .ok { capacity, ttlSeconds := c.ttlSeconds }

end JournalConfig

end Changefeed
