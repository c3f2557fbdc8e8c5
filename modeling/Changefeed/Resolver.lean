/-
Which journals there are: an object has a journal if the cluster is new enough to know journals and
the registry has settings for the object.
-/
import Changefeed.Config
import Changefeed.Version
import Changefeed.Namespace
namespace Changefeed

/-- the first version that knows journals -/
def minJournalVersion : Version := ⟨3, 9⟩

/-- how many partitions there are if nothing else is said -/
def defaultPartitions : UInt32 := 271

structure Resolver where
  /-- the settings registered for an object -/
  registry : String → Option JournalConfig
  /-- the cluster's version -/
  version : Version
  partitions : UInt32

namespace Resolver

/-- the settings of a namespace's journal; services that share an object name share the settings -/
def config? (r : Resolver) (ns : Namespace) : Option JournalConfig :=
  if r.version.older minJournalVersion then none else r.registry ns.object

/-- the settings of a namespace's journal if it is enabled -/
def enabledConfig? (r : Resolver) (ns : Namespace) : Option JournalConfig :=
  (r.config? ns).filter (·.enabled)

/-- the namespace has an enabled journal -/
def isEnabled (r : Resolver) (ns : Namespace) : Bool := (r.enabledConfig? ns).isSome

end Resolver

end Changefeed
