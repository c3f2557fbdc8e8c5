/-
What a journal belongs to: a named data structure of a service, and one of its partitions. Names are
ordered by their characters, which is the order of their encoded bytes, and the service decides first.
-/
namespace Changefeed

/-- the service that maps belong to -/
def mapService : String := "map-service"

/-- a data structure of a service -/
structure Namespace where
  service : String
  object : String
deriving DecidableEq, Repr, Inhabited

namespace Namespace

/-- the namespace of a map -/
def map (object : String) : Namespace := ⟨mapService, object⟩

/-- service, colon, object -/
def text (ns : Namespace) : String := ns.service ++ ":" ++ ns.object

/-- the service decides, then the object -/
def order (a b : Namespace) : Ordering :=
  (compare a.service b.service).then (compare a.object b.object)

end Namespace

/-- where one journal lives: a partition of a namespace; readers of the journal wait under this key -/
structure JournalKey where
  ns : Namespace
  part : Nat
deriving DecidableEq, Repr, Inhabited

/-- the key as readers that wait under it are reported -/
def JournalKey.text (k : JournalKey) : String :=
  "journal-wait[" ++ k.ns.text ++ "/" ++ toString k.part ++ "]"

end Changefeed
