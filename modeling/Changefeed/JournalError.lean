/-
Why a journal operation is refused, and how the refusal reads.
-/
namespace Changefeed

/-- the service that holds the journals, as it is named when it is missing -/
def storeService : String := "journal-store"

inductive JournalError where
  /-- the object has no enabled journal -/
  | notConfigured (object : String)
  /-- the sequence lies behind the next one to be written -/
  | sequenceTooLarge (sequence tail : Int)
  /-- the sequence is no longer retained -/
  | staleSequence (sequence head : Int)
  /-- the journal was torn down under a waiting reader -/
  | destroyed (object : String) (part : Nat)
  | serviceUnavailable (service : String)
  | invalidConfig (reason : String)
  | invalidReadRequest (reason : String)
  /-- a key or a value has no wire form -/
  | serialization (reason : String)
  | lockPoisoned
deriving DecidableEq, Repr

namespace JournalError

def message : JournalError → String
  | notConfigured object => "there is no event journal configured for map with name: " ++ object
  | sequenceTooLarge s tail =>
    "sequence " ++ toString s ++ " is too large: the current tail sequence is " ++ toString tail
  | staleSequence s head =>
    "sequence " ++ toString s ++ " is too small: the current head sequence is " ++ toString head
  | destroyed object part =>
    "event journal of map " ++ object ++ " on partition " ++ toString part ++ " was destroyed"
  | serviceUnavailable service => "service " ++ service ++ " is not available"
  | invalidConfig reason => "invalid journal configuration: " ++ reason
  | invalidReadRequest reason => "invalid journal read request: " ++ reason
  | serialization reason => "journal serialization error: " ++ reason
  | lockPoisoned => "journal internal lock poisoned"

/-- the sequence asked for was out of the retained range -/
def outOfRange : JournalError → Bool
  | sequenceTooLarge .. => true
  | staleSequence .. => true
  | _ => false

end JournalError

end Changefeed
