/-
Settings documents: an object with the member `journals`, which holds settings under their names.

A document is read in two ways, which differ in what they look at first. `load` reads the whole text
and then checks the settings. `loadEager` checks them as soon as the document ends, so that it reports
invalid settings even if something follows the document. `decode` is this second way with its own errors, where of a
refusal only the text is left.
-/
import Changefeed.Settings
import Changefeed.Wire.Documents
import Changefeed.Json.Place
namespace Changefeed.Settings

open Wire (ToValue toValue)

instance : ToValue Settings where
  toValue s := .fields [("journals", toValue s.journals)]

/-- the text of a settings document -/
def text (s : Settings) : Except WireError Bytes := (toValue s).toText

/-- the settings that a document holds, checked or not; without the member there are none -/
def ofDoc? (t : Json.Doc) : Option Settings := do
  match ← t.fields? ["journals"] true with
  | [journals] => return ⟨← Json.withDefault Directory.empty journals⟩
  | _ => none

/-- the checked settings of a document -/
def ofDocument (t : Json.Doc) : Except ConfigError Settings :=
  match ofDoc? t with
  | none => .error .malformed
  | some s => validate s

/-- reads the whole text, then checks the settings -/
def load (text : Bytes) : Except ConfigError Settings :=
  match Json.scan text with
  | .document t => ofDocument t
  | _ => .error .malformed

/-- checks the settings when the document ends, and then looks at what follows it -/
def loadEager (text : Bytes) : Except ConfigError Settings :=
  match Json.scan text with
  | .document t => ofDocument t
  | .trailing t => do
    discard (ofDocument t)
    throw .malformed
  | .malformed => .error .malformed

/-- why a text is not read as a value: a check of the value gave a reason, or the text is no document of one -/
inductive DecodeError where
  | reason (message : String)
  | malformed
deriving DecidableEq, Repr

/-- a refusal as the reader reports it, who takes a place at the end of a reason for the place of the error -/
def DecodeError.ofConfig : ConfigError → DecodeError
  | .malformed => .malformed
  | e => .reason (Json.Place.settle e.message)

/-- reads a text with the check of the settings as a part of reading them -/
def decode (text : Bytes) : Except DecodeError Settings := (loadEager text).mapError DecodeError.ofConfig

end Changefeed.Settings
