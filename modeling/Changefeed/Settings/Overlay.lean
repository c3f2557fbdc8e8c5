/-
Settings with unchecked entries laid over them: an entry for an object's own name takes the place of
whatever the settings say, and can hide the object.
-/
import Changefeed.Settings
import Changefeed.Table
namespace Changefeed

structure Overlay where
  settings : Settings
  /-- what counts for an object, `none` to hide it -/
  entries : Table String (Option JournalConfig)

namespace Overlay

def ofSettings (s : Settings) : Overlay := ⟨s, Table.empty⟩

/-- what counts for an object -/
def config? (o : Overlay) (object : String) : Option JournalConfig :=
  match o.entries.get? object with
  | some config => config
  | none => o.settings.config? object

end Overlay

end Changefeed
