/-
The registry of journal settings: names, or names with one wildcard, and what is configured under
them. An object has the settings of its own name; without those, of the most specific name with a
wildcard that it matches, and of several equally specific ones the first in the order of names.
-/
import Changefeed.Config
import Changefeed.Directory
import Changefeed.Settings.Pattern
namespace Changefeed

structure Settings where
  journals : Directory JournalConfig
deriving DecidableEq

namespace Settings

def empty : Settings := ⟨Directory.empty⟩

def size (s : Settings) : Nat := s.journals.size

/-- a name has at most one wildcard -/
def checkName (name : String) : Except ConfigError Unit :=
  if 1 < name.toList.count '*' then .error (.invalidPattern name) else .ok ()

/-- settings under a name: the name is looked at first -/
def check (name : String) (config : JournalConfig) : Except ConfigError Unit := do
  checkName name
  config.validate name

/-- registers settings under a name in place of those before -/
def add (s : Settings) (name : String) (config : JournalConfig) : Except ConfigError Settings := do
  check name config
  return ⟨s.journals.insert name config⟩

/-- checks settings in the order of their names -/
def validate (s : Settings) : Except ConfigError Settings := do
  s.journals.entries.forM fun e => check e.1 e.2
  return s

/-- the better of two matches: the earlier one unless the later one is more specific -/
def better (best : Option (Nat × JournalConfig)) (score : Nat) (config : JournalConfig) :
    Option (Nat × JournalConfig) :=
  match best with
  | some (n, _) => if n < score then some (score, config) else best
  | none => some (score, config)

/-- the most specific match among settings in the order of their names -/
def bestMatch (object : String) (entries : List (String × JournalConfig)) :
    Option (Nat × JournalConfig) :=
  entries.foldl (fun best e =>
    match Pattern.score? e.1 object with
    | some score => better best score e.2
    | none => best) none

/-- the settings of an object -/
def config? (s : Settings) (object : String) : Option JournalConfig :=
  match s.journals.find? object with
  | some config => some config
  | none => (bestMatch object s.journals.entries).map Prod.snd

end Settings

end Changefeed
