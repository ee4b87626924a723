/-
UmansGate.Config.File — reading and saving the configuration file
(`config/file.ts`).

The file is the object that a reader finds in it: nothing where the text is
no JSON, and none where there is no file. A save reads the file anew each
time, so the calls of a run share nothing but the file.
-/
import UmansGate.Config.Validation

namespace UmansGate.Config

open UmansGate.Lib

/-- What a configuration is read back as. -/
def RawConfig.stored (n : RawConfig) : RawConfig := fun key => (n key).map Value.stored

/-- The default config is written if there is no file. -/
def ensureConfigFile (file : Option RawInput) : RawInput := file.getD DEFAULT_CONFIG.stored.input

def readConfigFile (file : RawInput) : RawInput := spread DEFAULT_CONFIG.input file

inductive SaveResult where
  /-- A rule throws. -/
  | throws
  | rejected (errors warnings : List String)
  | saved (written : RawConfig) (warnings : List String)

/-- The file with the patch. -/
def merged (file patch : RawInput) : RawInput :=
  spread (readConfigFile file) (coerceRawForValidation patch).input

/-- The result and the file it leaves. -/
def saveConfig (file? : Option RawInput) (patch : RawInput) (ctx : UpstreamRequestsLimit) :
    SaveResult × RawInput :=
  let file := ensureConfigFile file?
  match validateConfig (merged file patch) ctx with
  | none => (.throws, file)
  | some result =>
    if result.ok then (.saved result.normalized result.warnings, result.normalized.stored.input)
    else (.rejected result.errors result.warnings, file)

/-- The configuration of a reset and the file it leaves: the defaults, with the
two secrets of the file. -/
def resetConfig (file? : Option RawInput) : RawConfig × RawInput :=
  let existing := readConfigFile (ensureConfigFile file?)
  let kept : Key → Option Value := fun key =>
    match existing (.known key) with
    | none | some .null => DEFAULT_CONFIG key
    | some v => some v
  let reset : RawConfig := fun key =>
    match key with
    | .umans_api_key => kept .umans_api_key
    | .dashboard_token => kept .dashboard_token
    | key => DEFAULT_CONFIG key
  (reset, reset.stored.input)

end UmansGate.Config
