/-
UmansGate.Config.Loader — numbers that the environment or the file may give
(`config/env.ts`, `loadConfig` of `config/loader.ts`).

The loader takes any number but NaN; the ranges are checked where a
configuration is saved, and nowhere else.
-/
import UmansGate.Config.Defaults

namespace UmansGate.Config

open UmansGate.Lib

/-- `num` of the text of a variable. -/
def num (val : JsString) (fallback : Num ℚ) : Num ℚ :=
  let n := numberOf val
  if n = .nan then fallback else n

def envOrRawNum (envVal : Option JsString) (raw : RawInput) (key : Key) (fallback : Num ℚ) :
    Num ℚ :=
  match envVal with
  | some val => num val fallback
  | none =>
    match raw (.known key) with
    | some (.num n) => if n = .nan then fallback else n
    | _ => fallback

/-- `DEFAULT_CONFIG[key] ?? fallback`. -/
def defaultNum (key : Key) (fallback : Num ℚ) : Num ℚ :=
  match DEFAULT_CONFIG key with
  | some (.num n) => n
  | _ => fallback

def ttftRetryMaxAttempts (envVal : Option JsString) (raw : RawInput) : Num ℚ :=
  envOrRawNum envVal raw .ttft_retry_max_attempts (defaultNum .ttft_retry_max_attempts (.fin 2))

end UmansGate.Config
