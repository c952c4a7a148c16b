/-!
# Errors

Why an operation is refused or fails, and how that is said to the user.
-/

namespace Keyring

inductive FileError where
  /-- The file, or something on the way to it, is not there. -/
  | notFound
  | busy
  | exists
  | notDirectory
  | isDirectory
  | nameTooLong
  | tooManyLinks
  /-- The path holds a character that no name can have. -/
  | badPath
  /-- What the file holds is no text. -/
  | notText
deriving DecidableEq, Repr

/-- What the system says, with its number for the error. -/
def FileError.message : FileError → String
  | .notFound => "No such file or directory (os error 2)"
  | .busy => "Device or resource busy (os error 16)"
  | .exists => "File exists (os error 17)"
  | .notDirectory => "Not a directory (os error 20)"
  | .isDirectory => "Is a directory (os error 21)"
  | .nameTooLong => "File name too long (os error 36)"
  | .tooManyLinks => "Too many levels of symbolic links (os error 40)"
  | .badPath => "file name contained an unexpected NUL byte"
  | .notText => "stream did not contain valid UTF-8"

inductive Error where
  | keyNotFound (name : String)
  | keyExists (name : String)
  | hostNotFound (label : String)
  | hostExists (label : String)
  | deploymentNotFound (key host : String)
  | keyInUse (key reason : String)
  | keyNotActive (key status : String)
  | duplicateMaterial (key : String)
  | invalidName (name : String)
  | unknownAlgorithm (name : String)
  | weakAlgorithm (reason : String)
  | invalidKeySize (reason : String)
  | invalidPublicKey (reason : String)
  | keyFileExists (path : String)
  | keyFileMissing (path : String)
  | malformedSection (reason : String)
  | invalidSetting (field reason : String)
  | toolNotInstalled (tool : String)
  | toolFailed (tool reason : String)
  | deployFailed (reason : String)
  | revokeFailed (reason : String)
  | homeNotFound
  /-- A file could not be read or written. -/
  | fileAccess (reason : FileError)
  /-- A document that is no YAML, or not that of the record asked for. -/
  | unreadableYaml
  /-- A document that is no JSON, or not that of the record asked for. -/
  | unreadableJson
  /-- A date past the last one that is kept; nothing after it is done. -/
  | dateOverflow
  /-- A text was to be cut within a character or past its end; nothing after it is done. -/
  | cutCharacter
deriving DecidableEq, Repr

/-- An error that breaks off whatever is being done. -/
def Error.isPanic : Error → Bool
  | .dateOverflow | .cutCharacter => true
  | _ => false

def Error.message : Error → String
  | .keyNotFound name => s!"key not found: {name}"
  | .keyExists name => s!"key already exists: {name}"
  | .hostNotFound label => s!"host not found: {label}"
  | .hostExists label => s!"host already exists: {label}"
  | .deploymentNotFound key host => s!"key '{key}' is not deployed to host '{host}'"
  | .keyInUse key reason => s!"key '{key}' is still in use: {reason} (use --force to remove anyway)"
  | .keyNotActive key status => s!"key '{key}' is {status}, expected active"
  | .duplicateMaterial key => s!"key material already in inventory as '{key}'"
  | .invalidName name =>
    s!"invalid name '{name}': must be lowercase alphanumeric with '-', '_' or '.'"
  | .unknownAlgorithm name => s!"unknown key algorithm: {name}"
  | .weakAlgorithm reason => s!"refusing weak key: {reason}"
  | .invalidKeySize reason => s!"invalid key size: {reason}"
  | .invalidPublicKey reason => s!"invalid public key: {reason}"
  | .keyFileExists path => s!"key file already exists: {path}"
  | .keyFileMissing path => s!"key file not found: {path}"
  | .malformedSection reason => s!"malformed managed section in ssh config: {reason}"
  | .invalidSetting field reason => s!"invalid config value for '{field}': {reason}"
  | .toolNotInstalled tool => s!"'{tool}' not found on PATH; install OpenSSH client tools"
  | .toolFailed tool reason => s!"failed to run {tool}: {reason}"
  | .deployFailed reason => s!"deploy failed: {reason}"
  | .revokeFailed reason => s!"revoke failed: {reason}"
  | .homeNotFound => "home directory not found: set HOME environment variable"
  | .fileAccess reason => reason.message
  | .unreadableYaml => "unreadable YAML document"
  | .unreadableJson => "unreadable JSON document"
  | .dateOverflow => "date out of range"
  | .cutCharacter => "text cut where no character starts"

end Keyring
