import OwnX.Foundations.Text

/-!
# Commands on a host (`ssh/client.go`)

A host is what `Connect` and the sessions of a `Cmd` find there. `logger.Fatalf` ends the process: the
outcome is then `none`.

The authentication, the timeouts and the texts of the log are left out.
-/

namespace OwnX.Ssh

/-- What comes of a command: no session is opened, or `session.Run` returns. -/
inductive Reply where
  | noSession (err : String)
  | ran (stdout stderr : String) (err : Option String)
  deriving DecidableEq, Repr

/-- A host: the error of `Connect`, and its replies to commands. -/
structure Host where
  connect : Option String
  reply : String → Reply

/-- `Result`. -/
structure Result where
  command : String
  stdout : String := ""
  stderr : String := ""
  err : Option String := none
  deriving DecidableEq, Repr

/-- `strings.TrimSuffix(s, "\n")`. -/
def trimNewline (s : String) : String := String.ofList (Text.trimSuffix s.toList ['\n'])

/-- `RunCmd`. -/
def Host.runCmd (h : Host) (command : String) : Result :=
  match h.reply command with
  | .noSession err => { command, err := some ("new session failed. " ++ err) }
  | .ran stdout stderr err =>
    { command, stdout := trimNewline stdout, stderr := trimNewline stderr, err }

/-- `HasError`. -/
def Result.hasError (r : Result) (printDetailWhenError : Bool) : Option Bool :=
  let hasErr := r.stderr ≠ "" || r.err.isSome
  if hasErr && printDetailWhenError then none else some hasErr

end OwnX.Ssh
