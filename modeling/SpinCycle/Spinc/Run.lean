/-
`spinc`'s `Run`: from the command line to the command the factory makes,
and the error `Run` returns.

# The model

The `config` package, the context's hooks and factories, the Request
Manager client and `os.Args` are not among the sources: what `Run` gets
from them enters as an `Env`, the way `Proto` stands for the `proto`
package. A factory is handed the fields of `app.Context` that `Run` has
set (`Context`), and a command is what `Run` sees of it: the errors its
`Prepare` and its `Run` return. Go errors are told apart as `Run` tells
them apart, by `==` against `cmd.ErrNotExist` and `app.ErrUnknownRequest`;
any other error stands for itself. `Run` is cut at its two halves:
`setup`, up to the context the factory sees, and `runCommand`, from the
factory on; `run` joins them around `makeRMC`. The `Debug` prints are
output only and are left out.

# What `Run` does

A client that cannot be built stops every command but `help` and
`version` before its factory is asked. So for `spinc find` the args are
checked only once the client is built, and `Run` then fails with
`Prepare`'s message exactly when `prepare_correct`'s `Accepts` does not
hold (`run_find`).
-/
import SpinCycle.Spinc.Find

namespace SpinCycle.Spinc

-- ============================================================ the inputs

/-- The fields of `config.Options` that `Run` and `makeRMC` read or set;
a field a literal leaves out is Go's zero value. `timeout` counts
milliseconds. -/
structure Options where
  config : String := ""
  debug : Bool := false
  help : Bool := false
  version : Bool := false
  timeout : Nat := 0
  addr : String := ""
deriving DecidableEq

/-- `config.Command`: the command name and its args. -/
structure Command where
  cmd : String := ""
  args : List String := []
deriving DecidableEq

/-- `config.CommandLine`: the options and the command, as parsed. -/
structure CommandLine where
  options : Options
  command : Command
deriving DecidableEq

/-- A Go `error` as `Run` tells them apart: `cmd.ErrNotExist`,
`app.ErrUnknownRequest`, or any other error, by its text. -/
inductive GoError
  | errNotExist
  | errUnknownRequest
  | msg (text : String)
deriving DecidableEq

/-- The HTTP client under the Request Manager client: one the `HTTPClient`
factory made, or `&http.Client{Timeout: ...}` with the timeout in
milliseconds. -/
inductive HttpClient (H : Type)
  | made (h : H)
  | default (timeout : Nat)
deriving DecidableEq

/-- `rm.NewClient(httpClient, addr)`. -/
structure RMClient (H : Type) where
  httpClient : HttpClient H
  addr : String
deriving DecidableEq

/-- The fields of `app.Context` that `Run` sets before it makes the
command; `rmClient` is `none` where `makeRMC` failed. -/
structure Context (H : Type) where
  options : Options
  command : Command
  userOptions : Options
  nargs : Nat
  rmClient : Option (RMClient H)
deriving DecidableEq

/-- A command as `Run` drives it: what its `Prepare` and its `Run` return
(`none` for `nil`). -/
structure SpincCommand where
  prepare : Option GoError
  run : Option GoError
deriving DecidableEq

/-- What `Run` calls outside the sources: `config` (the user options, the
command-line and config-file parsers, the defaults), `len(os.Args)`, the
`AfterParseOptions` hook, the `Command` and `HTTPClient` factories with
the built-in `cmd.DefaultFactory`, and the texts of the two sentinel
errors. -/
structure Env (H : Type) where
  userOptions : Options
  parseCommandLine : Options → CommandLine
  parseConfigFiles : String → Bool → Options
  defaultConfigFiles : String
  defaultTimeout : Nat
  defaultAddr : String
  osArgs : Nat
  afterParseOptions : Option (Options → Options)
  commandFactory : Option (String → Context H → Except GoError SpincCommand)
  defaultFactory : String → Context H → Except GoError SpincCommand
  httpClientFactory : Option (Context H → Except GoError H)
  errNotExistText : String
  errUnknownRequestText : String

/-- What `Run` returns, or the panic it stops with. -/
inductive RunResult
  | ok
  | error (err : GoError)
  | panic (msg : String)
deriving DecidableEq

variable {H : Type}

/-- An error's text, as `%s` prints it. -/
def Env.errorText (env : Env H) : GoError → String
  | .errNotExist => env.errNotExistText
  | .errUnknownRequest => env.errUnknownRequestText
  | .msg text => text

-- ============================================================== the model

/-- The config and command-line block of `Run`: parse the command line
for the config files (or take the default ones), parse them, and parse the
command line again over the options they give. -/
def Env.parsed (env : Env H) : CommandLine :=
  let cmdLine := env.parseCommandLine {}
  let configFiles :=
    if cmdLine.options.config ≠ "" then cmdLine.options.config else env.defaultConfigFiles
  -- `def`, the options the config files give
  let defaults := env.parseConfigFiles configFiles cmdLine.options.debug
  env.parseCommandLine defaults

/-- The options once the `AfterParseOptions` hook, if set, has run. -/
def Env.hooked (env : Env H) : Options :=
  match env.afterParseOptions with
  | some hook => hook env.parsed.options
  | none => env.parsed.options

/-- `Run` up to the command factory: the parsed and hooked options with the
defaults, `Nargs`, and the choice of `help` or `version`. -/
def setup (env : Env H) : Context H :=
  let c := env.parsed.command
  let o := env.hooked
  let o := if o.timeout = 0 then { o with timeout := env.defaultTimeout } else o
  let o := if o.addr = "" then { o with addr := env.defaultAddr } else o
  let nargs := c.args.length + 1
  let nargs := if c.cmd = "" then nargs - 1 else nargs
  let c := if env.osArgs = 1 ∨ o.help = true ∨ c.cmd = "" then { c with cmd := "help" } else c
  let c := if o.version = true then { c with cmd := "version" } else c
  { options := o, command := c, userOptions := env.userOptions, nargs, rmClient := none }

/-- `makeRMC`. -/
def makeRMC (env : Env H) (ctx : Context H) : Except GoError (RMClient H) := do
  let httpClient ← match env.httpClientFactory with
    | some factory => match factory ctx with
      | .ok h => pure (HttpClient.made h)
      | .error err => .error (.msg ("Error making http.Client: " ++ env.errorText err))
    | none => pure (.default ctx.options.timeout)
  pure ⟨httpClient, ctx.options.addr⟩

/-- `ctx.Factories.Command` once `Run` has put `cmd.DefaultFactory` where
none was set. -/
def Env.factory (env : Env H) : String → Context H → Except GoError SpincCommand :=
  env.commandFactory.getD env.defaultFactory

/-- `Run` from the command factory on: make the command, let it prepare,
run it. -/
def runCommand (env : Env H) (ctx : Context H) : RunResult :=
  match env.factory ctx.command.cmd ctx with
  | .error .errNotExist =>
      .error (.msg ("Unknown command: " ++ ctx.command.cmd ++
        ". Run 'spinc help' to list commands."))
  | .error err => .error (.msg ("Command factory error: " ++ env.errorText err))
  | .ok spincCmd =>
      match spincCmd.prepare with
      | some .errUnknownRequest =>
          match ctx.command.args with
          | reqName :: _ => .error (.msg ("Unknown request: " ++ reqName ++
              ". Run spinc (no arguments) to list all requests."))
          | [] => .panic "runtime error: index out of range [0] with length 0"
      | some err => .error err
      | none =>
          match spincCmd.run with
          | some err => .error err
          | none => .ok

/-- `Run`: a client that cannot be built is fatal to every command but
`help` and `version`, which go on without one. -/
def run (env : Env H) : RunResult :=
  let ctx := setup env
  match makeRMC env ctx with
  | .ok rmc => runCommand env { ctx with rmClient := some rmc }
  | .error err =>
      if ctx.command.cmd ≠ "help" ∧ ctx.command.cmd ≠ "version" then .error err
      else runCommand env ctx

variable {env : Env H}

-- ========================================================= a command line

/-- What `Run` sees of `Find.Prepare`: `nil`, or the error it returns. -/
def Find.prepareError {τ : Type} (P : Proto) (T : TimeApi τ) (args : List String) :
    Option GoError :=
  match Find.prepare P T args with
  | .ok _ => none
  | .error text => some (.msg text)

/-- `spinc find` over `args`: no config files, hook or `HTTPClient`
factory, and `cmd.DefaultFactory` making `find` as `Find` over the test
protocol, with a `Run` that returns `nil`. -/
def findEnv (args : List String) : Env Unit where
  userOptions := {}
  parseCommandLine _ := ⟨{}, ⟨"find", args⟩⟩
  parseConfigFiles _ _ := {}
  defaultConfigFiles := "spinc.yaml"
  defaultTimeout := 5000
  defaultAddr := "localhost:32308"
  osArgs := args.length + 2
  afterParseOptions := none
  commandFactory := none
  defaultFactory cmd ctx :=
    if cmd = "find" then .ok ⟨Find.prepareError Chain.testProto natTime ctx.command.args, none⟩
    else .error .errNotExist
  httpClientFactory := none
  errNotExistText := "command does not exist"
  errUnknownRequestText := "unknown request"

-- ============================================================= the client

/-- With a client built, `Run` runs the command with it. -/
theorem run_of_makeRMC_ok {rmc : RMClient H} (h : makeRMC env (setup env) = .ok rmc) :
    run env = runCommand env { setup env with rmClient := some rmc } := by
  simp only [run, h]

/-- Without one, only `help` and `version` go on, with no client. -/
theorem run_of_makeRMC_error {err : GoError} (h : makeRMC env (setup env) = .error err) :
    run env = if (setup env).command.cmd ≠ "help" ∧ (setup env).command.cmd ≠ "version" then
      .error err else runCommand env (setup env) := by
  simp only [run, h]

-- ============================================================ spinc find

/-- `spinc find`, with a factory that makes `find` as `Find`: a client that
cannot be built fails the command whatever its args; with a client, `Run`
fails with `Prepare`'s message exactly when the args are not accepted, and
otherwise returns what `Find.Run` returns. -/
theorem run_find {τ : Type} (P : Proto) (T : TimeApi τ) (env : Env H)
    (findRun : Context H → Option GoError)
    (hf : ∀ ctx : Context H,
      env.factory "find" ctx = .ok ⟨Find.prepareError P T ctx.command.args, findRun ctx⟩)
    (hc : (setup env).command.cmd = "find") :
    (∀ err, makeRMC env (setup env) = .error err → run env = .error err) ∧
    ∀ rmc, makeRMC env (setup env) = .ok rmc →
      (¬ Accepts P T (setup env).command.args → ∃ text,
        Find.prepare P T (setup env).command.args = .error text ∧
          run env = .error (.msg text)) ∧
      (Accepts P T (setup env).command.args →
        run env = match findRun { setup env with rmClient := some rmc } with
          | some err => .error err
          | none => .ok) := by
  refine ⟨fun err h => by rw [run_of_makeRMC_error h, if_pos (by rw [hc]; decide)],
    fun rmc h => ?_⟩
  rw [run_of_makeRMC_ok h]
  simp only [runCommand, hc, hf]
  constructor
  · intro hna
    cases hp : Find.prepare P T (setup env).command.args with
    | ok f => exact absurd ((prepare_ok_iff P T _ f).1 hp).1 hna
    | error text => exact ⟨text, rfl, by simp only [Find.prepareError, hp]⟩
  · intro ha
    simp only [Find.prepareError, (prepare_ok_iff P T _ _).2 ⟨ha, rfl⟩]

/-- `spinc find limit=x` fails with `Prepare`'s message. -/
theorem run_find_badLimit :
    ∃ text, Find.prepare Chain.testProto natTime ["limit=x"] = .error text ∧
      run (findEnv ["limit=x"]) = .error (.msg text) :=
  ((run_find Chain.testProto natTime (findEnv ["limit=x"]) (fun _ => none) (fun _ => rfl)
    (by decide)).2 _ rfl).1 fun ha => absurd (ha.counts "limit" (by simp) (by decide)) (by decide)

end SpinCycle.Spinc
