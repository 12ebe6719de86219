import NanoSensor.Agent.Requests
import NanoSensor.Foundation.Getline
import NanoSensor.Ipc.Client
import NanoSensor.Json.Tree
import NanoSensor.Service.CommandLine
import NanoSensor.Spool.Model
import NanoSensor.Transport.OpenSsl
import Mathlib.Data.List.DropRight

/-!
# From `service install` to the running service

`main` and `cmd_run` of `src/main.cpp`: the arguments are read into `Options`, and `run` sets up the
agent and the reporter from them. A service has two lives. `service install` reads options and
writes some of them into the command that the service manager keeps; the service is started with
that command, cuts it into arguments again and reads them with the same loop.

`main_registered` is the way from the one to the other: the service runs with the options it was
installed with, its paths made absolute, as far as they are written into the command.
`service_runs_as_in_foreground_iff` says what that comes to. Of the options that matter to `run`,
ten are not written: `--log-level`, `--log-file`, `--pin`, `--client-key`, `--spool-max-bytes`,
`--batch-size`, `--max-attempts`, `--pipe`, `--hang-timeout` and `--inject-fault`; the log of the
service is where `--state-dir` has it. So a service that was installed with a URL and a pin on the
command line, which works in the foreground, does not start.
-/

namespace NanoSensor

open Bytes

namespace Service

/-! ### Options -/

/-- `struct Options`, with the level that `--log-level` sets in the logger. -/
structure Options where
  pretty : Bool := false
  logLevel : LogLevel := .info
  indexPath : Bytes := ofString "data/cve_index.tsv"
  aliasPath : Bytes := ofString "data/cpe_aliases.tsv"
  packagesPath : Bytes := []
  url : Bytes := []
  clientCert : Bytes := []
  clientKey : Bytes := []
  pin : Bytes := []
  pinFile : Bytes := []
  spoolDir : Bytes := ofString "spool"
  spoolMaxBytes : ℕ := 64 * 1024 * 1024
  batchSize : ℕ := 32
  maxAttempts : ℤ := 6
  synthetic : ℤ := 0
  drainOnly : Bool := false
  intervalS : ℤ := 300
  db : Bytes := []
  stateDir : Bytes := []
  logFile : Bytes := []
  pipe : Bytes := Ipc.kDefaultPipe
  fault : Bytes := ofString "none"
  hangTimeoutS : ℤ := 120
  deriving DecidableEq, Repr

/-- The options there are. -/
inductive Flag
  | pretty
  | logLevel
  | index
  | aliases
  | packages
  | url
  | clientCert
  | clientKey
  | pin
  | pinFile
  | spool
  | spoolMaxBytes
  | batchSize
  | maxAttempts
  | synthetic
  | interval
  | drainOnly
  | db
  | stateDir
  | logFile
  | pipe
  | hangTimeout
  | injectFault
  | help
  deriving DecidableEq, Repr

/-- What `main` compares an argument with, in its order. -/
def flags : List (String × Flag) :=
  [("--pretty", .pretty), ("--log-level", .logLevel), ("--index", .index), ("--aliases", .aliases),
    ("--packages", .packages), ("--url", .url), ("--client-cert", .clientCert),
    ("--client-key", .clientKey), ("--pin", .pin), ("--pin-file", .pinFile), ("--spool", .spool),
    ("--spool-max-bytes", .spoolMaxBytes), ("--batch-size", .batchSize),
    ("--max-attempts", .maxAttempts), ("--synthetic", .synthetic), ("--interval", .interval),
    ("--drain-only", .drainOnly), ("--db", .db), ("--state-dir", .stateDir),
    ("--log-file", .logFile), ("--pipe", .pipe), ("--hang-timeout", .hangTimeout),
    ("--inject-fault", .injectFault), ("-h", .help), ("--help", .help)]

def Flag.find? (arg : Bytes) : Option Flag :=
  (flags.find? fun entry ↦ ofString entry.1 = arg).map Prod.snd

/-- Why `main` or a command returns: the exit code, what it says, and the `error` field if that is a
line of the log. -/
structure Exit where
  code : ℤ
  message : Bytes
  error : Bytes := []
  deriving DecidableEq, Repr

/-- `usage(rc)`; the text does not matter. -/
def usage (rc : ℤ) : Exit :=
  { code := rc, message := ofString "usage: nano-sensor <command> [options]" }

section Parse

variable (atoi : Bytes → ℤ)

/-- What an option does with its value; an `unsigned long` has 32 bits on Windows. -/
def Flag.set (v : Bytes) (opt : Options) : Flag → Except Exit Options
  | .logLevel =>
    match LogLevel.ofName v with
    | none => .error { code := 2, message := ofString "unknown log level: " ++ v }
    | some level => .ok { opt with logLevel := level }
  | .index => .ok { opt with indexPath := v }
  | .aliases => .ok { opt with aliasPath := v }
  | .packages => .ok { opt with packagesPath := v }
  | .url => .ok { opt with url := v }
  | .clientCert => .ok { opt with clientCert := v }
  | .clientKey => .ok { opt with clientKey := v }
  | .pin => .ok { opt with pin := v }
  | .pinFile => .ok { opt with pinFile := v }
  | .spool => .ok { opt with spoolDir := v }
  | .spoolMaxBytes => .ok { opt with spoolMaxBytes := strtoul 64 10 v }
  | .batchSize => .ok { opt with batchSize := strtoul 32 10 v }
  | .maxAttempts => .ok { opt with maxAttempts := atoi v }
  | .synthetic => .ok { opt with synthetic := atoi v }
  | .interval => .ok { opt with intervalS := atoi v }
  | .db => .ok { opt with db := v }
  | .stateDir => .ok { opt with stateDir := v }
  | .logFile => .ok { opt with logFile := v }
  | .pipe => .ok { opt with pipe := v }
  | .hangTimeout => .ok { opt with hangTimeoutS := atoi v }
  | .injectFault => .ok { opt with fault := v }
  -- those without a value
  | .pretty | .drainOnly | .help => .ok opt

/-- The loop of `main` over the arguments. -/
def parseOptions (opt : Options) : List Bytes → Except Exit Options
  | [] => .ok opt
  | arg :: args =>
    match Flag.find? arg with
    | none => .error { code := 2, message := ofString "unknown option: " ++ arg }
    | some .pretty => parseOptions { opt with pretty := true } args
    | some .drainOnly => parseOptions { opt with drainOnly := true } args
    | some .help => .error (usage 0)
    | some flag =>
      match args with
      | [] => .error { code := 2, message := arg ++ ofString " needs a value" }
      | v :: args => do parseOptions (← flag.set atoi v opt) args

/-- What `main` goes on to do. -/
inductive Command
  | inventory
  | vuln
  | report
  | run
  | service (action : Bytes)
  | version
  deriving DecidableEq, Repr

/-- The command that is called for. -/
def dispatch (command : Bytes) (action : Option Bytes) : Except Exit Command :=
  if command = ofString "inventory" then .ok .inventory
  else if command = ofString "vuln" then .ok .vuln
  else if command = ofString "report" then .ok .report
  else if command = ofString "run" then .ok .run
  else if command = ofString "service" then
    match action with
    | none => .error { code := 2, message := ofString "service needs install or uninstall" }
    | some action => .ok (.service action)
  else if command = ofString "version" then .ok .version
  else if command = ofString "-h" ∨ command = ofString "--help" then .error (usage 0)
  else .error (usage 2)

/-- `main`, up to the command that it calls. -/
def main (argv : List Bytes) : Except Exit (Command × Options) :=
  match argv with
  | _ :: command :: args => do
    -- the action of `service` is no option
    let opt ← parseOptions atoi {} (if command = ofString "service" then args.drop 1 else args)
    return (← dispatch command args.head?, opt)
  | _ => .error (usage 2)

end Parse

/-! ### `run` -/

/-- `struct AgentConfig`. -/
structure AgentConfig where
  indexPath : Bytes
  aliasPath : Bytes
  dbConnection : Bytes
  pipeName : Bytes
  intervalS : ℤ
  hangTimeoutS : ℤ
  fault : Agent.Fault
  deriving DecidableEq, Repr

/-- `parse_fault`. -/
def parseFault (name : Bytes) : Option Agent.Fault :=
  if name = ofString "none" then some .none
  else if name = ofString "uaf" then some .useAfterFree
  else if name = ofString "deadlock" then some .deadlock
  else if name = ofString "worker-crash" then some .workerCrash
  else none

/-- What a `Reporter` is made of. -/
structure ReporterConfig where
  spoolDir : Bytes
  spool : Config
  transport : Transport.Config
  batchSize : ℕ
  maxAttempts : ℤ
  deriving DecidableEq

/-- What `cmd_run` has set up when it calls `service::run`. -/
structure Setup where
  /-- What `log_set_level` was called with. -/
  logLevel : LogLevel
  /-- Where the log goes, if not to the console. -/
  logFile : Option Bytes
  /-- The directory in whose `dumps` crash dumps go. -/
  dumps : Option Bytes
  agent : AgentConfig
  reporter : Option ReporterConfig
  deriving DecidableEq

/-- What the program meets on its host. -/
structure Host where
  /-- What is in a file that can be read. -/
  contents : Bytes → Option Bytes
  /-- The log file can be opened. -/
  opensLog : Bytes → Bool
  /-- `Spool::open`. -/
  openSpool : Bytes → Config → Except Bytes Unit
  /-- `make_transport`. -/
  makeTransport : Transport.Config → Except Bytes Unit

section Run

variable (host : Host)

/-- `read_first_line`. -/
def readFirstLine (path : Bytes) : Bytes :=
  let line := ((host.contents path).bind (Delimited.getline 0x0A)).elim [] Prod.fst
  line.rdropWhile fun c ↦ c == 0x0D || c == 0x0A

/-- The pin that `Reporter::init` goes by. -/
def pinOf (opt : Options) : Bytes :=
  if opt.pin = [] ∧ opt.pinFile ≠ [] then readFirstLine host opt.pinFile else opt.pin

/-- What `Reporter::init` opens the spool and makes the transport with. -/
def reporterConfig (opt : Options) : ReporterConfig where
  spoolDir := opt.spoolDir
  spool := ⟨opt.spoolMaxBytes, opt.spoolMaxBytes / 8 + 1⟩
  transport :=
    { url := opt.url
      clientCertPath := opt.clientCert
      clientKeyPath := opt.clientKey
      serverPinSha256 := pinOf host opt }
  batchSize := opt.batchSize
  maxAttempts := opt.maxAttempts

/-- `Reporter::init`. -/
def initReporter (opt : Options) : Except Bytes ReporterConfig :=
  if pinOf host opt = [] then .error (ofString "report needs --pin or --pin-file")
  else do
    host.openSpool opt.spoolDir (reporterConfig host opt).spool
    host.makeTransport (reporterConfig host opt).transport
    return reporterConfig host opt

/-- The log, the dumps and the agent. -/
def setup (opt : Options) (fault : Agent.Fault) (reporter : Option ReporterConfig) : Setup where
  logLevel := opt.logLevel
  logFile := if opt.logFile = [] then none else some opt.logFile
  dumps := if opt.stateDir = [] then none else some opt.stateDir
  agent := ⟨opt.indexPath, opt.aliasPath, opt.db, opt.pipe, opt.intervalS, opt.hangTimeoutS, fault⟩
  reporter := reporter

/-- `cmd_run`, up to `service::run`. -/
def cmdRun (opt : Options) : Except Exit Setup :=
  if opt.logFile ≠ [] ∧ host.opensLog opt.logFile = false then
    .error { code := 1, message := ofString "cannot open log file " ++ opt.logFile }
  else
    match parseFault opt.fault with
    | none => .error { code := 2, message := ofString "unknown fault: " ++ opt.fault }
    | some fault =>
      if opt.url = [] then .ok (setup opt fault none)
      else
        match initReporter host opt with
        | .error err => .error ⟨1, ofString "cannot start reporter", err⟩
        | .ok reporter => .ok (setup opt fault (some reporter))

end Run

/-! ### The options of the service -/

/-- What `service install` takes from the options. -/
def Options.install (opt : Options) : InstallOptions :=
  ⟨opt.indexPath, opt.aliasPath, opt.intervalS, opt.stateDir, opt.db, opt.url, opt.spoolDir,
    opt.pinFile, opt.clientCert⟩

/-- A path that is written into the command, if there is one. -/
def forwarded (abs : Bytes → Bytes) (path : Bytes) : Bytes :=
  if path = [] then [] else abs path

/-- The options that the service runs with; those that are not named here are at their defaults. -/
def serviceOptions (abs : Bytes → Bytes) (opt : Options) : Options where
  indexPath := abs opt.indexPath
  aliasPath := abs opt.aliasPath
  intervalS := opt.intervalS
  stateDir := forwarded abs opt.stateDir
  logFile := if opt.stateDir = [] then [] else abs (opt.stateDir ++ ofString "/agent.log")
  db := opt.db
  url := opt.url
  spoolDir := if opt.url = [] then ofString "spool" else abs opt.spoolDir
  pinFile := if opt.url = [] then [] else forwarded abs opt.pinFile
  clientCert := if opt.url = [] then [] else forwarded abs opt.clientCert

section Sets

variable (atoi : Bytes → ℤ)

/-- What some arguments do to the options, wherever they stand. -/
def Sets (words : List Bytes) (f : Options → Options) : Prop :=
  ∀ opt rest, parseOptions atoi opt (words ++ rest) = parseOptions atoi (f opt) rest

variable {atoi} {words words' : List Bytes} {f f' : Options → Options}

theorem Sets.append (h : Sets atoi words f) (h' : Sets atoi words' f') :
    Sets atoi (words ++ words') fun opt ↦ f' (f opt) := by
  intro opt rest
  rw [List.append_assoc, h, h']

/-- Arguments that are left out under a condition. -/
theorem Sets.unless {c : Prop} [Decidable c] (h : Sets atoi words f) :
    Sets atoi (if c then [] else words) fun opt ↦ if c then opt else f opt := by
  intro opt rest
  split
  · rfl
  · exact h opt rest

theorem Sets.parseOptions_eq (h : Sets atoi words f) (opt : Options) :
    parseOptions atoi opt words = .ok (f opt) := by
  have hwords := h opt []
  rwa [List.append_nil] at hwords

variable (atoi) in
/-- An option that takes a value. -/
theorem sets_value {text : String} {flag : Flag} (hfind : Flag.find? (ofString text) = some flag)
    (hflag : flag ∉ [Flag.pretty, .drainOnly, .help]) (v : Bytes)
    (hset : ∀ opt, flag.set atoi v opt = .ok (f opt)) : Sets atoi [ofString text, v] f := by
  intro opt rest
  rw [List.cons_append, parseOptions, hfind]
  split
  · next h => cases h
  · next h => exact absurd (Option.some.inj h) (by rintro rfl; simp at hflag)
  · next h => exact absurd (Option.some.inj h) (by rintro rfl; simp at hflag)
  · next h => exact absurd (Option.some.inj h) (by rintro rfl; simp at hflag)
  · next h =>
    obtain rfl := Option.some.inj h
    show (flag.set atoi v opt >>= fun opt ↦ parseOptions atoi opt rest) = _
    rw [hset]
    rfl

end Sets

/-- **The words that `service install` writes are read as the options of the service.** -/
theorem parseOptions_installWords {atoi : Bytes → ℤ} (hatoi : LawfulAtoi atoi)
    (abs : Bytes → Bytes) (opt : Options) (hlow : -2 ^ 31 ≤ opt.intervalS)
    (hhigh : opt.intervalS < 2 ^ 31) :
    parseOptions atoi {} (installWords abs opt.install).tail = .ok (serviceOptions abs opt) := by
  have hindex := sets_value atoi (show Flag.find? (ofString "--index") = some .index by
    decide +kernel) (by decide) (abs opt.indexPath) fun _ ↦ rfl
  have haliases := sets_value atoi (show Flag.find? (ofString "--aliases") = some .aliases by
    decide +kernel) (by decide) (abs opt.aliasPath) fun _ ↦ rfl
  have hinterval := sets_value atoi (show Flag.find? (ofString "--interval") = some .interval by
    decide +kernel) (by decide) (intText opt.intervalS) fun opt' ↦
      show Flag.set atoi _ opt' .interval = .ok { opt' with intervalS := opt.intervalS } by
        rw [Flag.set, hatoi.of_readNumber (readNumber_intText _) hlow hhigh]
  have hstate := sets_value atoi (show Flag.find? (ofString "--state-dir") = some .stateDir by
    decide +kernel) (by decide) (abs opt.stateDir) fun _ ↦ rfl
  have hlog := sets_value atoi (show Flag.find? (ofString "--log-file") = some .logFile by
    decide +kernel) (by decide) (abs (opt.stateDir ++ ofString "/agent.log")) fun _ ↦ rfl
  have hdb := sets_value atoi (show Flag.find? (ofString "--db") = some .db by
    decide +kernel) (by decide) (opt.db) fun _ ↦ rfl
  have hurl := sets_value atoi (show Flag.find? (ofString "--url") = some .url by
    decide +kernel) (by decide) (opt.url) fun _ ↦ rfl
  have hspool := sets_value atoi (show Flag.find? (ofString "--spool") = some .spool by
    decide +kernel) (by decide) (abs opt.spoolDir) fun _ ↦ rfl
  have hpin := sets_value atoi (show Flag.find? (ofString "--pin-file") = some .pinFile by
    decide +kernel) (by decide) (abs opt.pinFile) fun _ ↦ rfl
  have hcert := sets_value atoi (show Flag.find? (ofString "--client-cert") = some .clientCert by
    decide +kernel) (by decide) (abs opt.clientCert) fun _ ↦ rfl
  have hreport := ((hurl.append hspool).append (hpin.unless (c := opt.pinFile = []))).append
    (hcert.unless (c := opt.clientCert = []))
  have hall := ((((hindex.append haliases).append hinterval).append
    ((hstate.append hlog).unless (c := opt.stateDir = []))).append
    (hdb.unless (c := opt.db = []))).append (hreport.unless (c := opt.url = []))
  refine (hall.parseOptions_eq {}).trans (congrArg Except.ok ?_)
  by_cases hstate : opt.stateDir = [] <;> by_cases hdb : opt.db = [] <;>
    by_cases hurl : opt.url = [] <;> by_cases hpin : opt.pinFile = [] <;>
    by_cases hcert : opt.clientCert = [] <;>
    simp only [serviceOptions, forwarded, hstate, hdb, hurl, hpin, hcert, if_true, if_false]

/-- The word that the command begins with is `run`. -/
theorem main_run (atoi : Bytes → ℤ) (exePath : Bytes) (args : List Bytes) :
    main atoi (exePath :: ofString "run" :: args) =
      (parseOptions atoi {} args).map fun opt ↦ (.run, opt) := by
  have hservice : ofString "run" ≠ ofString "service" := by decide +kernel
  have hdispatch : dispatch (ofString "run") args.head? = .ok .run := by
    unfold dispatch
    rw [if_neg (by decide +kernel), if_neg (by decide +kernel), if_neg (by decide +kernel),
      if_pos rfl]
  rw [main, if_neg hservice, hdispatch]
  rfl

section Installed

variable {atoi : Bytes → ℤ} {abs : Bytes → Bytes} {exePath : Bytes} {opt : Options}

/-- The command that `service install` registers for some options. -/
def registered (abs : Bytes → Bytes) (exePath : Bytes) (opt : Options) : Bytes :=
  installCommand exePath (installArgs abs opt.install)

theorem main_registered (hatoi : LawfulAtoi atoi) (hquote : 0x22 ∉ exePath)
    (hslash : exePath.getLast? ≠ some 0x5C)
    (hwords : ∀ arg ∈ installWords abs opt.install, Quotable arg)
    (hlow : -2 ^ 31 ≤ opt.intervalS) (hhigh : opt.intervalS < 2 ^ 31) :
    main atoi (Argv.parse (registered abs exePath opt)) = .ok (.run, serviceOptions abs opt) := by
  have hparse := (parse_installCommand_iff hquote hslash abs opt.install).2 hwords
  have hcons : installWords abs opt.install =
    ofString "run" :: (installWords abs opt.install).tail := rfl
  rw [registered, hparse, hcons, main_run, parseOptions_installWords hatoi abs opt hlow hhigh]
  rfl

end Installed

/-! ### The service and a run in the foreground -/

section Setup

variable {host : Host} {opt : Options}

theorem initReporter_eq_ok_iff {r : ReporterConfig} :
    initReporter host opt = .ok r ↔
      pinOf host opt ≠ [] ∧
        host.openSpool opt.spoolDir (reporterConfig host opt).spool = .ok () ∧
        host.makeTransport (reporterConfig host opt).transport = .ok () ∧
        reporterConfig host opt = r := by
  rw [initReporter]
  split
  · next hpin => simp [hpin]
  · next hpin =>
    rw [← ne_eq] at hpin
    rw [and_iff_right hpin]
    rcases host.openSpool opt.spoolDir (reporterConfig host opt).spool with err | ⟨⟩
    · simp [bind, Except.bind]
    rcases host.makeTransport (reporterConfig host opt).transport with err | ⟨⟩
    · simp [bind, Except.bind]
    · simp [bind, Except.bind, pure, Except.pure]

/-- The reporter that there is with a URL. -/
def reporterOf (host : Host) (opt : Options) : Option ReporterConfig :=
  if opt.url = [] then none else some (reporterConfig host opt)

/-- The log file and the reporter can be opened. -/
structure Setup.Opens (host : Host) (s : Setup) : Prop where
  log : ∀ path ∈ s.logFile, host.opensLog path = true
  reporter : ∀ r ∈ s.reporter, r.transport.serverPinSha256 ≠ [] ∧
    host.openSpool r.spoolDir r.spool = .ok () ∧ host.makeTransport r.transport = .ok ()

/-- **When `cmd_run` gets to `service::run`**: whether it does depends on what it sets up only. -/
theorem cmdRun_eq_ok_iff {s : Setup} :
    cmdRun host opt = .ok s ↔
      s.Opens host ∧
        ∃ fault, parseFault opt.fault = some fault ∧ setup opt fault (reporterOf host opt) = s := by
  have hlog : (∀ path ∈ (if opt.logFile = [] then none else some opt.logFile),
      host.opensLog path = true) ↔ ¬ (opt.logFile ≠ [] ∧ host.opensLog opt.logFile = false) := by
    split_ifs with hnil <;> simp [hnil]
  rw [cmdRun]
  split
  · next hfails =>
    constructor
    · intro h
      cases h
    · rintro ⟨hopens, fault, -, rfl⟩
      exact absurd hfails (hlog.1 hopens.log)
  · next hopens =>
    rcases parseFault opt.fault with - | fault
    · simp
    · simp only [Option.some.injEq, exists_eq_left', reporterOf]
      split
      · rw [Except.ok.injEq]
        refine ⟨?_, fun h ↦ h.2⟩
        rintro rfl
        exact ⟨⟨hlog.2 hopens, fun r hr ↦ by cases hr⟩, rfl⟩
      · constructor
        · intro h
          rcases hinit : initReporter host opt with err | r
          · rw [hinit] at h
            cases h
          · rw [hinit] at h
            obtain ⟨hpin, hspool, htransport, rfl⟩ := initReporter_eq_ok_iff.1 hinit
            obtain rfl := Except.ok.inj h
            refine ⟨⟨hlog.2 hopens, fun r hr ↦ ?_⟩, rfl⟩
            obtain rfl := Option.some.inj hr
            exact ⟨hpin, hspool, htransport⟩
        · rintro ⟨hall, rfl⟩
          obtain ⟨hpin, hspool, htransport⟩ := hall.reporter _ rfl
          rw [initReporter_eq_ok_iff.2 ⟨hpin, hspool, htransport, rfl⟩]

theorem setup_eq_iff {opt' : Options} {fault fault' : Agent.Fault}
    {r r' : Option ReporterConfig} :
    setup opt fault r = setup opt' fault' r' ↔
      opt.logLevel = opt'.logLevel ∧ opt.logFile = opt'.logFile ∧ opt.stateDir = opt'.stateDir ∧
        (opt.indexPath = opt'.indexPath ∧ opt.aliasPath = opt'.aliasPath ∧ opt.db = opt'.db ∧
          opt.pipe = opt'.pipe ∧ opt.intervalS = opt'.intervalS ∧
          opt.hangTimeoutS = opt'.hangTimeoutS ∧ fault = fault') ∧ r = r' := by
  have hsome (path path' : Bytes) : (if path = [] then none else some path) =
      (if path' = [] then none else some path') ↔ path = path' := by
    rcases path with - | ⟨c, path⟩ <;> rcases path' with - | ⟨c', path'⟩ <;> simp
  rw [setup, setup, Setup.mk.injEq, hsome, hsome, AgentConfig.mk.injEq]

theorem parseFault_eq_none_iff {name : Bytes} :
    parseFault name = some .none ↔ name = ofString "none" := by
  rw [parseFault]
  split_ifs <;> simp_all

/-- The paths among the options are absolute. -/
structure Absolute (abs : Bytes → Bytes) (opt : Options) : Prop where
  index : abs opt.indexPath = opt.indexPath
  aliases : abs opt.aliasPath = opt.aliasPath
  stateDir : forwarded abs opt.stateDir = opt.stateDir
  spoolDir : abs opt.spoolDir = opt.spoolDir
  pinFile : forwarded abs opt.pinFile = opt.pinFile
  clientCert : forwarded abs opt.clientCert = opt.clientCert

/-- Nothing is asked for that `service install` does not write into the command. -/
structure Carried (host : Host) (abs : Bytes → Bytes) (opt : Options) : Prop where
  logLevel : opt.logLevel = .info
  logFile : opt.logFile = (serviceOptions abs opt).logFile
  pipe : opt.pipe = Ipc.kDefaultPipe
  hangTimeout : opt.hangTimeoutS = 120
  fault : opt.fault = ofString "none"
  clientKey : opt.url ≠ [] → opt.clientKey = []
  spoolMaxBytes : opt.url ≠ [] → opt.spoolMaxBytes = 64 * 1024 * 1024
  batchSize : opt.url ≠ [] → opt.batchSize = 32
  maxAttempts : opt.url ≠ [] → opt.maxAttempts = 6
  /-- The pin is in a file, and if it is given as well it is the same. -/
  pin : opt.url ≠ [] → opt.pinFile ≠ [] ∧ (opt.pin = [] ∨ opt.pin = readFirstLine host opt.pinFile)

theorem reporterConfig_eq_iff {opt' : Options} :
    reporterConfig host opt = reporterConfig host opt' ↔
      opt.spoolDir = opt'.spoolDir ∧ opt.spoolMaxBytes = opt'.spoolMaxBytes ∧
        (opt.url = opt'.url ∧ opt.clientCert = opt'.clientCert ∧ opt.clientKey = opt'.clientKey ∧
          pinOf host opt = pinOf host opt') ∧
        opt.batchSize = opt'.batchSize ∧ opt.maxAttempts = opt'.maxAttempts := by
  have hsegment : opt.spoolMaxBytes = opt'.spoolMaxBytes ∧
      opt.spoolMaxBytes / 8 + 1 = opt'.spoolMaxBytes / 8 + 1 ↔
        opt.spoolMaxBytes = opt'.spoolMaxBytes :=
    and_iff_left_of_imp fun h ↦ by rw [h]
  simp only [reporterConfig, ReporterConfig.mk.injEq, Config.mk.injEq, Transport.Config.mk.injEq,
    hsegment, and_true]

/-- The service reads its pin from the file, and has none without. -/
theorem pinOf_serviceOptions_eq_iff {abs : Bytes → Bytes} (habs : Absolute abs opt)
    (hurl : opt.url ≠ []) (hpin : pinOf host opt ≠ []) :
    pinOf host (serviceOptions abs opt) = pinOf host opt ↔
      opt.pinFile ≠ [] ∧ (opt.pin = [] ∨ opt.pin = readFirstLine host opt.pinFile) := by
  have hfile : (serviceOptions abs opt).pinFile = opt.pinFile :=
    (if_neg hurl).trans habs.pinFile
  have hnone : (serviceOptions abs opt).pin = [] := rfl
  rw [pinOf, hnone, hfile]
  rw [pinOf] at hpin ⊢
  by_cases hnil : opt.pinFile = []
  · simp_all
  · by_cases hgiven : opt.pin = []
    · simp [hnil, hgiven]
    · simp [hnil, hgiven, eq_comm]

theorem reporterOf_eq_iff {abs : Bytes → Bytes} (habs : Absolute abs opt)
    (hpin : ∀ r ∈ reporterOf host opt, r.transport.serverPinSha256 ≠ []) :
    reporterOf host (serviceOptions abs opt) = reporterOf host opt ↔
      (opt.url ≠ [] → opt.clientKey = [] ∧ opt.spoolMaxBytes = 64 * 1024 * 1024 ∧
        opt.batchSize = 32 ∧ opt.maxAttempts = 6 ∧ opt.pinFile ≠ [] ∧
        (opt.pin = [] ∨ opt.pin = readFirstLine host opt.pinFile)) := by
  by_cases hurl : opt.url = []
  · simp [reporterOf, serviceOptions, hurl]
  · have hsome : reporterOf host opt = some (reporterConfig host opt) := if_neg hurl
    have hservice : reporterOf host (serviceOptions abs opt) =
      some (reporterConfig host (serviceOptions abs opt)) := if_neg hurl
    have hspool : (serviceOptions abs opt).spoolDir = opt.spoolDir :=
      (if_neg hurl).trans habs.spoolDir
    have hcert : (serviceOptions abs opt).clientCert = opt.clientCert :=
      (if_neg hurl).trans habs.clientCert
    rw [hservice, hsome, Option.some.injEq, reporterConfig_eq_iff, hspool, hcert,
      pinOf_serviceOptions_eq_iff habs hurl (hpin _ hsome)]
    simp only [serviceOptions, hurl, true_and, ne_eq, not_false_eq_true, forall_const]
    constructor
    · rintro ⟨hmax, ⟨hkey, hfile⟩, hbatch, hattempts⟩
      exact ⟨hkey.symm, hmax.symm, hbatch.symm, hattempts.symm, hfile⟩
    · rintro ⟨hkey, hmax, hbatch, hattempts, hfile⟩
      exact ⟨hmax.symm, ⟨hkey.symm, hfile⟩, hbatch.symm, hattempts.symm⟩

/-- **When an installed service runs as in the foreground.** Options with which `run` starts are
given to `service install`, with absolute paths that can be quoted. The service sets up the same
log, at the same level, and the same dumps, agent and reporter exactly if nothing else was asked for
(`Carried`). In particular the pin has to be in a file, whatever `--pin` says. -/
theorem service_runs_as_in_foreground_iff {atoi : Bytes → ℤ} {abs : Bytes → Bytes} {exePath : Bytes}
    (hatoi : LawfulAtoi atoi) (hquote : 0x22 ∉ exePath) (hslash : exePath.getLast? ≠ some 0x5C)
    (hwords : ∀ arg ∈ installWords abs opt.install, Quotable arg)
    (hlow : -2 ^ 31 ≤ opt.intervalS) (hhigh : opt.intervalS < 2 ^ 31) (habs : Absolute abs opt)
    {s : Setup} (hrun : cmdRun host opt = .ok s) :
    (∃ opt', main atoi (Argv.parse (registered abs exePath opt)) = .ok (.run, opt') ∧
        cmdRun host opt' = .ok s) ↔
      Carried host abs opt := by
  obtain ⟨hopens, fault, hfault, rfl⟩ := cmdRun_eq_ok_iff.1 hrun
  have hnone : parseFault (serviceOptions abs opt).fault = some .none := by
    exact parseFault_eq_none_iff.2 rfl
  rw [main_registered hatoi hquote hslash hwords hlow hhigh]
  simp only [Except.ok.injEq, Prod.mk.injEq, true_and, exists_eq_left', cmdRun_eq_ok_iff,
    and_iff_right hopens, hnone, Option.some.injEq, setup_eq_iff]
  rw [reporterOf_eq_iff habs fun r hr ↦ (hopens.reporter r hr).1]
  constructor
  · rintro ⟨hlevel, hlog, -, ⟨-, -, -, hpipe, -, hhang, rfl⟩, hreporter⟩
    exact ⟨hlevel.symm, hlog.symm, hpipe.symm, hhang.symm, parseFault_eq_none_iff.1 hfault,
      fun h ↦ (hreporter h).1, fun h ↦ (hreporter h).2.1, fun h ↦ (hreporter h).2.2.1,
      fun h ↦ (hreporter h).2.2.2.1, fun h ↦ (hreporter h).2.2.2.2⟩
  · intro h
    obtain rfl : Agent.Fault.none = fault :=
      Option.some.inj ((parseFault_eq_none_iff.2 h.fault).symm.trans hfault)
    exact ⟨h.logLevel.symm, h.logFile.symm, habs.stateDir, ⟨habs.index, habs.aliases, rfl,
      h.pipe.symm, rfl, h.hangTimeout.symm, rfl⟩, fun hurl ↦ ⟨h.clientKey hurl,
        h.spoolMaxBytes hurl, h.batchSize hurl, h.maxAttempts hurl, h.pin hurl⟩⟩

/-- `std::filesystem::absolute` in a directory `C:\ns`, on the paths of that drive. -/
def absoluteIn (path : Bytes) : Bytes :=
  if (ofString "C:\\").isPrefixOf path then path else ofString "C:\\ns\\" ++ path

/-- With a pin on the command line, `run` starts and the service does not. -/
theorem service_runs_as_in_foreground_pin :
    ∃ (host : Host) (opt : Options) (s : Setup), cmdRun host opt = .ok s ∧
      ¬ ∃ opt', main (strtol 31 10)
          (Argv.parse (registered absoluteIn (ofString "C:\\ns\\nano-sensor.exe") opt)) =
          .ok (.run, opt') ∧ cmdRun host opt' = .ok s := by
  -- the transport is refused for its pin only
  let host : Host :=
    { contents := fun _ ↦ none
      opensLog := fun _ ↦ true
      openSpool := fun _ _ ↦ .ok ()
      makeTransport := fun cfg ↦ (Transport.checkPin cfg).map fun _ ↦ () }
  let opt : Options :=
    { indexPath := ofString "C:\\ns\\cve_index.tsv"
      aliasPath := ofString "C:\\ns\\cpe_aliases.tsv"
      spoolDir := ofString "C:\\ns\\spool"
      url := ofString "https://h/x"
      pin := List.replicate 64 0x61 }
  have hurl : opt.url ≠ [] := by decide +kernel
  have hrun : cmdRun host opt = .ok (setup opt .none (reporterOf host opt)) := by
    refine cmdRun_eq_ok_iff.2 ⟨⟨fun path _ ↦ rfl, fun r hr ↦ ?_⟩, .none,
      parseFault_eq_none_iff.2 rfl, rfl⟩
    replace hr : reporterOf host opt = some r := hr
    rw [reporterOf, if_neg hurl] at hr
    obtain rfl := Option.some.inj hr
    exact ⟨by decide +kernel, rfl, by decide +kernel⟩
  refine ⟨host, opt, _, hrun, fun hservice ↦ ?_⟩
  have hcarried := (service_runs_as_in_foreground_iff lawfulAtoi_strtol (by decide +kernel)
    (by decide +kernel) (by decide +kernel) (by decide) (by decide)
    ⟨by decide +kernel, by decide +kernel, rfl, by decide +kernel, rfl, rfl⟩ hrun).1 hservice
  exact (hcarried.pin hurl).1 rfl

end Setup

end Service

end NanoSensor
