import StoreWarden.Os.Path

/-!
# Options of the command line

Every option has a long name, may have a letter and may be given by a variable of the environment
instead.  Its form says what its value is read as; a flag has no value on the command line.
-/

namespace StoreWarden.CommandLine

inductive Form where
  | flag
  | text
  | path
  | port
  | seconds
deriving DecidableEq, Repr

abbrev Form.Value : Form → Type
  | .flag => Bool
  | .text => String
  | .path => Path
  | .port => UInt16
  | .seconds => UInt64

inductive Key where
  | sidecarHostPort
  | sidecarTlsEnabled
  | sidecarBundle
  | serverName
  | clientCa
  | clientCert
  | clientKey
  | readyPort
  | clientPort
  | waitReady
  | recordPath
  | documentPath
  | program
  | debug
  | verbose
  | quiet
  | logFormat
  | validate
  | print
  | help
  | version
deriving DecidableEq, Repr

namespace Key

/-- All options, in the order in which the environment is looked up for them. -/
def all : List Key :=
  [.sidecarHostPort, .sidecarTlsEnabled, .sidecarBundle, .serverName, .clientCa, .clientCert,
    .clientKey, .readyPort, .clientPort, .waitReady, .recordPath, .documentPath, .program, .debug,
    .verbose, .quiet, .logFormat, .validate, .print, .help, .version]

def long : Key → String
  | .sidecarHostPort => "sidecar-host-port"
  | .sidecarTlsEnabled => "sidecar-tls-enabled"
  | .sidecarBundle => "sidecar-ca-cert-bundle"
  | .serverName => "etcd-server-name"
  | .clientCa => "etcd-client-ca"
  | .clientCert => "etcd-client-cert"
  | .clientKey => "etcd-client-key"
  | .readyPort => "ready-port"
  | .clientPort => "client-port"
  | .waitReady => "wait-ready-timeout"
  | .recordPath => "crash-marker-path"
  | .documentPath => "etcd-config-path"
  | .program => "etcd-binary"
  | .debug => "debug"
  | .verbose => "verbose"
  | .quiet => "quiet"
  | .logFormat => "log-format"
  | .validate => "validate-config"
  | .print => "print-config"
  | .help => "help"
  | .version => "version"

def short? : Key → Option Char
  | .debug => some 'd'
  | .verbose => some 'v'
  | .quiet => some 'q'
  | .help => some 'h'
  | .version => some 'V'
  | _ => none

def form : Key → Form
  | .sidecarHostPort | .serverName | .program | .logFormat => .text
  | .sidecarBundle | .clientCa | .clientCert | .clientKey | .recordPath | .documentPath => .path
  | .readyPort | .clientPort => .port
  | .waitReady => .seconds
  | _ => .flag

/-- What stands for the value where the option is named. -/
def placeholder? : Key → Option String
  | .sidecarHostPort => some "HOST:PORT"
  | .serverName => some "ETCD_SERVER_NAME"
  | .program => some "ETCD_BINARY"
  | .logFormat => some "FORMAT"
  | .sidecarBundle | .clientCa | .clientCert | .clientKey | .recordPath | .documentPath =>
    some "PATH"
  | .readyPort => some "READY_PORT"
  | .clientPort => some "CLIENT_PORT"
  | .waitReady => some "SECONDS"
  | _ => none

/-- The variable of the environment that gives the value. -/
def environmentName? : Key → Option String
  | .sidecarHostPort => some "ETCD_WRAPPER_SIDECAR_HOST_PORT"
  | .sidecarTlsEnabled => some "ETCD_WRAPPER_SIDECAR_TLS_ENABLED"
  | .sidecarBundle => some "ETCD_WRAPPER_SIDECAR_CA_CERT_BUNDLE"
  | .serverName => some "ETCD_WRAPPER_ETCD_SERVER_NAME"
  | .clientCa => some "ETCD_WRAPPER_ETCD_CLIENT_CA"
  | .clientCert => some "ETCD_WRAPPER_ETCD_CLIENT_CERT"
  | .clientKey => some "ETCD_WRAPPER_ETCD_CLIENT_KEY"
  | .readyPort => some "ETCD_WRAPPER_READY_PORT"
  | .clientPort => some "ETCD_WRAPPER_CLIENT_PORT"
  | .waitReady => some "ETCD_WRAPPER_WAIT_READY_TIMEOUT"
  | .recordPath => some "ETCD_WRAPPER_CRASH_MARKER"
  | .documentPath => some "ETCD_WRAPPER_ETCD_CONFIG"
  | .program => some "ETCD_WRAPPER_ETCD_BINARY"
  | .logFormat => some "ETCD_WRAPPER_LOG_FORMAT"
  | _ => none

def ofLong? (name : String) : Option Key := all.find? (·.long = name)

def ofShort? (c : Char) : Option Key := all.find? (·.short? = some c)

def shown (k : Key) : String :=
  "--" ++ k.long ++ (k.placeholder?.map fun p => " <" ++ p ++ ">").getD ""

theorem mem_all (k : Key) : k ∈ all := by cases k <;> decide

theorem ofLong?_long (k : Key) : ofLong? k.long = some k := by cases k <;> decide

end Key

end StoreWarden.CommandLine
