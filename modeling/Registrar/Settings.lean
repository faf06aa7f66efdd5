import Registrar.Fixed
import Registrar.Text.Blank
import Registrar.Text.Numeral

/-!
The settings of a node. Each has a default and a variable of its own in the environment. Variables
are read in the order of `Variable.all`, and the first that cannot be read gives the error. The data
directory and the endpoint are taken as they are; around every other value white space is ignored.
-/

namespace Registrar

/-- The variables that a node reads. -/
inductive Variable where
  | dataDir
  | inMemory
  | chainEndpoint
  | adminAddress
  | controllerAddress
  | gasLimit
  | blockTime
  | nonceOverride
  | laneCapacity
  | enqueueTimeout
  | skipProcessing
  | skipBackgroundProcessing
  | shutdownTimeout
  deriving DecidableEq, Repr

namespace Variable

/-- All variables, in the order in which they are read. -/
def all : List Variable :=
  [.dataDir, .inMemory, .chainEndpoint, .adminAddress, .controllerAddress, .gasLimit, .blockTime,
    .nonceOverride, .laneCapacity, .enqueueTimeout, .skipProcessing, .skipBackgroundProcessing,
    .shutdownTimeout]

def name : Variable → String
  | .dataDir => "NS_DATA_DIR"
  | .inMemory => "NS_IN_MEMORY"
  | .chainEndpoint => "NS_CHAIN_ENDPOINT"
  | .adminAddress => "NS_ADMIN_ADDRESS"
  | .controllerAddress => "NS_CONTROLLER_ADDRESS"
  | .gasLimit => "NS_GAS_LIMIT"
  | .blockTime => "NS_BLOCK_TIME_MS"
  | .nonceOverride => "NS_NONCE_OVERRIDE"
  | .laneCapacity => "NS_LANE_CAPACITY"
  | .enqueueTimeout => "NS_ENQUEUE_TIMEOUT_MS"
  | .skipProcessing => "NS_SKIP_PROCESSING"
  | .skipBackgroundProcessing => "NS_SKIP_BACKGROUND_PROCESSING"
  | .shutdownTimeout => "NS_SHUTDOWN_TIMEOUT_SECS"

end Variable

structure Settings where
  dataDir : String
  inMemory : Bool
  endpoint : String
  adminAddress : Address
  controllerAddress : Address
  gasLimit : UInt64
  /-- Milliseconds until a transaction is mined. -/
  blockTime : UInt64
  /-- A nonce that answers every lookup. -/
  nonceOverride : Option UInt64
  /-- How many announced items the lane holds. -/
  laneCapacity : UInt64
  /-- Milliseconds that an announcement waits for room in the lane. -/
  enqueueTimeout : UInt64
  /-- Complete items without touching the chain. -/
  skipProcessing : Bool
  /-- Never start the worker. -/
  skipBackgroundProcessing : Bool
  /-- Seconds that a shutdown waits for the worker. -/
  shutdownTimeout : UInt64
  deriving DecidableEq

inductive SettingsError where
  | invalidValue (var : Variable) (value reason : String)
  | zeroAdminAddress
  | zeroLaneCapacity
  deriving DecidableEq, Repr

def SettingsError.message : SettingsError → String
  | .invalidValue var value reason => s!"Invalid value '{value}' for {var.name}: {reason}"
  | .zeroAdminAddress => "Admin address is the zero address. Set NS_ADMIN_ADDRESS."
  | .zeroLaneCapacity => "Lane capacity must be at least 1"

namespace Settings

def default : Settings where
  dataDir := "./data"
  inMemory := false
  endpoint := "dev://local"
  adminAddress := .zero
  controllerAddress := .fill 0xC0
  gasLimit := 500000
  blockTime := 1000
  nonceOverride := none
  laneCapacity := 10
  enqueueTimeout := 5000
  skipProcessing := false
  skipBackgroundProcessing := false
  shutdownTimeout := 30

instance : Inhabited Settings := ⟨default⟩

def readWord (text : List Char) : Except String UInt64 :=
  match Text.Numeral.parse UInt64.size text with
  | .ok n => .ok (UInt64.ofNat n)
  | .error fault => .error fault.message

def readBool (text : List Char) : Except String Bool :=
  match Text.parseBool? text with
  | some value => .ok value
  | none => .error "provided string was not `true` or `false`"

def readAddress (text : List Char) : Except String Address :=
  match Fixed.parse (String.ofList text) with
  | .ok address => .ok address
  | .error error => .error error.message

/-- The value of a variable, read without the white space around it. -/
def readValue {α : Type} (read : List Char → Except String α) (var : Variable)
    (raw : String) : Except SettingsError α :=
  match read (Text.trim raw.toList) with
  | .ok value => .ok value
  | .error reason => .error (.invalidValue var raw reason)

/-- The settings with the value of one variable. -/
def set (settings : Settings) (raw : String) : Variable → Except SettingsError Settings
  | .dataDir => .ok { settings with dataDir := raw }
  | .inMemory =>
    (readValue readBool .inMemory raw).map fun value => { settings with inMemory := value }
  | .chainEndpoint => .ok { settings with endpoint := raw }
  | .adminAddress =>
    (readValue readAddress .adminAddress raw).map fun value =>
      { settings with adminAddress := value }
  | .controllerAddress =>
    (readValue readAddress .controllerAddress raw).map fun value =>
      { settings with controllerAddress := value }
  | .gasLimit =>
    (readValue readWord .gasLimit raw).map fun value => { settings with gasLimit := value }
  | .blockTime =>
    (readValue readWord .blockTime raw).map fun value => { settings with blockTime := value }
  | .nonceOverride =>
    (readValue readWord .nonceOverride raw).map fun value =>
      { settings with nonceOverride := some value }
  | .laneCapacity =>
    (readValue readWord .laneCapacity raw).map fun value => { settings with laneCapacity := value }
  | .enqueueTimeout =>
    (readValue readWord .enqueueTimeout raw).map fun value =>
      { settings with enqueueTimeout := value }
  | .skipProcessing =>
    (readValue readBool .skipProcessing raw).map fun value =>
      { settings with skipProcessing := value }
  | .skipBackgroundProcessing =>
    (readValue readBool .skipBackgroundProcessing raw).map fun value =>
      { settings with skipBackgroundProcessing := value }
  | .shutdownTimeout =>
    (readValue readWord .shutdownTimeout raw).map fun value =>
      { settings with shutdownTimeout := value }

/-- The settings after those of the given variables that `lookup` knows. -/
def loadOver (lookup : String → Option String) (settings : Settings) :
    List Variable → Except SettingsError Settings
  | [] => .ok settings
  | var :: rest =>
    match lookup var.name with
    | none => loadOver lookup settings rest
    | some raw =>
      match settings.set raw var with
      | .error error => .error error
      | .ok settings => loadOver lookup settings rest

/-- The settings that an environment gives. -/
def load (lookup : String → Option String) : Except SettingsError Settings :=
  loadOver lookup default Variable.all

/-- What a node asks of its settings before it starts. -/
def validate (settings : Settings) : Except SettingsError Unit :=
  if settings.adminAddress.isZero then .error .zeroAdminAddress
  else if settings.laneCapacity = 0 then .error .zeroLaneCapacity
  else .ok ()

/-- How the endpoints begin that a node can serve by itself. -/
def servedScheme : List Char := ['d', 'e', 'v', ':', '/', '/']

def isServed (settings : Settings) : Bool := servedScheme.isPrefixOf settings.endpoint.toList

end Settings

end Registrar
