import WideColumn.Record.Codec
import WideColumn.Decimal.Integer

/-!
# Client and instance configuration

A client reads its configuration from environment variables; a variable that is missing or cannot
be read leaves the default. What a client registers for an instance is its own configuration
together with the name and the address of the instance.
-/

namespace WideColumn

/-- The configuration of a client. -/
structure ClientConfig where
  /-- Instance used when the caller names none. -/
  defaultInstance : String := "default"
  /-- Connections kept. -/
  poolSize : UInt64 := 100
  /-- Further connections opened under load. -/
  poolMaxOverflow : UInt64 := 20
  /-- Whether connections go through a tunnel. -/
  enableTunnel : Bool := false
  /-- How much is logged. -/
  logLevel : String := "info"
deriving DecidableEq, Inhabited

/-- The configuration of an instance. -/
structure InstanceConfig where
  /-- Instance name. -/
  name : String
  /-- Where it is reached. -/
  endpoint : String
  /-- Connections kept. -/
  poolSize : UInt64
  /-- Further connections opened under load. -/
  poolMaxOverflow : UInt64
  /-- Whether connections go through a tunnel. -/
  enableTunnel : Bool
deriving DecidableEq, Inhabited

namespace ClientConfig

/-- A size from the environment; one that cannot be read counts as unset. -/
def sizeOr (default : UInt64) (value : Option String) : UInt64 :=
  (value.bind fun s => Decimal.readUInt64? s.toList).getD default

/-- A switch from the environment: set to one of five words it is on, to anything else off. -/
def switchOr (default : Bool) : Option String → Bool
  | none => default
  | some s => ["1", "true", "yes", "TRUE", "YES"].contains s

/-- The configuration that environment variables describe. -/
def ofEnvironment (env : String → Option String) : ClientConfig :=
  let base : ClientConfig := {}
  { defaultInstance := (env "TABLESTORE_DEFAULT_INSTANCE").getD base.defaultInstance
    poolSize := sizeOr base.poolSize (env "TABLESTORE_POOL_SIZE")
    poolMaxOverflow := sizeOr base.poolMaxOverflow (env "TABLESTORE_POOL_MAX_OVERFLOW")
    enableTunnel := switchOr base.enableTunnel (env "TABLESTORE_ENABLE_TUNNEL")
    logLevel := (env "LOG_LEVEL").getD base.logLevel }

instance : Wire ClientConfig where
  encode c := .object (field "defaultInstance" c.defaultInstance ++
    field "poolSize" c.poolSize ++ field "poolMaxOverflow" c.poolMaxOverflow ++
    field "enableTunnel" c.enableTunnel ++ field "logLevel" c.logLevel)
  decode := (ClientConfig.mk <$> .required "defaultInstance" <*> .required "poolSize" <*>
    .required "poolMaxOverflow" <*> .required "enableTunnel" <*> .required "logLevel" :
    Fields ClientConfig).decode

end ClientConfig

namespace InstanceConfig

/-- The configuration of an instance that shares the settings of its client. -/
def ofClient (name endpoint : String) (config : ClientConfig) : InstanceConfig where
  name := name
  endpoint := endpoint
  poolSize := config.poolSize
  poolMaxOverflow := config.poolMaxOverflow
  enableTunnel := config.enableTunnel

instance : Wire InstanceConfig where
  encode c := .object (field "name" c.name ++ field "endpoint" c.endpoint ++
    field "poolSize" c.poolSize ++ field "poolMaxOverflow" c.poolMaxOverflow ++
    field "enableTunnel" c.enableTunnel)
  decode := (InstanceConfig.mk <$> .required "name" <*> .required "endpoint" <*>
    .required "poolSize" <*> .required "poolMaxOverflow" <*> .required "enableTunnel" :
    Fields InstanceConfig).decode

end InstanceConfig

end WideColumn
