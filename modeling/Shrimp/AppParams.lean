import Shrimp.CommonTypes

/-!
# Parameters of the application

The parameters of `app_params.hpp`, with their defaults.
-/

namespace Shrimp

/-- `storage_params_t`. -/
structure StorageParams where
  rootDir : CxxString := cxxString "."
deriving DecidableEq, Repr

/-- `http_server_params_t::ip_version_t`. -/
inductive IpVersion
  | v4
  | v6
deriving DecidableEq, Repr

/-- `http_server_params_t`. -/
structure HttpServerParams where
  port : UInt16 := 80
  ipVersion : IpVersion := .v4
  address : CxxString := cxxString "localhost"
deriving DecidableEq, Repr

/-- `app_params_t`. -/
structure AppParams where
  httpServer : HttpServerParams := {}
  storage : StorageParams := {}
deriving DecidableEq, Repr

end Shrimp
