import Shrimp.Server.Rest

/-!
# The application

The start of the server in `main.cpp`: the arguments of the command line and the environment
variables, the number of threads, and the agents. `main` either says what is wrong or starts a
server. What clara, RESTinio and spdlog make of strings is a parameter; loggers are left out.
-/

namespace Shrimp

open Execution HttpServer

namespace App

/-! ## Numbers of threads -/

/-- `thread_count_t`, which cannot be zero. -/
structure ThreadCount where
  value : UInt32
  ne_zero : value ≠ 0
deriving DecidableEq, Repr

namespace ThreadCount

/-- `invalid_value`. -/
def invalidValue : String := "Thread count can't be zero"

/-- `try_construct`. -/
def tryConstruct (value : UInt32) : Except String ThreadCount :=
  if h : value = 0 then .error invalidValue else .ok ⟨value, h⟩

/-- The constructor, which throws. -/
def make (value : UInt32) : Except StdException ThreadCount :=
  match tryConstruct value with
  | .ok count => .ok count
  | .error msg => .error ⟨msg⟩

/-- A count is made of its value and of no other. -/
theorem tryConstruct_eq_ok {value : UInt32} {count : ThreadCount} :
    tryConstruct value = .ok count ↔ count.value = value := by
  unfold tryConstruct
  split
  · rename_i h
    refine ⟨nofun, ?_⟩
    rintro rfl
    exact absurd h count.ne_zero
  · constructor
    · intro h
      cases h
      rfl
    · rintro rfl
      rfl

/-- A count that was made has the value it was made of. -/
theorem make_eq_ok {value : UInt32} {count : ThreadCount} :
    make value = .ok count ↔ count.value = value := by
  rw [← tryConstruct_eq_ok, make]
  cases tryConstruct value with
  | ok count' => rw [Except.ok.injEq, Except.ok.injEq]
  | error msg => exact ⟨nofun, nofun⟩

/-- A count can be made of every value but zero. -/
theorem exists_make {value : UInt32} : (∃ count, make value = .ok count) ↔ value ≠ 0 := by
  simp only [make_eq_ok]
  constructor
  · rintro ⟨count, rfl⟩
    exact count.ne_zero
  · intro h
    exact ⟨⟨value, h⟩, rfl⟩

end ThreadCount

/-- `spdlog::level::level_enum`. -/
inductive LogLevel
  | trace
  | debug
  | info
  | warn
  | err
  | critical
  | off
deriving DecidableEq, Repr

/-- An option of the command line, its argument converted to the type of the variable it is for. -/
inductive CliOption
  | address (value : CxxString)
  | port (value : UInt16)
  | ipVersion (value : UInt16)
  | images (value : CxxString)
  | sobjTracing
  | restinioTracing
  | ioThreads (value : UInt32)
  | workerThreads (value : UInt32)
  | logLevel (value : CxxString)
  | help
deriving DecidableEq, Repr

/-- The functions of the libraries: clara reads options from the arguments until there are none, an
error, or a call for help, `cast_to<unsigned>` reads a number, and `from_str` a level, where it
gives `off` for a name it does not know. -/
structure Libraries where
  readOptions : List CxxString → List CliOption × Option String
  castToUnsigned : CxxString → Except StdException UInt32
  levelFromStr : CxxString → LogLevel

/-- The enumerators of `ip_version_t`. -/
def ipVersionToUInt16 : IpVersion → UInt16
  | .v4 => 4
  | .v6 => 6

/-- The variables the options are for. -/
structure CliValues where
  help : Bool := false
  appParams : AppParams := {}
  ipVersion : UInt16 := ipVersionToUInt16 ({} : HttpServerParams).ipVersion
  sobjTracing : Bool := false
  restinioTracing : Bool := false
  logLevel : CxxString := cxxString "trace"
  ioThreads : Option ThreadCount := none
  workerThreads : Option ThreadCount := none
deriving DecidableEq, Repr

/-- An option sets its variable; those of the threads call `make_thread_count_handler`. -/
def CliValues.set (v : CliValues) : CliOption → Except String CliValues
  | .address address =>
    .ok { v with appParams.httpServer.address := address }
  | .port port => .ok { v with appParams.httpServer.port := port }
  | .ipVersion ipVersion => .ok { v with ipVersion }
  | .images rootDir => .ok { v with appParams.storage.rootDir := rootDir }
  | .sobjTracing => .ok { v with sobjTracing := true }
  | .restinioTracing => .ok { v with restinioTracing := true }
  | .ioThreads value => do return { v with ioThreads := some (← ThreadCount.tryConstruct value) }
  | .workerThreads value => do
    return { v with workerThreads := some (← ThreadCount.tryConstruct value) }
  | .logLevel logLevel => .ok { v with logLevel }
  | .help => .ok { v with help := true }

section Start
variable (lib : Libraries) (getenv : String → Option CxxString)

end Start

end App

end Shrimp
