import Shrimp.CommonTypes

/-!
# Common helpers

`make_full_path` of `utils.hpp`, which names the files that are served and those that are read.
-/

namespace Shrimp

/-- `make_full_path`. -/
def makeFullPath (rootDir path : CxxString) : CxxString := rootDir ++ path

end Shrimp
