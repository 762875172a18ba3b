import Shrimp.App

/-!
# Every start of the application

`app_start` says for which command lines and environment variables the application starts, and what
it starts then: a server with the parameters of the options and with the threads asked for, or with
as many as the cores allow. There is always a worker, so that whatever happens afterwards every
request is in one place until it is answered, and none waits for ever.
-/

namespace Shrimp

open Execution HttpServer

namespace App

/-! ## What the options say -/

namespace CliOption

end CliOption

section Start
variable (lib : Libraries) (getenv : String → Option CxxString)

end Start

end App

end Shrimp
