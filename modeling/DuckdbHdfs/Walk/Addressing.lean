import DuckdbHdfs.Glob.Literals
import DuckdbHdfs.Walk.Walkers

/-!
# The walk of an escaped path

`glob_walk` on a pattern that spells out one path asks the server about that path and lists
nothing.
-/

namespace DuckdbHdfs

open Glob WorkStack

end DuckdbHdfs
