import DuckdbHdfs.Batching
import DuckdbHdfs.ClientLifetimes
import DuckdbHdfs.ConnectionTable
import DuckdbHdfs.Draining
import DuckdbHdfs.FileCursor
import DuckdbHdfs.FileLives
import DuckdbHdfs.FileWrites
import DuckdbHdfs.Glob.BraceGrammar
import DuckdbHdfs.Glob.PatternLanguage
import DuckdbHdfs.Glob.PlanLanguage
import DuckdbHdfs.Glob.Stepping
import DuckdbHdfs.ListParallelism
import DuckdbHdfs.ListingLaws
import DuckdbHdfs.MetaFunctions
import DuckdbHdfs.NamespaceCalls
import DuckdbHdfs.OneWalk
import DuckdbHdfs.StreamHandles
import DuckdbHdfs.Urls
import DuckdbHdfs.Walk.Addressing
import DuckdbHdfs.Walk.Agreement
import DuckdbHdfs.Walk.Pruning
import DuckdbHdfs.Walk.StackBound
