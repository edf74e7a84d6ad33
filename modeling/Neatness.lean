import Neatness.Main
import Neatness.Server.Session
import Neatness.Proofs.Analysis
import Neatness.Proofs.BasePaths
import Neatness.Proofs.ConfigChain
import Neatness.Proofs.ExitStatus
import Neatness.Proofs.Independence
import Neatness.Proofs.LoopBody
import Neatness.Proofs.OpenBlocks
import Neatness.Proofs.Appending
import Neatness.Proofs.CarriageReturns
import Neatness.Proofs.LineEndings
import Neatness.Proofs.PathSteps
import Neatness.Proofs.ConfigSearch
import Neatness.Proofs.Controller
import Neatness.Proofs.ServerSections
import Neatness.Proofs.HostValues
import Neatness.Proofs.Histories
import Neatness.Proofs.Publication
import Neatness.Proofs.WatchLoop
import Neatness.Proofs.FolderPatterns
import Neatness.Proofs.Spelling
import Neatness.Proofs.WatchAgreement
import Neatness.Proofs.LoopWalk
import Neatness.Proofs.PrintsInLoops
import Neatness.Proofs.IdleClauses
import Neatness.Proofs.Layering
import Neatness.Proofs.ReadBack
import Neatness.Proofs.FirstConfig
import Neatness.Proofs.FoundPlaces
import Neatness.Proofs.EditorRanges
import Neatness.Proofs.EmptyCatches
import Neatness.Proofs.HeaderNames
import Neatness.Proofs.DeepLines
import Neatness.Proofs.QuotedPaths
import Neatness.Proofs.PlainReports
import Neatness.Proofs.WorkerTurns
import Neatness.Proofs.NoticeOrder
import Neatness.Proofs.RuleSettings
import Neatness.Proofs.ProjectRoot
import Neatness.Proofs.Summaries
import Neatness.Proofs.LoopOpeners
