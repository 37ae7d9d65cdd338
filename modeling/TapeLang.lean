import TapeLang.Main
import TapeLang.Files.Tree
import TapeLang.Json.Read
import TapeLang.Rule.Json
import TapeLang.Proofs.Machine.Endless
import TapeLang.Proofs.Machine.Final
import TapeLang.Proofs.Source.Grammar
import TapeLang.Proofs.Source.Expressible
import TapeLang.Proofs.Source.CanonicalLine
import TapeLang.Proofs.Source.RoundTrip
import TapeLang.Proofs.Source.Accepted
import TapeLang.Proofs.Source.Running
import TapeLang.Proofs.Analysis.Search
import TapeLang.Proofs.Analysis.Warned
import TapeLang.Machine.Loop
import TapeLang.Proofs.Machine.Applied
import TapeLang.Proofs.Machine.Interrupted
import TapeLang.Proofs.Json.RoundTrip
import TapeLang.Proofs.Json.Lossless
import TapeLang.Proofs.Command.Trace
import TapeLang.Proofs.Command.CanonicalForm
import TapeLang.Proofs.Catalogue.Adder
import TapeLang.Proofs.Catalogue.Subtractor
import TapeLang.Proofs.Catalogue.Comparator
import TapeLang.Proofs.Command.ExitCode
import TapeLang.Proofs.Analysis.Closure
import TapeLang.Proofs.Decimal.Numeral
import TapeLang.Proofs.Machine.Precedence
import TapeLang.Proofs.Machine.Reckoning
import TapeLang.Proofs.Source.LineOrder
import TapeLang.Proofs.Source.Joined
import TapeLang.Proofs.Source.Spacing
import TapeLang.Proofs.Source.LineText
import TapeLang.Proofs.Files.Folder
import TapeLang.Proofs.Machine.Extent
import TapeLang.Proofs.Machine.Bookkeeping
import TapeLang.Proofs.Command.Limit
import TapeLang.Proofs.Command.Forewarned
