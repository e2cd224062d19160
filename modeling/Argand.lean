import Argand.Plot
import Argand.Proofs.Compilation
import Argand.Proofs.Simulation
import Argand.Proofs.SignsOfZero
import Argand.Proofs.PlotHistory
import Argand.Proofs.LiteralCalls
import Argand.Proofs.Curves
import Argand.Proofs.LineTokens
import Argand.Proofs.Queues
import Argand.Proofs.Concatenation
import Argand.Proofs.Blame
import Argand.Proofs.Footprint
import Argand.Proofs.Composition
import Argand.Proofs.LetBindings
import Argand.Proofs.EqualPrograms
import Argand.Proofs.Slices
import Argand.Proofs.LiteralSentences
import Argand.Proofs.LiteralGrammar
import Argand.Proofs.PrintedNumbers
import Argand.Proofs.Diagnostics
import Argand.Proofs.Parentheses
import Argand.Proofs.AssignableNames
import Argand.Proofs.Snapshots
import Argand.Proofs.Sampling
import Argand.Proofs.TimeVariables
import Argand.Proofs.CurveTables
import Argand.Proofs.MessageHistory
import Argand.Proofs.CircularInverses
import Argand.Proofs.OutputSegments
import Argand.Proofs.ReusedReaders
import Argand.Proofs.Projection
