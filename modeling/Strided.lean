import Strided.Binary.Rounding
import Strided.Bridge.Reference
import Strided.Fourier.Kernel
import Strided.Random.SplitMix
import Strided.Session
import Strided.View.Index
import Strided.Main
import Strided.Proofs.View.Reach
import Strided.Proofs.NDArray.WriteThrough
import Strided.Proofs.NDArray.Interchangeable
import Strided.Proofs.NDArray.AllOrNothing
import Strided.Proofs.NDArray.Frame
import Strided.Proofs.NDArray.Accelerated
import Strided.Proofs.Session.Calls
import Strided.Proofs.Session.Families
import Strided.Proofs.View.Composition
import Strided.Proofs.View.Consecutive
import Strided.Proofs.View.Placed
import Strided.Proofs.NDArray.Slicing
import Strided.Proofs.View.DiagonalCells
import Strided.Proofs.NDArray.Copies
import Strided.Proofs.NDArray.Outputs
import Strided.Proofs.NDArray.Diagonals
import Strided.Proofs.NDArray.DiagonalMatrix
import Strided.Proofs.NDArray.RowMajor
import Strided.Proofs.NDArray.Reshapes
import Strided.Proofs.NDArray.Oversize
import Strided.Proofs.NDArray.Placed
import Strided.Proofs.Session.Placed
import Strided.Proofs.Fixtures.Slices
import Strided.Proofs.Fixtures.Numbers
import Strided.Proofs.Fixtures.Shapes
import Strided.Proofs.Fixtures.Views
import Strided.Proofs.Fixtures.Texts
import Strided.Proofs.Fourier.Lines
import Strided.Proofs.NDArray.Transforms
import Strided.Proofs.Fourier.Kernel
import Strided.Proofs.Numeric
import Strided.Proofs.Dense
import Strided.Proofs.NDArray.IntegerProducts
import Strided.Proofs.View.WordDiagonals
import Strided.Proofs.CommandLine
import Strided.Proofs.NDArray.Closeness
