import FluidCss.Main
import FluidCss.Proofs.Command.Agreement
import FluidCss.Proofs.Forest.Isolation
import FluidCss.Proofs.Forest.Visiting
import FluidCss.Proofs.Grammar.Completion
import FluidCss.Proofs.Grammar.Contexts
import FluidCss.Proofs.Grammar.Formatting
import FluidCss.Proofs.Grammar.Placement
import FluidCss.Proofs.Number.GeneralNotation
import FluidCss.Proofs.Sizing.Atomicity
import FluidCss.Proofs.Sizing.GivenSizes
import FluidCss.Proofs.Sizing.Magnitudes
import FluidCss.Proofs.Sizing.RootSizes
import FluidCss.Proofs.Sizing.SecondPass
import FluidCss.Proofs.Sizing.WholeNumbers
