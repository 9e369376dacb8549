import StatForge.Lib.ExceptBind
import StatForge.Lib.Fuel
import StatForge.Lib.FuelLoop
import StatForge.Lib.StepMachine
import StatForge.Lib.Successors
import StatForge.Lib.Statistics
import StatForge.Lib.Runs
import StatForge.Lib.Projection
import StatForge.Lib.Traces
import StatForge.Lib.Simulation
import StatForge.Dsl.Precedence
import StatForge.Dsl.References
import StatForge.Dsl.Folding
import StatForge.Dsl.Lexemes
import StatForge.Dsl.Division
import StatForge.Dsl.Grammar
import StatForge.Dsl.Strata
import StatForge.Dsl.NormalForm
import StatForge.Dsl.Numerals
import StatForge.Dsl.TokenAccess
import StatForge.Dsl.Reports
import StatForge.Dsl.Layout
import StatForge.Dsl.Dump
import StatForge.Dsl.FirstError
import StatForge.StatKernel.StatKernel
import StatForge.StatKernel.EdgeMaps
import StatForge.StatKernel.Agreement
import StatForge.StatKernel.DirtyLeaves
import StatForge.StatKernel.Safety
import StatForge.StatKernel.Formulas
import StatForge.StatKernel.Propagation
import StatForge.StatKernel.Invocations
import StatForge.StatKernel.ListedOnce
import StatForge.StatKernel.Collections
import StatForge.StatKernel.Undo
import StatForge.StatKernel.Termination
import StatForge.Runtime.Engine
import StatForge.StatKernel.Rebuilding
import StatForge.StatKernel.Caching
import StatForge.Api.Book
import StatForge.Api.Discipline
import StatForge.Api.ErrorText
