import EcaEngines.Imperative
import EcaEngines.FirstMatch
import EcaEngines.Dispatch
import EcaEngines.BoundedInt
import EcaEngines.Reactive
import EcaEngines.Original
import EcaEngines.Transitions
import EcaEngines.Instrumented
import EcaEngines.Blocks
import EcaEngines.Guards
import EcaEngines.TaskOne
import EcaEngines.Fuzzer
import EcaEngines.Engine
import EcaEngines.Modes
import EcaEngines.Reachable
import EcaEngines.CVersion
import EcaEngines.CModes
import EcaEngines.Versions
import EcaEngines.Taint
import EcaEngines.Tracking
import EcaEngines.Leaks
import EcaEngines.Recording
import EcaEngines.Effects
import EcaEngines.Operations
import EcaEngines.DirectFinal
import EcaEngines.Nested
import EcaEngines.Conditions
import EcaEngines.Bodies
import EcaEngines.Decisions
import EcaEngines.Trees
import EcaEngines.Simulation
import EcaEngines.Regions
import EcaEngines.Loops
import EcaEngines.Runs
import EcaEngines.Displays
import EcaEngines.Coverage
import EcaEngines.Lookups
import EcaEngines.Calls
import EcaEngines.Overloads
import EcaEngines.Stale
import EcaEngines.Operate
import EcaEngines.DataFlow
import EcaEngines.Closure
import EcaEngines.Distance
import EcaEngines.Depth
import EcaEngines.Tally
import EcaEngines.FlowLength
import EcaEngines.BranchDistance
import EcaEngines.LastMatch
import EcaEngines.Calc
import EcaEngines.Described
import EcaEngines.Outcomes
import EcaEngines.Flags
import EcaEngines.Fuzzing
import EcaEngines.Ranking
import EcaEngines.TopTraces
import EcaEngines.Mealy
import EcaEngines.Drivers
import EcaEngines.Experiments
import EcaEngines.Silence
import EcaEngines.Gauge
import EcaEngines.Growth
import EcaEngines.Reports
import EcaEngines.Checks
import EcaEngines.Campaign
import EcaEngines.Suggestion
import EcaEngines.Printed
import EcaEngines.Scripts
import EcaEngines.Screen
import EcaEngines.Transcript
import EcaEngines.LaterTasks
import EcaEngines.Constraints
import EcaEngines.Sudoku
