import PrinterMotion.Hub.Power
import PrinterMotion.Json.Reader
import PrinterMotion.Main
import PrinterMotion.Proofs.Binary64
import PrinterMotion.Proofs.Comparison
import PrinterMotion.Proofs.Config.Building
import PrinterMotion.Proofs.Config.Registered
import PrinterMotion.Proofs.Exact
import PrinterMotion.Proofs.Hub.Switching
import PrinterMotion.Proofs.Kinematics.Carried
import PrinterMotion.Proofs.Kinematics.Centring
import PrinterMotion.Proofs.Kinematics.Linkages
import PrinterMotion.Proofs.Kinematics.Smoothing
import PrinterMotion.Proofs.Motion.Appending
import PrinterMotion.Proofs.Motion.Behind
import PrinterMotion.Proofs.Motion.Fates
import PrinterMotion.Proofs.Motion.Linked
import PrinterMotion.Proofs.Motion.Path
import PrinterMotion.Proofs.Motion.Profile
import PrinterMotion.Proofs.Motion.Tracing
import PrinterMotion.Proofs.Shaping.Switching
import PrinterMotion.Proofs.Shaping.Usable
import PrinterMotion.Proofs.Simulation.Completion
import PrinterMotion.Proofs.Simulation.Delivery
import PrinterMotion.Proofs.Simulation.Stability
import PrinterMotion.Proofs.Simulation.Together
import PrinterMotion.Proofs.StepGenerator.Ahead
import PrinterMotion.Proofs.StepGenerator.Flushed
import PrinterMotion.Proofs.StepGenerator.Incremental
import PrinterMotion.Proofs.StepGenerator.Losses
import PrinterMotion.Proofs.StepGenerator.Moves
import PrinterMotion.Proofs.StepGenerator.Operations
import PrinterMotion.Proofs.StepGenerator.Reporting
import PrinterMotion.Proofs.StepGenerator.Requests
import PrinterMotion.Proofs.StepGenerator.Retirement
import PrinterMotion.Proofs.StepGenerator.Uniform
import PrinterMotion.Proofs.StepGenerator.Windows
import PrinterMotion.Proofs.Stepper.Account
import PrinterMotion.Proofs.Stepper.Climb
import PrinterMotion.Proofs.Stepper.Coverage
import PrinterMotion.Proofs.Stepper.Cruise
import PrinterMotion.Proofs.Stepper.Line
import PrinterMotion.Proofs.Stepper.Order
import PrinterMotion.Proofs.Stepper.Termination
import PrinterMotion.Proofs.Stepper.Tracking
import PrinterMotion.Proofs.Stepper.Trajectory
import PrinterMotion.Proofs.Trsync.Calls
import PrinterMotion.Proofs.Trsync.Clocks
import PrinterMotion.Proofs.Trsync.Generation
import PrinterMotion.Proofs.Trsync.HostTimes
import PrinterMotion.Proofs.Trsync.Permutation
import PrinterMotion.Proofs.Trsync.Reports
import PrinterMotion.Proofs.Trsync.Sweep
import PrinterMotion.Proofs.Trsync.Window
