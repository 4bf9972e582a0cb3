import TimedCondvar.Main
import TimedCondvar.World
import TimedCondvar.Proofs.Moves
import TimedCondvar.Proofs.Steps
import TimedCondvar.Proofs.Invariants
import TimedCondvar.Proofs.Worlds
import TimedCondvar.Proofs.Binding
import TimedCondvar.Proofs.Calls
import TimedCondvar.Proofs.TimedWait
import TimedCondvar.Proofs.Scripts
import TimedCondvar.Proofs.Notifications
import TimedCondvar.Proofs.LostWakeup
import TimedCondvar.Proofs.Distances
import TimedCondvar.Proofs.Timely
import TimedCondvar.Proofs.Suspend
import TimedCondvar.Proofs.Slices
import TimedCondvar.Proofs.PredicateWaits
import TimedCondvar.Proofs.Rounds
import TimedCondvar.Proofs.Policies
import TimedCondvar.Proofs.Effort
import TimedCondvar.Proofs.Turns
import TimedCondvar.Proofs.Schedules
import TimedCondvar.Proofs.Loops
import TimedCondvar.Proofs.Mismatch
import TimedCondvar.Proofs.Roles
import TimedCondvar.Proofs.Demonstration
import TimedCondvar.Proofs.Batches
import TimedCondvar.Proofs.Announcements
import TimedCondvar.Proofs.SkewBudget
import TimedCondvar.Proofs.OtherClocks
import TimedCondvar.Proofs.OtherWorlds
import TimedCondvar.Proofs.ClockFaults
import TimedCondvar.Proofs.Scenes
import TimedCondvar.Proofs.Bursts
import TimedCondvar.Proofs.BurstRuns
import TimedCondvar.Proofs.Additions
import TimedCondvar.Proofs.Differences
import TimedCondvar.Proofs.Uptimes
import TimedCondvar.Proofs.Rates
import TimedCondvar.Proofs.Pauses
import TimedCondvar.Proofs.Expiries
import TimedCondvar.Proofs.ConfigTexts
import TimedCondvar.Proofs.Deadlines
import TimedCondvar.Proofs.Records
import TimedCondvar.Proofs.PastedClocks
import TimedCondvar.Proofs.SpacingWarning
import TimedCondvar.Proofs.ErrorTexts
import TimedCondvar.Proofs.TimeTexts
