import Flotilla.Fleet.Caller
import Flotilla.Frame
import Flotilla.Main
import Flotilla.Playbook
import Flotilla.Proofs.Channels.Broker
import Flotilla.Proofs.Channels.Delivery
import Flotilla.Proofs.Channels.Oversized
import Flotilla.Proofs.Fields
import Flotilla.Proofs.Firing
import Flotilla.Proofs.Fleet.Accepting
import Flotilla.Proofs.Fleet.Admitting
import Flotilla.Proofs.Fleet.Advancing
import Flotilla.Proofs.Fleet.AfterStop
import Flotilla.Proofs.Fleet.Attempting
import Flotilla.Proofs.Fleet.Cancelling
import Flotilla.Proofs.Fleet.Closing
import Flotilla.Proofs.Fleet.Ending
import Flotilla.Proofs.Fleet.Fairness
import Flotilla.Proofs.Fleet.Following
import Flotilla.Proofs.Fleet.Halting
import Flotilla.Proofs.Fleet.JobHistory
import Flotilla.Proofs.Fleet.Listing
import Flotilla.Proofs.Fleet.Neighbours
import Flotilla.Proofs.Fleet.Outcome
import Flotilla.Proofs.Fleet.Published
import Flotilla.Proofs.Fleet.Routine
import Flotilla.Proofs.Fleet.Sending
import Flotilla.Proofs.Fleet.StepEffects
import Flotilla.Proofs.Fleet.Stopping
import Flotilla.Proofs.Fleet.WriteAhead
import Flotilla.Proofs.Hooks
import Flotilla.Proofs.Patterns
import Flotilla.Proofs.Payload
import Flotilla.Proofs.Requests.Answering
import Flotilla.Proofs.Requests.Handles
import Flotilla.Proofs.Requests.Keys
import Flotilla.Proofs.Requests.Ledger
import Flotilla.Proofs.Requests.Racing
import Flotilla.Proofs.Requests.Refusing
import Flotilla.Proofs.Requests.Strays
import Flotilla.Proofs.Requests.Teardown
import Flotilla.Proofs.Rollout
import Flotilla.Proofs.Rollout.Checking
import Flotilla.Proofs.Rollout.Conclusion
import Flotilla.Proofs.Rollout.Errands
import Flotilla.Proofs.Rollout.Liveness
import Flotilla.Proofs.Rollout.Outcome
import Flotilla.Proofs.Rollout.Shelter
import Flotilla.Proofs.Rollout.Verifying
import Flotilla.Proofs.Staging
import Flotilla.Proofs.Store.Numbering
import Flotilla.Proofs.Topics
import Flotilla.Proofs.Waking
import Flotilla.Proofs.Wire.Fields
import Flotilla.Proofs.Wire.Jobs
import Flotilla.Proofs.Wire.Messages
import Flotilla.Proofs.Wire.Records
import Flotilla.Proofs.Wire.Relays
import Flotilla.Proofs.Wire.Streams
import Flotilla.Proofs.Worker.Course
import Flotilla.Supervisor.Watch
