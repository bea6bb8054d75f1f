import Synca.Barrier.Holders
import Synca.Barrier.Machine
import Synca.Barrier.Reuse
import Synca.Barrier.Rounds
import Synca.Barrier.Survival
import Synca.Channel.Cancellation
import Synca.Channel.Conservation
import Synca.Channel.Lane
import Synca.Channel.Machine
import Synca.Channel.Proceeds
import Synca.Channel.Waiters
import Synca.Client.Caches
import Synca.Client.Machine
import Synca.Client.Results
import Synca.Collector.Collection
import Synca.Collector.History
import Synca.Collector.Machine
import Synca.Coro.Machine
import Synca.Coro.Nesting
import Synca.Crawl.Channels
import Synca.Crawl.Ending
import Synca.Crawl.LoadContent
import Synca.Crawl.Pages
import Synca.Crawl.Responses
import Synca.Crawl.Stages
import Synca.Crawl.Words
import Synca.Data.Balance
import Synca.Data.Carriage
import Synca.Data.Chain
import Synca.Data.Delivery
import Synca.Data.Drain
import Synca.Data.Fabric
import Synca.Data.Flow
import Synca.Data.Network
import Synca.Data.Pipes
import Synca.Data.Refinement
import Synca.Data.Rest
import Synca.Data.Seats
import Synca.Data.Ties
import Synca.Goer.Basic
import Synca.Goer.Race
import Synca.Journey.Events
import Synca.Journey.Life
import Synca.Journey.WaitForAll
import Synca.Mt.Destroy
import Synca.Mt.ThreadPool
import Synca.Mt.Tokens
import Synca.Mt.Wait
import Synca.Network.Completion
import Synca.Network.Frames
import Synca.Network.Hello
import Synca.Network.Session
import Synca.Relay.Basic
import Synca.Relay.Custody
import Synca.Relay.Departures
import Synca.Relay.Errands
import Synca.Relay.Lives
import Synca.Relay.Rides
import Synca.Relay.Runs
import Synca.Relay.Shares
import Synca.Relay.Waits
import Synca.Runtime.Air
import Synca.Runtime.Answers
import Synca.Runtime.Batons
import Synca.Runtime.Clan
import Synca.Runtime.Clock
import Synca.Runtime.Deeds
import Synca.Runtime.Desks
import Synca.Runtime.Faults
import Synca.Runtime.Flights
import Synca.Runtime.Guards
import Synca.Runtime.Hearing
import Synca.Runtime.House
import Synca.Runtime.Joins
import Synca.Runtime.Kin
import Synca.Runtime.Leftovers
import Synca.Runtime.Notes
import Synca.Runtime.Operations
import Synca.Runtime.Portals
import Synca.Runtime.Quiescence
import Synca.Runtime.Races
import Synca.Runtime.Reports
import Synca.Runtime.Resumption
import Synca.Runtime.Rules
import Synca.Runtime.Scopes
import Synca.Runtime.State
import Synca.Runtime.Step
import Synca.Runtime.Terminate
import Synca.Runtime.Timeouts
import Synca.Runtime.Timing
import Synca.Runtime.Travel
import Synca.Runtime.Turns
import Synca.Transition.Ancestry
import Synca.Transition.Closing
import Synca.Transition.Dataflow
import Synca.Transition.Dialogue
import Synca.Transition.Linked
import Synca.Transition.Machine
import Synca.Transition.Ownership
import Synca.Transition.Refinement
import Synca.Transition.Sharing
import Synca.Transition.Tally
