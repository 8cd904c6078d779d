import ExpiringCache.Flight.Nested
import ExpiringCache.Front.Scene
import ExpiringCache.Http.Service
import ExpiringCache.PeriodicJob
import ExpiringCache.PlainCache
import ExpiringCache.Proofs.SlotList.Holds
import ExpiringCache.Proofs.Recency
import ExpiringCache.Proofs.Cache.Effects
import ExpiringCache.Proofs.Cache.Parallel
import ExpiringCache.Proofs.EntryList
import ExpiringCache.Proofs.PlainCache.Alike
import ExpiringCache.Proofs.PlainCache.Sweep
import ExpiringCache.Proofs.PlainCache.Calls
import ExpiringCache.Proofs.Cache.Calls
import ExpiringCache.Proofs.Expiry.Bucket
import ExpiringCache.Proofs.Expiry.Index
import ExpiringCache.Proofs.Expiry.Rounding
import ExpiringCache.Proofs.Expiry.TwoWay
import ExpiringCache.Proofs.PlainCache.Runs
import ExpiringCache.Proofs.Janitor.Filed
import ExpiringCache.Proofs.Janitor.Sweep
import ExpiringCache.Proofs.Janitor.Session
import ExpiringCache.Proofs.Janitor.Converges
import ExpiringCache.Proofs.Session.Parallel
import ExpiringCache.Proofs.Janitor.Prompt
import ExpiringCache.Proofs.Janitor.Stranded
import ExpiringCache.Proofs.Order.Basic
import ExpiringCache.Proofs.Order.Calls
import ExpiringCache.Proofs.Order.Sweep
import ExpiringCache.Proofs.Order.Agreement
import ExpiringCache.Proofs.Janitor.Twin
import ExpiringCache.Proofs.Janitor.Transparent
import ExpiringCache.Proofs.Janitor.Count
import ExpiringCache.Proofs.Capacity.Inclusion
import ExpiringCache.Proofs.Capacity.Lasting
import ExpiringCache.Proofs.Capacity.Calls
import ExpiringCache.Proofs.Capacity.Growth
import ExpiringCache.Proofs.Race.Steps
import ExpiringCache.Proofs.Race.Moves
import ExpiringCache.Proofs.Race.Turns
import ExpiringCache.Proofs.Race.Alone
import ExpiringCache.Proofs.Race.Trail
import ExpiringCache.Proofs.Race.Values
import ExpiringCache.Proofs.Race.Answers
import ExpiringCache.Proofs.Race.Agreement
import ExpiringCache.Proofs.Changes.Absence
import ExpiringCache.Proofs.Cache.Actions
import ExpiringCache.Proofs.Accounting.Balance
import ExpiringCache.Proofs.Accounting.Session
import ExpiringCache.Proofs.Clearing.Renewed
import ExpiringCache.Proofs.Clearing.Sweep
import ExpiringCache.Proofs.Clearing.Reset
import ExpiringCache.Proofs.Computation.Failure
import ExpiringCache.Proofs.Computation.Overwriting
import ExpiringCache.Proofs.Checked.Session
import ExpiringCache.Proofs.Http.Service
import ExpiringCache.Proofs.Traffic.Overtaken
import ExpiringCache.Proofs.SlotList.Row
import ExpiringCache.Proofs.Recency.Policy
import ExpiringCache.Proofs.Janitor.Exact
import ExpiringCache.Proofs.Computation.Lifetimes
import ExpiringCache.Proofs.Order.Covered
import ExpiringCache.Proofs.Order.Batch
import ExpiringCache.Proofs.Order.AnyOrder
import ExpiringCache.Proofs.Flight.CallStack
import ExpiringCache.Proofs.Janitor.Held
import ExpiringCache.Proofs.Janitor.Buckets
import ExpiringCache.Proofs.Http.Start
