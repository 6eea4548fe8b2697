import LiveRevenue.Result.Debits
import LiveRevenue.Result.Duplicates
import LiveRevenue.Result.Finality
import LiveRevenue.Result.Relay
import LiveRevenue.Result.Outbox
import LiveRevenue.Result.Reconciliation
import LiveRevenue.Result.Settlements
import LiveRevenue.Result.Caps
import LiveRevenue.Result.Closing
import LiveRevenue.Result.Chain
import LiveRevenue.Result.Publication
import LiveRevenue.Result.Points
import LiveRevenue.Result.Poison
import LiveRevenue.Result.Leaderboard
import LiveRevenue.Result.Idempotency
import LiveRevenue.Result.WatchMinutes
import LiveRevenue.Result.Retries
import LiveRevenue.Result.Migrations
import LiveRevenue.Result.CappedPoints
import LiveRevenue.Result.Contributors
import LiveRevenue.Result.GiftEffects
import LiveRevenue.Result.Campaigns
import LiveRevenue.Result.Rebuild
import LiveRevenue.Result.GiftPolicy
import LiveRevenue.Result.EventIDs
import LiveRevenue.Result.Recovery
import LiveRevenue.Result.SpecificGifts
import LiveRevenue.Result.RequestIDs
import LiveRevenue.Result.Tampering
import LiveRevenue.Result.Transparency
import LiveRevenue.Result.CaughtUp
import LiveRevenue.Result.Revenue
import LiveRevenue.Result.Bodies
import LiveRevenue.Result.Wire
import LiveRevenue.Result.Serial
import LiveRevenue.Result.Drain
import LiveRevenue.Result.Quiet
