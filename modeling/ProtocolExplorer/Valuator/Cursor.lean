import ProtocolExplorer.Store.Database

/-!
# The valuator's cursors

Each pass keeps a high-water mark over `finalized_at`.  A scan starts `lookback` behind the
mark, and a completed pass moves the mark to the newest `finalized_at` of its universe, but
not past the oldest event it left unresolved.  The universe is read after the pass, so the
mark may pass events that became candidates while the pass was running.
-/

set_option autoImplicit false

namespace ProtocolExplorer.Valuator

open ProtocolExplorer.Lib
open ProtocolExplorer.Store

/-- `DEFAULT_LOOKBACK_SECS`, as an interval. -/
def defaultLookback : Timestamp := toTimestamp 600

/-- `EXISTS(SELECT 1 FROM event_valuations WHERE valuation_version = $1)`. -/
def hasValuations (version : Version) (db : Db) : Bool :=
  decide (∃ key ∈ db.eventValuations.keys, key.2.1 = version)

/-- `scan_floor`; the epoch is instant `0`. -/
def scanFloor (version : Version) (key : PassKey) (lookback : Timestamp)
    (includeTentative : Bool) (db : Db) : Timestamp :=
  if includeTentative then 0
  else match db.valuatorCursors.lookup key with
    | none => 0
    | some cursor => if hasValuations version db then cursor.watermark - lookback else 0

/-- `next_watermark`. -/
def nextWatermark (minUnresolved : Option Timestamp) (frontier : Timestamp) : Timestamp :=
  minUnresolved.elim frontier fun oldest => min oldest frontier

/-- `advance`: nothing happens without a frontier, or when tentative rows are included. -/
def advance (key : PassKey) (minUnresolved frontier : Option Timestamp)
    (includeTentative : Bool) (db : Db) : Db :=
  match includeTentative, frontier with
  | false, some newest =>
      { db with
        valuatorCursors := Table.upsert db.valuatorCursors key fun stored =>
          { watermark := nextWatermark minUnresolved newest
            seedMaxId := stored.bind Cursor.seedMaxId } }
  | _, _ => db

/-- Which valuable canonical rows a pass is about. -/
def inUniverse (pass : PassName) (e : RawEvent) : Bool :=
  e.isValuable && e.isCanonical &&
    match pass with
    | .ETH => decide (e.asset = some .ETH)
    | .LPT => decide (e.asset = some .LPT)
    | .MULTI => decide (e.eventName = .EarningsClaimed) && e.asset.isNone
    | .SEED => false

/-- `MAX(finalized_at)` over the finalized rows of a pass. -/
def frontierOf (pass : PassName) (db : Db) : Option Timestamp :=
  ((db.rawProtocolEvents.filter fun e =>
    inUniverse pass e && decide (e.finality = .finalized)).filterMap RawEvent.finalizedAt).max?

/-- `frontier_for_asset`. -/
def frontierForAsset (asset : Asset) : Db → Option Timestamp :=
  match asset with
  | .ETH => frontierOf .ETH
  | .LPT => frontierOf .LPT

/-- `frontier_multi`. -/
def frontierMulti : Db → Option Timestamp := frontierOf .MULTI

theorem nextWatermark_le_frontier (minUnresolved : Option Timestamp) (frontier : Timestamp) :
    nextWatermark minUnresolved frontier ≤ frontier := by
  cases minUnresolved with
  | none => exact le_refl frontier
  | some oldest => exact min_le_right oldest frontier

theorem nextWatermark_le_pin {minUnresolved : Option Timestamp} {oldest : Timestamp}
    (pinned : oldest ∈ minUnresolved) (frontier : Timestamp) :
    nextWatermark minUnresolved frontier ≤ oldest := by
  rw [Option.mem_def.mp pinned]
  exact min_le_left oldest frontier

end ProtocolExplorer.Valuator
