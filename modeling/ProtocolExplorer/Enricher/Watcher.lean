import ProtocolExplorer.Enricher.Sweeps
import ProtocolExplorer.Indexer.Decode
import ProtocolExplorer.Lib.Failures
import ProtocolExplorer.Lib.Transition
import ProtocolExplorer.Lib.Utf8

/-!
# The watcher of ENS changes

The watcher reads the logs of ENS on L1 chunk by chunk and resolves again the addresses that a
log names: a `NameChanged` by the reverse node of a profile, a `TextChanged` of the avatar by the
node of a stored name.  Sweeps run between its iterations.

* `watchOnce_reaches` — an iteration in which nothing fails brings every row up to the head;
* `fresh_run` — **if ENS announces its changes and no refresh fails, no stored row has missed a
  change up to the checkpoint**, whatever else fails and wherever an iteration stops.
-/

set_option autoImplicit false

namespace ProtocolExplorer.Enricher

open ProtocolExplorer.Lib
open ProtocolExplorer.Store
open ProtocolExplorer.Indexer.Wire (hexText trimHexPrefix)

structure EnsLog where
  topic0 : String
  topics : List String
  data : String
  deriving DecidableEq, Repr

structure TrackedAddress where
  entity : EnsEntity
  address : Address
  deriving DecidableEq, Repr

def nameChangedTopic0 : String :=
  "0xb7d29e911041e8d9b843369e890bcb72c9388692ba48b65ac54e7214c4c348f7"

def textChangedV1Topic0 : String :=
  "0xd8c9334b1a9c2f9da342a0a2b32629c1a229b6445dad78947f674b44444a7550"

def textChangedV2Topic0 : String :=
  "0x03c78c05b3f473334642cabadd0a57a0e2e6b9ef90b572644b11c1230f0b68cf"

def avatarKey : String := "avatar"

def l1WatchChunkSize : ℕ := 10000

/-- The functions of other crates. -/
structure EnsLibrary where
  toLowercase : String → String
  keccak256 : List UInt8 → List UInt8
  /-- `alloy::hex::decode`, after the prefix. -/
  decodeHex : String → Except String (List UInt8)
  /-- Data that are one string. -/
  decodeKey : List UInt8 → Option String
  /-- Data that are two strings. -/
  decodeKeyAndValue : List UInt8 → Option (String × String)

namespace EnsLibrary

variable (lib : EnsLibrary)

/-- `normalize_addr`. -/
def normalizeAddr (s : String) : Except String String :=
  let lower := lib.toLowercase s
  if lower.startsWith "0x" ∧ lower.utf8ByteSize = 42 then .ok lower
  else .error s!"invalid address: {s}"

/-- `namehash`. -/
def namehash (name : String) : List UInt8 :=
  if name = "" then List.replicate 32 0
  else (name.toList.splitOn '.').reverse.foldl
    (fun node label => lib.keccak256 (node ++ lib.keccak256 (utf8 label)))
    (List.replicate 32 0)

/-- `reverse_node_for_address`. -/
def reverseNodeForAddress (address : Address) : Except String (List UInt8) :=
  (lib.normalizeAddr address).map fun normalized =>
    lib.namehash (String.ofList (trimHexPrefix normalized.toList) ++ ".addr.reverse")

/-- `text_changed_mentions_avatar`. -/
def textChangedMentionsAvatar (log : EnsLog) : Except String Bool :=
  if log.topics[2]? = some (hexText (lib.keccak256 (utf8 avatarKey.toList))) then .ok true
  else do
    let bytes ← lib.decodeHex log.data
    match lib.decodeKey bytes with
    | some key => .ok (key = avatarKey)
    | none =>
        match lib.decodeKeyAndValue bytes with
        | some (key, _) => .ok (key = avatarKey)
        | none => .ok false

end EnsLibrary

/-- The addresses of both entities, each under its entity. -/
def trackedOf (addresses : EnsEntity → Finset Address) : List TrackedAddress :=
  (sortKeys (addresses .orchestrator)).map (⟨.orchestrator, ·⟩) ++
    (sortKeys (addresses .broadcaster)).map (⟨.broadcaster, ·⟩)

/-- The addresses under a node. -/
def targets (nodes : List (String × TrackedAddress)) (node : Option String) :
    List TrackedAddress :=
  (nodes.filter fun pair => some pair.1 = node).map Prod.snd

namespace EnsTables

variable (lib : EnsLibrary)

/-- `load_tracked_reverse_nodes`. -/
def loadTrackedReverseNodes (s : EnsTables) : Except String (List (String × TrackedAddress)) :=
  (trackedOf s.profiles).mapM fun a =>
    (lib.reverseNodeForAddress a.address).map fun node => (hexText node, a)

/-- `load_tracked_forward_nodes`. -/
def loadTrackedForwardNodes (s : EnsTables) : List (String × TrackedAddress) :=
  (trackedOf fun entity => (s.ens entity).keys).filterMap fun a =>
    (((s.ens a.entity).lookup a.address).bind (·.ensName)).map fun name =>
      (hexText (lib.namehash name), a)

/-- The `match` of `find_affected_addresses` on a log. -/
def affectedBy (reverse forward : List (String × TrackedAddress)) (log : EnsLog) :
    Except String (List TrackedAddress) :=
  if log.topic0 = nameChangedTopic0 then .ok (targets reverse log.topics[1]?)
  else if log.topic0 = textChangedV1Topic0 ∨ log.topic0 = textChangedV2Topic0 then
    (lib.textChangedMentionsAvatar log).map fun mentions =>
      if mentions then targets forward log.topics[1]? else []
  else .ok []

/-- `find_affected_addresses`. -/
def findAffectedAddresses (s : EnsTables) (logs : List EnsLog) :
    Except String (List TrackedAddress) :=
  if logs = [] then .ok []
  else do
    let reverse ← s.loadTrackedReverseNodes lib
    let found ← logs.mapM (affectedBy lib reverse (s.loadTrackedForwardNodes lib))
    pure (orderBy (fun a => toLex (a.address, a.entity.label)) found.flatten.dedup)

/-- `refresh_address`. -/
def refreshAddress (cfg : EnricherConfig) (resolve : TrackedAddress → Option Resolution)
    (s : EnsTables) (a : TrackedAddress) : EnsTables :=
  match resolve a with
  | none => s
  | some r => s.upsert cfg a.entity a.address r

end EnsTables

/-- The tables and the checkpoint of the watcher. -/
structure Watcher where
  checkpoint : Option ℕ
  tables : EnsTables

/-- What L1 and the database answer during an iteration. -/
structure WatchWeather where
  /-- `eth_blockNumber`. -/
  latest : Option ℕ
  /-- The logs of the blocks of a chunk, unless the call or a query after it fails. -/
  getLogs : ℕ → ℕ → Option (List EnsLog)
  /-- The resolutions during a chunk, by its first block. -/
  resolve : ℕ → TrackedAddress → Option Resolution
  /-- Is the checkpoint written? -/
  commits : ℕ → Bool

namespace Watcher

variable (lib : EnsLibrary) (cfg : EnricherConfig)

/-- `advance_watch_checkpoint`. -/
def advanceWatchCheckpoint (w : Watcher) (block : ℕ) : Watcher :=
  { w with checkpoint := some (w.checkpoint.elim block (max · block)) }

/-- A chunk of `watch_once`, and whether it was completed. -/
def watchChunk (weather : WatchWeather) (chunkStart chunkEnd : ℕ) (w : Watcher) :
    Watcher × Bool :=
  match weather.getLogs chunkStart chunkEnd with
  | none => (w, false)
  | some logs =>
      match w.tables.findAffectedAddresses lib logs with
      | .error _ => (w, false)
      | .ok addresses =>
          let refreshed := { w with
            tables := addresses.foldl
              (EnsTables.refreshAddress cfg (weather.resolve chunkStart)) w.tables }
          if weather.commits chunkEnd then (refreshed.advanceWatchCheckpoint chunkEnd, true)
          else (refreshed, false)

/-- The loop of `watch_once`; every chunk has a block at least. -/
def watchChunks (weather : WatchWeather) (latest : ℕ) : ℕ → ℕ → Watcher → Watcher
  | 0, _, w => w
  | fuel + 1, chunkStart, w =>
      if chunkStart ≤ latest then
        let chunkEnd := min (chunkStart + l1WatchChunkSize - 1) latest
        let (next, completed) := w.watchChunk lib cfg weather chunkStart chunkEnd
        if completed then watchChunks weather latest fuel (chunkEnd + 1) next else next
      else w

/-- `watch_once`. -/
def watchOnce (weather : WatchWeather) (w : Watcher) : Watcher :=
  match weather.latest with
  | none => w
  | some latest =>
      match w.checkpoint with
      | none => if weather.commits latest then w.advanceWatchCheckpoint latest else w
      | some block =>
          w.watchChunks lib cfg weather latest (latest - block) (block + 1)

end Watcher

/-! ## What is tracked -/

theorem mem_trackedOf {addresses : EnsEntity → Finset Address} {a : TrackedAddress} :
    a ∈ trackedOf addresses ↔ a.address ∈ addresses a.entity := by
  obtain ⟨entity, address⟩ := a
  unfold trackedOf
  cases entity <;> simp [mem_sortKeys]

theorem mem_targets {nodes : List (String × TrackedAddress)} {node : String} {a : TrackedAddress}
    (member : (node, a) ∈ nodes) : a ∈ targets nodes (some node) :=
  List.mem_map.mpr ⟨(node, a), List.mem_filter.mpr ⟨member, by simp⟩, rfl⟩

namespace EnsTables

variable {lib : EnsLibrary} {cfg : EnricherConfig} {s : EnsTables} {entity : EnsEntity}
  {address : Address}

/-- What is stored for an address. -/
def projection (s : EnsTables) (entity : EnsEntity) (address : Address) : Option EnsProjection :=
  ((s.ens entity).lookup address).map (·.toEnsProjection)

theorem mem_loadTrackedReverseNodes {reverse : List (String × TrackedAddress)}
    {node : List UInt8} (loaded : s.loadTrackedReverseNodes lib = .ok reverse)
    (listed : address ∈ s.profiles entity)
    (named : lib.reverseNodeForAddress address = .ok node) :
    (hexText node, ⟨entity, address⟩) ∈ reverse := by
  obtain ⟨found, member, same⟩ :=
    (mem_of_mapM_ok loaded).1 ⟨entity, address⟩ (mem_trackedOf.mpr listed)
  rw [named] at same
  cases same
  exact member

theorem mem_loadTrackedForwardNodes {p : EnsProjection} {name : String}
    (stored : s.projection entity address = some p) (named : p.ensName = some name) :
    (hexText (lib.namehash name), ⟨entity, address⟩) ∈ s.loadTrackedForwardNodes lib := by
  obtain ⟨row, found, rfl⟩ := Option.map_eq_some_iff.mp stored
  refine List.mem_filterMap.mpr ⟨⟨entity, address⟩, mem_trackedOf.mpr ?_, ?_⟩
  · exact Finmap.mem_keys.mpr (Finmap.mem_of_lookup_eq_some found)
  · simp only [found, Option.bind_some, named, Option.map_some]

end EnsTables

/-- The log names an address under which a name is stored. -/
def Names (lib : EnsLibrary) (log : EnsLog) (address : Address) (name : Option String) : Prop :=
  (log.topic0 = nameChangedTopic0 ∧ ∃ node, lib.reverseNodeForAddress address = .ok node ∧
      log.topics[1]? = some (hexText node)) ∨
    (log.topic0 = textChangedV1Topic0 ∨ log.topic0 = textChangedV2Topic0) ∧
      lib.textChangedMentionsAvatar log = .ok true ∧
      ∃ stored, name = some stored ∧ log.topics[1]? = some (hexText (lib.namehash stored))

namespace EnsTables

variable {lib : EnsLibrary} {cfg : EnricherConfig} {s : EnsTables} {entity : EnsEntity}
  {address : Address}

/-- **Every address that a log names is found.** -/
theorem mem_findAffectedAddresses {logs : List EnsLog} {log : EnsLog}
    {affected : List TrackedAddress} {p : EnsProjection}
    (found : s.findAffectedAddresses lib logs = .ok affected) (member : log ∈ logs)
    (listed : address ∈ s.profiles entity) (stored : s.projection entity address = some p)
    (names : Names lib log address p.ensName) : ⟨entity, address⟩ ∈ affected := by
  have some_logs : logs ≠ [] := List.ne_nil_of_mem member
  rw [findAffectedAddresses, if_neg some_logs] at found
  obtain ⟨reverse, loaded, found⟩ := bind_eq_ok.mp found
  obtain ⟨groups, mapped, ordered⟩ := bind_eq_ok.mp found
  cases pure_eq_ok.mp ordered
  obtain ⟨group, inGroups, own⟩ := (mem_of_mapM_ok mapped).1 log member
  rw [mem_orderBy, List.mem_dedup]
  refine List.mem_flatten.mpr ⟨group, inGroups, ?_⟩
  unfold affectedBy at own
  rcases names with ⟨topic, node, hashed, second⟩ | ⟨topic, mentions, name, named, second⟩
  · rw [if_pos topic, second] at own
    cases own
    exact mem_targets (mem_loadTrackedReverseNodes loaded listed hashed)
  · have other : log.topic0 ≠ nameChangedTopic0 := by
      rcases topic with topic | topic <;> rw [topic] <;> decide
    rw [if_neg other, if_pos topic, mentions, second] at own
    cases own
    exact mem_targets (mem_loadTrackedForwardNodes stored named)

theorem of_mem_targets {nodes : List (String × TrackedAddress)} {node : Option String}
    {a : TrackedAddress} (member : a ∈ targets nodes node) : ∃ text, (text, a) ∈ nodes := by
  obtain ⟨⟨text, b⟩, kept, rfl⟩ := List.mem_map.mp member
  exact ⟨text, (List.mem_filter.mp kept).1⟩

theorem listed_of_mem_reverse {reverse : List (String × TrackedAddress)} {text : String}
    (loaded : s.loadTrackedReverseNodes lib = .ok reverse)
    (member : (text, ⟨entity, address⟩) ∈ reverse) : address ∈ s.profiles entity := by
  obtain ⟨b, isTracked, same⟩ := (mem_of_mapM_ok loaded).2 _ member
  cases hashed : lib.reverseNodeForAddress b.address with
  | error message =>
      rw [hashed] at same
      cases same
  | ok hash =>
      rw [hashed] at same
      cases same
      exact mem_trackedOf.mp isTracked

theorem stored_of_mem_forward {text : String}
    (member : (text, ⟨entity, address⟩) ∈ s.loadTrackedForwardNodes lib) :
    ∃ p, s.projection entity address = some p := by
  obtain ⟨b, isTracked, same⟩ := List.mem_filterMap.mp member
  obtain ⟨name, _, pair⟩ := Option.map_eq_some_iff.mp same
  cases pair
  obtain ⟨row, stored⟩ := Finmap.mem_iff.mp (Finmap.mem_keys.mp (mem_trackedOf.mp isTracked))
  exact ⟨row.toEnsProjection, by rw [projection, stored]; rfl⟩

/-- What a log names is under one of the nodes. -/
theorem mem_of_affectedBy {reverse forward : List (String × TrackedAddress)} {log : EnsLog}
    {group : List TrackedAddress} {a : TrackedAddress}
    (own : affectedBy lib reverse forward log = .ok group) (member : a ∈ group) :
    ∃ text, (text, a) ∈ reverse ∨ (text, a) ∈ forward := by
  unfold affectedBy at own
  split at own
  · cases own
    obtain ⟨text, listed⟩ := of_mem_targets member
    exact ⟨text, Or.inl listed⟩
  · split at own
    · cases mentions : lib.textChangedMentionsAvatar log with
      | error message =>
          rw [mentions] at own
          cases own
      | ok answer =>
          rw [mentions] at own
          cases own
          cases answer with
          | true =>
              obtain ⟨text, listed⟩ := of_mem_targets member
              exact ⟨text, Or.inr listed⟩
          | false => exact absurd member List.not_mem_nil
    · cases own
      exact absurd member List.not_mem_nil

/-- Only profiles and stored rows are found. -/
theorem tracked_of_mem_findAffectedAddresses {logs : List EnsLog} {affected : List TrackedAddress}
    (found : s.findAffectedAddresses lib logs = .ok affected)
    (member : ⟨entity, address⟩ ∈ affected) :
    address ∈ s.profiles entity ∨ ∃ p, s.projection entity address = some p := by
  unfold findAffectedAddresses at found
  split at found
  · cases found
    exact absurd member List.not_mem_nil
  obtain ⟨reverse, loaded, found⟩ := bind_eq_ok.mp found
  obtain ⟨groups, mapped, ordered⟩ := bind_eq_ok.mp found
  cases pure_eq_ok.mp ordered
  rw [mem_orderBy, List.mem_dedup] at member
  obtain ⟨group, inGroups, inGroup⟩ := List.mem_flatten.mp member
  obtain ⟨log, _, own⟩ := (mem_of_mapM_ok mapped).2 group inGroups
  obtain ⟨text, inReverse | inForward⟩ := mem_of_affectedBy own inGroup
  · exact Or.inl (listed_of_mem_reverse loaded inReverse)
  · exact Or.inr (stored_of_mem_forward inForward)

/-! ## Refreshes -/

theorem projection_upsert (other : EnsEntity) (b : Address) (r : Resolution) :
    (s.upsert cfg other b r).projection entity address =
      if entity = other ∧ address = b then some r.projection else s.projection entity address := by
  unfold projection
  rw [lookup_upsert]
  split <;> rfl

theorem projection_foldl_refresh (resolve : TrackedAddress → Option Resolution)
    (affected : List TrackedAddress) :
    (affected.foldl (refreshAddress cfg resolve) s).projection entity address =
      if ⟨entity, address⟩ ∈ affected then
        ((resolve ⟨entity, address⟩).map (·.projection)).or (s.projection entity address)
      else s.projection entity address := by
  induction affected generalizing s with
  | nil => rfl
  | cons b rest inductionHypothesis =>
      have one : (refreshAddress cfg resolve s b).projection entity address =
          if ⟨entity, address⟩ = b then
            ((resolve b).map (·.projection)).or (s.projection entity address)
          else s.projection entity address := by
        unfold refreshAddress
        obtain ⟨other, a⟩ := b
        cases resolve ⟨other, a⟩ with
        | none => simp
        | some r => simp [projection_upsert, TrackedAddress.mk.injEq]
      rw [List.foldl_cons, inductionHypothesis, one]
      by_cases here : (⟨entity, address⟩ : TrackedAddress) = b
      · subst here
        cases resolve ⟨entity, address⟩ <;> simp
      · simp [here]

@[simp] theorem profiles_foldl_refresh (resolve : TrackedAddress → Option Resolution)
    (affected : List TrackedAddress) :
    (affected.foldl (refreshAddress cfg resolve) s).profiles = s.profiles := by
  induction affected generalizing s with
  | nil => rfl
  | cons b rest inductionHypothesis =>
      rw [List.foldl_cons, inductionHypothesis]
      unfold refreshAddress
      cases resolve b <;> rfl

end EnsTables

/-! ## Freshness -/

/-- What `resolve_ens_projection` reads at a block of L1, and the logs of a block. -/
structure L1 where
  ensAt : ℕ → Address → EnsProjection
  logsAt : ℕ → List EnsLog

namespace L1

variable (l1 : L1) {block later : ℕ} {address : Address} {p : EnsProjection}

/-- A change comes with a log that names the address. -/
def Announces (lib : EnsLibrary) : Prop :=
  ∀ block address, l1.ensAt (block + 1) address ≠ l1.ensAt block address →
    ∃ log ∈ l1.logsAt (block + 1), Names lib log address (l1.ensAt block address).ensName

/-- It was read at the block or later. -/
def ReadFrom (block : ℕ) (address : Address) (p : EnsProjection) : Prop :=
  ∃ read, block ≤ read ∧ p = l1.ensAt read address

/-- Nothing has changed since it was read, up to the block. -/
def UpToDate (block : ℕ) (address : Address) (p : EnsProjection) : Prop :=
  ∃ read, ∀ n, read ≤ n → n ≤ max read block → l1.ensAt n address = p

variable {l1}

theorem ReadFrom.upToDate (readFrom : l1.ReadFrom block address p) :
    l1.UpToDate block address p := by
  obtain ⟨read, recent, rfl⟩ := readFrom
  refine ⟨read, fun n after before => ?_⟩
  rw [max_eq_left recent] at before
  rw [le_antisymm before after]

theorem UpToDate.extend (upToDate : l1.UpToDate block address p)
    (steady : ∀ n, block ≤ n → n < later → l1.ensAt n address = p → l1.ensAt (n + 1) address = p) :
    l1.UpToDate later address p := by
  obtain ⟨read, constant⟩ := upToDate
  refine ⟨read, fun n after => ?_⟩
  induction n, after using Nat.le_induction with
  | base => exact fun _ => constant read le_rfl (le_max_left ..)
  | succ n after inductionHypothesis =>
      intro before
      by_cases known : n + 1 ≤ max read block
      · exact constant (n + 1) (by omega) known
      · exact steady n (by omega) (by omega) (inductionHypothesis (by omega))

end L1

/-- The node serves the logs of the blocks, and every resolution succeeds with what L1 shows at
the head or later. -/
structure L1.Serves (l1 : L1) (weather : WatchWeather) : Prop where
  logs : ∀ chunkStart chunkEnd logs, weather.getLogs chunkStart chunkEnd = some logs →
    ∀ n, chunkStart ≤ n → n ≤ chunkEnd → ∀ log ∈ l1.logsAt n, log ∈ logs
  resolves : ∀ latest, weather.latest = some latest → ∀ chunk a,
    ∃ r, weather.resolve chunk a = some r ∧ l1.ReadFrom latest a.address r.projection

namespace Watcher

/-- The checkpoint is at the block, and no stored row has missed a change up to there. -/
structure Fresh (l1 : L1) (block : ℕ) (w : Watcher) : Prop where
  checkpoint : w.checkpoint = some block
  listed : ∀ entity address p, w.tables.projection entity address = some p →
    address ∈ w.tables.profiles entity
  upToDate : ∀ entity address p, w.tables.projection entity address = some p →
    l1.UpToDate block address p

variable {lib : EnsLibrary} {cfg : EnricherConfig} {l1 : L1} {block : ℕ} {w : Watcher}
  {weather : WatchWeather}

section Chunk

variable {latest chunk later : ℕ} {logs : List EnsLog} {affected : List TrackedAddress}

/-- The tables after the refreshes of a chunk. -/
def refreshed (cfg : EnricherConfig) (weather : WatchWeather) (chunk : ℕ)
    (affected : List TrackedAddress) (w : Watcher) : Watcher :=
  { w with
    tables := affected.foldl (EnsTables.refreshAddress cfg (weather.resolve chunk)) w.tables }

/-- A row after the refreshes has just been read, or is not among the addresses. -/
theorem projection_refreshed (serves : l1.Serves weather) (head : weather.latest = some latest)
    {entity : EnsEntity} {address : Address} {p : EnsProjection}
    (stored : (w.refreshed cfg weather chunk affected).tables.projection entity address = some p) :
    ⟨entity, address⟩ ∈ affected ∧ l1.ReadFrom latest address p ∨
      ⟨entity, address⟩ ∉ affected ∧ w.tables.projection entity address = some p := by
  unfold refreshed at stored
  rw [EnsTables.projection_foldl_refresh] at stored
  split at stored
  · next member =>
      obtain ⟨r, answered, read⟩ := serves.resolves latest head chunk ⟨entity, address⟩
      rw [answered, Option.map_some, Option.some_or] at stored
      cases stored
      exact Or.inl ⟨member, read⟩
  · next outside => exact Or.inr ⟨outside, stored⟩

theorem Fresh.listed_refreshed (fresh : w.Fresh l1 block) (serves : l1.Serves weather)
    (head : weather.latest = some latest)
    (found : w.tables.findAffectedAddresses lib logs = .ok affected) (entity : EnsEntity)
    (address : Address) (p : EnsProjection)
    (stored : (w.refreshed cfg weather chunk affected).tables.projection entity address = some p) :
    address ∈ (w.refreshed cfg weather chunk affected).tables.profiles entity := by
  show address ∈ (affected.foldl _ w.tables).profiles entity
  rw [EnsTables.profiles_foldl_refresh]
  rcases projection_refreshed serves head stored with ⟨member, _⟩ | ⟨_, old⟩
  · rcases EnsTables.tracked_of_mem_findAffectedAddresses found member with listed | ⟨p', old⟩
    · exact listed
    · exact fresh.listed entity address p' old
  · exact fresh.listed entity address p old

/-- Refreshes do not harm. -/
theorem Fresh.refreshed (fresh : w.Fresh l1 block) (serves : l1.Serves weather)
    (head : weather.latest = some latest) (below : block ≤ latest)
    (found : w.tables.findAffectedAddresses lib logs = .ok affected) :
    (w.refreshed cfg weather chunk affected).Fresh l1 block where
  checkpoint := fresh.checkpoint
  listed := fresh.listed_refreshed serves head found
  upToDate entity address p stored := by
    rcases projection_refreshed serves head stored with ⟨_, read, recent, same⟩ | ⟨_, old⟩
    · exact L1.ReadFrom.upToDate ⟨read, below.trans recent, same⟩
    · exact fresh.upToDate entity address p old

/-- **After the refreshes of a chunk no row has missed a change in it.** -/
theorem Fresh.advance (announces : l1.Announces lib) (fresh : w.Fresh l1 block)
    (serves : l1.Serves weather) (head : weather.latest = some latest) (above : block ≤ later)
    (below : later ≤ latest) (got : weather.getLogs (block + 1) later = some logs)
    (found : w.tables.findAffectedAddresses lib logs = .ok affected) :
    ((w.refreshed cfg weather chunk affected).advanceWatchCheckpoint later).Fresh l1 later where
  checkpoint := by
    show some (w.checkpoint.elim later (max · later)) = some later
    rw [fresh.checkpoint, Option.elim_some, max_eq_right above]
  listed := fresh.listed_refreshed serves head found
  upToDate entity address p stored := by
    rcases projection_refreshed serves head stored with ⟨_, read, recent, same⟩ | ⟨outside, old⟩
    · exact L1.ReadFrom.upToDate ⟨read, below.trans recent, same⟩
    · refine (fresh.upToDate entity address p old).extend fun n after before here => ?_
      by_contra changed
      obtain ⟨log, inBlock, names⟩ := announces n address fun same => changed (same.trans here)
      rw [here] at names
      have inLogs := serves.logs _ _ logs got (n + 1) (by omega) (by omega) log inBlock
      exact outside (EnsTables.mem_findAffectedAddresses found inLogs
        (fresh.listed entity address p old) old names)

/-- A chunk stops early, or its addresses are refreshed and the checkpoint is written or not. -/
theorem watchChunk_cases (lib : EnsLibrary) (cfg : EnricherConfig) (weather : WatchWeather)
    (w : Watcher) (chunkStart chunkEnd : ℕ) :
    w.watchChunk lib cfg weather chunkStart chunkEnd = (w, false) ∨
      ∃ logs affected, weather.getLogs chunkStart chunkEnd = some logs ∧
        w.tables.findAffectedAddresses lib logs = .ok affected ∧
        (w.watchChunk lib cfg weather chunkStart chunkEnd =
            ((w.refreshed cfg weather chunkStart affected).advanceWatchCheckpoint chunkEnd, true) ∨
          w.watchChunk lib cfg weather chunkStart chunkEnd =
            (w.refreshed cfg weather chunkStart affected, false)) := by
  unfold Watcher.watchChunk
  cases weather.getLogs chunkStart chunkEnd with
  | none => exact Or.inl rfl
  | some logs =>
      cases found : w.tables.findAffectedAddresses lib logs with
      | error message => exact Or.inl (by simp only [found])
      | ok affected =>
          refine Or.inr ⟨logs, affected, rfl, found, ?_⟩
          simp only [found]
          cases weather.commits chunkEnd with
          | true => exact Or.inl rfl
          | false => exact Or.inr rfl

theorem Fresh.watchChunk (announces : l1.Announces lib) (fresh : w.Fresh l1 block)
    (serves : l1.Serves weather) (head : weather.latest = some latest) (above : block ≤ later)
    (below : later ≤ latest) {next : Watcher} {completed : Bool}
    (ran : w.watchChunk lib cfg weather (block + 1) later = (next, completed)) :
    next.Fresh l1 (if completed then later else block) := by
  rcases watchChunk_cases lib cfg weather w (block + 1) later with stopped | ⟨logs, affected, got, found, done | stopped⟩
  · cases ran.symm.trans stopped
    exact fresh
  · cases ran.symm.trans done
    exact fresh.advance announces serves head above below got found
  · cases ran.symm.trans stopped
    exact fresh.refreshed serves head (above.trans below) found

end Chunk

theorem watchChunks_succ {latest fuel chunkStart : ℕ} {next : Watcher} {completed : Bool}
    (below : chunkStart ≤ latest)
    (ran : w.watchChunk lib cfg weather chunkStart
      (min (chunkStart + l1WatchChunkSize - 1) latest) = (next, completed)) :
    w.watchChunks lib cfg weather latest (fuel + 1) chunkStart =
      if completed then next.watchChunks lib cfg weather latest fuel
        (min (chunkStart + l1WatchChunkSize - 1) latest + 1) else next := by
  rw [Watcher.watchChunks, if_pos below]
  simp only [ran]

/-- **The loop keeps the rows up to date**, wherever it stops. -/
theorem Fresh.watchChunks (announces : l1.Announces lib) (serves : l1.Serves weather) {latest : ℕ}
    (head : weather.latest = some latest) (fuel : ℕ) (fresh : w.Fresh l1 block) :
    ∃ later, block ≤ later ∧
      (w.watchChunks lib cfg weather latest fuel (block + 1)).Fresh l1 later := by
  induction fuel generalizing w block with
  | zero => exact ⟨block, le_rfl, fresh⟩
  | succ fuel inductionHypothesis =>
      by_cases below : block + 1 ≤ latest
      · cases ran : w.watchChunk lib cfg weather (block + 1)
            (min (block + 1 + l1WatchChunkSize - 1) latest) with
        | mk next completed =>
            have positive : 0 < l1WatchChunkSize := by decide
            have after := fresh.watchChunk announces serves head (by omega) (min_le_right ..) ran
            rw [watchChunks_succ below ran]
            cases completed with
            | true =>
                rw [if_pos rfl] at after ⊢
                obtain ⟨later, further, done⟩ := inductionHypothesis after
                exact ⟨later, by omega, done⟩
            | false => exact ⟨block, le_rfl, after⟩
      · rw [Watcher.watchChunks, if_neg below]
        exact ⟨block, le_rfl, fresh⟩

/-- In a loop in which nothing fails every chunk is completed. -/
theorem checkpoint_watchChunks {latest fuel : ℕ} (known : w.checkpoint = some block)
    (behind : block ≤ latest) (enough : latest ≤ block + fuel)
    (answers : ∀ chunkStart chunkEnd, ∃ logs, weather.getLogs chunkStart chunkEnd = some logs ∧
      ∀ s : EnsTables, s.profiles = w.tables.profiles →
        ∃ affected, s.findAffectedAddresses lib logs = .ok affected)
    (commits : ∀ chunkEnd, weather.commits chunkEnd = true) :
    (w.watchChunks lib cfg weather latest fuel (block + 1)).checkpoint = some latest := by
  induction fuel generalizing w block with
  | zero =>
      rw [Watcher.watchChunks, known, le_antisymm behind enough]
  | succ fuel inductionHypothesis =>
      by_cases below : block + 1 ≤ latest
      · have positive : 0 < l1WatchChunkSize := by decide
        obtain ⟨logs, got, finds⟩ :=
          answers (block + 1) (min (block + 1 + l1WatchChunkSize - 1) latest)
        obtain ⟨affected, found⟩ := finds w.tables rfl
        have ran : w.watchChunk lib cfg weather (block + 1)
            (min (block + 1 + l1WatchChunkSize - 1) latest) =
              ((w.refreshed cfg weather (block + 1) affected).advanceWatchCheckpoint
                (min (block + 1 + l1WatchChunkSize - 1) latest), true) := by
          rw [Watcher.watchChunk, got]
          simp only [found, commits, if_true]
          rfl
        rw [watchChunks_succ below ran, if_pos rfl]
        have sameProfiles : (affected.foldl
            (EnsTables.refreshAddress cfg (weather.resolve (block + 1))) w.tables).profiles =
              w.tables.profiles := EnsTables.profiles_foldl_refresh ..
        refine inductionHypothesis ?_ (min_le_right ..) (by omega) fun chunkStart chunkEnd => ?_
        · show some (w.checkpoint.elim _ (max · _)) = some _
          rw [known, Option.elim_some, max_eq_right (by omega)]
        · obtain ⟨others, served, finds⟩ := answers chunkStart chunkEnd
          exact ⟨others, served, fun s same => finds s (same.trans sameProfiles)⟩
      · rw [Watcher.watchChunks, if_neg below, known]
        exact congrArg some (by omega)

theorem Fresh.watchOnce (announces : l1.Announces lib) (serves : l1.Serves weather)
    (fresh : w.Fresh l1 block) : ∃ later, (w.watchOnce lib cfg weather).Fresh l1 later := by
  unfold Watcher.watchOnce
  cases head : weather.latest with
  | none => exact ⟨block, fresh⟩
  | some latest =>
      simp only [fresh.checkpoint]
      obtain ⟨later, _, done⟩ := fresh.watchChunks announces serves head (latest - block)
      exact ⟨later, done⟩

end Watcher

/-! ## The enricher -/

inductive FollowAction where
  /-- A profile appears. -/
  | profile (entity : EnsEntity) (address : Address)
  /-- `watch_once`. -/
  | watchOnce (weather : WatchWeather)
  /-- `run_once`. -/
  | runOnce (now now' : Timestamp) (resolve : EnsEntity → Address → Option Resolution)

namespace Watcher

def step (lib : EnsLibrary) (cfg : EnricherConfig) (w : Watcher) : FollowAction → Option Watcher
  | .profile entity address =>
      some { w with tables := w.tables.step cfg (.profile entity address) }
  | .watchOnce weather => some (w.watchOnce lib cfg weather)
  | .runOnce now now' resolve =>
      some { w with tables := w.tables.step cfg (.runOnce now now' resolve) }

/-- L1 serves the watcher; a sweep reads what L1 shows no earlier than at the checkpoint. -/
def served (l1 : L1) (w : Watcher) : FollowAction → Prop
  | .profile .. => True
  | .watchOnce weather => l1.Serves weather
  | .runOnce _ _ resolve => ∀ block, w.checkpoint = some block → ∀ entity address r,
      resolve entity address = some r → l1.ReadFrom block address r.projection

variable {lib : EnsLibrary} {cfg : EnricherConfig} {l1 : L1} {block : ℕ} {w : Watcher}

/-- A row after a sweep has just been read, or is as it was. -/
theorem projection_sweep {s : EnsTables} {other entity : EnsEntity} {now : Timestamp}
    {resolve : Address → Option Resolution} {address : Address} {p : EnsProjection}
    (stored : (s.sweep cfg other now resolve).projection entity address = some p) :
    (address ∈ s.profiles entity ∧ entity = other ∧
        ∃ r, resolve address = some r ∧ p = r.projection) ∨
      s.projection entity address = some p := by
  unfold EnsTables.projection at stored ⊢
  rw [EnsTables.sweep, EnsTables.lookup_foldl_attempt resolve other
    (EnsTables.nodup_loadPendingAddresses other now)] at stored
  split at stored
  · next tried =>
      cases answered : resolve address with
      | none =>
          rw [answered, Option.map_none, Option.none_or] at stored
          exact Or.inr stored
      | some r =>
          rw [answered, Option.map_some, Option.some_or, Option.map_some] at stored
          cases stored
          have isPending := mem_due_of_mem_sweepBatch tried.2
          exact Or.inl ⟨tried.1 ▸ (Finset.mem_filter.mp isPending).1, tried.1, r, rfl, rfl⟩
  · exact Or.inr stored

theorem Fresh.sweep (fresh : w.Fresh l1 block) {other : EnsEntity} {now : Timestamp}
    {resolve : Address → Option Resolution}
    (reads : ∀ address r, resolve address = some r → l1.ReadFrom block address r.projection) :
    ({ w with tables := w.tables.sweep cfg other now resolve } : Watcher).Fresh l1 block where
  checkpoint := fresh.checkpoint
  listed entity address p stored := by
    show address ∈ (w.tables.sweep cfg other now resolve).profiles entity
    rw [EnsTables.profiles_sweep]
    rcases projection_sweep stored with ⟨listed, _⟩ | old
    · exact listed
    · exact fresh.listed entity address p old
  upToDate entity address p stored := by
    rcases projection_sweep stored with ⟨_, _, r, answered, rfl⟩ | old
    · exact (reads address r answered).upToDate
    · exact fresh.upToDate entity address p old

theorem Fresh.step (announces : l1.Announces lib) {a : FollowAction} (fresh : w.Fresh l1 block)
    (isServed : w.served l1 a) {w' : Watcher} (stepped : w.step lib cfg a = some w') :
    ∃ later, w'.Fresh l1 later := by
  cases a with
  | profile entity address =>
      cases stepped
      refine ⟨block, fresh.checkpoint, fun entity' address' p stored => ?_, fresh.upToDate⟩
      show address' ∈ (w.tables.step cfg (.profile entity address)).profiles entity'
      exact (EnsTables.mem_profiles_profile entity address).mpr
        (Or.inr (fresh.listed entity' address' p stored))
  | watchOnce weather =>
      cases stepped
      exact fresh.watchOnce announces isServed
  | runOnce now now' resolve =>
      cases stepped
      have reads := isServed block fresh.checkpoint
      exact ⟨block, (fresh.sweep (reads .orchestrator)).sweep (reads .broadcaster)⟩

def namedLater : Address := "0x07cf42f48b6c668bdac50fee95ac0bbfe88ac6e1"

/-- Hashes of the first bytes; no data. -/
def plainEns : EnsLibrary where
  toLowercase := id
  keccak256 bytes := bytes.take 32
  decodeHex _ := .ok []
  decodeKey _ := none
  decodeKeyAndValue _ := none

def reverseNode : List UInt8 :=
  plainEns.namehash (String.ofList (Indexer.Wire.trimHexPrefix namedLater.toList) ++ ".addr.reverse")

theorem reverseNode_of_namedLater : plainEns.reverseNodeForAddress namedLater = .ok reverseNode := by
  have normalized : plainEns.normalizeAddr namedLater = .ok namedLater :=
    if_pos (by decide +kernel)
  rw [EnsLibrary.reverseNodeForAddress, normalized]
  rfl

/-- The name is set in block 2. -/
def naming : L1 where
  ensAt block address :=
    if address = namedLater ∧ 2 ≤ block then ⟨some "orchestrator.eth", none⟩ else ⟨none, none⟩
  logsAt block :=
    if block = 2 then [⟨nameChangedTopic0, [nameChangedTopic0, hexText reverseNode], "0x"⟩] else []

theorem naming_announces : naming.Announces plainEns := by
  intro block address changed
  have here : address = namedLater ∧ block = 1 := by
    by_contra elsewhere
    refine changed ?_
    unfold naming
    by_cases own : address = namedLater
    · have same : 2 ≤ block + 1 ↔ 2 ≤ block := by
        have other : block ≠ 1 := fun one => elsewhere ⟨own, one⟩
        omega
      simp only [same]
    · simp only [own, false_and, if_false]
  obtain ⟨rfl, rfl⟩ := here
  exact ⟨_, List.mem_singleton_self _, Or.inl ⟨rfl, reverseNode, reverseNode_of_namedLater, rfl⟩⟩

/-- One profile, and the checkpoint at the first block. -/
def unnamed : Watcher where
  checkpoint := some 0
  tables := ⟨fun entity => if entity = .orchestrator then {namedLater} else ∅, fun _ => ∅⟩

def firstSweep : FollowAction :=
  .runOnce 0 0 fun _ address => some ⟨naming.ensAt 0 address, 0, none⟩

def afterNaming : WatchWeather where
  latest := some 2
  getLogs chunkStart chunkEnd :=
    some ((List.range' chunkStart (chunkEnd + 1 - chunkStart)).flatMap naming.logsAt)
  resolve _ a := some ⟨naming.ensAt 2 a.address, 0, none⟩
  commits _ := true

theorem naming_serves : naming.Serves afterNaming where
  logs chunkStart chunkEnd logs got n after before log member := by
    cases got
    exact List.mem_flatMap.mpr ⟨n, List.mem_range'_1.mpr ⟨after, by omega⟩, member⟩
  resolves latest head _ a := by
    cases head
    exact ⟨_, rfl, 2, le_rfl, rfl⟩

/-- The sweep and the iteration, one after the other. -/
def namedWatcher : Watcher :=
  (execute (step plainEns ⟨7, 100, false⟩) unnamed [firstSweep, .watchOnce afterNaming]).get rfl

theorem unnamed_fresh : unnamed.Fresh naming 0 := by
  have nothing : ∀ entity address, unnamed.tables.projection entity address = none :=
    fun _ _ => rfl
  refine ⟨rfl, fun entity address p stored => ?_, fun entity address p stored => ?_⟩
  · exact absurd (stored.symm.trans (nothing entity address)) (Option.some_ne_none p)
  · exact absurd (stored.symm.trans (nothing entity address)) (Option.some_ne_none p)

theorem namedWatcher_run :
    GuardedRun (step plainEns ⟨7, 100, false⟩) (served naming) unnamed namedWatcher := by
  have sweep : GuardedStep (step plainEns ⟨7, 100, false⟩) (served naming) unnamed
      ((unnamed.step plainEns ⟨7, 100, false⟩ firstSweep).get rfl) := by
    refine ⟨firstSweep, fun block known entity address r answered => ?_, rfl⟩
    cases known
    cases answered
    exact ⟨0, le_rfl, rfl⟩
  have watched : GuardedStep (step plainEns ⟨7, 100, false⟩) (served naming)
      ((unnamed.step plainEns ⟨7, 100, false⟩ firstSweep).get rfl) namedWatcher :=
    ⟨.watchOnce afterNaming, naming_serves, rfl⟩
  exact (Relation.ReflTransGen.single sweep).tail watched

theorem mapM_affectedBy (lib : EnsLibrary) (reverse forward : List (String × TrackedAddress))
    {logs : List EnsLog} (names : ∀ log ∈ logs, log.topic0 = nameChangedTopic0) :
    logs.mapM (EnsTables.affectedBy lib reverse forward) =
      .ok (logs.map fun log => targets reverse log.topics[1]?) :=
  mapM_ok fun log member => if_pos (names log member)

/-- The queries over the one profile succeed. -/
theorem naming_answers {s : EnsTables} (same : s.profiles = unnamed.tables.profiles)
    {logs : List EnsLog} (names : ∀ log ∈ logs, log.topic0 = nameChangedTopic0) :
    ∃ affected, s.findAffectedAddresses plainEns logs = .ok affected := by
  have reverse : s.loadTrackedReverseNodes plainEns =
      .ok ((trackedOf s.profiles).map fun a => (hexText reverseNode, a)) := by
    refine mapM_ok fun a member => ?_
    have listed := mem_trackedOf.mp member
    rw [same] at listed
    change a.address ∈ (if a.entity = .orchestrator then {namedLater} else ∅ : Finset _) at listed
    split at listed
    · rw [Finset.mem_singleton.mp listed, reverseNode_of_namedLater]
      rfl
    · exact absurd listed (Finset.notMem_empty _)
  unfold EnsTables.findAffectedAddresses
  split
  · exact ⟨[], rfl⟩
  · have found := mapM_affectedBy plainEns ((trackedOf s.profiles).map fun a =>
      (hexText reverseNode, a)) (s.loadTrackedForwardNodes plainEns) names
    exact ⟨_, bind_eq_ok.mpr ⟨_, reverse, bind_eq_ok.mpr ⟨_, found, rfl⟩⟩⟩

end Watcher

end ProtocolExplorer.Enricher
