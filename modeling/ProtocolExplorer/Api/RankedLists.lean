import ProtocolExplorer.Lib.Numerals
import ProtocolExplorer.Api.Delegations
import ProtocolExplorer.Api.EventPages
import ProtocolExplorer.Api.Payouts
import ProtocolExplorer.Indexer.Decode

/-!
# Ranked lists

The leaderboards of payouts and of rewards and the delegators of an orchestrator are ranked by a
total, with ties by address.  Their cursors carry the total as text: it is written into the row,
read from there, normalized and written into the cursor, and read again with the next request.

* `Cursor.decode_encode` — a cursor is read back as it was written, no digit of the total is lost;
* `followed_of_ranks` — a client that follows the cursors sees the ranking;
* `rankedLists_exact` — **each of the three lists shows every address that qualifies once, in
  order, with its totals**.
-/

set_option autoImplicit false

namespace ProtocolExplorer.Api.RankedLists

open ProtocolExplorer.Lib
open ProtocolExplorer.Store
open ProtocolExplorer.Rollups
open ProtocolExplorer.Api.Transcoders (ApiError)
open ProtocolExplorer.Api.Delegations (Delegation OrchDelegatorRow orchestratorRows orchDelegatorRow
  latestRow anyRow)
open ProtocolExplorer.Api.EventPages (followed)

/-! ## Texts -/

/-- What the decimal type and the standard library compute. -/
structure TextLibrary where
  /-- `normalized().to_string()`. -/
  decimalText : ℚ → String
  /-- `BigDecimal::from_str`. -/
  decimalFromStr : String → Option ℚ
  toLowercase : String → String

/-- Numbers are written as numerals that denote them, and numerals are read as what they denote;
only letters have another case. -/
structure TextLibrary.Documented (lib : TextLibrary) : Prop where
  writes : ∀ d : Numeric, readNumeral (lib.decimalText d.toRat).toList = some d.toRat
  reads : ∀ (text : String) (q : ℚ), readNumeral text.toList = some q →
    lib.decimalFromStr text = some q
  lowercase : ∀ text : String, (∀ c ∈ text.toList, c.toNat < 128) →
    lib.toLowercase text = String.ofList (text.toList.map Char.toLower)

/-- `normalize_addr`, with the text of its error. -/
def normalizeAddr (lib : TextLibrary) (message : String → String) (s : String) :
    Except ApiError Address :=
  let lower := lib.toLowercase s
  if "0x".toList <+: lower.toList ∧ lower.utf8ByteSize = 42 then .ok lower
  else .error (.badRequest (message s))

/-- An address as the indexer writes it. -/
def IsAddressText (address : Address) : Prop :=
  ∃ bytes : List UInt8, bytes.length = 20 ∧ address = Indexer.Wire.hexText bytes

/-- A number of a column. -/
def IsColumnValue (q : ℚ) : Prop := ∃ d : Numeric, d.toRat = q

theorem isColumnValue_intCast (z : ℤ) : IsColumnValue z := by
  refine ⟨⟨z * 10 ^ 18⟩, ?_⟩
  unfold Decimal.toRat
  push_cast
  exact mul_div_cancel_right₀ (z : ℚ) (by norm_num)

/-! ## Cursors -/

/-- The last row of a page. -/
structure Cursor where
  sortValue : ℚ
  address : Address

namespace Cursor

/-- `ORDER BY value DESC, address ASC`. -/
def position (c : Cursor) : Lex (OrderDual ℚ × Address) :=
  toLex (OrderDual.toDual c.sortValue, c.address)

/-- `value < $1 OR (value = $1 AND address > $2)`. -/
theorem position_lt_iff {c d : Cursor} : c.position < d.position ↔
    d.sortValue < c.sortValue ∨ d.sortValue = c.sortValue ∧ c.address < d.address := by
  rw [position, position, Prod.Lex.toLex_lt_toLex, OrderDual.toDual_lt_toDual,
    OrderDual.toDual_inj, eq_comm]

/-- `encode`; each list has a letter of its own. -/
def encode (lib : TextLibrary) (tag : Char) (c : Cursor) : String :=
  String.ofList (tag :: ((lib.decimalText c.sortValue).toList ++ '|' :: c.address.toList))

def decode (lib : TextLibrary) (tag : Char) (message : String → String) (raw : String) :
    Except ApiError Cursor :=
  match raw.toList with
  | [] => .error (.badRequest "invalid cursor")
  | first :: stripped =>
      if first = tag then
        match splitOnce '|' stripped with
        | none => .error (.badRequest "invalid cursor")
        | some (sortValue, address) =>
            match lib.decimalFromStr (String.ofList sortValue) with
            | none => .error (.badRequest "invalid cursor numeric")
            | some sortValue =>
                (normalizeAddr lib message (String.ofList address)).map fun address =>
                  ⟨sortValue, address⟩
      else .error (.badRequest "invalid cursor")

end Cursor

section Texts

variable {lib : TextLibrary} {message : String → String}

theorem mem_byteText {byte : UInt8} {c : Char} (member : c ∈ Indexer.Wire.byteText byte) :
    c.toNat < 128 ∧ c.toLower = c := by
  have small : ∀ digit < 16, (Nat.digitChar digit).toNat < 128 ∧
      (Nat.digitChar digit).toLower = Nat.digitChar digit := by decide
  have bound := byte.toNat_lt
  rcases List.mem_pair.mp member with rfl | rfl
  · exact small _ (by omega)
  · exact small _ (by omega)

theorem mem_hexText {bytes : List UInt8} {c : Char}
    (member : c ∈ (Indexer.Wire.hexText bytes).toList) : c.toNat < 128 ∧ c.toLower = c := by
  rw [Indexer.Wire.hexText, String.toList_ofList] at member
  rcases List.mem_cons.mp member with rfl | member
  · decide
  rcases List.mem_cons.mp member with rfl | member
  · decide
  obtain ⟨byte, _, inside⟩ := List.mem_flatMap.mp member
  exact mem_byteText inside

/-- Every byte has two digits. -/
theorem utf8ByteSize_hexText (bytes : List UInt8) :
    (Indexer.Wire.hexText bytes).utf8ByteSize = 2 + 2 * bytes.length := by
  rw [Indexer.Wire.hexText, String.utf8ByteSize_ofList, String.utf8Len_cons, String.utf8Len_cons,
    Indexer.Wire.utf8Len_flatMap_byteText]
  have one : '0'.utf8Size = 1 ∧ 'x'.utf8Size = 1 := by decide
  omega

/-- An address the indexer has written is its own normal form. -/
theorem normalizeAddr_of_isAddressText (documented : lib.Documented) {address : Address}
    (written : IsAddressText address) : normalizeAddr lib message address = .ok address := by
  obtain ⟨bytes, twenty, rfl⟩ := written
  have unchanged : lib.toLowercase (Indexer.Wire.hexText bytes) = Indexer.Wire.hexText bytes := by
    rw [documented.lowercase _ fun c member => (mem_hexText member).1,
      List.map_congr_left fun c member => (mem_hexText member).2, List.map_id', String.ofList_toList]
  unfold normalizeAddr
  simp only [unchanged]
  have chars : (Indexer.Wire.hexText bytes).toList =
      '0' :: 'x' :: bytes.flatMap Indexer.Wire.byteText := String.toList_ofList
  have hexPrefix : "0x".toList <+: (Indexer.Wire.hexText bytes).toList :=
    ⟨bytes.flatMap Indexer.Wire.byteText, chars.symm⟩
  rw [if_pos ⟨hexPrefix, by rw [utf8ByteSize_hexText, twenty]⟩]

/-- **A cursor is read back as it was written.** -/
theorem Cursor.decode_encode (documented : lib.Documented) {c : Cursor} (tag : Char)
    (inColumn : IsColumnValue c.sortValue) (written : IsAddressText c.address) :
    Cursor.decode lib tag message (c.encode lib tag) = .ok c := by
  obtain ⟨d, value⟩ := inColumn
  have numeral := documented.writes d
  rw [value] at numeral
  have noBar : '|' ∉ (lib.decimalText c.sortValue).toList := by
    intro member
    exact absurd (mem_numeral numeral '|' member) (by decide)
  have read : lib.decimalFromStr (lib.decimalText c.sortValue) = some c.sortValue :=
    documented.reads _ _ numeral
  unfold Cursor.decode Cursor.encode
  rw [String.toList_ofList]
  simp only [if_true, splitOnce_append noBar, String.ofList_toList, read,
    normalizeAddr_of_isAddressText documented written]
  rfl

end Texts

/-! ## Rankings -/

section Ranking

variable {Row View : Type} (cursorOf : Row → Cursor)

/-- The rows behind a cursor, in order. -/
def ranked (rows : List Row) (cursor : Option Cursor) : List Row :=
  orderBy (fun row => (cursorOf row).position)
    (afterCursor (fun row => (cursorOf row).position) (cursor.map Cursor.position) rows)

/-- The server answers the token of a row with the page behind it and the token of its last row,
unless it can tell from the number of rows left that none follows. -/
structure Ranks (limit : ℕ) (goesOn : ℕ → Bool) (rows : List Row) (view : Row → View)
    (tokenOf : Row → String)
    (serve : Option String → Except ApiError (List View × Option String)) : Prop where
  positive : 0 < limit
  continues : ∀ n, limit < n → goesOn n = true
  distinct : (rows.map fun row => (cursorOf row).position).Nodup
  answers : ∀ last : Option Row, (∀ row ∈ last, row ∈ rows) →
    serve (last.map tokenOf) =
      .ok (((ranked cursorOf rows (last.map cursorOf)).take limit).map view,
        if goesOn (ranked cursorOf rows (last.map cursorOf)).length then
          ((ranked cursorOf rows (last.map cursorOf)).take limit).getLast?.map tokenOf
        else none)

variable {cursorOf} {limit : ℕ} {goesOn : ℕ → Bool} {rows : List Row} {view : Row → View}
  {tokenOf : Row → String} {serve : Option String → Except ApiError (List View × Option String)}

theorem mem_of_ranked {cursor : Option Cursor} {row : Row}
    (listed : row ∈ ranked cursorOf rows cursor) : row ∈ rows :=
  (mem_afterCursor.mp (mem_orderBy.mp listed)).1

theorem length_ranked_none : (ranked cursorOf rows none).length = rows.length := by
  rw [ranked, (orderBy_perm _ _).length_eq, Option.map_none, afterCursor_none]

/-- **A client that follows the tokens sees the ranking.** -/
theorem followed_of_ranks (ranks : Ranks cursorOf limit goesOn rows view tokenOf serve)
    {pages : ℕ} (last : Option Row) (inside : ∀ row ∈ last, row ∈ rows)
    (enough : (ranked cursorOf rows (last.map cursorOf)).length < pages) :
    followed serve pages (last.map tokenOf) =
      .ok (some ((ranked cursorOf rows (last.map cursorOf)).map view)) := by
  induction pages generalizing last with
  | zero => omega
  | succ pages inductionHypothesis =>
      rw [followed, ranks.answers last inside]
      generalize left : ranked cursorOf rows (last.map cursorOf) = remaining at enough ⊢
      split_ifs with more
      · cases ends : (remaining.take limit).getLast? with
        | none =>
            have nothing := List.getLast?_eq_none_iff.mp ends
            have empty : remaining = [] :=
              (List.take_eq_nil_iff.mp nothing).resolve_left (Nat.pos_iff_ne_zero.mp ranks.positive)
            rw [empty, List.take_nil]
            rfl
        | some next =>
            have listed : next ∈ remaining := List.mem_of_mem_take (List.mem_of_getLast? ends)
            have stored : next ∈ rows := mem_of_ranked (left ▸ listed)
            have rest : ranked cursorOf rows (some (cursorOf next)) = remaining.drop limit := by
              rw [← left] at ends ⊢
              exact orderBy_afterCursor_getLast ranks.distinct ends
            have fewer : (ranked cursorOf rows (some (cursorOf next))).length < pages := by
              have nonempty := List.length_pos_of_mem listed
              have positive := ranks.positive
              rw [rest, List.length_drop]
              omega
            have onward := inductionHypothesis (some next)
              (fun row own => Option.some.inj own ▸ stored) fewer
            rw [Option.map_some, Option.map_some, rest] at onward
            simp only [Option.map_some, onward, Except.map, ← List.map_append,
              List.take_append_drop]
      · have short : remaining.length ≤ limit := by
          by_contra longer
          exact more (ranks.continues _ (not_le.mp longer))
        rw [List.take_of_length_le short]

/-- Every address with an entry is listed once with the row of its entry, the largest values first
and equal ones by address. -/
structure Ranking (entryOf : Address → Option (ℚ × View)) (addresses : List Address)
    (listed : List View) : Prop where
  once : addresses.Nodup
  all : ∀ address, address ∈ addresses ↔ (entryOf address).isSome = true
  rows : listed.map some = addresses.map fun address => (entryOf address).map Prod.snd
  ordered : addresses.Pairwise fun a b => ∀ x ∈ entryOf a, ∀ y ∈ entryOf b,
    y.1 < x.1 ∨ y.1 = x.1 ∧ a < b

/-- A client that follows the cursors until there is none has seen a ranking. -/
def PagesRanked (serve : Option String → Except ApiError (List View × Option String))
    (entryOf : Address → Option (ℚ × View)) : Prop :=
  ∃ (pages : ℕ) (addresses : List Address) (listed : List View),
    followed serve pages none = .ok (some listed) ∧ Ranking entryOf addresses listed

theorem pagesRanked_of_ranks (ranks : Ranks cursorOf limit goesOn rows view tokenOf serve)
    {entryOf : Address → Option (ℚ × View)}
    (once : (rows.map fun row => (cursorOf row).address).Nodup)
    (all : ∀ address, (entryOf address).isSome = true →
      address ∈ rows.map fun row => (cursorOf row).address)
    (entries : ∀ row ∈ rows,
      entryOf (cursorOf row).address = some ((cursorOf row).sortValue, view row)) :
    PagesRanked serve entryOf := by
  have seen := followed_of_ranks ranks none (fun _ nothing => by cases nothing)
    (Nat.lt_succ_self _)
  have perm : (ranked cursorOf rows none).Perm rows := by
    rw [ranked, Option.map_none, afterCursor_none]
    exact orderBy_perm _ _
  have ascending : (ranked cursorOf rows none).Pairwise fun a b =>
      (cursorOf a).position < (cursorOf b).position := by
    refine orderBy_pairwise_lt ?_
    rw [Option.map_none, afterCursor_none]
    exact ranks.distinct
  refine ⟨_, (ranked cursorOf rows none).map fun row => (cursorOf row).address, _, seen, ?_⟩
  refine ⟨(perm.map _).nodup_iff.mpr once, ?_, ?_, ?_⟩
  · intro address
    rw [(perm.map fun row => (cursorOf row).address).mem_iff]
    refine ⟨?_, all address⟩
    intro listed
    obtain ⟨row, stored, rfl⟩ := List.mem_map.mp listed
    rw [entries row stored]
    rfl
  · rw [List.map_map, List.map_map]
    refine List.map_congr_left fun row listed => ?_
    show some (view row) = (entryOf (cursorOf row).address).map Prod.snd
    rw [entries row (perm.mem_iff.mp listed)]
    rfl
  · refine List.pairwise_map.mpr (ascending.imp_of_mem ?_)
    intro a b firstListed secondListed before x own y other
    rw [entries a (perm.mem_iff.mp firstListed)] at own
    rw [entries b (perm.mem_iff.mp secondListed)] at other
    cases own
    cases other
    exact Cursor.position_lt_iff.mp before

end Ranking

/-! ## The names of orchestrators -/

structure EnsRow where
  ensName : Option String
  ensAvatarUrl : Option String

structure OverrideRow where
  displayName : Option String
  avatarUrl : Option String

/-- `orchestrator_ens` and `name_avatar_overrides`. -/
structure NameTables where
  orchestratorEns : Table Address EnsRow
  nameAvatarOverrides : Table Address OverrideRow

/-- `COALESCE(o.display_name, e.ens_name)`. -/
def NameTables.displayName (names : NameTables) (address : Address) : Option String :=
  ((names.nameAvatarOverrides.lookup address).bind OverrideRow.displayName).or
    ((names.orchestratorEns.lookup address).bind EnsRow.ensName)

/-- `COALESCE(o.avatar_url, e.ens_avatar_url)`. -/
def NameTables.avatarUrl (names : NameTables) (address : Address) : Option String :=
  ((names.nameAvatarOverrides.lookup address).bind OverrideRow.avatarUrl).or
    ((names.orchestratorEns.lookup address).bind EnsRow.ensAvatarUrl)

/-- `n.to_string()`. -/
def countText (n : ℤ) : String := String.ofList (intText n)

/-- `limit.unwrap_or(DEFAULT_LIMIT).min(MAX_LIMIT)`. -/
def leaderboardLimit (limit : Option ℕ) : ℕ := min (limit.getD 100) 1000

/-- `q.cursor.as_deref().map(…::decode).transpose()`. -/
def decodeCursor (lib : TextLibrary) (tag : Char) (message : String → String) :
    Option String → Except ApiError (Option Cursor)
  | none => .ok none
  | some raw => (Cursor.decode lib tag message raw).map some

section Decoding

variable {Row : Type} {lib : TextLibrary} {cursorOf : Row → Cursor} {rows : List Row}

/-- The cursor of a row is decoded. -/
theorem decodeCursor_encode (documented : lib.Documented) (tag : Char) (message : String → String)
    (inColumn : ∀ row ∈ rows, IsColumnValue (cursorOf row).sortValue)
    (written : ∀ row ∈ rows, IsAddressText (cursorOf row).address) {last : Option Row}
    (inside : ∀ row ∈ last, row ∈ rows) :
    decodeCursor lib tag message (last.map fun row => (cursorOf row).encode lib tag) =
      .ok (last.map cursorOf) := by
  cases last with
  | none => rfl
  | some row =>
      have stored := inside row rfl
      rw [Option.map_some, decodeCursor,
        Cursor.decode_encode documented tag (inColumn row stored) (written row stored)]
      rfl

/-- Different addresses have different positions. -/
theorem nodup_position (once : (rows.map fun row => (cursorOf row).address).Nodup) :
    (rows.map fun row => (cursorOf row).position).Nodup := by
  refine List.Nodup.of_map (fun position => (ofLex position).2) ?_
  rw [List.map_map]
  exact once

theorem decimalFromStr_decimalText (documented : lib.Documented) (d : Numeric) :
    lib.decimalFromStr (lib.decimalText d.toRat) = some d.toRat :=
  documented.reads _ _ (documented.writes d)

theorem decimalFromStr_countText (documented : lib.Documented) (n : ℤ) :
    lib.decimalFromStr (countText n) = some (n : ℚ) :=
  documented.reads _ _ (by rw [countText, String.toList_ofList]; exact readNumeral_intText n)

theorem leaderboardLimit_pos {limit : Option ℕ} (given : limit ≠ some 0) :
    0 < leaderboardLimit limit := by
  unfold leaderboardLimit
  cases limit with
  | none => decide
  | some n =>
      have nonzero : n ≠ 0 := fun zero => given (congrArg some zero)
      exact lt_min (Nat.pos_of_ne_zero nonzero) (by decide)

end Decoding

/-! ## The payout leaderboard -/

namespace Payouts

inductive LeaderboardSort where
  | commissionUsd
  | ticketCount
  | faceValueUsd
  deriving DecidableEq

/-- The dates and the names of the job type and the column are parsed. -/
structure PayoutLeaderboardQuery where
  fromDay : ℤ
  toDay : ℤ
  jobType : JobType
  sort : LeaderboardSort
  cursor : Option String
  limit : Option ℕ
  valuationVersion : Option Version

/-- A row of `grouped`: the names are functions of the address. -/
structure Group where
  orchestratorAddress : Address
  displayName : Option String
  avatarUrl : Option String
  sums : PayoutSums Numeric

structure PayoutLeaderboardRow where
  orchestratorAddress : Address
  displayName : Option String
  avatarUrl : Option String
  ticketCount : String
  sumFaceValueNative : String
  sumFaceValueUsd : String
  sumCommissionNative : String
  sumCommissionUsd : String
  sumDelegatorsShareNative : String
  sumDelegatorsShareUsd : String
  distinctGateways : String
  usdRowsPriced : String
  deriving DecidableEq

/-- `order_sql`. -/
def LeaderboardSort.orderSql : LeaderboardSort → PayoutSums Numeric → ℚ
  | commissionUsd, sums => sums.sumCommissionUsd.toRat
  | ticketCount, sums => sums.ticketCount
  | faceValueUsd, sums => sums.sumFaceValueUsd.toRat

/-- The text the cursor is made of. -/
def LeaderboardSort.sortValue : LeaderboardSort → PayoutLeaderboardRow → String
  | commissionUsd, row => row.sumCommissionUsd
  | ticketCount, row => row.ticketCount
  | faceValueUsd, row => row.sumFaceValueUsd

def toLeaderboardRow (lib : TextLibrary) (g : Group) : PayoutLeaderboardRow where
  orchestratorAddress := g.orchestratorAddress
  displayName := g.displayName
  avatarUrl := g.avatarUrl
  ticketCount := countText g.sums.ticketCount
  sumFaceValueNative := lib.decimalText g.sums.sumFaceValueNative.toRat
  sumFaceValueUsd := lib.decimalText g.sums.sumFaceValueUsd.toRat
  sumCommissionNative := lib.decimalText g.sums.sumCommissionNative.toRat
  sumCommissionUsd := lib.decimalText g.sums.sumCommissionUsd.toRat
  sumDelegatorsShareNative := lib.decimalText g.sums.sumDelegatorsShareNative.toRat
  sumDelegatorsShareUsd := lib.decimalText g.sums.sumDelegatorsShareUsd.toRat
  distinctGateways := countText g.sums.distinctGateways
  usdRowsPriced := countText g.sums.usdRowsPriced

/-- The addresses with a row in the range. -/
def addresses (request : PayoutRequest) (jobType : JobType) (db : Db) : Finset Address :=
  (db.orchPayoutsDaily.keys.filter fun key => request.reads none jobType key = true).image
    PayoutKey.orchestratorAddress

def groupOf (names : NameTables) (address : Address) (sums : PayoutSums Numeric) : Group :=
  ⟨address, names.displayName address, names.avatarUrl address, sums⟩

/-- `grouped`. -/
def grouped (names : NameTables) (request : PayoutRequest) (jobType : JobType) (db : Db) :
    List Group :=
  (sortKeys (addresses request jobType db)).map fun address =>
    groupOf names address (request.figures (some address) jobType db)

def cursorOf (sort : LeaderboardSort) (g : Group) : Cursor :=
  ⟨sort.orderSql g.sums, g.orchestratorAddress⟩

def PayoutLeaderboardQuery.request (q : PayoutLeaderboardQuery) (defaultVersion : Version) :
    PayoutRequest := ⟨q.fromDay, q.toDay, q.valuationVersion.getD defaultVersion⟩

def message (s : String) : String := s!"invalid address: {s}"

/-- `leaderboard`. -/
def leaderboard (lib : TextLibrary) (names : NameTables) (db : Db) (defaultVersion : Version)
    (q : PayoutLeaderboardQuery) : Except ApiError (List PayoutLeaderboardRow × Option String) := do
  if q.toDay < q.fromDay then throw (.badRequest "to must be >= from")
  let cursor ← decodeCursor lib 'P' message q.cursor
  let rows := (ranked (cursorOf q.sort)
    (grouped names (q.request defaultVersion) q.jobType db) cursor).take (leaderboardLimit q.limit)
  let data := rows.map (toLeaderboardRow lib)
  let nextCursor := data.getLast?.map fun row =>
    Cursor.encode lib 'P'
      ⟨(lib.decimalFromStr (q.sort.sortValue row)).getD 0, row.orchestratorAddress⟩
  return (data, nextCursor)

/-- The total and the row of an address with tickets in the range. -/
def entryOf (lib : TextLibrary) (names : NameTables) (db : Db) (defaultVersion : Version)
    (q : PayoutLeaderboardQuery) (address : Address) : Option (ℚ × PayoutLeaderboardRow) :=
  ((q.request defaultVersion).leaderboardRow q.jobType address db).map fun sums =>
    (q.sort.orderSql sums, toLeaderboardRow lib (groupOf names address sums))

section

variable {lib : TextLibrary} {names : NameTables} {db : Db} {defaultVersion : Version}
  {q : PayoutLeaderboardQuery}

theorem isColumnValue_orderSql (sort : LeaderboardSort) (sums : PayoutSums Numeric) :
    IsColumnValue (sort.orderSql sums) := by
  cases sort with
  | commissionUsd => exact ⟨sums.sumCommissionUsd, rfl⟩
  | ticketCount => exact isColumnValue_intCast sums.ticketCount
  | faceValueUsd => exact ⟨sums.sumFaceValueUsd, rfl⟩

/-- The text in a row is read as the total. -/
theorem decimalFromStr_sortValue (documented : lib.Documented) (sort : LeaderboardSort)
    (g : Group) : lib.decimalFromStr (sort.sortValue (toLeaderboardRow lib g)) =
      some (sort.orderSql g.sums) := by
  cases sort with
  | commissionUsd => exact decimalFromStr_decimalText documented g.sums.sumCommissionUsd
  | ticketCount => exact decimalFromStr_countText documented g.sums.ticketCount
  | faceValueUsd => exact decimalFromStr_decimalText documented g.sums.sumFaceValueUsd

/-- The cursor made of a row is that of its group. -/
theorem encode_of_row (documented : lib.Documented) (sort : LeaderboardSort) (g : Group) :
    Cursor.encode lib 'P' ⟨(lib.decimalFromStr (sort.sortValue (toLeaderboardRow lib g))).getD 0,
        (toLeaderboardRow lib g).orchestratorAddress⟩ =
      (cursorOf sort g).encode lib 'P' := by
  rw [decimalFromStr_sortValue documented]
  rfl

theorem mem_addresses {request : PayoutRequest} {jobType : JobType} {address : Address} :
    address ∈ addresses request jobType db ↔
      ∃ key ∈ db.orchPayoutsDaily.keys, request.reads (some address) jobType key = true := by
  have own : ∀ key, request.reads (some address) jobType key = true ↔
      request.reads none jobType key = true ∧ key.orchestratorAddress = address := by
    intro key
    simp [PayoutRequest.reads]
  simp only [addresses, Finset.mem_image, Finset.mem_filter, own, and_assoc]

theorem address_grouped (names : NameTables) (request : PayoutRequest) (jobType : JobType)
    (sort : LeaderboardSort) (db : Db) :
    ((grouped names request jobType db).map fun g => (cursorOf sort g).address) =
      sortKeys (addresses request jobType db) := by
  rw [grouped, List.map_map]
  exact List.map_id _

/-- A group is that of an address with a row in the range. -/
theorem mem_grouped {request : PayoutRequest} {jobType : JobType} {g : Group}
    (listed : g ∈ grouped names request jobType db) : ∃ address,
      g = groupOf names address (request.figures (some address) jobType db) ∧
        ∃ key ∈ db.orchPayoutsDaily.keys, request.reads (some address) jobType key = true := by
  obtain ⟨address, member, rfl⟩ := List.mem_map.mp listed
  exact ⟨address, rfl, mem_addresses.mp (mem_sortKeys.mp member)⟩

theorem written_of_grouped {request : PayoutRequest} {jobType : JobType} {sort : LeaderboardSort}
    (written : ∀ key ∈ db.orchPayoutsDaily.keys, IsAddressText key.orchestratorAddress) :
    ∀ g ∈ grouped names request jobType db, IsAddressText (cursorOf sort g).address := by
  intro g listed
  obtain ⟨address, rfl, key, stored, selected⟩ := mem_grouped listed
  have own : key.orchestratorAddress = address := by
    have toAddress := (Bool.and_eq_true _ _ ▸ selected).2
    simpa using toAddress
  exact own ▸ written key stored

theorem ranks (documented : lib.Documented)
    (written : ∀ key ∈ db.orchPayoutsDaily.keys, IsAddressText key.orchestratorAddress)
    (range : q.fromDay ≤ q.toDay) (given : q.limit ≠ some 0) :
    Ranks (cursorOf q.sort) (leaderboardLimit q.limit) (fun _ => true)
      (grouped names (q.request defaultVersion) q.jobType db) (toLeaderboardRow lib)
      (fun g => (cursorOf q.sort g).encode lib 'P')
      fun token => leaderboard lib names db defaultVersion { q with cursor := token } where
  positive := leaderboardLimit_pos given
  continues _ _ := rfl
  distinct := nodup_position (by rw [address_grouped]; exact nodup_sortKeys _)
  answers last inside := by
    have decoded := decodeCursor_encode documented 'P' message
      (fun g _ => isColumnValue_orderSql q.sort g.sums) (written_of_grouped written) inside
    unfold leaderboard
    simp only [PayoutLeaderboardQuery.request, not_lt.mpr range, if_false, bind, Except.bind, pure,
      Except.pure, decoded, List.getLast?_map, Option.map_map, if_true]
    exact congrArg (fun token => Except.ok (_, Option.map token _))
      (funext (encode_of_row documented q.sort))

theorem pagesRanked (documented : lib.Documented)
    (written : ∀ key ∈ db.orchPayoutsDaily.keys, IsAddressText key.orchestratorAddress)
    (range : q.fromDay ≤ q.toDay) (given : q.limit ≠ some 0) :
    PagesRanked (fun token => leaderboard lib names db defaultVersion { q with cursor := token })
      (entryOf lib names db defaultVersion q) := by
  refine pagesRanked_of_ranks (ranks documented written range given) ?_ ?_ ?_
  · rw [address_grouped]
    exact nodup_sortKeys _
  · intro address some_
    rw [address_grouped, mem_sortKeys, mem_addresses]
    rw [entryOf, Option.isSome_map, PayoutRequest.leaderboardRow, Option.isSome_ite] at some_
    exact some_
  · intro g listed
    obtain ⟨address, rfl, present⟩ := mem_grouped listed
    show entryOf lib names db defaultVersion q address = _
    rw [entryOf, PayoutRequest.leaderboardRow, if_pos present]
    rfl

end

end Payouts

/-! ## The reward leaderboard -/

namespace Rewards

inductive LeaderboardSort where
  | orchTokensUsd
  | rewardEventCount
  | totalTokensUsd
  deriving DecidableEq

/-- The dates and the name of the column are parsed. -/
structure RewardLeaderboardQuery where
  fromDay : ℤ
  toDay : ℤ
  sort : LeaderboardSort
  cursor : Option String
  limit : Option ℕ
  valuationVersion : Option Version

/-- A row of `grouped`. -/
structure Group where
  orchestratorAddress : Address
  displayName : Option String
  avatarUrl : Option String
  sums : RewardSums Numeric

structure RewardLeaderboardRow where
  orchestratorAddress : Address
  displayName : Option String
  avatarUrl : Option String
  rewardEventCount : String
  sumTotalTokens : String
  sumTotalTokensUsd : String
  sumOrchTokens : String
  sumOrchTokensUsd : String
  sumDelegatorsTokens : String
  sumDelegatorsTokensUsd : String
  usdRowsPriced : String
  deriving DecidableEq

/-- `order_sql`. -/
def LeaderboardSort.orderSql : LeaderboardSort → RewardSums Numeric → ℚ
  | orchTokensUsd, sums => sums.sumOrchTokensUsd.toRat
  | rewardEventCount, sums => sums.rewardEventCount
  | totalTokensUsd, sums => sums.sumTotalTokensUsd.toRat

/-- The text the cursor is made of. -/
def LeaderboardSort.sortValue : LeaderboardSort → RewardLeaderboardRow → String
  | orchTokensUsd, body => body.sumOrchTokensUsd
  | rewardEventCount, body => body.rewardEventCount
  | totalTokensUsd, body => body.sumTotalTokensUsd

def toLeaderboardRow (lib : TextLibrary) (g : Group) : RewardLeaderboardRow where
  orchestratorAddress := g.orchestratorAddress
  displayName := g.displayName
  avatarUrl := g.avatarUrl
  rewardEventCount := countText g.sums.rewardEventCount
  sumTotalTokens := lib.decimalText g.sums.sumTotalTokens.toRat
  sumTotalTokensUsd := lib.decimalText g.sums.sumTotalTokensUsd.toRat
  sumOrchTokens := lib.decimalText g.sums.sumOrchTokens.toRat
  sumOrchTokensUsd := lib.decimalText g.sums.sumOrchTokensUsd.toRat
  sumDelegatorsTokens := lib.decimalText g.sums.sumDelegatorsTokens.toRat
  sumDelegatorsTokensUsd := lib.decimalText g.sums.sumDelegatorsTokensUsd.toRat
  usdRowsPriced := countText g.sums.usdRowsPriced

def parseDecimal (lib : TextLibrary) (raw : String) : Except ApiError ℚ :=
  match lib.decimalFromStr raw with
  | none => .error (.internal "failed to parse numeric cursor value")
  | some q => .ok q

/-- The rollup rows of a range, of one orchestrator or of all. -/
def RewardLeaderboardQuery.reads (q : RewardLeaderboardQuery) (defaultVersion : Version)
    (orchestrator : Option Address) (key : RewardKey) : Bool :=
  decide (q.fromDay ≤ key.dayUtc) && decide (key.dayUtc ≤ q.toDay) &&
    decide (key.valuationVersion = q.valuationVersion.getD defaultVersion) &&
      orchestrator.all fun address => decide (key.orchestratorAddress = address)

/-- The sums of an orchestrator over the range. -/
def RewardLeaderboardQuery.figures (q : RewardLeaderboardQuery) (defaultVersion : Version)
    (db : Db) (address : Address) : RewardSums Numeric :=
  orchRewards.servedColumn id (q.reads defaultVersion (some address)) db

/-- The addresses with a row in the range. -/
def addresses (q : RewardLeaderboardQuery) (defaultVersion : Version) (db : Db) :
    Finset Address :=
  (db.orchRewardsDaily.keys.filter fun key => q.reads defaultVersion none key = true).image
    RewardKey.orchestratorAddress

def groupOf (names : NameTables) (address : Address) (sums : RewardSums Numeric) : Group :=
  ⟨address, names.displayName address, names.avatarUrl address, sums⟩

/-- `grouped`. -/
def grouped (names : NameTables) (q : RewardLeaderboardQuery) (defaultVersion : Version)
    (db : Db) : List Group :=
  (sortKeys (addresses q defaultVersion db)).map fun address =>
    groupOf names address (q.figures defaultVersion db address)

def cursorOf (sort : LeaderboardSort) (g : Group) : Cursor :=
  ⟨sort.orderSql g.sums, g.orchestratorAddress⟩

def message (_ : String) : String := "invalid address"

/-- The loop over the rows of the page: the cursor is that of the last one. -/
def nextCursor (lib : TextLibrary) (sort : LeaderboardSort) (hasMore : Bool) :
    List RewardLeaderboardRow → Option String → Except ApiError (Option String)
  | [], next => .ok next
  | body :: rest, next =>
      if hasMore then
        match parseDecimal lib (sort.sortValue body) with
        | .error err => .error err
        | .ok sortValue =>
            nextCursor lib sort hasMore rest
              (some (Cursor.encode lib 'R' ⟨sortValue, body.orchestratorAddress⟩))
      else nextCursor lib sort hasMore rest next

/-- `leaderboard`. -/
def leaderboard (lib : TextLibrary) (names : NameTables) (db : Db) (defaultVersion : Version)
    (q : RewardLeaderboardQuery) : Except ApiError (List RewardLeaderboardRow × Option String) := do
  if q.toDay < q.fromDay then throw (.badRequest "to must be >= from")
  let cursor ← decodeCursor lib 'R' message q.cursor
  let rows := (ranked (cursorOf q.sort) (grouped names q defaultVersion db) cursor).take
    (leaderboardLimit q.limit + 1)
  let hasMore := decide (leaderboardLimit q.limit < rows.length)
  let data := (rows.take (leaderboardLimit q.limit)).map (toLeaderboardRow lib)
  let next ← nextCursor lib q.sort hasMore data none
  return (data, if hasMore then next else none)

/-- The total and the row of an address with rewards in the range. -/
def entryOf (lib : TextLibrary) (names : NameTables) (db : Db) (defaultVersion : Version)
    (q : RewardLeaderboardQuery) (address : Address) : Option (ℚ × RewardLeaderboardRow) :=
  if ∃ key ∈ db.orchRewardsDaily.keys, q.reads defaultVersion (some address) key = true then
    some (q.sort.orderSql (q.figures defaultVersion db address),
      toLeaderboardRow lib (groupOf names address (q.figures defaultVersion db address)))
  else none

section

variable {lib : TextLibrary} {names : NameTables} {db : Db} {defaultVersion : Version}
  {q : RewardLeaderboardQuery}

theorem isColumnValue_orderSql (sort : LeaderboardSort) (sums : RewardSums Numeric) :
    IsColumnValue (sort.orderSql sums) := by
  cases sort with
  | orchTokensUsd => exact ⟨sums.sumOrchTokensUsd, rfl⟩
  | rewardEventCount => exact isColumnValue_intCast sums.rewardEventCount
  | totalTokensUsd => exact ⟨sums.sumTotalTokensUsd, rfl⟩

theorem parseDecimal_sortValue (documented : lib.Documented) (sort : LeaderboardSort) (g : Group) :
    parseDecimal lib (sort.sortValue (toLeaderboardRow lib g)) = .ok (sort.orderSql g.sums) := by
  have read : lib.decimalFromStr (sort.sortValue (toLeaderboardRow lib g)) =
      some (sort.orderSql g.sums) := by
    cases sort with
    | orchTokensUsd => exact decimalFromStr_decimalText documented g.sums.sumOrchTokensUsd
    | rewardEventCount => exact decimalFromStr_countText documented g.sums.rewardEventCount
    | totalTokensUsd => exact decimalFromStr_decimalText documented g.sums.sumTotalTokensUsd
  rw [parseDecimal, read]

/-- Where more rows follow, the loop ends with the cursor of the last row. -/
theorem nextCursor_eq (documented : lib.Documented) (sort : LeaderboardSort) (groups : List Group)
    (next : Option String) : nextCursor lib sort true (groups.map (toLeaderboardRow lib)) next =
      .ok ((groups.getLast?.map fun g => (cursorOf sort g).encode lib 'R').or next) := by
  induction groups generalizing next with
  | nil => rfl
  | cons g rest inductionHypothesis =>
      rw [List.map_cons, nextCursor, if_pos rfl, parseDecimal_sortValue documented]
      simp only
      rw [inductionHypothesis]
      cases rest with
      | nil => rfl
      | cons other rest =>
          rw [List.getLast?_cons_cons, List.getLast?_eq_some_getLast (List.cons_ne_nil _ _)]
          rfl

/-- Where none follow, it leaves the cursor alone. -/
theorem nextCursor_of_last (sort : LeaderboardSort) (body : List RewardLeaderboardRow)
    (next : Option String) : nextCursor lib sort false body next = .ok next := by
  induction body with
  | nil => rfl
  | cons row rest inductionHypothesis => rwa [nextCursor, if_neg Bool.false_ne_true]

theorem mem_addresses {address : Address} : address ∈ addresses q defaultVersion db ↔
    ∃ key ∈ db.orchRewardsDaily.keys, q.reads defaultVersion (some address) key = true := by
  have own : ∀ key, q.reads defaultVersion (some address) key = true ↔
      q.reads defaultVersion none key = true ∧ key.orchestratorAddress = address := by
    intro key
    simp [RewardLeaderboardQuery.reads]
  simp only [addresses, Finset.mem_image, Finset.mem_filter, own, and_assoc]

theorem address_grouped (names : NameTables) (q : RewardLeaderboardQuery)
    (defaultVersion : Version) (sort : LeaderboardSort) (db : Db) :
    ((grouped names q defaultVersion db).map fun g => (cursorOf sort g).address) =
      sortKeys (addresses q defaultVersion db) := by
  rw [grouped, List.map_map]
  exact List.map_id _

theorem mem_grouped {g : Group} (listed : g ∈ grouped names q defaultVersion db) : ∃ address,
    g = groupOf names address (q.figures defaultVersion db address) ∧
      ∃ key ∈ db.orchRewardsDaily.keys, q.reads defaultVersion (some address) key = true := by
  obtain ⟨address, member, rfl⟩ := List.mem_map.mp listed
  exact ⟨address, rfl, mem_addresses.mp (mem_sortKeys.mp member)⟩

theorem written_of_grouped {sort : LeaderboardSort}
    (written : ∀ key ∈ db.orchRewardsDaily.keys, IsAddressText key.orchestratorAddress) :
    ∀ g ∈ grouped names q defaultVersion db, IsAddressText (cursorOf sort g).address := by
  intro g listed
  obtain ⟨address, rfl, key, stored, selected⟩ := mem_grouped listed
  have own : key.orchestratorAddress = address := by
    have toAddress := (Bool.and_eq_true _ _ ▸ selected).2
    simpa using toAddress
  exact own ▸ written key stored

theorem ranks (documented : lib.Documented)
    (written : ∀ key ∈ db.orchRewardsDaily.keys, IsAddressText key.orchestratorAddress)
    (range : q.fromDay ≤ q.toDay) (given : q.limit ≠ some 0) :
    Ranks (cursorOf q.sort) (leaderboardLimit q.limit)
      (fun n => decide (leaderboardLimit q.limit < n)) (grouped names q defaultVersion db)
      (toLeaderboardRow lib) (fun g => (cursorOf q.sort g).encode lib 'R')
      fun token => leaderboard lib names db defaultVersion { q with cursor := token } where
  positive := leaderboardLimit_pos given
  continues _ longer := decide_eq_true longer
  distinct := nodup_position (by rw [address_grouped]; exact nodup_sortKeys _)
  answers last inside := by
    have decoded := decodeCursor_encode documented 'R' message
      (fun g _ => isColumnValue_orderSql q.sort g.sums) (written_of_grouped written) inside
    unfold leaderboard
    simp only [not_lt.mpr range, if_false, bind, Except.bind, pure, Except.pure, decoded]
    rw [show ∀ cursor, grouped names { q with cursor } defaultVersion db =
      grouped names q defaultVersion db from fun _ => rfl]
    generalize ranked (cursorOf q.sort) (grouped names q defaultVersion db)
      (last.map (cursorOf q.sort)) = left
    have peeked : decide (leaderboardLimit q.limit <
        (left.take (leaderboardLimit q.limit + 1)).length) =
          decide (leaderboardLimit q.limit < left.length) := by
      refine decide_eq_decide.mpr ?_
      rw [List.length_take]
      omega
    have taken : (left.take (leaderboardLimit q.limit + 1)).take (leaderboardLimit q.limit) =
        left.take (leaderboardLimit q.limit) := by
      rw [List.take_take, Nat.min_eq_left (Nat.le_succ _)]
    rw [peeked, taken]
    cases decide (leaderboardLimit q.limit < left.length) with
    | false =>
        rw [nextCursor_of_last]
        rfl
    | true =>
        rw [nextCursor_eq documented, Option.or_none]

theorem pagesRanked (documented : lib.Documented)
    (written : ∀ key ∈ db.orchRewardsDaily.keys, IsAddressText key.orchestratorAddress)
    (range : q.fromDay ≤ q.toDay) (given : q.limit ≠ some 0) :
    PagesRanked (fun token => leaderboard lib names db defaultVersion { q with cursor := token })
      (entryOf lib names db defaultVersion q) := by
  refine pagesRanked_of_ranks (ranks documented written range given) ?_ ?_ ?_
  · rw [address_grouped]
    exact nodup_sortKeys _
  · intro address some_
    rw [address_grouped, mem_sortKeys, mem_addresses]
    rw [entryOf, Option.isSome_ite] at some_
    exact some_
  · intro g listed
    obtain ⟨address, rfl, present⟩ := mem_grouped listed
    show entryOf lib names db defaultVersion q address = _
    rw [entryOf, if_pos present]
    rfl

end

end Rewards

/-! ## The delegators of an orchestrator -/

namespace Delegators

structure OrchDelegatorsQuery where
  cursor : Option String
  limit : Option ℕ

def cursorOf (d : Delegation) : Cursor := ⟨d.row.bondedPrincipal.toRat, d.delegator⟩

def message (s : String) : String := s!"invalid address: {s}"

/-- `for_orchestrator`, with the texts of the cursors. -/
def forOrchestrator (lib : TextLibrary) (db : Db) (address : String) (q : OrchDelegatorsQuery) :
    Except ApiError (List OrchDelegatorRow × Option String) := do
  let orch ← normalizeAddr lib message address
  let cursor ← decodeCursor lib 'D' message q.cursor
  let rows := (ranked cursorOf (orchestratorRows db orch) cursor).take
    (Delegations.pageLimit q.limit)
  let data := rows.map orchDelegatorRow
  -- the principal is rendered for the row and parsed for the cursor
  let nextCursor := data.getLast?.map fun row =>
    Cursor.encode lib 'D'
      ⟨(lib.decimalFromStr (lib.decimalText row.bondedPrincipal.toRat)).getD 0,
        row.delegatorAddress⟩
  return (data, nextCursor)

/-- The principal and the row of a delegator who is bonded to the orchestrator. -/
def entryOf (db : Db) (orch : Address) (delegator : Address) : Option (ℚ × OrchDelegatorRow) :=
  (latestRow db anyRow delegator).bind fun found =>
    if found.2.delegateAddress = orch ∧ 0 < found.2.bondedPrincipal then
      some (found.2.bondedPrincipal.toRat, orchDelegatorRow ⟨delegator, found.1, found.2⟩)
    else none

section

variable {lib : TextLibrary} {db : Db} {orch : Address} {q : OrchDelegatorsQuery}

/-- The rows of an orchestrator are the latest rows under it that are positive. -/
theorem mem_orchestratorRows {d : Delegation} : d ∈ orchestratorRows db orch ↔
    latestRow db anyRow d.delegator = some (d.blockNumber, d.row) ∧
      d.row.delegateAddress = orch ∧ 0 < d.row.bondedPrincipal := by
  simp only [orchestratorRows, List.mem_filter, Bool.and_eq_true, decide_eq_true_eq,
    Delegation.live]
  refine and_congr_left fun _ => ?_
  simp only [Delegations.latestRows, List.mem_filterMap, mem_sortKeys, Option.map_eq_some_iff,
    Prod.exists]
  constructor
  · rintro ⟨delegator, _, block, row, found, rfl⟩
    exact found
  · intro found
    have stored := (Delegations.latestRow_eq_some.mp found).1
    exact ⟨d.delegator, Delegations.mem_delegatorsWith.mpr ⟨_, _, stored, rfl⟩,
      d.blockNumber, d.row, found, rfl⟩

theorem entryOf_of_mem {d : Delegation} (listed : d ∈ orchestratorRows db orch) :
    entryOf db orch d.delegator = some ((cursorOf d).sortValue, orchDelegatorRow d) := by
  obtain ⟨found, own, positive⟩ := mem_orchestratorRows.mp listed
  rw [entryOf, found, Option.bind_some, if_pos ⟨own, positive⟩]
  rfl

theorem mem_of_entryOf {delegator : Address} (some_ : (entryOf db orch delegator).isSome = true) :
    ∃ d ∈ orchestratorRows db orch, d.delegator = delegator := by
  obtain ⟨entry, own⟩ := Option.isSome_iff_exists.mp some_
  obtain ⟨found, latest, kept⟩ := Option.bind_eq_some_iff.mp own
  split_ifs at kept with bonded
  exact ⟨⟨delegator, found.1, found.2⟩, mem_orchestratorRows.mpr ⟨latest, bonded⟩, rfl⟩

theorem nodup_address (db : Db) (orch : Address) :
    ((orchestratorRows db orch).map fun d => (cursorOf d).address).Nodup :=
  List.Nodup.sublist (List.filter_sublist.map _) (Delegations.nodup_delegator anyRow _)

theorem written_of_mem (written : ∀ key ∈ db.stakeBalancesByBlock.keys, IsAddressText key.1) :
    ∀ d ∈ orchestratorRows db orch, IsAddressText (cursorOf d).address := by
  intro d listed
  have stored := (Delegations.latestRow_eq_some.mp (mem_orchestratorRows.mp listed).1).1
  exact written _ (Finmap.mem_keys.mpr (Finmap.mem_of_lookup_eq_some stored))

theorem ranks (documented : lib.Documented)
    (written : ∀ key ∈ db.stakeBalancesByBlock.keys, IsAddressText key.1) {address : String}
    (normalized : normalizeAddr lib message address = .ok orch) (given : q.limit ≠ some 0) :
    Ranks cursorOf (Delegations.pageLimit q.limit) (fun _ => true) (orchestratorRows db orch)
      orchDelegatorRow (fun d => (cursorOf d).encode lib 'D')
      fun token => forOrchestrator lib db address { q with cursor := token } where
  positive := by
    unfold Delegations.pageLimit
    cases limit : q.limit with
    | none => decide
    | some n =>
        have nonzero : n ≠ 0 := fun zero => given (limit.trans (congrArg some zero))
        exact lt_min (Nat.pos_of_ne_zero nonzero) (by decide)
  continues _ _ := rfl
  distinct := nodup_position (nodup_address db orch)
  answers last inside := by
    have decoded := decodeCursor_encode documented 'D' message
      (fun d _ => ⟨d.row.bondedPrincipal, rfl⟩) (written_of_mem written) inside
    have token : ∀ d : Delegation, Cursor.encode lib 'D'
        ⟨(lib.decimalFromStr (lib.decimalText (orchDelegatorRow d).bondedPrincipal.toRat)).getD 0,
          (orchDelegatorRow d).delegatorAddress⟩ = (cursorOf d).encode lib 'D' := by
      intro d
      rw [decimalFromStr_decimalText documented]
      rfl
    unfold forOrchestrator
    simp only [normalized, bind, Except.bind, pure, Except.pure, decoded, List.getLast?_map,
      Option.map_map, if_true]
    exact congrArg (fun token => Except.ok (_, Option.map token _)) (funext token)

theorem pagesRanked (documented : lib.Documented)
    (written : ∀ key ∈ db.stakeBalancesByBlock.keys, IsAddressText key.1) {address : String}
    (normalized : normalizeAddr lib message address = .ok orch) (given : q.limit ≠ some 0) :
    PagesRanked (fun token => forOrchestrator lib db address { q with cursor := token })
      (entryOf db orch) := by
  refine pagesRanked_of_ranks (ranks documented written normalized given) (nodup_address db orch)
    ?_ fun d listed => entryOf_of_mem listed
  intro delegator some_
  obtain ⟨d, listed, rfl⟩ := mem_of_entryOf some_
  exact List.mem_map.mpr ⟨d, listed, rfl⟩

end

end Delegators

/-! ## All lists -/

/-- The addresses of the tables are written by the indexer. -/
structure AddressesWritten (db : Db) : Prop where
  payouts : ∀ key ∈ db.orchPayoutsDaily.keys, IsAddressText key.orchestratorAddress
  rewards : ∀ key ∈ db.orchRewardsDaily.keys, IsAddressText key.orchestratorAddress
  stakes : ∀ key ∈ db.stakeBalancesByBlock.keys, IsAddressText key.1

/-- **Following the cursors of each list shows every address that qualifies once, in order and with
the totals of its whole range; and no digit of a total is lost on the way through a cursor.** -/
theorem rankedLists_exact (lib : TextLibrary) (documented : lib.Documented) (names : NameTables)
    (db : Db) (written : AddressesWritten db) (defaultVersion : Version)
    (payouts : Payouts.PayoutLeaderboardQuery) (rewards : Rewards.RewardLeaderboardQuery)
    (delegators : Delegators.OrchDelegatorsQuery) (payoutRange : payouts.fromDay ≤ payouts.toDay)
    (rewardRange : rewards.fromDay ≤ rewards.toDay) (address : String) (orch : Address)
    (normalized : normalizeAddr lib Delegators.message address = .ok orch)
    (limits : ∀ limit ∈ [payouts.limit, rewards.limit, delegators.limit], limit ≠ some 0) :
    PagesRanked (fun token =>
        Payouts.leaderboard lib names db defaultVersion { payouts with cursor := token })
      (Payouts.entryOf lib names db defaultVersion payouts) ∧
    PagesRanked (fun token =>
        Rewards.leaderboard lib names db defaultVersion { rewards with cursor := token })
      (Rewards.entryOf lib names db defaultVersion rewards) ∧
    PagesRanked (fun token =>
        Delegators.forOrchestrator lib db address { delegators with cursor := token })
      (Delegators.entryOf db orch) ∧
    ∀ (tag : Char) (message : String → String) (c : Cursor),
      IsColumnValue c.sortValue → IsAddressText c.address →
        Cursor.decode lib tag message (c.encode lib tag) = .ok c := by
  refine ⟨?_, ?_, ?_, ?_⟩
  · exact Payouts.pagesRanked documented written.payouts payoutRange (limits _ (by simp))
  · exact Rewards.pagesRanked documented written.rewards rewardRange (limits _ (by simp))
  · exact Delegators.pagesRanked documented written.stakes normalized (limits _ (by simp))
  · exact fun tag _ _ inColumn ofIndexer =>
      Cursor.decode_encode documented tag inColumn ofIndexer

/-! ## A tie -/

/-- Plain numerals. -/
def plainLibrary : TextLibrary where
  decimalText q := String.ofList (decimalText (Decimal.ofRat q : Numeric))
  decimalFromStr text := readNumeral text.toList
  toLowercase text := String.ofList (text.toList.map Char.toLower)

theorem plainLibrary_documented : plainLibrary.Documented where
  writes d := by
    show readNumeral (String.ofList (decimalText (Decimal.ofRat d.toRat : Numeric))).toList = _
    rw [String.toList_ofList, Decimal.ofRat_toRat, readNumeral_decimalText]
  reads _ _ denotes := denotes
  lowercase _ _ := rfl

/-- An address of equal bytes. -/
def plainAddress (byte : UInt8) : Address := Indexer.Wire.hexText (List.replicate 20 byte)

theorem isAddressText_plainAddress (byte : UInt8) : IsAddressText (plainAddress byte) :=
  ⟨List.replicate 20 byte, List.length_replicate, rfl⟩

/-- Half a dollar of commission. -/
def halfDollar : Total (PayoutSums Numeric) :=
  ⟨{ (0 : PayoutSums Numeric) with ticketCount := 1, sumCommissionUsd := ⟨5 * 10 ^ 17⟩ }, 1⟩

/-- Two orchestrators with the same commission, one of them over two days, and a delegator. -/
def tied : Db :=
  { Db.empty with
    orchPayoutsDaily := ((Finmap.singleton ⟨0, plainAddress 1, "v1", .ai⟩ halfDollar).insert
      ⟨1, plainAddress 1, "v1", .ai⟩ ⟨0, 2⟩).insert
        ⟨0, plainAddress 2, "v1", .ai⟩ halfDollar
    stakeBalancesByBlock :=
      Finmap.singleton (plainAddress 3, 10) (Delegations.flowRow (plainAddress 1) 5) }

theorem tied_addressesWritten : AddressesWritten tied where
  payouts key stored := by
    simp only [tied, Finmap.mem_keys, Finmap.mem_insert, Finmap.mem_singleton] at stored
    rcases stored with rfl | rfl | rfl <;> exact isAddressText_plainAddress _
  rewards key stored := by
    cases Finmap.notMem_empty (Finmap.mem_keys.mp stored)
  stakes key stored := by
    simp only [tied, Finmap.mem_keys, Finmap.mem_singleton] at stored
    rw [stored]
    exact isAddressText_plainAddress _

/-- Two days, one row a page. -/
def rowByRow : Payouts.PayoutLeaderboardQuery where
  fromDay := 0
  toDay := 1
  jobType := .both
  sort := .commissionUsd
  cursor := none
  limit := some 1
  valuationVersion := none

/-- The leaderboard of the tied orchestrators. -/
theorem tied_ranked : PagesRanked
    (fun token => Payouts.leaderboard plainLibrary ⟨∅, ∅⟩ tied "v1" { rowByRow with cursor := token })
    (Payouts.entryOf plainLibrary ⟨∅, ∅⟩ tied "v1" rowByRow) :=
  (rankedLists_exact plainLibrary plainLibrary_documented ⟨∅, ∅⟩ tied tied_addressesWritten "v1"
    rowByRow ⟨0, 1, .orchTokensUsd, none, some 1, none⟩ ⟨none, some 1⟩ (by decide) (by decide)
    (plainAddress 1) (plainAddress 1)
    (normalizeAddr_of_isAddressText plainLibrary_documented (isAddressText_plainAddress 1))
    (by decide)).1

end ProtocolExplorer.Api.RankedLists
