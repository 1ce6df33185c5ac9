import Bike4Mind.Collections.OrderedMap
import Bike4Mind.Collections.OrderedSet
import Mathlib.Algebra.Order.Floor.Defs
import Mathlib.Data.List.Sort
import Mathlib.Data.Rat.Floor

/-! What joined a lake and what left it between two instants. -/

namespace Bike4Mind.MembershipDiff
open Collections

/-- Milliseconds since the epoch. -/
abbrev Instant := Int

inductive LakeMembershipChangeAction where
  | added
  | removed
  deriving DecidableEq

inductive LakeMembershipChangeOrigin where
  | connector
  | person
  deriving DecidableEq

structure LakeMembershipChangeEvent where
  id : String
  createdAt : Instant
  fabFileId : String
  action : LakeMembershipChangeAction
  origin : LakeMembershipChangeOrigin := .person
  principalKind : String := "user"
  principalId : String := ""
  onBehalfOfUserId : Option String := none
  deriving DecidableEq

structure DataLakeLiveMember where
  id : String
  createdAt : Instant
  deriving DecidableEq

structure LakeMembershipDiffEntry where
  fabFileId : String
  eventId : String
  changedAt : Instant
  origin : LakeMembershipChangeOrigin
  principalKind : String
  principalId : String
  onBehalfOfUserId : Option String
  flips : Nat
  deriving DecidableEq

inductive LakeMembershipDiffUnknownReason where
  | windowTruncated
  | windowPredatesLog
  deriving DecidableEq

structure LakeMembershipDiffView where
  from_ : Instant
  to_ : Instant
  added : List LakeMembershipDiffEntry
  removed : List LakeMembershipDiffEntry
  unchangedCount : Option Nat
  unchangedUnknownReason : Option LakeMembershipDiffUnknownReason
  addedWithoutEventCount : Nat
  logStartsAt : Option Instant
  truncated : Bool
  generatedAt : Instant
  deriving DecidableEq

def LAKE_MEMBERSHIP_DIFF_LIMIT : Nat := 500

def LAKE_MEMBERSHIP_DIFF_MAX_LIMIT : Nat := 2000

/-- A limit that is absent or not finite is `none`. -/
def clampLakeMembershipDiffLimit (requested : Option ℚ) : Nat :=
  match requested with
  | none => LAKE_MEMBERSHIP_DIFF_LIMIT
  | some requested =>
    let floored := ⌊requested⌋
    if floored < 1 then 1 else min floored.toNat LAKE_MEMBERSHIP_DIFF_MAX_LIMIT

/-- One file's run of events inside the window. -/
structure FileWindow where
  memberAtFrom : Bool
  memberAtTo : Bool
  last : LakeMembershipChangeEvent
  flips : Nat
  deriving DecidableEq

def toEntry (w : FileWindow) : LakeMembershipDiffEntry where
  fabFileId := w.last.fabFileId
  eventId := w.last.id
  changedAt := w.last.createdAt
  origin := w.last.origin
  principalKind := w.last.principalKind
  principalId := w.last.principalId
  onBehalfOfUserId := w.last.onBehalfOfUserId
  flips := w.flips

/-- What the three reads return. -/
structure Reads where
  /-- The lake's events after an instant, newest first, at most as many as the limit. -/
  listByLakeSince : Instant → Nat → List LakeMembershipChangeEvent
  oldestEventAt : Option Instant
  liveMembers : List DataLakeLiveMember

def bornAtOf (liveMembers : List DataLakeLiveMember) : OrderedMap String Instant :=
  liveMembers.foldl (fun bornAt m => bornAt.set m.id m.createdAt) ∅

/-- The members at the end and the files already rewound. -/
structure Rewind where
  membersAtTo : List String
  rewound : List String

def rewindEvent (windowEnd : Instant) (state : Rewind) (e : LakeMembershipChangeEvent) : Rewind :=
  if e.createdAt ≤ windowEnd then state
  else if e.fabFileId ∈ state.rewound then state
  else
    { rewound := e.fabFileId :: state.rewound
      membersAtTo :=
        if e.action = .added then state.membersAtTo.filter (· ≠ e.fabFileId) else insertNew state.membersAtTo e.fabFileId }

def membersAtToOf (bornAt : OrderedMap String Instant) (windowEnd : Instant) (events : List LakeMembershipChangeEvent) : List String :=
  (events.foldl (rewindEvent windowEnd) ⟨bornAt.keys, []⟩).membersAtTo.filter fun fileId =>
    !(bornAt.get? fileId).any (fun born => decide (born > windowEnd))

/-- `bornAt.get(fileId) ?? 0` -/
def bornOr (bornAt : OrderedMap String Instant) (fileId : String) : Instant := (bornAt.get? fileId).getD 0

def windowEvent (bornAt : OrderedMap String Instant) (from_ windowEnd : Instant) (windows : OrderedMap String FileWindow)
    (e : LakeMembershipChangeEvent) : OrderedMap String FileWindow :=
  if e.createdAt > windowEnd then windows
  else
    match windows.get? e.fabFileId with
    | some existing =>
      windows.set e.fabFileId
        { existing with memberAtTo := decide (e.action = .added), last := e, flips := existing.flips + 1 }
    | none =>
      windows.set e.fabFileId
        { memberAtFrom := decide (e.action = .removed) && decide (bornOr bornAt e.fabFileId ≤ from_)
          memberAtTo := decide (e.action = .added)
          last := e
          flips := 1 }

def windowsOf (bornAt : OrderedMap String Instant) (from_ windowEnd : Instant) (events : List LakeMembershipChangeEvent) :
    OrderedMap String FileWindow :=
  events.foldl (windowEvent bornAt from_ windowEnd) ∅

/-- The stable sort by `changedAt`, newest first. -/
def newestFirst (entries : List LakeMembershipDiffEntry) : List LakeMembershipDiffEntry :=
  entries.insertionSort fun a b => b.changedAt ≤ a.changedAt

/-- Whether a member at the end is taken to have sat through the window. -/
def satThroughWindow (bornAt : OrderedMap String Instant) (windows : OrderedMap String FileWindow) (from_ : Instant) (fileId : String) : Bool :=
  match windows.get? fileId with
  | some w => w.memberAtFrom && w.memberAtTo
  | none => decide (bornOr bornAt fileId ≤ from_)

def addedWithoutEvent (bornAt : OrderedMap String Instant) (windows : OrderedMap String FileWindow) (from_ : Instant) (fileId : String) : Bool :=
  match windows.get? fileId with
  | some _ => false
  | none => decide (bornOr bornAt fileId > from_)

def windowEndOf (to_ : Option Instant) (now : Instant) : Instant :=
  match to_ with
  | none => now
  | some to_ => if to_ < now then to_ else now

def unknownReason (truncated : Bool) (logStartsAt : Option Instant) (from_ : Instant) : Option LakeMembershipDiffUnknownReason :=
  if truncated then some .windowTruncated
  else
    match logStartsAt with
    | none => some .windowPredatesLog
    | some startsAt => if startsAt > from_ then some .windowPredatesLog else none

def diffLakeMembership (db : Reads) (from_ : Instant) (to_ : Option Instant) (limit : Option ℚ) (now : Instant) :
    Except String LakeMembershipDiffView :=
  let windowEnd := windowEndOf to_ now
  if from_ > now then .error "`from` must not be in the future."
  else if windowEnd < from_ then .error "`to` must not be earlier than `from`."
  else
    let pageSize := clampLakeMembershipDiffLimit limit
    let page := db.listByLakeSince from_ (pageSize + 1)
    let truncated := decide (page.length > pageSize)
    let events := (if truncated then page.take pageSize else page).reverse
    let bornAt := bornAtOf db.liveMembers
    let membersAtTo := membersAtToOf bornAt windowEnd events
    let windows := windowsOf bornAt from_ windowEnd events
    let reason := unknownReason truncated db.oldestEventAt from_
    .ok
      { from_
        to_ := windowEnd
        added := newestFirst ((windows.values.filter fun w => !w.memberAtFrom && w.memberAtTo).map toEntry)
        removed := newestFirst ((windows.values.filter fun w => w.memberAtFrom && !w.memberAtTo).map toEntry)
        unchangedCount := if reason = none then some (membersAtTo.countP (satThroughWindow bornAt windows from_)) else none
        unchangedUnknownReason := reason
        addedWithoutEventCount := membersAtTo.countP (addedWithoutEvent bornAt windows from_)
        logStartsAt := db.oldestEventAt
        truncated
        generatedAt := now }

end Bike4Mind.MembershipDiff
