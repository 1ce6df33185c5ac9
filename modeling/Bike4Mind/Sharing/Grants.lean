import Bike4Mind.Collections.OrderedSet
import Bike4Mind.Runtime

/-! Grant rows on shareable documents: who reads a document through them, and how a grant is merged in. -/

namespace Bike4Mind.Sharing
open Collections

inductive Permission where
  | read | create | update | delete | share
  deriving DecidableEq

/-- One grant, tagged with the project or the session it came from. -/
structure UserShare where
  userId : String
  permissions : List Permission
  projectId : Option String := none
  sessionId : Option String := none
  extraData : List (String × String) := []
  deriving DecidableEq

structure GroupShare where
  groupId : String
  permissions : List Permission
  deriving DecidableEq

structure Shareable where
  userId : String
  users : List UserShare
  groups : List GroupShare := []
  deriving DecidableEq

structure User where
  id : String
  email : Option String
  groups : List String := []
  deriving DecidableEq

/-! ### Access -/

/-- `'write'`, which the query also asks for, is no permission that could be stored. -/
def readGrants : List Permission := [.read]

/-- The arms of `readAccessArms`: owner, own rows, rows of one's groups. -/
def accessible (doc : Shareable) (user : User) : Bool :=
  doc.userId == user.id ||
  doc.users.any (fun row => row.userId == user.id && row.permissions.any (readGrants.contains ·)) ||
  doc.groups.any (fun row => user.groups.contains row.groupId && row.permissions.any (readGrants.contains ·))

def heldPermissions (doc : Shareable) (user : Option User) : List Permission :=
  match user with
  | none => []
  | some user =>
    if doc.userId = user.id then [.read, .create, .update, .delete, .share]
    else (doc.users.filter (·.userId = user.id)).flatMap (·.permissions) ++
      (doc.groups.filter fun row => user.groups.contains row.groupId).flatMap (·.permissions)

/-- The authority to share carries `read` with it. -/
def grantablePermissions (doc : Shareable) (user : Option User) : List Permission :=
  let held := heldPermissions doc user
  if .share ∈ held then .read :: held else held

structure Reshare where
  holdsShare : Bool
  granted : List Permission

def reshareableBy (doc : Shareable) (inviter : Option User) (permissions : List Permission) : Reshare :=
  let held := grantablePermissions doc inviter
  let holdsShare := held.contains .share
  { holdsShare, granted := if holdsShare then permissions.filter (held.contains ·) else [] }

theorem reshareable_read {doc : Shareable} {inviter : Option User} {permissions : List Permission}
    (read : .read ∈ permissions) (holds : (reshareableBy doc inviter permissions).holdsShare = true) :
    .read ∈ (reshareableBy doc inviter permissions).granted := by
  have shares : Permission.share ∈ grantablePermissions doc inviter := by simpa [reshareableBy] using holds
  have conveys : Permission.read ∈ grantablePermissions doc inviter := by
    unfold grantablePermissions at shares ⊢
    dsimp only at shares ⊢
    split
    · exact List.mem_cons_self
    · rename_i unshared
      rw [if_neg unshared] at shares
      exact (unshared shares).elim
  simp [reshareableBy, shares, read, conveys]

/-! ### Rows -/

structure Grant where
  userId : String
  permissions : List Permission
  projectId : Option String := none
  sessionId : Option String := none
  deriving DecidableEq

/-- The key rows are merged by. -/
def UserShare.sameRow (row : UserShare) (grant : Grant) : Bool :=
  row.userId == grant.userId && row.projectId == grant.projectId && row.sessionId == grant.sessionId

def UserShare.merged (row : UserShare) (grant : Grant) : UserShare :=
  { row with permissions := distinct (row.permissions ++ grant.permissions) }

def Grant.row (grant : Grant) : UserShare where
  userId := grant.userId
  permissions := grant.permissions
  projectId := grant.projectId
  sessionId := grant.sessionId

/-- The first row under the grant's key takes its permissions up; without one the grant is a new row. -/
def pushShareable (grant : Grant) : List UserShare → List UserShare
  | [] => [grant.row]
  | row :: rest => if row.sameRow grant then row.merged grant :: rest else row :: pushShareable grant rest

/-- A row that records a grant made by this project to this user. -/
def UserShare.tagged (userId projectId : String) (row : UserShare) : Bool :=
  row.userId == userId && row.projectId == some projectId

theorem pushShareable_granted {grant : Grant} {rows : List UserShare} :
    ∃ row ∈ pushShareable grant rows, row.userId = grant.userId ∧ row.projectId = grant.projectId ∧
      ∀ p ∈ grant.permissions, p ∈ row.permissions := by
  induction rows with
  | nil => exact ⟨grant.row, List.mem_singleton_self _, rfl, rfl, fun _ member => member⟩
  | cons row rest ih =>
    unfold pushShareable
    split
    · rename_i same
      simp only [UserShare.sameRow, Bool.and_eq_true, beq_iff_eq] at same
      refine ⟨row.merged grant, List.mem_cons_self, same.1.1, same.1.2, fun p member => ?_⟩
      exact mem_distinct.mpr (List.mem_append_right _ member)
    · obtain ⟨granted, member, facts⟩ := ih
      exact ⟨granted, List.mem_cons_of_mem _ member, facts⟩

theorem accessible_of_row {doc : Shareable} {user : User} {row : UserShare} (member : row ∈ doc.users)
    (own : row.userId = user.id) (read : .read ∈ row.permissions) : accessible doc user = true := by
  have arm : doc.users.any (fun row => row.userId == user.id && row.permissions.any (readGrants.contains ·)) = true := by
    rw [List.any_eq_true]
    refine ⟨row, member, ?_⟩
    simp only [own, beq_self_eq_true, Bool.true_and, List.any_eq_true]
    exact ⟨.read, read, rfl⟩
  rw [accessible, arm, Bool.or_true, Bool.true_or]

theorem accessible_filter {doc : Shareable} {user : User} {keep : UserShare → Bool}
    (own : ∀ row, row.userId = user.id → keep row = true) :
    accessible { doc with users := doc.users.filter keep } user = accessible doc user := by
  have arms : (doc.users.filter keep).any (fun row => row.userId == user.id && row.permissions.any (readGrants.contains ·)) =
      doc.users.any (fun row => row.userId == user.id && row.permissions.any (readGrants.contains ·)) := by
    rw [List.any_filter]
    congr 1
    funext row
    by_cases mine : row.userId = user.id
    · simp [mine, own row mine]
    · simp [mine]
  simp only [accessible, arms]

end Bike4Mind.Sharing
