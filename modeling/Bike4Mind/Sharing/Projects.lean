import Bike4Mind.Sharing.Grants

/-! Project invites and revocations, with the grants they fan out and take back. -/

namespace Bike4Mind.Sharing
open Collections

inductive SharingError where
  | notFound (message : String)
  | unprocessable (message : String)
  | forbidden (message : String)
  | unauthorized (message : String)
  deriving DecidableEq

abbrev Result := Except SharingError

structure SystemPrompt where
  fileId : String
  enabled : Bool
  deriving DecidableEq

structure Session extends Shareable where
  knowledgeIds : List String
  deriving DecidableEq

structure Project extends Shareable where
  fileIds : List String
  sessionIds : List String
  systemPrompts : List SystemPrompt
  deriving DecidableEq

inductive InviteType where
  | Session | FabFile | Group | Organization | Project
  deriving DecidableEq

structure Recipients where
  pending : List String := []
  accepted : List String := []
  refused : List String := []
  deriving DecidableEq

structure Invite where
  id : String
  token : Option String
  type : InviteType
  documentId : String
  inviterId : Option String
  permissions : List Permission
  recipients : Recipients
  isLinkOnly : Option Bool
  remaining : Int
  expiresAt : Option Time
  deriving DecidableEq

inductive DocumentType where
  | files | sessions | projects
  deriving DecidableEq

def DocumentType.text : DocumentType → String
  | .files => "files"
  | .sessions => "sessions"
  | .projects => "projects"

def isHexDigit (c : Char) : Bool := c.isDigit || ('a' ≤ c && c ≤ 'f') || ('A' ≤ c && c ≤ 'F')

def isObjectIdOrHexString (id : String) : Bool := id.length == 24 && id.toList.all isHexDigit

@[ext] structure Store where
  users : String → Option User
  files : String → Option Shareable
  sessions : String → Option Session
  projects : String → Option Project
  invites : List Invite
  named : ∀ {id user}, users id = some user → user.id = id

namespace Store

def shareable (s : Store) : DocumentType → String → Option Shareable
  | .files, id => s.files id
  | .sessions, id => (s.sessions id).map (·.toShareable)
  | .projects, id => (s.projects id).map (·.toShareable)

/-- The rows of one document rewritten. -/
def modifyUsers (s : Store) (type : DocumentType) (id : String) (f : List UserShare → List UserShare) : Store :=
  match type with
  | .files => { s with files := fun i => if i = id then (s.files i).map fun doc => { doc with users := f doc.users } else s.files i }
  | .sessions =>
    { s with sessions := fun i => if i = id then (s.sessions i).map fun doc => { doc with users := f doc.users } else s.sessions i }
  | .projects =>
    { s with projects := fun i => if i = id then (s.projects i).map fun doc => { doc with users := f doc.users } else s.projects i }

def findAccessibleById (s : Store) (type : DocumentType) (user : User) (id : String) : Option Shareable :=
  if isObjectIdOrHexString id then (s.shareable type id).filter (accessible · user) else none

/-- The ids among these that name a stored document, each once. -/
def existing (s : Store) (type : DocumentType) (ids : List String) : List String :=
  (distinct ids).filter fun id => isObjectIdOrHexString id && (s.shareable type id).isSome

def findProject (s : Store) (id : String) : Option Project := if isObjectIdOrHexString id then s.projects id else none

def updateUserShares (s : Store) (type : DocumentType) (id : String) (grant : Grant) : Store :=
  s.modifyUsers type id (pushShareable grant)

end Store

/-! ### Accepting -/

def isLinkOnlyInvite (invite : Invite) : Bool :=
  match invite.isLinkOnly with
  | some flag => flag
  | none => (invite.recipients.pending ++ invite.recipients.accepted ++ invite.recipients.refused).isEmpty &&
      (invite.type == .FabFile || invite.type == .Session)

def resolveAddressedInvite (invites : List Invite) (key : String) : Option Invite :=
  if key = "" then none else (invites.find? (·.token == some key)).or (invites.find? (·.id == key))

def resolveRedeemableInvite (invites : List Invite) (key : String) : Option Invite :=
  (resolveAddressedInvite invites key).filter fun invite =>
    !(invite.token.any (fun token => token != "" && token != key) && isLinkOnlyInvite invite)

/-- What stands before the grants of an accept: the caller's account, and the invite's own limits. -/
def redeem (s : Store) (userId key : String) (now : Time) : Result (User × String × Invite) := do
  let user ← (s.users userId).elim (throw (.notFound "User not found")) pure
  let email ← (user.email.filter (· ≠ "")).elim (throw (.unprocessable "User has no email")) pure
  let invite ← (resolveRedeemableInvite s.invites key).elim (throw (.notFound "Invite not found")) pure
  if invite.expiresAt.any (· < now) then .error (.unprocessable "Invite has expired")
  else if invite.remaining ≤ 0 then .error (.unprocessable "Invite has no remaining users")
  else if invite.recipients.accepted.contains email then .error (.unprocessable "User has already accepted the invite")
  else if !isLinkOnlyInvite invite && !invite.recipients.pending.any (fun entry => entry.toLower == email.toLower) then
    .error (.forbidden "This invite was not sent to your account")
  else .ok (user, email, invite)

def permissionsInviterCanStillGrant (doc : Shareable) (invite : Invite) (permissions : List Permission)
    (inviter : Option User) : Result (List Permission) :=
  if (invite.inviterId.filter (· ≠ "")).all (· = doc.userId) then .ok permissions
  else
    let reshare := reshareableBy doc inviter permissions
    if !reshare.holdsShare || (reshare.granted.isEmpty && !permissions.isEmpty) then
      .error (.forbidden "The person who shared this can no longer share it")
    else .ok reshare.granted

/-- The files a project reaches: its own and those of its system prompts. -/
def Project.reachedFiles (project : Project) : List String := project.fileIds ++ project.systemPrompts.map (·.fileId)

def grantAll (type : DocumentType) (grant : Grant) (ids : List String) (s : Store) : Store :=
  ids.foldl (fun s id => s.updateUserShares type id grant) s

def acceptProject (s : Store) (user : User) (invite : Invite) (inviter : Option User) : Result Store := do
  let projectId := invite.documentId
  let project ← (s.findProject projectId).elim (throw (.notFound "Project not found")) pure
  let permissions ← permissionsInviterCanStillGrant project.toShareable invite invite.permissions inviter
  let s := s.updateUserShares .projects projectId { userId := user.id, permissions }
  let files := s.existing .files project.reachedFiles
  let sessions := s.existing .sessions project.sessionIds
  let grant : Grant := { userId := user.id, permissions, projectId := some projectId }
  return grantAll .sessions grant sessions (grantAll .files grant files s)

def acceptedRecipients (recipients : Recipients) (email : String) : Recipients where
  pending := recipients.pending.filter (·.toLower != email.toLower)
  accepted := recipients.accepted ++ [email]
  refused := recipients.refused.filter (·.toLower != email.toLower)

/-- The gates of the accept, as the write that spends a slot checks them again. -/
def Invite.spendable (invite : Invite) (id email : String) : Bool :=
  invite.id == id && invite.remaining > 0 &&
    !invite.recipients.accepted.any (fun entry => entry.toLower == email.toLower) &&
    (invite.isLinkOnly != some false || invite.recipients.pending.any (fun entry => entry.toLower == email.toLower))

def Invite.spent (invite : Invite) (email : String) : Invite :=
  { invite with recipients := acceptedRecipients invite.recipients email, remaining := invite.remaining - 1 }

def acceptRecipient (invites : List Invite) (id email : String) : Option (Invite × List Invite) :=
  (invites.find? (·.spendable id email)).map fun invite =>
    (invite.spent email, invites.map fun other => if other.spendable id email then other.spent email else other)

/-- The arms of the switch on the invite's type, apart from the one for projects. -/
abbrev OtherArms := Store → User → Invite → Option User → Result Store

def acceptInvite (otherArms : OtherArms) (s : Store) (userId key : String) (now : Time) : Result (Invite × Store) := do
  let (user, email, invite) ← redeem s userId key now
  let inviter := (invite.inviterId.filter (· ≠ "")).bind s.users
  let s ← if invite.type = .Project then acceptProject s user invite inviter else otherArms s user invite inviter
  let (accepted, invites) ← (acceptRecipient s.invites invite.id email).elim
    (throw (.unprocessable "Invite has no remaining users")) pure
  return (accepted, { s with invites })

/-! ### Revoking -/

structure RevokeParameters where
  id : String
  type : DocumentType
  userId : String
  projectId : Option String := none

/-- The rows a revocation takes: on a project, or without a scope, all of the user's. -/
def RevokeParameters.isRevoked (p : RevokeParameters) (row : UserShare) : Bool :=
  row.userId == p.userId && (p.type == .projects || p.projectId.all (· = "") || row.projectId == p.projectId)

/-- The document the caller may take the user's rows from. -/
def revocable (s : Store) (userId : String) (p : RevokeParameters) : Result Shareable := do
  let member ← (s.users p.userId).elim (throw (.notFound s!"User not found for id: {p.userId}")) pure
  let document ← (s.findAccessibleById p.type member p.id).elim
    (throw (.notFound s!"{p.type.text} not found for {p.id}")) pure
  if document.userId ≠ userId ∧ userId ≠ p.userId then
    .error (.unauthorized "Only the document owner or the shared user themselves can revoke sharing")
  else if !document.users.any p.isRevoked then .error (.notFound "User not found in document")
  else .ok document

def Store.withdraw (s : Store) (p : RevokeParameters) : Store :=
  s.modifyUsers p.type p.id fun rows => rows.filter fun row => !p.isRevoked row

/-- A session's own grants on the files it knows. -/
def revokeSessionKnowledgeFileGrants (s : Store) (sessionId userIdToRevoke : String) (knowledgeIds : List String) : Store :=
  (s.existing .files knowledgeIds).foldl (fun s id => s.modifyUsers .files id fun rows =>
    rows.filter fun row => !(row.userId == userIdToRevoke && row.sessionId == some sessionId)) s

/-- `revoke` on a file or a session. -/
def revokeDocument (s : Store) (userId : String) (p : RevokeParameters) : Result Store := do
  let _ ← revocable s userId p
  if p.projectId.all (· = "") ∧ p.type = .sessions then
    let knowledgeIds := ((s.sessions p.id).map (·.knowledgeIds)).getD []
    return (revokeSessionKnowledgeFileGrants s p.id p.userId knowledgeIds).withdraw p
  return s.withdraw p

/-- A row the cascade cannot reach is a row with nothing to revoke. -/
def tolerated (s : Store) : Result Store → Result Store
  | .ok s' => .ok s'
  | .error (.notFound _) => .ok s
  | .error e => .error e

/-- Everyone else the project may have granted the document. -/
def Project.others (project : Project) (userIdToRevoke : String) : List String :=
  distinct ((project.userId :: project.users.map (·.userId)).filter (· ≠ userIdToRevoke))

def revokeFromOthers (projectId : String) (type : DocumentType) (id : String) (others : List String) (s : Store) : Result Store :=
  others.foldlM (fun s userId => tolerated s (revokeDocument s userId { id, type, userId, projectId := some projectId })) s

/-- One document of the cascade: the leaver's own leaves the project, of any other the leaver does. -/
def revokeOne (projectId userIdToRevoke : String) (others : List String) (type : DocumentType) (s : Store)
    (document : String × Shareable) : Result Store :=
  let (id, owner) := (document.1, document.2.userId)
  if owner = userIdToRevoke then tolerated s (revokeFromOthers projectId type id others s)
  else tolerated s (revokeDocument s owner { id, type, userId := userIdToRevoke, projectId := some projectId })

def Store.findAllByIds (s : Store) (type : DocumentType) (ids : List String) : List (String × Shareable) :=
  (s.existing type ids).filterMap fun id => (s.shareable type id).map fun doc => (id, doc)

structure Pruned where
  fileIds : List String
  sessionIds : List String

/-- The ids without those of the leaver's own documents. -/
def prunedIds (ids : List String) (documents : List (String × Shareable)) (userIdToRevoke : String) : List String :=
  ids.filter fun id => !documents.any fun document => document.1 == id && document.2.userId == userIdToRevoke

def revokeFromProject (s : Store) (projectId : String) (project : Project) (userIdToRevoke : String) : Result (Store × Pruned) := do
  let files := s.findAllByIds .files project.fileIds
  let sessions := s.findAllByIds .sessions project.sessionIds
  let others := project.others userIdToRevoke
  let s ← files.foldlM (revokeOne projectId userIdToRevoke others .files) s
  let s ← sessions.foldlM (revokeOne projectId userIdToRevoke others .sessions) s
  return (s, ⟨prunedIds project.fileIds files userIdToRevoke, prunedIds project.sessionIds sessions userIdToRevoke⟩)

def Store.putProject (s : Store) (id : String) (users : List UserShare) (pruned : Pruned) : Store :=
  { s with projects := fun i => if i = id then
      (s.projects i).map fun project => { project with users, fileIds := pruned.fileIds, sessionIds := pruned.sessionIds }
    else s.projects i }

def revoke (s : Store) (userId : String) (p : RevokeParameters) : Result Store := do
  if p.type ≠ .projects then revokeDocument s userId p
  else
    let document ← revocable s userId p
    let users := document.users.filter fun row => !p.isRevoked row
    let project ← (s.projects p.id).elim (throw (.notFound s!"projects not found for {p.id}")) pure
    let (s, pruned) ← revokeFromProject s p.id { project with users } p.userId
    return s.putProject p.id users pruned

end Bike4Mind.Sharing
