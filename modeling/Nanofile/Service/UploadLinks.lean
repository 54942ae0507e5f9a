import Nanofile.Base.Common
import Nanofile.Lib.IdTable
import Nanofile.Lib.Threads

/-!
# Upload links and the tokens made from them

A visitor exchanges a link for a token: the row is read, its conditions are checked, a token is
made and then marked with the link.  A deletion removes the row and then the tokens that bear its
mark, but the removal of invalid links leaves the tokens.  A token is safe while its row is there
or a call is still to mark or to remove it.
-/

set_option autoImplicit false

namespace Nanofile

open Nanofile.Lib

/-! ## Access tokens -/

structure AccessToken where
  token : String
  repoId : String
  userId : Int
  username : String
  op : String
  parentDir : String
  fileFsId : Option String
  fileName : Option String
  uploadLinkId : Option Int
  createdAt : Int
  expiresAt : Int

def tokenExpireSecs : Int := 3600

def cleanupThreshold : Nat := 10000

/-- The map of the manager: its entries, each under its own token. -/
abbrev AccessTokens := List AccessToken

variable {token : String}

namespace AccessTokens

def insert (tokens : AccessTokens) (entry : AccessToken) : AccessTokens :=
  entry :: tokens.filter fun other => other.token ≠ entry.token

def find (tokens : AccessTokens) (token : String) : Option AccessToken :=
  tokens.find? fun entry => entry.token = token

def generate (tokens : AccessTokens) (now : Int) (uuid repoId : String) (userId : Int)
    (username op parentDir : String) : AccessTokens :=
  tokens.insert ⟨uuid, repoId, userId, username, op, parentDir, none, none, none, now,
    now + tokenExpireSecs⟩

/-- `validate`; a token that is not valid makes a large map drop what has expired. -/
def validate (tokens : AccessTokens) (token : String) (now : Int) :
    Option AccessToken × AccessTokens :=
  match (find tokens token).filter fun entry => now < entry.expiresAt with
  | some entry => (some entry, tokens)
  | none =>
    let tokens :=
      if cleanupThreshold < tokens.length then tokens.filter fun entry => now < entry.expiresAt
      else tokens
    ((find tokens token).filter fun entry => now < entry.expiresAt, tokens)

def setUploadLinkId (tokens : AccessTokens) (token : String) (linkId : Int) : AccessTokens :=
  tokens.map fun entry =>
    if entry.token = token then { entry with uploadLinkId := some linkId } else entry

def revokeUploadLink (tokens : AccessTokens) (linkId : Int) : AccessTokens :=
  tokens.filter fun entry => entry.uploadLinkId ≠ some linkId

theorem validate_subset {tokens : AccessTokens} {now : Int} {entry : AccessToken}
    (listed : entry ∈ (tokens.validate token now).2) : entry ∈ tokens := by
  unfold validate at listed
  split at listed
  · exact listed
  · dsimp only at listed
    split at listed
    · exact (List.mem_filter.mp listed).1
    · exact listed

theorem validate_of_absent {tokens : AccessTokens} (absent : ∀ entry ∈ tokens, entry.token ≠ token)
    (now : Int) : (tokens.validate token now).1 = none := by
  have missing : ∀ kept : AccessTokens, (∀ entry ∈ kept, entry ∈ tokens) → find kept token = none :=
    fun kept within => List.find?_eq_none.mpr fun entry listed => by
      simpa using absent entry (within entry listed)
  unfold validate
  rw [missing tokens fun _ listed => listed]
  dsimp only [Option.filter_none]
  split
  · rw [missing _ fun _ listed => (List.mem_filter.mp listed).1]
    rfl
  · rw [missing tokens fun _ listed => listed]
    rfl

end AccessTokens

/-! ## The calls -/

structure UploadLink where
  id : Int
  token : String
  repoId : String
  creatorId : Int
  path : String
  password : Option String
  expiresAt : Option Int

structure LinkServer where
  links : List UploadLink
  tokens : AccessTokens
  /-- Which token was made from which link, beside the state of the server. -/
  minted : List (String × Int)

inductive LinkCall where
  /-- `get_upload_link_upload_url_v21`, with or without the cookie of the password form. -/
  | exchange (token : String) (cookie : Bool)
  | findingRepo (link : UploadLink)
  | checkingCreator (link : UploadLink)
  | findingCreator (link : UploadLink)
  | generating (link : UploadLink) (email : String)
  | tagging (link : UploadLink) (token : String)
  | deleteUploadLink (token : String) (userId : Int) (scope : String → Bool)
  | deletingByToken (token : String) (userId : Int) (link : Option UploadLink)
  | deleteUploadLinkV21 (id userId : Int)
  | deleteUploadLinkV21ByToken (token : String) (userId : Int) (scope : String → Bool)
  | revoking (id : Int)
  | cleanInvalid (userId : Int) (scope : String → Bool)
  | findingRepos (userId : Int) (scope : String → Bool) (links : List UploadLink)
  | cleaning (userId : Int) (scope : String → Bool) (existing : List String)
      (links : List UploadLink) (deleted : Nat)
  | failed (failure : AppError)
  | answered (url : String)
  | deleted (found : Bool)
  | cleaned (count : Nat)

/-- What a step reads beside links and tokens: the clock, the configuration, the rows of
libraries and users, and the UUID that is drawn. -/
structure LinkTick where
  now : Int
  shareUploadEnabled : Bool
  repoEncrypted : Option Int
  mayAccess : Bool
  creatorEmail : Option String
  existing : List String
  uuid : String

def LinkServer.findByToken (server : LinkServer) (token : String) : Option UploadLink :=
  server.links.find? fun link => link.token = token

def LinkServer.deleteWhere (server : LinkServer) (gone : UploadLink → Bool) : LinkServer :=
  { server with links := server.links.filter fun link => !gone link }

def hasExpired (link : UploadLink) (now : Int) : Bool := link.expiresAt.any fun exp => exp < now

/-- Whether `clean_invalid_upload_links_v21` deletes the link. -/
def isInvalid (tick : LinkTick) (existing : List String) (link : UploadLink) : Bool :=
  hasExpired link tick.now || !existing.contains link.repoId

/-- `delete_by_id_and_user`, and the revocation if a row was deleted. -/
def deleteOwn (server : LinkServer) (id userId : Int) : LinkServer × LinkCall :=
  let gone (link : UploadLink) : Bool := link.id = id ∧ link.creatorId = userId
  (server.deleteWhere gone, if server.links.any gone then .revoking id else .deleted false)

/-- One step of a call; a UUID is not drawn twice. -/
def linkStep (tick : LinkTick) (server : LinkServer) : LinkCall → Option (LinkServer × LinkCall)
  | .exchange token cookie =>
    if !tick.shareUploadEnabled then some (server, .failed .forbidden)
    else match server.findByToken token with
      | none => some (server, .failed (.notFound "Upload link not found"))
      | some link =>
        if hasExpired link tick.now then
          some (server, .failed (.notFound "Upload link has expired"))
        else if link.password.isSome && !cookie then some (server, .failed .forbidden)
        else some (server, .findingRepo link)
  | .findingRepo link =>
    match tick.repoEncrypted with
    | none => some (server, .failed (.notFound "Repository not found"))
    | some encrypted =>
      if encrypted ≠ 0 then some (server, .failed (.badRequest
        "upload links are not supported for encrypted libraries"))
      else some (server, .checkingCreator link)
  | .checkingCreator link =>
    if tick.mayAccess then some (server, .findingCreator link)
    else some (server, .failed .forbidden)
  | .findingCreator link =>
    match tick.creatorEmail with
    | none => some (server, .failed (.internal "Creator not found"))
    | some email => some (server, .generating link email)
  | .generating link email =>
    if (server.tokens.any fun entry => entry.token = tick.uuid) ||
        server.minted.any fun pair => pair.1 = tick.uuid then none
    else
      let tokens := server.tokens.generate tick.now tick.uuid link.repoId link.creatorId email
        "upload" link.path
      some (⟨server.links, tokens, (tick.uuid, link.id) :: server.minted⟩, .tagging link tick.uuid)
  | .tagging link token =>
    some ({ server with tokens := server.tokens.setUploadLinkId token link.id },
      .answered ("/upload-aj/" ++ token))
  | .deleteUploadLink token userId scope =>
    match server.findByToken token with
    | none => some (server, .deletingByToken token userId none)
    | some link =>
      if link.creatorId ≠ userId || !scope link.repoId then
        some (server, .failed (.notFound "Upload link not found"))
      else some (server, .deletingByToken token userId (some link))
  | .deletingByToken token userId link =>
    let server := server.deleteWhere fun other => other.token = token ∧ other.creatorId = userId
    match link with
    | none => some (server, .deleted true)
    | some link => some (server, .revoking link.id)
  | .deleteUploadLinkV21 id userId => some (deleteOwn server id userId)
  | .deleteUploadLinkV21ByToken token userId scope =>
    match server.findByToken token with
    | none => some (server, .failed (.notFound "Upload link not found"))
    | some link =>
      if link.creatorId ≠ userId then some (server, .failed .forbidden)
      else if !scope link.repoId then some (server, .failed (.notFound "Upload link not found"))
      else some (server, .deleteUploadLinkV21 link.id userId)
  | .revoking id =>
    some ({ server with tokens := server.tokens.revokeUploadLink id }, .deleted true)
  | .cleanInvalid userId scope => some (server, .findingRepos userId scope
      (server.links.filter fun link => link.creatorId = userId))
  | .findingRepos userId scope links => some (server, .cleaning userId scope
      (tick.existing.filter fun id => links.any fun link => link.repoId = id) links 0)
  | .cleaning _ _ _ [] count => some (server, .cleaned count)
  | .cleaning userId scope existing (link :: links) count =>
    if scope link.repoId && isInvalid tick existing link then
      some ((deleteOwn server link.id userId).1, .cleaning userId scope existing links (count + 1))
    else some (server, .cleaning userId scope existing links count)
  | .failed _ | .answered _ | .deleted _ | .cleaned _ => none

inductive LinkJob where
  | exchange (token : String) (cookie : Bool)
  | deleteUploadLink (token : String) (userId : Int) (scope : String → Bool)
  | deleteUploadLinkV21 (id userId : Int)
  | deleteUploadLinkV21ByToken (token : String) (userId : Int) (scope : String → Bool)
  | cleanInvalid (userId : Int) (scope : String → Bool)

def linkProgram : Program LinkServer LinkCall (String × Int) LinkJob LinkTick where
  serve request server :=
    { server with tokens := (server.tokens.validate request.1 request.2).2 }
  begin
    | .exchange token cookie => .exchange token cookie
    | .deleteUploadLink token userId scope => .deleteUploadLink token userId scope
    | .deleteUploadLinkV21 id userId => .deleteUploadLinkV21 id userId
    | .deleteUploadLinkV21ByToken token userId scope =>
      .deleteUploadLinkV21ByToken token userId scope
    | .cleanInvalid userId scope => .cleanInvalid userId scope
  advance := linkStep

/-- A started server: the table keeps ids and tokens unique. -/
def linkSystem := linkProgram.system fun server =>
  (server.links.map UploadLink.id).Nodup ∧ (server.links.map UploadLink.token).Nodup ∧
    server.tokens = [] ∧ server.minted = []

abbrev LinkState := Threads LinkServer LinkCall

/-! ## What is promised -/

/-- The call is an exchange of the link, or is to remove its tokens. -/
def LinkCall.Concerns (id : Int) : LinkCall → Prop
  | .findingRepo link | .checkingCreator link | .findingCreator link | .generating link _
  | .tagging link _ => link.id = id
  | .revoking other => other = id
  | _ => False

/-- No token of a deleted link is accepted when its deletion and its exchanges have ended. -/
def StopsUploaders (state : LinkState) : Prop :=
  ∀ pair ∈ state.shared.minted, (∀ link ∈ state.shared.links, link.id ≠ pair.2) →
    (∀ call ∈ state.running, ¬ call.Concerns pair.2) →
    ∀ now, (state.shared.tokens.validate pair.1 now).1 = none

/-- A token is marked while its link is there, and an invalid link is deleted when no token made
from it is left. -/
def LinkCall.Careful (server : LinkServer) (call : LinkCall) (tick : LinkTick) : Prop :=
  match call with
  | .tagging link _ => ∃ row ∈ server.links, row.id = link.id
  | .cleaning _ scope existing (link :: _) _ =>
    scope link.repoId = true → isInvalid tick existing link = true →
      ∀ pair ∈ server.minted, pair.2 = link.id → ∀ entry ∈ server.tokens, entry.token ≠ pair.1
  | _ => True

def carefulLinks : LinkState → ThreadAction (String × Int) LinkJob LinkTick → Prop :=
  Program.guarded (fun _ _ => True) LinkCall.Careful

/-! ## What a step can do -/

/-- What a call knows: the link it found is the only row with that token, and the token it is to
mark was made from its link only. -/
def LinkCall.Knows (server : LinkServer) : LinkCall → Prop
  | .deletingByToken token _ link =>
    ∀ row ∈ server.links, row.token = token → ∃ found, link = some found ∧ row.id = found.id
  | .tagging link token => (token, link.id) ∈ server.minted ∧
      ∀ pair ∈ server.minted, pair.1 = token → pair.2 = link.id
  | _ => True

/-- The tokens of the link are still to be removed by the call. -/
def LinkCall.Revokes (id : Int) : LinkCall → Prop
  | .revoking other => other = id
  | _ => False

def LinkCall.Tags (pair : String × Int) : LinkCall → Prop
  | .tagging link token => (token, link.id) = pair
  | _ => False

/-- The token is not held, or is still to be marked, or is marked and its link is there or is still
to be revoked. -/
def TokenCovered (server : LinkServer) (running : List LinkCall) (pair : String × Int) : Prop :=
  (∀ entry ∈ server.tokens, entry.token ≠ pair.1) ∨ (∃ call ∈ running, call.Tags pair) ∨
    (∀ entry ∈ server.tokens, entry.token = pair.1 → entry.uploadLinkId = some pair.2) ∧
      ((∃ link ∈ server.links, link.id = pair.2) ∨ ∃ call ∈ running, call.Revokes pair.2)

inductive LinkMove (server : LinkServer) (call : LinkCall) : LinkServer → LinkCall → Prop
  | quiet (next : LinkCall) (notTags : ∀ pair, ¬ call.Tags pair)
      (notRevokes : ∀ id, ¬ call.Revokes id) (knows : next.Knows server) :
      LinkMove server call server next
  | minted (link : UploadLink) (entry : AccessToken)
      (fresh : ∀ pair ∈ server.minted, pair.1 ≠ entry.token)
      (notTags : ∀ pair, ¬ call.Tags pair) (notRevokes : ∀ id, ¬ call.Revokes id) :
      LinkMove server call
        ⟨server.links, server.tokens.insert entry, (entry.token, link.id) :: server.minted⟩
        (.tagging link entry.token)
  | tagged (link : UploadLink) (token url : String) (isCall : call = .tagging link token)
      (present : ∃ row ∈ server.links, row.id = link.id) :
      LinkMove server call
        { server with tokens := server.tokens.setUploadLinkId token link.id } (.answered url)
  | deleted (gone : UploadLink → Bool) (next : LinkCall) (notTags : ∀ pair, ¬ call.Tags pair)
      (notRevokes : ∀ id, ¬ call.Revokes id) (knows : ∀ server, next.Knows server)
      (revoked : ∀ link ∈ server.links, gone link = true → next.Revokes link.id ∨
        ∀ pair ∈ server.minted, pair.2 = link.id → ∀ entry ∈ server.tokens, entry.token ≠ pair.1) :
      LinkMove server call (server.deleteWhere gone) next
  | revoked (id : Int) (isCall : call = .revoking id) :
      LinkMove server call { server with tokens := server.tokens.revokeUploadLink id }
        (.deleted true)

variable {server : LinkServer}

theorem findByToken_unique (unique : (server.links.map UploadLink.token).Nodup)
    {link row : UploadLink} (found : server.findByToken token = some link)
    (listed : row ∈ server.links) (same : row.token = token) : row.id = link.id := by
  have isToken : link.token = token := by simpa using List.find?_some found
  have same := List.inj_on_of_nodup_map unique listed (List.mem_of_find?_eq_some found)
    (same.trans isToken.symm)
  rw [same]

variable {after : LinkServer} {call : LinkCall}

theorem linkStep_moves {tick : LinkTick} {next : LinkCall}
    (unique : (server.links.map UploadLink.token).Nodup) (knows : call.Knows server)
    (careful : call.Careful server tick) (taken : linkStep tick server call = some (after, next)) :
    LinkMove server call after next := by
  cases call with
  | exchange | findingRepo | checkingCreator | findingCreator | deleteUploadLinkV21ByToken
  | cleanInvalid | findingRepos =>
    simp only [linkStep] at taken
    repeat' split at taken
    all_goals
      cases taken
      exact .quiet _ (fun _ => id) (fun _ => id) trivial
  | generating link email =>
    simp only [linkStep] at taken
    split at taken
    · cases taken
    · rename_i fresh
      cases taken
      simp only [Bool.or_eq_true, not_or, List.any_eq_true, decide_eq_true_eq, not_exists,
        not_and] at fresh
      exact .minted link ⟨tick.uuid, _, _, _, _, _, _, _, _, _, _⟩ fresh.2 (fun _ => id)
        (fun _ => id)
  | tagging link token =>
    cases taken
    exact .tagged link token _ rfl careful
  | deleteUploadLink token userId scope =>
    simp only [linkStep] at taken
    split at taken
    · rename_i missing
      cases taken
      refine .quiet _ (fun _ => id) (fun _ => id) fun row listed same => ?_
      have absent := List.find?_eq_none.mp missing row listed
      simp [same] at absent
    · rename_i link found
      split at taken
      · cases taken
        exact .quiet _ (fun _ => id) (fun _ => id) trivial
      · cases taken
        refine .quiet _ (fun _ => id) (fun _ => id) fun row listed same => ⟨link, rfl, ?_⟩
        exact findByToken_unique unique found listed same
  | deletingByToken token userId link =>
    simp only [linkStep] at taken
    cases link with
    | none =>
      cases taken
      refine .deleted _ _ (fun _ => id) (fun _ => id) (fun _ => trivial) fun row listed gone => ?_
      obtain ⟨found, isFound, -⟩ := knows row listed (of_decide_eq_true gone).1
      cases isFound
    | some link =>
      cases taken
      refine .deleted _ _ (fun _ => id) (fun _ => id) (fun _ => trivial) fun row listed gone =>
        Or.inl ?_
      obtain ⟨found, isFound, same⟩ := knows row listed (of_decide_eq_true gone).1
      cases isFound
      exact same.symm
  | deleteUploadLinkV21 id userId =>
    simp only [linkStep, deleteOwn, Option.some.injEq, Prod.mk.injEq] at taken
    obtain ⟨rfl, rfl⟩ := taken
    refine .deleted _ _ (fun _ tags => tags) (fun _ revokes => revokes)
      (fun _ => by split <;> trivial) fun row listed gone => Or.inl ?_
    rw [if_pos (List.any_eq_true.mpr ⟨row, listed, gone⟩)]
    exact (of_decide_eq_true gone).1.symm
  | revoking id =>
    cases taken
    exact .revoked id rfl
  | cleaning userId scope existing links count =>
    cases links with
    | nil =>
      cases taken
      exact .quiet _ (fun _ => id) (fun _ => id) trivial
    | cons link links =>
      simp only [linkStep] at taken
      split at taken
      · rename_i cleaned
        cases taken
        rw [Bool.and_eq_true] at cleaned
        refine .deleted _ _ (fun _ => id) (fun _ => id) (fun _ => trivial) fun row listed gone =>
          Or.inr ?_
        rw [(of_decide_eq_true gone).1]
        exact careful cleaned.1 cleaned.2
      · cases taken
        exact .quiet _ (fun _ => id) (fun _ => id) trivial
  | failed _ | answered _ | deleted _ | cleaned _ => cases taken

/-! ## What every run keeps -/

structure LinksKept (state : LinkState) : Prop where
  unique : (state.shared.links.map UploadLink.token).Nodup
  knows : ∀ call ∈ state.running, call.Knows state.shared
  covered : ∀ pair ∈ state.shared.minted, TokenCovered state.shared state.running pair

theorem LinkCall.Knows.fewer (knows : call.Knows server) {links : List UploadLink}
    (fewer : ∀ link ∈ links, link ∈ server.links) (tokens : AccessTokens) :
    call.Knows ⟨links, tokens, server.minted⟩ := by
  cases call with
  | deletingByToken => exact fun row listed => knows row (fewer row listed)
  | tagging => exact knows
  | _ => trivial

theorem LinkCall.Knows.minted (knows : call.Knows server) {id : Int}
    (fresh : ∀ pair ∈ server.minted, pair.1 ≠ token) (tokens : AccessTokens) :
    call.Knows ⟨server.links, tokens, (token, id) :: server.minted⟩ := by
  cases call with
  | deletingByToken => exact knows
  | tagging link own =>
    refine ⟨List.mem_cons_of_mem _ knows.1, fun pair listed same => ?_⟩
    rcases List.mem_cons.mp listed with rfl | old
    · exact absurd same.symm (fresh _ knows.1)
    · exact knows.2 pair old same
  | _ => trivial

theorem TokenCovered.fewer {running left : List LinkCall} {pair : String × Int}
    (covered : TokenCovered server running pair)
    (tokens : ∀ entry ∈ after.tokens, entry.token = pair.1 → entry ∈ server.tokens)
    (tags : (∃ call ∈ running, call.Tags pair) → ∃ call ∈ left, call.Tags pair)
    (guards : ((∃ link ∈ server.links, link.id = pair.2) ∨ ∃ call ∈ running, call.Revokes pair.2) →
      (∀ entry ∈ server.tokens, entry.token = pair.1 → entry.uploadLinkId = some pair.2) →
      (∀ entry ∈ after.tokens, entry.token ≠ pair.1) ∨
        (∃ link ∈ after.links, link.id = pair.2) ∨ ∃ call ∈ left, call.Revokes pair.2) :
    TokenCovered after left pair := by
  rcases covered with absent | tagging | ⟨marked, guarded⟩
  · exact Or.inl fun entry listed same => absent entry (tokens entry listed same) same
  · exact Or.inr (Or.inl (tags tagging))
  · rcases guards guarded marked with absent | stands
    · exact Or.inl absent
    · exact Or.inr (Or.inr ⟨fun entry listed same => marked entry (tokens entry listed same) same,
        stands⟩)

theorem LinkMove.kept {state : LinkState} {index : Nat} {next : LinkCall} (kept : LinksKept state)
    (found : state.running[index]? = some call) (move : LinkMove state.shared call after next) :
    LinksKept ⟨after, state.running.set index next⟩ := by
  have here : next ∈ state.running.set index next :=
    List.mem_set (List.getElem?_eq_some_iff.mp found).1 next
  have others : ∀ {P : LinkCall → Prop}, ¬ P call → (∃ other ∈ state.running, P other) →
      ∃ other ∈ state.running.set index next, P other := by
    rintro P isNot ⟨other, listed, has⟩
    exact ⟨other, Program.mem_set_of_ne found listed (fun same => isNot (same ▸ has)) next, has⟩
  have knowsAll : ∀ {after : LinkServer},
      (∀ other : LinkCall, other.Knows state.shared → other.Knows after) →
      next.Knows after → ∀ other ∈ state.running.set index next, other.Knows after := by
    intro after keeps knows other listed
    rcases List.mem_or_eq_of_mem_set listed with old | rfl
    · exact keeps other (kept.knows other old)
    · exact knows
  cases move with
  | quiet _ notTags notRevokes knows =>
    refine ⟨kept.unique, knowsAll (fun _ => id) knows, fun pair listed => ?_⟩
    exact (kept.covered pair listed).fewer (fun _ listed _ => listed) (others (notTags pair))
      fun guarded _ => Or.inr (guarded.imp_right (others (notRevokes pair.2)))
  | minted link entry fresh notTags notRevokes =>
    refine ⟨kept.unique, knowsAll (fun other knows => knows.minted fresh _)
      ⟨List.mem_cons_self, fun pair listed same => ?_⟩, fun pair listed => ?_⟩
    · rcases List.mem_cons.mp listed with rfl | old
      · rfl
      · exact absurd same (fresh pair old)
    · rcases List.mem_cons.mp listed with rfl | old
      · exact Or.inr (Or.inl ⟨_, here, rfl⟩)
      · refine (kept.covered pair old).fewer (fun other held same => ?_) (others (notTags pair))
          fun guarded _ => Or.inr (guarded.imp_right (others (notRevokes pair.2)))
        rcases List.mem_cons.mp held with rfl | before
        · exact absurd same.symm (fresh pair old)
        · exact (List.mem_filter.mp before).1
  | tagged link token url isCall present =>
    subst isCall
    obtain ⟨made, only⟩ : LinkCall.Knows state.shared (.tagging link token) :=
      kept.knows _ (List.mem_of_getElem? found)
    refine ⟨kept.unique, knowsAll (fun other knows => knows.fewer (fun _ => id) _) trivial,
      fun pair listed => ?_⟩
    have entries : ∀ entry ∈ state.shared.tokens.setUploadLinkId token link.id,
        entry.token = pair.1 → (pair.1 = token ∧ entry.uploadLinkId = some pair.2) ∨
          pair.1 ≠ token ∧ entry ∈ state.shared.tokens := by
      intro entry held same
      obtain ⟨old, isOld, rfl⟩ := List.mem_map.mp held
      split at same
      · rename_i isToken
        have own : pair.1 = token := same.symm.trans isToken
        rw [if_pos isToken]
        exact Or.inl ⟨own, congrArg some (only pair listed own).symm⟩
      · rename_i notToken
        rw [if_neg notToken]
        exact Or.inr ⟨fun own => notToken (same.trans own), isOld⟩
    by_cases own : pair.1 = token
    · refine Or.inr (Or.inr ⟨fun entry held same => ?_, Or.inl (only pair listed own ▸ present)⟩)
      rcases entries entry held same with ⟨-, marked⟩ | ⟨other, -⟩
      · exact marked
      · exact absurd own other
    · refine (kept.covered pair listed).fewer (fun entry held same => ?_) (others fun tags => ?_)
        fun guarded _ => Or.inr (guarded.imp_right (others id))
      · rcases entries entry held same with ⟨isOwn, -⟩ | ⟨-, before⟩
        · exact absurd isOwn own
        · exact before
      · exact own (congrArg Prod.fst tags).symm
  | deleted gone _ notTags notRevokes knows revoked =>
    refine ⟨kept.unique.sublist (List.filter_sublist.map _), knowsAll (fun other knows =>
      knows.fewer (fun _ listed => (List.mem_filter.mp listed).1) _) (knows _),
      fun pair listed => ?_⟩
    refine (kept.covered pair listed).fewer (fun _ held _ => held) (others (notTags pair)) ?_
    rintro (⟨link, isLink, same⟩ | revoking) -
    · cases isGone : gone link with
      | false =>
        exact Or.inr (Or.inl ⟨link, List.mem_filter.mpr ⟨isLink, by simp [isGone]⟩, same⟩)
      | true =>
        rcases revoked link isLink isGone with revokes | none
        · exact Or.inr (Or.inr ⟨next, here, same ▸ revokes⟩)
        · exact Or.inl (none pair listed same.symm)
    · exact Or.inr (Or.inr (others (notRevokes pair.2) revoking))
  | revoked id isCall =>
    subst isCall
    refine ⟨kept.unique,
      knowsAll (fun other knows => knows.fewer (fun _ listed => listed) _) trivial,
      fun pair listed => ?_⟩
    refine (kept.covered pair listed).fewer (fun _ held _ => (List.mem_filter.mp held).1)
      (others fun tags => tags) fun guarded marked => ?_
    by_cases own : id = pair.2
    · refine Or.inl fun entry held same => ?_
      obtain ⟨before, unmarked⟩ := List.mem_filter.mp held
      exact of_decide_eq_true unmarked (own ▸ marked entry before same)
    · exact Or.inr (guarded.imp_right (others own))

theorem linksKept {state : LinkState} (reached : linkSystem.Reachable carefulLinks state) :
    LinksKept state := by
  refine System.reachable_invariant (I := LinksKept) ?_ ?_ reached
  · rintro initial ⟨⟨-, unique, -, noneMinted⟩, idle⟩
    exact ⟨unique, by simp [idle], by simp [noneMinted]⟩
  · intro before next action kept met taken
    cases action with
    | serve request =>
      cases taken
      refine ⟨kept.unique, fun call listed => (kept.knows call listed).fewer (fun _ => id) _,
        fun pair listed => ?_⟩
      exact (kept.covered pair listed).fewer (fun _ held _ => AccessTokens.validate_subset held) id
        fun guarded _ => Or.inr guarded
    | begin job =>
      cases taken
      refine ⟨kept.unique, fun call listed => ?_, fun pair listed => ?_⟩
      · rcases List.mem_append.mp listed with old | new
        · exact kept.knows call old
        · rw [List.mem_singleton.mp new]
          cases job <;> trivial
      · have more : ∀ {P : LinkCall → Prop}, (∃ call ∈ before.running, P call) →
            ∃ call ∈ before.running ++ [linkProgram.begin job], P call := by
          rintro P ⟨call, old, has⟩
          exact ⟨call, List.mem_append_left _ old, has⟩
        exact (kept.covered pair listed).fewer (fun _ held _ => held) more
          fun guarded _ => Or.inr (guarded.imp_right more)
    | advance index tick =>
      obtain ⟨call, after, found, moved, rfl⟩ := Program.step_advance_iff.mp taken
      exact (linkStep_moves kept.unique (kept.knows call (List.mem_of_getElem? found))
        (met call found) moved).kept kept found

/-- When tokens are marked while their link is there and invalid links have no tokens left, a
deleted link stops its uploaders. -/
theorem deleted_links_stop_uploaders {state : LinkState}
    (reached : linkSystem.Reachable carefulLinks state) : StopsUploaders state := by
  intro pair listed gone ended now
  refine AccessTokens.validate_of_absent ?_ now
  rcases (linksKept reached).covered pair listed with absent | ⟨call, running, tags⟩ |
    ⟨-, ⟨link, isLink, same⟩ | ⟨call, running, revokes⟩⟩
  · exact absent
  · cases call with
    | tagging => exact absurd (congrArg Prod.snd tags) (ended _ running)
    | _ => cases tags
  · exact absurd same (gone link isLink)
  · cases call with
    | revoking => exact absurd revokes (ended _ running)
    | _ => cases revokes

/-! ## An invalid link and a late mark -/

def daylongLink : UploadLink := ⟨1, "link", "repo", 2, "/", none, some 100⟩

def openServer : LinkServer := ⟨[daylongLink], [], []⟩

def linkTick (now : Int) : LinkTick := ⟨now, true, some 0, true, some "a@b", ["repo"], "uuid"⟩

def exchangeSteps : List (ThreadAction (String × Int) LinkJob LinkTick) :=
  .begin (.exchange "link" false) :: List.replicate 5 (.advance 0 (linkTick 90))

/-- The link expires after the exchange and is cleaned away, and the token stays valid. -/
def cleanedRun : Option LinkState :=
  linkSystem.runChecked (fun _ _ => true) (exchangeSteps ++ [.advance 0 (linkTick 90),
    .begin (.cleanInvalid 2 fun _ => true)] ++ List.replicate 4 (.advance 1 (linkTick 101)))
    ⟨openServer, []⟩

theorem openServer_starts : linkSystem.init ⟨openServer, []⟩ :=
  ⟨⟨by decide, by decide, rfl, rfl⟩, rfl⟩

theorem cleaned_link_keeps_uploader : ∃ state, cleanedRun = some state ∧
    linkSystem.Reachable (fun _ _ => True) state ∧ ¬ StopsUploaders state := by
  have ran : cleanedRun = some ⟨⟨[], [⟨"uuid", "repo", 2, "a@b", "upload", "/", none, none, some 1,
      90, 3690⟩], [("uuid", 1)]⟩, [.answered "/upload-aj/uuid", .cleaned 1]⟩ := rfl
  refine ⟨_, ran, System.reachable_of_runChecked (fun _ _ _ => trivial) _ _ _
    (.init openServer_starts) ran, fun stops => ?_⟩
  have none := stops ("uuid", 1) List.mem_cons_self (by simp) (by simp [LinkCall.Concerns]) 101
  exact absurd (congrArg Option.isSome none) (by decide)

def carefulCheck (state : LinkState) : ThreadAction (String × Int) LinkJob LinkTick → Bool
  | .advance index _ =>
    match state.running[index]? with
    | some (.tagging link _) => state.shared.links.any fun row => row.id = link.id
    | some (.cleaning ..) => false
    | _ => true
  | _ => true

theorem carefulCheck_sound (state : LinkState)
    (action : ThreadAction (String × Int) LinkJob LinkTick)
    (checked : carefulCheck state action = true) : carefulLinks state action := by
  cases action with
  | serve | begin => trivial
  | advance index tick =>
    intro call found
    simp only [carefulCheck, found] at checked
    cases call with
    | tagging link token =>
      obtain ⟨row, listed, same⟩ := List.any_eq_true.mp checked
      exact ⟨row, listed, of_decide_eq_true same⟩
    | cleaning => cases checked
    | _ => trivial

/-- The creator deletes the link after the exchange. -/
theorem deleted_links_stop_uploaders_exchange : ∃ state,
    state.shared.links = [] ∧ state.shared.minted = [("uuid", 1)] ∧ StopsUploaders state := by
  have ran : linkSystem.runChecked carefulCheck (exchangeSteps ++ [.advance 0 (linkTick 90),
      .begin (.deleteUploadLinkV21 1 2), .advance 1 (linkTick 90), .advance 1 (linkTick 90)])
      ⟨openServer, []⟩ = some ⟨⟨[], [], [("uuid", 1)]⟩, [.answered "/upload-aj/uuid",
        .deleted true]⟩ := rfl
  exact ⟨_, rfl, rfl, deleted_links_stop_uploaders (System.reachable_of_runChecked
    carefulCheck_sound _ _ _ (.init openServer_starts) ran)⟩

end Nanofile
