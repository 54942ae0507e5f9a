import Mathlib.Data.List.Sort
import Mathlib.Data.String.Basic
import Nanofile.Lib.IdTable

/-!
# The stored credentials

Sync tokens, account tokens and API keys with their library bindings, and the statements that
change them.  A raw secret is looked up by what is stored of it.
-/

set_option autoImplicit false

namespace Nanofile

open Nanofile.Lib

structure SyncToken where
  id : Int
  token : String
  repoId : String
  userId : Int
  createdAt : Int
  expiresAt : Option Int
  peerId : Option String
  peerName : Option String
  peerIp : Option String
  clientVersion : Option String
  lastSyncTime : Option Int
deriving DecidableEq, Repr

structure PeerStamp where
  id : String
  name : Option String
  clientVersion : Option String

inductive SyncTokenWrite where
  | create (repoId : String) (userId : Int) (token : String) (peer : Option PeerStamp) (now : Int)
      (expiresAt : Option Int)
  | deleteByRepo (repoId : String)
  | deleteByToken (token : String)
  | deleteById (id : Int)
  | deleteByIdAndUser (id userId : Int)
  | deleteByUser (userId : Int)
  | deleteByRepoAndUser (repoId : String) (userId : Int)
  | deleteByUserAndPeer (userId : Int) (peerId : String)

inductive SyncTokenTouch where
  | attachPeerIfUnset (id : Int) (peer : PeerStamp)
  | touchPeer (id : Int) (peerIp clientVersion : Option String) (lastSyncTime : Int)

/-- `find_by_token`; `encrypt` is deterministic, so the stored value is the key. -/
def findSyncToken (encrypt : String → String) (db : IdTable SyncToken) (token : String) :
    Option SyncToken :=
  db.rows.find? fun row => row.token = encrypt token

def writeSyncToken (encrypt : String → String) (db : IdTable SyncToken) :
    SyncTokenWrite → IdTable SyncToken
  | .create repoId userId token peer now expiresAt =>
    if db.rows.any fun row => row.token = encrypt token then db
    else db.append fun id => {
      id := id
      token := encrypt token
      repoId := repoId
      userId := userId
      createdAt := now
      expiresAt := expiresAt
      peerId := peer.map PeerStamp.id
      peerName := peer.bind PeerStamp.name
      peerIp := none
      clientVersion := peer.bind PeerStamp.clientVersion
      lastSyncTime := none }
  | .deleteByRepo repoId => db.deleteWhere fun row => row.repoId = repoId
  | .deleteByToken token => db.deleteWhere fun row => row.token = encrypt token
  | .deleteById id => db.deleteWhere fun row => row.id = id
  | .deleteByIdAndUser id userId => db.deleteWhere fun row => row.id = id ∧ row.userId = userId
  | .deleteByUser userId => db.deleteWhere fun row => row.userId = userId
  | .deleteByRepoAndUser repoId userId =>
    db.deleteWhere fun row => row.repoId = repoId ∧ row.userId = userId
  | .deleteByUserAndPeer userId peerId =>
    db.deleteWhere fun row => row.userId = userId ∧ row.peerId = some peerId

def touchSyncToken (db : IdTable SyncToken) : SyncTokenTouch → IdTable SyncToken
  | .attachPeerIfUnset id peer =>
    db.updateWhere (fun row => row.id = id ∧ row.peerId = none) fun row =>
      { row with peerId := some peer.id, peerName := peer.name, clientVersion := peer.clientVersion }
  | .touchPeer id peerIp clientVersion lastSyncTime =>
    db.updateWhere (fun row => row.id = id) fun row =>
      { row with
        peerIp := peerIp
        lastSyncTime := some lastSyncTime
        clientVersion := clientVersion <|> row.clientVersion }

structure ApiToken where
  id : Int
  userId : Int
  token : String
  createdAt : Int
  expiresAt : Option Int
  deviceId : Option String
  platform : Option String
  deviceName : Option String
  clientVersion : Option String
  isPending : Bool
  source : String
  userAgent : Option String
deriving DecidableEq, Repr

/-- `SessionSource::Client` and `SessionSource::ClientSso`. -/
def clientSources : List String := ["client", "client_sso"]

inductive ApiTokenWrite where
  /-- `insert` of a row as it is to be stored. -/
  | insert (row : ApiToken)
  /-- `create_session_token` of a row with the raw token. -/
  | createSessionToken (params : ApiToken)
  | deleteByIdAndUser (tokenId userId : Int)
  | deleteManyByDevice (deviceId : String)
  | deleteManyByUserPlatformDevice (userId : Int) (platform deviceId : String)
  | deleteManyByUserAndDevice (userId : Int) (deviceId : String)
  | deleteByToken (token : String)
  | deleteManyByUserId (userId : Int)
  | deleteManyByUserIdExcept (userId : Int) (keepRawToken : String)
  | deleteBrowserSessionsExcept (userId : Int) (keepId : Option Int)

def findApiToken (hashToken : String → String) (db : IdTable ApiToken) (token : String) :
    Option ApiToken :=
  db.rows.find? fun row => row.token = hashToken token

def insertApiToken (db : IdTable ApiToken) (row : ApiToken) : IdTable ApiToken :=
  if db.rows.any fun other => other.token = row.token then db
  else db.append fun id => { row with id }

def writeApiToken (hashToken : String → String) (db : IdTable ApiToken) :
    ApiTokenWrite → IdTable ApiToken
  | .insert row => insertApiToken db row
  | .createSessionToken params =>
    insertApiToken db { params with token := hashToken params.token }
  | .deleteByIdAndUser tokenId userId =>
    db.deleteWhere fun row => row.id = tokenId ∧ row.userId = userId
  | .deleteManyByDevice deviceId => db.deleteWhere fun row => row.deviceId = some deviceId
  | .deleteManyByUserPlatformDevice userId platform deviceId =>
    db.deleteWhere fun row =>
      row.userId = userId ∧ row.platform = some platform ∧ row.deviceId = some deviceId
  | .deleteManyByUserAndDevice userId deviceId =>
    db.deleteWhere fun row => row.userId = userId ∧ row.deviceId = some deviceId
  | .deleteByToken token => db.deleteWhere fun row => row.token = hashToken token
  | .deleteManyByUserId userId => db.deleteWhere fun row => row.userId = userId
  | .deleteManyByUserIdExcept userId keepRawToken =>
    db.deleteWhere fun row => row.userId = userId ∧ row.token ≠ hashToken keepRawToken
  | .deleteBrowserSessionsExcept userId keepId =>
    db.deleteWhere fun row => row.userId = userId ∧ row.isPending = false ∧
      row.source ∉ clientSources ∧ keepId ≠ some row.id

structure ApiKey where
  id : Int
  userId : Int
  name : String
  keyHash : String
  keyPrefix : Option String
  capabilities : String
  allRepos : Bool
  createdAt : Int
  expiresAt : Option Int
  lastUsedAt : Option Int
deriving DecidableEq, Repr

structure ApiKeyRepo where
  id : Int
  keyId : Int
  repoId : String
  permission : String
deriving DecidableEq, Repr

structure ApiKeyBinding where
  repoId : String
  permission : String

structure ApiKeyLookup where
  key : ApiKey
  bindings : List ApiKeyRepo
deriving DecidableEq, Repr

structure ApiKeyDb where
  keys : IdTable ApiKey
  bindings : IdTable ApiKeyRepo

structure UpdateApiKeyParams where
  name : Option String
  capabilities : Option String
  allRepos : Option Bool
  expiresAt : Option (Option Int)

def UpdateApiKeyParams.set (params : UpdateApiKeyParams) (row : ApiKey) : ApiKey :=
  { row with
    name := params.name.getD row.name
    capabilities := params.capabilities.getD row.capabilities
    allRepos := params.allRepos.getD row.allRepos
    expiresAt := params.expiresAt.getD row.expiresAt }

inductive ApiKeyWrite where
  /-- `create` of a row with its bindings; its id is given by the table. -/
  | create (key : ApiKey) (bindings : List ApiKeyBinding)
  | updateMetadata (keyId userId : Int) (params : UpdateApiKeyParams)
  | deleteByIdAndUser (keyId userId : Int)
  | deleteById (keyId : Int)
  | deleteByUser (userId : Int)
  | replaceBindings (keyId : Int) (bindings : List ApiKeyBinding)
  /-- `completed` says whether the keys left without bindings could be deleted too. -/
  | deleteBindingsByRepo (repoId : String) (completed : Bool)
  | deleteBindingsForRepoUser (repoId : String) (userId : Int) (completed : Bool)
  | deleteOrphanBoundKeys

inductive ApiKeyTouch where
  | touchLastUsed (keyId ts : Int)

namespace ApiKeyDb

def listBindings (db : ApiKeyDb) (keyId : Int) : List ApiKeyRepo :=
  (db.bindings.rows.filter fun row => row.keyId = keyId).insertionSort fun first second =>
    first.repoId ≤ second.repoId

def findByPresented (hashToken : String → String) (db : ApiKeyDb) (raw : String) :
    Option ApiKeyLookup :=
  (db.keys.rows.find? fun row => row.keyHash = hashToken raw).map fun key =>
    ⟨key, db.listBindings key.id⟩

/-- A deleted key takes its bindings along. -/
def deleteKeys (db : ApiKeyDb) (gone : ApiKey → Bool) : ApiKeyDb where
  keys := db.keys.deleteWhere gone
  bindings := db.bindings.deleteWhere fun row =>
    db.keys.rows.any fun key => gone key && key.id = row.keyId

def insertBindings (table : IdTable ApiKeyRepo) (keyId : Int) :
    List ApiKeyBinding → Option (IdTable ApiKeyRepo)
  | [] => some table
  | binding :: rest =>
    if table.rows.any fun row => row.keyId = keyId ∧ row.repoId = binding.repoId then none
    else insertBindings
      (table.append fun id => ⟨id, keyId, binding.repoId, binding.permission⟩) keyId rest

def deleteOrphanBoundKeys (db : ApiKeyDb) : ApiKeyDb :=
  db.deleteKeys fun key =>
    !key.allRepos && !db.bindings.rows.any fun row => row.keyId = key.id

/-- The bindings are deleted first, then the keys that have none left. -/
def deleteBindings (db : ApiKeyDb) (gone : ApiKeyRepo → Bool) (completed : Bool) : ApiKeyDb :=
  let left := { db with bindings := db.bindings.deleteWhere gone }
  if completed then left.deleteOrphanBoundKeys else left

def write (db : ApiKeyDb) : ApiKeyWrite → ApiKeyDb
  | .create key bindings =>
    if db.keys.rows.any fun other => other.keyHash = key.keyHash then db
    else
      match insertBindings db.bindings db.keys.nextId bindings with
      | none => db
      | some table => ⟨db.keys.append fun id => { key with id, lastUsedAt := none }, table⟩
  | .updateMetadata keyId userId params =>
    { db with keys :=
        db.keys.updateWhere (fun row => row.id = keyId ∧ row.userId = userId) params.set }
  | .deleteByIdAndUser keyId userId =>
    db.deleteKeys fun row => row.id = keyId ∧ row.userId = userId
  | .deleteById keyId => db.deleteKeys fun row => row.id = keyId
  | .deleteByUser userId => db.deleteKeys fun row => row.userId = userId
  | .replaceBindings keyId bindings =>
    match insertBindings (db.bindings.deleteWhere fun row => row.keyId = keyId) keyId bindings with
    | none => db
    | some table => { db with bindings := table }
  | .deleteBindingsByRepo repoId completed =>
    db.deleteBindings (fun row => row.repoId = repoId) completed
  | .deleteBindingsForRepoUser repoId userId completed =>
    let keyIds := (db.keys.rows.filter fun key => key.userId = userId).map ApiKey.id
    if keyIds = [] then db
    else db.deleteBindings (fun row => row.repoId = repoId ∧ row.keyId ∈ keyIds) completed
  | .deleteOrphanBoundKeys => db.deleteOrphanBoundKeys

def touch (db : ApiKeyDb) : ApiKeyTouch → ApiKeyDb
  | .touchLastUsed keyId ts =>
    { db with keys := db.keys.updateWhere (fun row => row.id = keyId) fun row =>
        { row with lastUsedAt := some ts } }

end ApiKeyDb

end Nanofile
