import PortsBox.ConfigSizes
import PortsBox.RuntimeApply

/-!
# The panel's store and the main loop

`restore`, `reload`, `save` and the loop that calls them, over the store files and
the runtime. The text formats are parameters, but for the byte sizes: how JSON5 or
YAML is read into a config, and how a store document is written and read back.
Log lines are left out, and with them the warnings about changed sections.
-/

set_option autoImplicit false

namespace PortsBox

structure Store where
  base : String
  totalQuota : Option Nat
  accounting : Option Accounting
  singleUser : Option Bool
  users : List UserConfig
  deriving DecidableEq, Repr

/-! ## Documents -/

structure UserDoc where
  name : String
  quota : Option SizeJson
  packages : List String
  rules : List Rule
  deriving DecidableEq, Repr

/-- A store with its byte sizes as JSON. -/
structure StoreDoc where
  base : String
  totalQuota : Option SizeJson
  accounting : Option Accounting
  singleUser : Option Bool
  users : List UserDoc
  deriving DecidableEq, Repr

def UserDoc.ofUser (user : UserConfig) : UserDoc where
  name := user.name
  quota := user.quota.map serializeSize
  packages := user.packages
  rules := user.rules

def StoreDoc.ofStore (store : Store) : StoreDoc where
  base := store.base
  totalQuota := store.totalQuota.map serializeSize
  accounting := store.accounting
  singleUser := store.singleUser
  users := store.users.map UserDoc.ofUser

def readSize : Option SizeJson → Except SizeError (Option Nat)
  | none => .ok none
  | some size => (deserializeSize size).map some

def UserDoc.toUser (doc : UserDoc) : Except SizeError UserConfig := do
  let quota ← readSize doc.quota
  return { name := doc.name, quota, packages := doc.packages, rules := doc.rules }

def StoreDoc.toStore (doc : StoreDoc) : Except SizeError Store := do
  let totalQuota ← readSize doc.totalQuota
  let users ← doc.users.mapM UserDoc.toUser
  return { base := doc.base, totalQuota, accounting := doc.accounting,
           singleUser := doc.singleUser, users }

/-- The formats. `Content` is what a store file holds. -/
structure Formats (Content : Type) where
  isSocketAddr : String → Bool
  readConfig : String → Option Config
  encode : StoreDoc → Content
  decode : Content → Option StoreDoc

/-! ## Store files -/

abbrev Disk (Content : Type) := String → Option Content

/-- How the file system behaves for one operation. A write that fails to put the former store back
leaves something else in its place. -/
structure FileIo (Content : Type) where
  read : Bool := true
  write : Bool := true
  putBack : Except (Option Content) Unit := .ok ()
  remove : Bool := true

section Files
variable {Content : Type} (f : Formats Content) (io : FileIo Content) (path : String)

/-- `fs::read(path).ok()` -/
def readFile (disk : Disk Content) : Option Content := if io.read then disk path else none

def loadStore (disk : Disk Content) : Option Store :=
  match (readFile io path disk).bind f.decode with
  | none => none
  | some doc => doc.toStore.toOption

/-- The new store replaces the file as a whole or not at all. -/
def writeStore (store : Store) (disk : Disk Content) : Option (Disk Content) :=
  if io.write then some (Function.update disk path (some (f.encode (.ofStore store)))) else none

def removeStore (disk : Disk Content) : Disk Content :=
  if io.remove then Function.update disk path none else disk

/-- Back to what was there before a save that failed. -/
def undo (previous : Option Content) (disk : Disk Content) : Disk Content :=
  match previous, io.putBack with
  | some content, .ok () => Function.update disk path (some content)
  | some _, .error left => Function.update disk path left
  | none, _ => removeStore io path disk

end Files

/-! ## The loop -/

structure ConfigEdit where
  revision : Nat
  totalQuota : Option Nat := none
  accounting : Option Accounting := none
  singleUser : Bool := false
  users : List UserConfig
  deriving DecidableEq, Repr

def keepSecret (edited current : Accounting) : Accounting :=
  match edited.remote, current.remote with
  | some remote, some previous =>
    if remote.secretKey.isEmpty then
      { edited with remote := some { remote with secretKey := previous.secretKey } }
    else edited
  | _, _ => edited

structure Live where
  config : Config
  revision : Nat
  fromPanel : Bool
  deriving DecidableEq, Repr

/-- The revision is a `u64`. -/
def publish (live : Live) (config : Config) (fromPanel : Bool) : Live where
  config := config
  revision := (live.revision + 1) % 2 ^ 64
  fromPanel := fromPanel

inductive SaveError where
  | conflict
  | invalid (e : ConfigError)
  | failed
  | disabled
  | refused (e : ApplyError)
  deriving DecidableEq, Repr

structure MainLoop where
  world : World
  live : Live
  fileRaw : String
  storePath : Option String

section Loop
variable {Content : Type} (f : Formats Content) (io : FileIo Content)

def parse (raw : String) : Option Config :=
  (f.readConfig raw).bind fun config => (finalize f.isSocketAddr config).toOption

/-- The sections of the file with the rest from a store. -/
def Store.over (store : Store) (file : Config) : Config :=
  { file with
    totalQuota := store.totalQuota
    accounting := store.accounting.getD file.accounting
    singleUser := store.singleUser.getD file.singleUser
    users := store.users }

def restore (file : Config) (raw path : String) (disk : Disk Content) :
    Option Config × Disk Content :=
  match loadStore f io path disk with
  | none => (none, disk)
  | some store =>
    if store.base ≠ raw then (none, removeStore io path disk)
    else
      match check f.isSocketAddr (store.over file) with
      | .ok config => (some config, disk)
      | .error _ => (none, removeStore io path disk)

def storePathOf (config : Config) : Option String := config.enabledPanel.map (·.path)

/-- What a start makes of the file: the config to run with and whether it is the panel's. -/
def effective (config : Config) (raw : String) (disk : Disk Content) :
    Config × Bool × Disk Content :=
  match storePathOf config with
  | none => (config, false, disk)
  | some path =>
    let (stored, disk) := restore f io config raw path disk
    (stored.getD config, stored.isSome, disk)

/-- What else a start depends on: whether the database opens, the new runtime, and whether the
ledger loads and the API and the panel get their ports. -/
structure Boot where
  opens : Bool := true
  world : World
  serves : Bool := true

/-- `run` up to its loop. -/
def boot (env : Env) (start : Boot) (raw : String) (disk : Disk Content) :
    Option MainLoop × Disk Content :=
  match parse f raw with
  | none => (none, disk)
  | some config =>
    if !start.opens then (none, disk)
    else
      let (config', fromPanel, disk) := effective f io config raw disk
      match apply env config' start.world with
      | .error _ _ => (none, disk)
      | .ok _ world =>
        if !start.serves then (none, disk)
        else
          (some { world, live := { config := config', revision := 0, fromPanel }, fileRaw := raw,
                  storePath := storePathOf config }, disk)

def reload (env : Env) (world : World) (raw : String) : Option Config × World :=
  match parse f raw with
  | none => (none, world)
  | some next =>
    match apply env next world with
    | .error _ world => (none, world)
    | .ok _ world => (some next, world)

/-- The branch of the loop for a new file text. -/
def reloaded (env : Env) (raw : String) (loop : MainLoop) (disk : Disk Content) :
    Bool × MainLoop × Disk Content :=
  let loop := { loop with fileRaw := raw }
  match reload f env loop.world loop.fileRaw with
  | (none, world) => (false, { loop with world }, disk)
  | (some next, world) =>
    let disk :=
      match loop.storePath with
      | some path => if loop.live.fromPanel then removeStore io path disk else disk
      | none => disk
    (true, { loop with world, live := publish loop.live next false }, disk)

def storeOf (edit : ConfigEdit) (current : Config) (fileRaw : String) : Store where
  base := fileRaw
  totalQuota := edit.totalQuota
  accounting := some (keepSecret (edit.accounting.getD current.accounting) current.accounting)
  singleUser := some edit.singleUser
  users := edit.users

/-- The config that a save asks for. -/
def edited (edit : ConfigEdit) (store : Store) (current : Config) : Config :=
  { current with
    totalQuota := store.totalQuota
    accounting := store.accounting.getD {}
    singleUser := edit.singleUser
    users := store.users }

def save (env : Env) (path : String) (edit : ConfigEdit) (loop : MainLoop) (disk : Disk Content) :
    Except SaveError Nat × MainLoop × Disk Content :=
  let current := loop.live
  if edit.revision ≠ current.revision then (.error .conflict, loop, disk)
  else
    let store := storeOf edit current.config loop.fileRaw
    match check f.isSocketAddr (edited edit store current.config) with
    | .error e => (.error (.invalid e), loop, disk)
    | .ok next =>
      let previous := readFile io path disk
      match writeStore f io path store disk with
      | none => (.error .failed, loop, disk)
      | some disk =>
        match apply env next loop.world with
        | .error e world => (.error (.refused e), { loop with world }, undo io path previous disk)
        | .ok _ world =>
          let live := publish current next true
          (.ok live.revision, { loop with world, live }, disk)

/-- The branch of the loop for a request to save. -/
def saved (env : Env) (edit : ConfigEdit) (loop : MainLoop) (disk : Disk Content) :
    Except SaveError Nat × MainLoop × Disk Content :=
  match loop.storePath with
  | some path => save f io env path edit loop disk
  | none => (.error .disabled, loop, disk)

end Loop

end PortsBox
