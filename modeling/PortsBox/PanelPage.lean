import PortsBox.Lib.Words
import PortsBox.PanelRestart
import PortsBox.PanelRuns

/-!
# The dashboard's draft

The JSON that `get_config` answers with and `put_config` reads, and what the page makes
of it: `toDraft` turns every value into the text of a form field, `fromDraft` reads the
fields back, and `creditPackage` adds a package in between. A listen address stays an
address here, and whole numbers are exact, as they are in an `f64` below 2 ^ 53.
-/

set_option autoImplicit false

namespace PortsBox

/-! ## JSON -/

structure RuleJson where
  listen : SocketAddr
  target : String
  fallback : Option (List String)
  checkSecs : Option Nat
  protocol : Option Protocol
  enabled : Option Bool
  tag : Option String
  deriving DecidableEq, Repr

structure UserJson where
  name : String
  quota : Option SizeJson
  packages : Option (List String)
  rules : List RuleJson
  deriving DecidableEq, Repr

structure RemoteJson where
  provider : Provider
  accessKey : Option String
  secretKey : Option String
  regions : Option (List String)
  intervalSecs : Option Nat
  packages : Option (List String)
  deriving DecidableEq, Repr

structure AccountingJson where
  mode : Option Mode
  metering : Option Metering
  remote : Option RemoteJson
  deriving DecidableEq, Repr

/-- A `ConfigView`. -/
structure ViewJson where
  revision : Nat
  totalQuota : Option SizeJson
  accounting : AccountingJson
  secretKeySet : Bool
  singleUser : Bool
  users : List UserJson
  deriving DecidableEq, Repr

/-- A `ConfigEdit`. -/
structure EditJson where
  revision : Nat
  totalQuota : Option SizeJson
  accounting : Option AccountingJson
  singleUser : Option Bool
  users : List UserJson
  deriving DecidableEq, Repr

def defaultCheckSecs : Nat := 10

def defaultSyncSecs : Nat := 600

/-- `skip_serializing_if` -/
def unlessDefault {α : Type} [DecidableEq α] (default x : α) : Option α :=
  if x = default then none else some x

def RuleJson.ofRule (rule : Rule) : RuleJson where
  listen := rule.listen
  target := rule.target
  fallback := unlessDefault [] rule.fallback
  checkSecs := unlessDefault defaultCheckSecs rule.checkSecs
  protocol := unlessDefault .both rule.protocol
  enabled := unlessDefault true rule.enabled
  tag := rule.tag

def RuleJson.toRule (json : RuleJson) : Rule where
  listen := json.listen
  target := json.target
  fallback := json.fallback.getD []
  checkSecs := json.checkSecs.getD defaultCheckSecs
  protocol := json.protocol.getD .both
  enabled := json.enabled.getD true
  tag := json.tag

def UserJson.ofUser (user : UserConfig) : UserJson where
  name := user.name
  quota := user.quota.map serializeSize
  packages := unlessDefault [] user.packages
  rules := user.rules.map RuleJson.ofRule

def UserJson.toUser (json : UserJson) : Except SizeError UserConfig := do
  let quota ← readSize json.quota
  return { name := json.name, quota, packages := json.packages.getD [],
           rules := json.rules.map RuleJson.toRule }

def RemoteJson.ofRemote (remote : RemoteConfig) : RemoteJson where
  provider := remote.provider
  accessKey := some remote.accessKey
  secretKey := some remote.secretKey
  regions := some remote.regions
  intervalSecs := some remote.intervalSecs
  packages := unlessDefault [] remote.packages

def RemoteJson.toRemote (json : RemoteJson) : RemoteConfig where
  provider := json.provider
  accessKey := json.accessKey.getD ""
  secretKey := json.secretKey.getD ""
  regions := json.regions.getD []
  intervalSecs := json.intervalSecs.getD defaultSyncSecs
  packages := json.packages.getD []

def AccountingJson.ofAccounting (accounting : Accounting) : AccountingJson where
  mode := some accounting.mode
  metering := some accounting.metering
  remote := accounting.remote.map RemoteJson.ofRemote

def AccountingJson.toAccounting (json : AccountingJson) : Accounting where
  mode := json.mode.getD .offline
  metering := json.metering.getD .max
  remote := json.remote.map RemoteJson.toRemote

def ViewJson.ofView (view : ConfigView) : ViewJson where
  revision := view.revision
  totalQuota := view.totalQuota.map serializeSize
  accounting := .ofAccounting view.accounting
  secretKeySet := view.secretKeySet
  singleUser := view.singleUser
  users := view.users.map UserJson.ofUser

def EditJson.toEdit (json : EditJson) : Except SizeError ConfigEdit := do
  let totalQuota ← readSize json.totalQuota
  let users ← json.users.mapM UserJson.toUser
  return { revision := json.revision, totalQuota,
           accounting := json.accounting.map AccountingJson.toAccounting,
           singleUser := json.singleUser.getD false, users }

/-! ## Form fields -/

/-- The characters that `\s` matches and `trim` removes. -/
def isJsSpace (c : Char) : Bool :=
  let n := c.toNat
  (9 ≤ n && n ≤ 13) || n = 0x20 || n = 0xa0 || n = 0x1680 || (0x2000 ≤ n && n ≤ 0x200a) ||
    n = 0x2028 || n = 0x2029 || n = 0x202f || n = 0x205f || n = 0x3000 || n = 0xfeff

/-- `String.prototype.trim` -/
def jsTrim (text : String) : String := String.ofList (Words.strip isJsSpace text.toList)

/-- What `list` splits at. -/
def isListSeparator (c : Char) : Bool := isJsSpace c || c = ',' || c = '，'

def list (text : String) : List String :=
  (Words.words isListSeparator text.toList).map String.ofList

def join (items : List String) : String := ", ".intercalate items

/-- `/^\d+$/` -/
def isNumeral (text : String) : Bool := !text.isEmpty && text.toList.all Char.isDigit

def numeral (text : String) : Nat := Nat.ofDigitChars 10 text.toList 0

def size (text : String) : Option SizeJson :=
  let value := jsTrim text
  if value.isEmpty then none
  else some (if isNumeral value then .unsigned (numeral value) else .text value)

/-- `Number` of a text without sign, point and exponent. -/
def number (text : String) : Option Nat :=
  let value := jsTrim text
  if value.isEmpty then some 0 else if isNumeral value then some (numeral value) else none

/-- `String(value ?? "")` -/
def sizeText : Option SizeJson → String
  | none => ""
  | some (.unsigned n) => Nat.repr n
  | some (.signed n) => Int.repr n
  | some (.text s) => s

/-! ## Drafts -/

structure RuleDraft where
  listen : SocketAddr
  target : String
  fallback : String
  protocol : Protocol
  checkSecs : String
  tag : String
  enabled : Bool
  deriving DecidableEq, Repr

structure UserDraft where
  name : String
  quota : String
  packages : List String
  rules : List RuleDraft
  deriving DecidableEq, Repr

structure AccountingDraft where
  mode : Mode
  metering : Metering
  provider : Provider
  accessKey : String
  secretKey : String
  regions : String
  intervalSecs : String
  packages : List String
  deriving DecidableEq, Repr

structure Draft where
  totalQuota : String
  singleUser : Bool
  accounting : AccountingDraft
  users : List UserDraft
  deriving DecidableEq, Repr

def RuleDraft.ofJson (rule : RuleJson) : RuleDraft where
  listen := rule.listen
  target := rule.target
  fallback := join (rule.fallback.getD [])
  protocol := rule.protocol.getD .both
  checkSecs := Nat.repr (rule.checkSecs.getD 10)
  tag := rule.tag.getD ""
  enabled := rule.enabled ≠ some false

def UserDraft.ofJson (user : UserJson) : UserDraft where
  name := user.name
  quota := sizeText user.quota
  packages := user.packages.getD []
  rules := user.rules.map RuleDraft.ofJson

def AccountingDraft.ofJson (accounting : AccountingJson) : AccountingDraft where
  mode := accounting.mode.getD .offline
  metering := accounting.metering.getD .max
  provider := accounting.remote.elim .volcengine (·.provider)
  accessKey := (accounting.remote.bind (·.accessKey)).getD ""
  secretKey := ""
  regions := join ((accounting.remote.bind (·.regions)).getD [])
  intervalSecs := Nat.repr ((accounting.remote.bind (·.intervalSecs)).getD 600)
  packages := (accounting.remote.bind (·.packages)).getD []

def toDraft (config : ViewJson) : Draft where
  totalQuota := sizeText config.totalQuota
  singleUser := config.singleUser
  accounting := .ofJson config.accounting
  users := config.users.map UserDraft.ofJson

/-- The page's `draft`, with the `revision` and `secretSet` it came with. -/
structure Editor where
  revision : Nat
  secretSet : Bool
  draft : Draft
  deriving DecidableEq, Repr

def openDraft (config : ViewJson) : Editor where
  revision := config.revision
  secretSet := config.secretKeySet
  draft := toDraft config

/-- None where a field is no number: the server takes no such rule. -/
def RuleDraft.toJson (rule : RuleDraft) : Option RuleJson := do
  let checkSecs ← number rule.checkSecs
  let tag := jsTrim rule.tag
  return { listen := rule.listen, target := jsTrim rule.target, fallback := some (list rule.fallback),
           protocol := some rule.protocol, checkSecs := some checkSecs, enabled := some rule.enabled,
           tag := if tag.isEmpty then none else some tag }

def UserDraft.toJson (user : UserDraft) : Option UserJson := do
  let rules ← user.rules.mapM RuleDraft.toJson
  return { name := jsTrim user.name, quota := size user.quota, packages := some user.packages, rules }

def remoteDraft (accounting : AccountingDraft) : Option RemoteJson := do
  let intervalSecs ← number accounting.intervalSecs
  return { provider := accounting.provider, accessKey := some (jsTrim accounting.accessKey),
           secretKey := some accounting.secretKey, regions := some (list accounting.regions),
           intervalSecs := some intervalSecs, packages := some accounting.packages }

def remoteUsed (page : Editor) : Bool :=
  let accounting := page.draft.accounting
  accounting.mode = .remote || page.secretSet || !accounting.secretKey.isEmpty ||
    !(jsTrim accounting.accessKey).isEmpty || !(jsTrim accounting.regions).isEmpty ||
    !accounting.packages.isEmpty

/-- `if (remoteUsed) accounting.remote = remoteDraft()` -/
def sentRemote (page : Editor) : Option (Option RemoteJson) :=
  if remoteUsed page then (remoteDraft page.draft.accounting).map some else some none

def fromDraft (page : Editor) : Option EditJson := do
  let accounting := page.draft.accounting
  let remote ← sentRemote page
  let users ← page.draft.users.mapM UserDraft.toJson
  return { revision := page.revision, totalQuota := size page.draft.totalQuota,
           accounting := some ⟨some accounting.mode, some accounting.metering, remote⟩,
           singleUser := some page.draft.singleUser, users }

/-! ## Crediting a package -/

/-- `"split"`, or `"user:"` and a name. -/
inductive Choice where
  | split
  | user (name : String)
  deriving DecidableEq, Repr

/-- `if (!packages.includes(id)) packages.push(id)` -/
def pushNew (id : String) (packages : List String) : List String :=
  if id ∈ packages then packages else packages ++ [id]

/-- Changes the first one of a name. -/
def changeFirst {α : Type} (named : α → Bool) (change : α → α) : List α → List α
  | [] => []
  | x :: xs => if named x then change x :: xs else x :: changeFirst named change xs

def UserDraft.credit (id : String) (user : UserDraft) : UserDraft :=
  { user with packages := pushNew id user.packages }

def Draft.credit (draft : Draft) (id : String) : Choice → Draft
  | .split =>
    { draft with
      accounting := { draft.accounting with packages := pushNew id draft.accounting.packages } }
  | .user name =>
    { draft with users := changeFirst (·.name = name) (UserDraft.credit id) draft.users }

def Editor.credit (page : Editor) (id : String) (choice : Choice) : Editor :=
  { page with draft := page.draft.credit id choice }

inductive PutError where
  /-- The body is no `ConfigEdit`. -/
  | rejected
  | save (e : SaveError)
  deriving DecidableEq, Repr

section Server
variable {Content : Type} (f : Formats Content) (io : FileIo Content) (env : Env)

def putConfig (body : Option EditJson) (loop : MainLoop) (disk : Disk Content) :
    Except PutError Nat × MainLoop × Disk Content :=
  match body.bind fun json => json.toEdit.toOption with
  | none => (.error .rejected, loop, disk)
  | some edit =>
    let (result, loop, disk) := saved f io env edit loop disk
    (result.mapError .save, loop, disk)

/-- The page loads the config, adds the package and saves. -/
def creditPackage (id : String) (choice : Choice) (loop : MainLoop) (disk : Disk Content) :
    Except PutError Nat × MainLoop × Disk Content :=
  let page := openDraft (.ofView (getConfig loop.live))
  putConfig f io env (fromDraft (page.credit id choice)) loop disk

end Server

/-! ## Fields that come back -/

theorem getD_unlessDefault {α : Type} [DecidableEq α] (default x : α) :
    (unlessDefault default x).getD default = x := by
  unfold unlessDefault
  split
  · next h => exact h.symm
  · rfl

theorem isJsSpace_of_isDigit {c : Char} (h : c.isDigit = true) : isJsSpace c = false := by
  simp only [Char.isDigit, Bool.and_eq_true, decide_eq_true_eq, ge_iff_le,
    UInt32.le_iff_toNat_le] at h
  have hlow : 48 ≤ c.toNat := h.1
  have hhigh : c.toNat ≤ 57 := h.2
  simp only [isJsSpace, Bool.or_eq_false_iff, Bool.and_eq_false_iff, decide_eq_false_iff_not]
  omega

theorem jsTrim_of_plain {text : String} (h : ∀ c ∈ text.toList, isJsSpace c = false) :
    jsTrim text = text := by
  unfold jsTrim
  rw [Words.strip_of_plain h, String.ofList_toList]

theorem isDigit_repr {n : Nat} {c : Char} (h : c ∈ (Nat.repr n).toList) : c.isDigit = true := by
  rw [Nat.toList_repr] at h
  exact Nat.isDigit_of_mem_toDigits (by decide) (by decide) h

theorem jsTrim_repr (n : Nat) : jsTrim (Nat.repr n) = Nat.repr n :=
  jsTrim_of_plain fun _ hc => isJsSpace_of_isDigit (isDigit_repr hc)

theorem repr_isEmpty (n : Nat) : (Nat.repr n).isEmpty = false := by
  rw [Bool.eq_false_iff, Ne, String.isEmpty_iff, ← String.toList_eq_nil_iff, Nat.toList_repr]
  exact Nat.toDigits_ne_nil

theorem isNumeral_repr (n : Nat) : isNumeral (Nat.repr n) = true := by
  unfold isNumeral
  rw [repr_isEmpty, List.all_eq_true.mpr fun c hc => isDigit_repr hc]
  rfl

theorem numeral_repr (n : Nat) : numeral (Nat.repr n) = n := by
  unfold numeral
  rw [Nat.toList_repr, Nat.ofDigitChars_ten_toDigits]

theorem number_repr (n : Nat) : number (Nat.repr n) = some n := by
  unfold number
  simp only [jsTrim_repr, repr_isEmpty, isNumeral_repr, numeral_repr]
  rfl

theorem sizeUnits_plain : ∀ unit ∈ sizeUnits, ∀ c ∈ unit.2.toList,
    isJsSpace c = false ∧ c.isDigit = false := by
  simp only [sizeUnits, List.forall_mem_cons]
  simp
  decide

/-- A size goes through its field. -/
theorem size_sizeText (quota : Option Nat) :
    size (sizeText (quota.map serializeSize)) = quota.map serializeSize := by
  cases quota with
  | none => decide
  | some n =>
    rw [Option.map_some]
    unfold serializeSize
    cases hfind : sizeUnits.find? fun unit => n ≠ 0 ∧ n % unit.1 = 0 with
    | none =>
      simp only [sizeText, size, jsTrim_repr, repr_isEmpty, isNumeral_repr, numeral_repr]
      rfl
    | some unit =>
      rcases unit with ⟨bytes, unit⟩
      have hmem := List.mem_of_find?_eq_some hfind
      have hplain := sizeUnits_plain _ hmem
      obtain ⟨letter, _, hletters, -⟩ := sizeUnits_spec hmem
      have htext : (Nat.repr (n / bytes) ++ unit).toList =
          (Nat.repr (n / bytes)).toList ++ [letter, 'B'] := by
        rw [String.toList_append, hletters]
      rw [hletters] at hplain
      have htrim : jsTrim (Nat.repr (n / bytes) ++ unit) = Nat.repr (n / bytes) ++ unit := by
        apply jsTrim_of_plain
        intro c hc
        rw [htext] at hc
        rcases List.mem_append.mp hc with hdigit | hunit
        · exact isJsSpace_of_isDigit (isDigit_repr hdigit)
        · exact (hplain c hunit).1
      have hempty : (Nat.repr (n / bytes) ++ unit).isEmpty = false := by
        rw [Bool.eq_false_iff, Ne, String.isEmpty_iff, ← String.toList_eq_nil_iff, htext]
        simp
      have hnumeral : isNumeral (Nat.repr (n / bytes) ++ unit) = false := by
        unfold isNumeral
        rw [htext, List.all_append]
        simp [(hplain letter (by simp)).2]
      simp only [sizeText, size, htrim, hempty, hnumeral]
      rfl

theorem ofList_map_toList (items : List String) :
    (items.map String.toList).map String.ofList = items := by
  rw [List.map_map]
  exact (List.map_congr_left fun _ _ => String.ofList_toList).trans (List.map_id _)

/-- Items a form field can list. -/
def Listable (items : List String) : Prop :=
  ∀ item ∈ items, Words.IsWord isListSeparator item.toList

theorem listSeparators : ∀ c ∈ ", ".toList, isListSeparator c = true := by
  simp
  decide

theorem list_join {items : List String} (h : Listable items) : list (join items) = items := by
  unfold list join
  rw [String.toList_intercalate, Words.words_intercalate (by simp) listSeparators]
  · exact ofList_map_toList items
  · intro word hword
    obtain ⟨item, hitem, rfl⟩ := List.mem_map.mp hword
    exact h item hitem

theorem not_isJsSpace_of_plain {c : Char} (h : isListSeparator c = false) :
    isJsSpace c = false := by
  unfold isListSeparator at h
  rw [Bool.or_eq_false_iff, Bool.or_eq_false_iff] at h
  exact h.1.1

theorem jsTrim_join_isEmpty {items : List String} (h : Listable items) :
    (jsTrim (join items)).isEmpty = items.isEmpty := by
  cases items with
  | nil => decide
  | cons item items =>
    obtain ⟨hne, hplain⟩ := h item List.mem_cons_self
    obtain ⟨c, rest, hitem⟩ := List.exists_cons_of_ne_nil hne
    have hc : c ∈ (join (item :: items)).toList := by
      unfold join
      rw [String.toList_intercalate, List.map_cons, hitem]
      cases items with
      | nil => simp
      | cons other items => simp
    have hstrip := Words.strip_ne_nil hc
      (not_isJsSpace_of_plain (hplain c (hitem ▸ List.mem_cons_self)))
    rw [List.isEmpty_cons, Bool.eq_false_iff, Ne, String.isEmpty_iff, ← String.toList_eq_nil_iff]
    unfold jsTrim
    rw [String.toList_ofList]
    exact hstrip

/-! ## Configs the page keeps -/

/-- A rule whose fields come back as they were. -/
structure Rule.Tidy (rule : Rule) : Prop where
  target : jsTrim rule.target = rule.target
  fallback : Listable rule.fallback
  checkSecs : rule.checkSecs < 2 ^ 53
  tag : ∀ tag, rule.tag = some tag → jsTrim tag = tag ∧ tag.isEmpty = false

structure UserConfig.Tidy (user : UserConfig) : Prop where
  name : jsTrim user.name = user.name
  quota : SmallSize user.quota
  rules : ∀ rule ∈ user.rules, rule.Tidy

structure RemoteConfig.Tidy (remote : RemoteConfig) : Prop where
  accessKey : jsTrim remote.accessKey = remote.accessKey
  regions : Listable remote.regions
  intervalSecs : remote.intervalSecs < 2 ^ 53

/-- The page leaves out a remote in which nothing is filled in. -/
def Accounting.Filled (accounting : Accounting) (remote : RemoteConfig) : Prop :=
  accounting.mode = .remote ∨ remote.secretKey ≠ "" ∨ remote.accessKey ≠ "" ∨
    remote.regions ≠ [] ∨ remote.packages ≠ []

structure Config.Tidy (config : Config) : Prop where
  totalQuota : SmallSize config.totalQuota
  users : ∀ user ∈ config.users, user.Tidy
  remote : ∀ remote, config.accounting.remote = some remote →
    remote.Tidy ∧ config.accounting.Filled remote

/-- What the page sends for a rule, every field of it. -/
def RuleJson.sent (rule : Rule) : RuleJson where
  listen := rule.listen
  target := rule.target
  fallback := some rule.fallback
  checkSecs := some rule.checkSecs
  protocol := some rule.protocol
  enabled := some rule.enabled
  tag := rule.tag

def UserJson.sent (user : UserConfig) : UserJson where
  name := user.name
  quota := user.quota.map serializeSize
  packages := some user.packages
  rules := user.rules.map RuleJson.sent

def RemoteJson.sent (remote : RemoteConfig) : RemoteJson where
  provider := remote.provider
  accessKey := some remote.accessKey
  secretKey := some ""
  regions := some remote.regions
  intervalSecs := some remote.intervalSecs
  packages := some remote.packages

def EditJson.sent (live : Live) : EditJson where
  revision := live.revision
  totalQuota := live.config.totalQuota.map serializeSize
  accounting := some ⟨some live.config.accounting.mode, some live.config.accounting.metering,
    live.config.accounting.remote.map RemoteJson.sent⟩
  singleUser := some live.config.singleUser
  users := live.config.users.map UserJson.sent

theorem mapM_some {α β : Type} {f : α → Option β} {g : α → β} {items : List α}
    (h : ∀ item ∈ items, f item = some (g item)) : items.mapM f = some (items.map g) := by
  induction items with
  | nil => rfl
  | cons item items ih =>
    rw [List.mapM_cons, h item List.mem_cons_self,
      ih fun other hother => h other (List.mem_cons_of_mem item hother)]
    rfl

theorem Rule.Tidy.toJson {rule : Rule} (h : rule.Tidy) :
    (RuleDraft.ofJson (.ofRule rule)).toJson = some (.sent rule) := by
  have htag : (if (jsTrim (rule.tag.getD "")).isEmpty then none
      else some (jsTrim (rule.tag.getD ""))) = rule.tag := by
    cases htag : rule.tag with
    | none => decide
    | some tag =>
      obtain ⟨htrim, hempty⟩ := h.tag tag htag
      simp [htrim, hempty]
  have henabled : decide (unlessDefault true rule.enabled ≠ some false) = rule.enabled := by
    cases rule.enabled <;> rfl
  have hchecks : (unlessDefault defaultCheckSecs rule.checkSecs).getD 10 = rule.checkSecs :=
    getD_unlessDefault defaultCheckSecs _
  unfold RuleDraft.toJson RuleDraft.ofJson RuleJson.ofRule RuleJson.sent
  simp only [hchecks, number_repr, getD_unlessDefault, list_join h.fallback, h.target, htag,
    henabled]
  rfl

theorem UserConfig.Tidy.toJson {user : UserConfig} (h : user.Tidy) :
    (UserDraft.ofJson (.ofUser user)).toJson = some (.sent user) := by
  have hrules : ((user.rules.map RuleJson.ofRule).map RuleDraft.ofJson).mapM RuleDraft.toJson =
      some (user.rules.map RuleJson.sent) := by
    rw [List.map_map, List.mapM_map]
    exact mapM_some fun rule hrule => (h.rules rule hrule).toJson
  unfold UserDraft.toJson UserDraft.ofJson UserJson.ofUser UserJson.sent
  simp only [hrules, size_sizeText, getD_unlessDefault, h.name]
  rfl

theorem remoteDraft_ofJson {accounting : AccountingJson} {remote : RemoteConfig} (h : remote.Tidy)
    (hremote : accounting.remote = some (.ofRemote { remote with secretKey := "" })) :
    remoteDraft (.ofJson accounting) = some (.sent remote) := by
  unfold remoteDraft AccountingDraft.ofJson RemoteJson.sent
  rw [hremote]
  unfold RemoteJson.ofRemote
  simp only [Option.bind_some, Option.elim_some, Option.getD_some, getD_unlessDefault, number_repr,
    list_join h.regions, h.accessKey]
  rfl

/-- The page sends a remote if there is one. -/
theorem remoteUsed_openDraft {live : Live} (h : live.config.Tidy)
    (hmode : live.config.accounting.remote = none → live.config.accounting.mode = .offline) :
    remoteUsed (openDraft (.ofView (getConfig live))) =
      live.config.accounting.remote.isSome := by
  unfold remoteUsed openDraft toDraft ViewJson.ofView getConfig AccountingDraft.ofJson
    AccountingJson.ofAccounting
  cases hremote : live.config.accounting.remote with
  | none =>
    have hblank : jsTrim "" = "" := by decide
    simp [hmode hremote, join, hblank]
  | some remote =>
    obtain ⟨htidy, hfilled⟩ := h.remote remote hremote
    unfold RemoteJson.ofRemote
    simp only [Option.map_some, Option.bind_some, Option.getD_some, getD_unlessDefault,
      htidy.accessKey, jsTrim_join_isEmpty htidy.regions, Option.any_some, Option.isSome_some]
    rcases hfilled with hmode | hsecret | haccess | hregions | hpackages
    · simp [hmode]
    · simp [hsecret]
    · simp [haccess]
    · simp [hregions]
    · simp [hpackages]

/-- The page sends what it was shown. -/
theorem fromDraft_openDraft {live : Live} (h : live.config.Tidy)
    (hmode : live.config.accounting.remote = none → live.config.accounting.mode = .offline) :
    fromDraft (openDraft (.ofView (getConfig live))) = some (.sent live) := by
  have husers : (openDraft (.ofView (getConfig live))).draft.users.mapM UserDraft.toJson =
      some (live.config.users.map UserJson.sent) := by
    change ((live.config.users.map UserJson.ofUser).map UserDraft.ofJson).mapM _ = _
    rw [List.map_map, List.mapM_map]
    exact mapM_some fun user huser => (h.users user huser).toJson
  have hremote : sentRemote (openDraft (.ofView (getConfig live))) =
      some (live.config.accounting.remote.map RemoteJson.sent) := by
    unfold sentRemote
    rw [remoteUsed_openDraft h hmode]
    cases hremote : live.config.accounting.remote with
    | none => rfl
    | some remote =>
      rw [Option.isSome_some, if_pos rfl, Option.map_some]
      change (remoteDraft (.ofJson (.ofAccounting (getConfig live).accounting))).map some = _
      rw [remoteDraft_ofJson (h.remote remote hremote).1]
      · rfl
      · simp [AccountingJson.ofAccounting, getConfig, hremote]
  unfold fromDraft
  dsimp only
  rw [hremote, husers]
  simp only [openDraft, toDraft, ViewJson.ofView, getConfig, size_sizeText]
  rfl

/-! ## The edit that arrives -/

/-- The edit that leaves everything as it is. -/
def editOf (live : Live) : ConfigEdit where
  revision := live.revision
  totalQuota := live.config.totalQuota
  accounting := some (getConfig live).accounting
  singleUser := live.config.singleUser
  users := live.config.users

theorem toUser_sent {user : UserConfig} (h : SmallSize user.quota) :
    (UserJson.sent user).toUser = .ok user := by
  have hrules : (user.rules.map RuleJson.sent).map RuleJson.toRule = user.rules := by
    rw [List.map_map]
    exact (List.map_congr_left fun _ _ => rfl).trans (List.map_id _)
  refine bind_of_ok (readSize_serialized h) ?_
  unfold UserJson.sent
  rw [hrules]
  rfl

theorem mapM_ok {ε α β : Type} {f : β → Except ε α} {g : α → β} {items : List α}
    (h : ∀ item ∈ items, f (g item) = .ok item) : (items.map g).mapM f = .ok items := by
  induction items with
  | nil => rfl
  | cons item items ih =>
    rw [List.map_cons, List.mapM_cons, h item List.mem_cons_self,
      ih fun other hother => h other (List.mem_cons_of_mem item hother)]
    rfl

theorem toEdit_sent {live : Live} (h : live.config.Tidy) :
    (EditJson.sent live).toEdit = .ok (editOf live) := by
  have husers : (live.config.users.map UserJson.sent).mapM UserJson.toUser =
      .ok live.config.users := mapM_ok fun user huser => toUser_sent (h.users user huser).quota
  have hremote : (live.config.accounting.remote.map RemoteJson.sent).map RemoteJson.toRemote =
      (getConfig live).accounting.remote := by
    unfold getConfig
    rw [Option.map_map]
    rfl
  refine bind_of_ok (readSize_serialized h.totalQuota) (bind_of_ok husers ?_)
  unfold editOf EditJson.sent
  rw [Option.map_some, AccountingJson.toAccounting, hremote]
  rfl

/-! ## A package credited -/

def UserConfig.credit (id : String) (user : UserConfig) : UserConfig :=
  { user with packages := pushNew id user.packages }

def Config.credit (config : Config) (id : String) : Choice → Config
  | .split =>
    let remote := config.accounting.remote.getD { provider := .volcengine }
    { config with
      accounting := { config.accounting with
        remote := some { remote with packages := pushNew id remote.packages } } }
  | .user name =>
    { config with users := changeFirst (·.name = name) (UserConfig.credit id) config.users }

def Live.credit (live : Live) (id : String) (choice : Choice) : Live :=
  { live with config := live.config.credit id choice }

theorem map_changeFirst {α β : Type} {g : α → β} {named : α → Bool} {other : β → Bool}
    {change : α → α} {moved : β → β} (hnamed : ∀ x, other (g x) = named x)
    (hchange : ∀ x, g (change x) = moved (g x)) (items : List α) :
    (changeFirst named change items).map g = changeFirst other moved (items.map g) := by
  induction items with
  | nil => rfl
  | cons item items ih =>
    rw [List.map_cons, changeFirst, changeFirst, hnamed]
    split
    · rw [List.map_cons, hchange]
    · rw [List.map_cons, ih]

/-- The draft with the package is the draft of the config with the package. -/
theorem openDraft_credit (live : Live) (id : String) (choice : Choice) :
    (openDraft (.ofView (getConfig live))).credit id choice =
      openDraft (.ofView (getConfig (live.credit id choice))) := by
  cases choice with
  | split =>
    unfold Editor.credit Draft.credit openDraft toDraft ViewJson.ofView getConfig Live.credit
      Config.credit AccountingDraft.ofJson AccountingJson.ofAccounting
    cases live.config.accounting.remote with
    | none => simp [RemoteJson.ofRemote, getD_unlessDefault]
    | some remote => simp [RemoteJson.ofRemote, getD_unlessDefault]
  | user name =>
    have husers : (changeFirst (fun user : UserConfig => user.name = name) (UserConfig.credit id)
          live.config.users).map (fun user => UserDraft.ofJson (.ofUser user)) =
        changeFirst (fun user : UserDraft => user.name = name) (UserDraft.credit id)
          (live.config.users.map fun user => UserDraft.ofJson (.ofUser user)) := by
      apply map_changeFirst
      · exact fun _ => rfl
      · intro user
        simp [UserDraft.ofJson, UserJson.ofUser, UserDraft.credit, UserConfig.credit,
          getD_unlessDefault]
    unfold Editor.credit Draft.credit openDraft toDraft ViewJson.ofView getConfig Live.credit
      Config.credit
    simp only [List.map_map, Function.comp_def, husers]

end PortsBox
