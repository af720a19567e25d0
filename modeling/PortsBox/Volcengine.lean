import PortsBox.ConfigSizes
import PortsBox.Provider
import PortsBox.Lib.Paging

/-!
# Listing the traffic packages

`list_traffic_packages` reads the provider's listing page by page. It takes a page for the last
one when it has no items, names no next token or names its own; then the result is every package
of the pages up to it, and in any other case it is an error.
-/

set_option autoImplicit false

namespace PortsBox.Volcengine

open Paging

structure Item where
  instanceNo : String
  configurationName : String := ""
  regionCode : String := ""
  totalAmount : String := ""
  availableAmount : String := ""
  unit : String := ""
  status : String := ""
  expiryTime : String := ""
  deriving DecidableEq, Repr

structure Page where
  list : List Item := []
  nextToken : String := ""
  deriving DecidableEq, Repr

structure ApiError where
  code : String := ""
  message : String := ""
  deriving DecidableEq, Repr

/-- The answer of the API; `error` is that of its metadata. -/
structure Envelope where
  error : Option ApiError := none
  result : Option Page := none
  deriving DecidableEq, Repr

inductive ListingError where
  | client (error : String)
  | request (error : String)
  | unreadable (error : String)
  | unexpected (status : Nat) (snippet : String)
  | api (code message : String)
  | noResult (status : Nat)
  | package (id : String) (error : SizeError)
  | tooManyPages
  deriving DecidableEq, Repr

def maxPages : Nat := 50

/-- The text of an error; that of a size is made elsewhere. -/
def ListingError.message (size : SizeError → String) : ListingError → String
  | client error => "cannot build http client: " ++ error
  | request error => "request failed: " ++ error
  | unreadable error => "cannot read response: " ++ error
  | unexpected status snippet => "unexpected response (http " ++ status.repr ++ "): " ++ snippet
  | api code message => code ++ ": " ++ message
  | noResult status => "response without a result (http " ++ status.repr ++ ")"
  | package id error => "package " ++ id ++ ": " ++ size error
  | tooManyPages => "more than " ++ maxPages.repr ++ " pages of traffic packages"

/-- `provider::amount` -/
def amount (value unit : String) : Except SizeError Nat :=
  parseSize (String.ofList (trim value.toList ++ trim unit.toList))

def Item.intoPackage (item : Item) : Except ListingError Package :=
  let parse := fun value => (amount value item.unit).mapError (.package item.instanceNo)
  do
    let total ← parse item.totalAmount
    let available ← parse item.availableAmount
    return {
      total
      available
      id := item.instanceNo
      name := item.configurationName
      region := item.regionCode
      status := item.status
      expiry := item.expiryTime }

/-- What a request comes to. -/
inductive Reply where
  | failed (error : String)
  | unreadable (error : String)
  | response (status : Nat) (text : String)
  deriving DecidableEq, Repr

section Listing
variable (decode : String → Option Envelope)

/-- `decode` is how the JSON library reads an envelope. -/
def parsePage (status : Nat) (body : String) : Except ListingError Page :=
  match decode body with
  | none => .error (.unexpected status (body.take 200).toString)
  | some envelope =>
    match envelope.error, envelope.result with
    | some error, _ => .error (.api error.code error.message)
    | none, some page => .ok page
    | none, none => .error (.noResult status)

variable (server : String → Reply)

def requestPage (token : String) : Except ListingError Page :=
  match server token with
  | .failed error => .error (.request error)
  | .unreadable error => .error (.unreadable error)
  | .response status text => parsePage decode status text

def isDone (token : String) (page : Page) : Bool :=
  page.list.isEmpty || page.nextToken.isEmpty || page.nextToken == token

/-- The result, and the tokens requested. -/
structure Listing where
  result : Except ListingError (List Package)
  requests : List String

/-- The loop, with the rounds that are left. -/
def listPages : Nat → List Package → String → Listing
  | 0, _, _ => ⟨.error .tooManyPages, []⟩
  | rounds + 1, packages, token =>
    match requestPage decode server token with
    | .error e => ⟨.error e, [token]⟩
    | .ok page =>
      match page.list.mapM Item.intoPackage with
      | .error e => ⟨.error e, [token]⟩
      | .ok more =>
        if isDone token page then ⟨.ok (packages ++ more), [token]⟩
        else
          let rest := listPages rounds (packages ++ more) page.nextToken
          { rest with requests := token :: rest.requests }

def listTrafficPackages (client : Except String Unit) : Listing :=
  match client with
  | .error e => ⟨.error (.client e), []⟩
  | .ok () => listPages decode server maxPages [] ""

/-! ## The loop reads pages -/

/-- A page with the packages of its items. -/
def fetchPage (token : String) : Except ListingError (Page × List Package) :=
  (requestPage decode server token).bind fun page =>
    (page.list.mapM Item.intoPackage).map (page, ·)

/-- Reading pages with their packages. -/
def readPages (rounds : Nat) (token : String) :
    Reading String (Page × List Package) ListingError :=
  Paging.read (fetchPage decode server) (fun token page => isDone token page.1)
    (fun page => page.1.nextToken) rounds token

/-- The packages of all pages, in order. -/
def packagesOf (pages : List Page) : Except ListingError (List Package) :=
  (pages.flatMap Page.list).mapM Item.intoPackage

def Listing.ofReading (packages : List Package)
    (reading : Reading String (Page × List Package) ListingError) : Listing where
  result :=
    match reading.result with
    | .ok pages => .ok (packages ++ pages.flatMap Prod.snd)
    | .error (some e) => .error e
    | .error none => .error .tooManyPages
  requests := reading.asked

variable {decode server}

theorem fetchPage_ok_iff {token : String} {page : Page × List Package} :
    fetchPage decode server token = .ok page ↔
      requestPage decode server token = .ok page.1 ∧
        page.1.list.mapM Item.intoPackage = .ok page.2 := by
  rcases page with ⟨page, packages⟩
  unfold fetchPage
  cases hpage : requestPage decode server token with
  | error e => exact iff_of_false (fun h => nomatch h) (fun h => nomatch h.1)
  | ok first =>
    change (first.list.mapM Item.intoPackage).map (first, ·) = _ ↔ _
    cases hitems : first.list.mapM Item.intoPackage with
    | error e =>
      refine iff_of_false (fun h => nomatch h) ?_
      rintro ⟨hfirst, hsecond⟩
      obtain rfl := Except.ok.inj hfirst
      cases hitems.symm.trans hsecond
    | ok more =>
      constructor
      · intro h
        obtain ⟨rfl, rfl⟩ := Prod.mk.inj (Except.ok.inj h)
        exact ⟨rfl, hitems⟩
      · rintro ⟨hfirst, hsecond⟩
        obtain rfl := Except.ok.inj hfirst
        rw [Except.ok.inj (hitems.symm.trans hsecond)]
        rfl

theorem listPages_eq (rounds : Nat) (packages : List Package) (token : String) :
    listPages decode server rounds packages token =
      Listing.ofReading packages (readPages decode server rounds token) := by
  induction rounds generalizing packages token with
  | zero => rfl
  | succ rounds ih =>
    rw [listPages, readPages, Paging.read]
    cases hpage : requestPage decode server token with
    | error e =>
      have hfetch : fetchPage decode server token = .error e := by
        rw [fetchPage, hpage]
        rfl
      rw [hfetch]
      rfl
    | ok page =>
      cases hitems : page.list.mapM Item.intoPackage with
      | error e =>
        have hfetch : fetchPage decode server token = .error e := by
          rw [fetchPage, hpage]
          change (page.list.mapM Item.intoPackage).map (page, ·) = _
          rw [hitems]
          rfl
        rw [hfetch]
        dsimp only
        rw [hitems]
        rfl
      | ok more =>
        have hfetch : fetchPage decode server token = .ok (page, more) :=
          fetchPage_ok_iff.mpr ⟨hpage, hitems⟩
        rw [hfetch]
        dsimp only
        rw [hitems]
        dsimp only
        split
        · simp [Listing.ofReading]
        · rw [ih]
          change _ = Listing.ofReading packages
            ⟨(readPages decode server rounds page.nextToken).result.map ((page, more) :: ·),
              token :: (readPages decode server rounds page.nextToken).asked⟩
          unfold Listing.ofReading
          cases (readPages decode server rounds page.nextToken).result with
          | error e => cases e <;> rfl
          | ok pages => simp [Except.map, List.append_assoc]

/-! ## Complete or failed -/

theorem chain_fetchPage_iff {token : String} {parsed : List (Page × List Package)} :
    Chain (fetchPage decode server) (fun token page => isDone token page.1)
        (fun page => page.1.nextToken) token parsed ↔
      Chain (requestPage decode server) isDone Page.nextToken token (parsed.map Prod.fst) ∧
        ∀ page ∈ parsed, page.1.list.mapM Item.intoPackage = .ok page.2 := by
  constructor
  · intro h
    induction h with
    | @last token page hfetch hdone =>
      obtain ⟨hpage, hitems⟩ := fetchPage_ok_iff.mp hfetch
      exact ⟨.last hpage hdone, fun other hother => List.mem_singleton.mp hother ▸ hitems⟩
    | @next token page parsed hfetch hdone _ ih =>
      obtain ⟨hpage, hitems⟩ := fetchPage_ok_iff.mp hfetch
      refine ⟨.next hpage hdone ih.1, ?_⟩
      intro other hother
      rcases List.mem_cons.mp hother with rfl | hlater
      · exact hitems
      · exact ih.2 other hlater
  · rintro ⟨hchain, hitems⟩
    induction parsed generalizing token with
    | nil => cases hchain
    | cons page parsed ih =>
      have hfirst := hitems page List.mem_cons_self
      rw [List.map_cons] at hchain
      generalize hrest : parsed.map Prod.fst = rest at hchain
      cases hchain with
      | last hpage hdone =>
        obtain rfl := List.map_eq_nil_iff.mp hrest
        exact .last (fetchPage_ok_iff.mpr ⟨hpage, hfirst⟩) hdone
      | next hpage hdone hlater =>
        subst hrest
        exact .next (fetchPage_ok_iff.mpr ⟨hpage, hfirst⟩) hdone
          (ih hlater fun other hother => hitems other (List.mem_cons_of_mem _ hother))

theorem packagesOf_ok_iff {pages : List Page} {packages : List Package} :
    packagesOf pages = .ok packages ↔ ∃ parsed : List (Page × List Package),
      parsed.map Prod.fst = pages ∧
        (∀ page ∈ parsed, page.1.list.mapM Item.intoPackage = .ok page.2) ∧
        parsed.flatMap Prod.snd = packages := by
  induction pages generalizing packages with
  | nil =>
    constructor
    · intro h
      obtain rfl := Except.ok.inj h
      exact ⟨[], rfl, fun _ h => absurd h List.not_mem_nil, rfl⟩
    · rintro ⟨parsed, hpages, -, rfl⟩
      obtain rfl := List.map_eq_nil_iff.mp hpages
      rfl
  | cons page pages ih =>
    unfold packagesOf at ih ⊢
    rw [List.flatMap_cons, List.mapM_append]
    constructor
    · intro h
      cases hfirst : page.list.mapM Item.intoPackage with
      | error e =>
        rw [hfirst] at h
        cases h
      | ok first =>
        rw [hfirst] at h
        cases hrest : (pages.flatMap Page.list).mapM Item.intoPackage with
        | error e =>
          rw [hrest] at h
          cases h
        | ok rest =>
          rw [hrest] at h
          obtain rfl := Except.ok.inj h
          obtain ⟨parsed, rfl, hitems, rfl⟩ := ih.mp hrest
          refine ⟨(page, first) :: parsed, rfl, ?_, rfl⟩
          intro other hother
          rcases List.mem_cons.mp hother with rfl | hlater
          · exact hfirst
          · exact hitems other hlater
    · rintro ⟨parsed, hpages, hitems, rfl⟩
      cases parsed with
      | nil => cases hpages
      | cons first parsed =>
        obtain ⟨rfl, rfl⟩ := List.cons.inj hpages
        rw [hitems first List.mem_cons_self, ih.mpr ⟨parsed, rfl,
          fun other hother => hitems other (List.mem_cons_of_mem _ hother), rfl⟩]
        rfl

theorem listPages_ok_iff {rounds : Nat} {token : String} {packages : List Package} :
    (listPages decode server rounds [] token).result = .ok packages ↔
      ∃ parsed, (readPages decode server rounds token).result = .ok parsed ∧
        parsed.flatMap Prod.snd = packages := by
  rw [listPages_eq, Listing.ofReading]
  cases (readPages decode server rounds token).result with
  | error e => cases e <;> simp
  | ok parsed => simp

/-- A listing makes at most `maxPages` requests. It succeeds with the packages of a chain of that
many pages at most, from the empty token to a page that is taken for the last, all of them; and
fails when there is none, or an item of it is no package. In particular it fails after a request
that is not answered with a page of packages, and when a token comes back. -/
theorem complete_or_failed (decode : String → Option Envelope) (server : String → Reply)
    (client : Except String Unit) :
    let listing := listTrafficPackages decode server client
    listing.requests.length ≤ maxPages ∧
      (∀ packages, listing.result = .ok packages ↔
        client = .ok () ∧ ∃ pages : List Page,
          Chain (requestPage decode server) isDone Page.nextToken "" pages ∧
            pages.length ≤ maxPages ∧ packagesOf pages = .ok packages) ∧
      ((¬ listing.requests.Nodup ∨ ∃ token ∈ listing.requests,
          ∀ page, requestPage decode server token = .ok page →
            ∃ e, page.list.mapM Item.intoPackage = .error e) →
        ∃ e, listing.result = .error e) := by
  cases client with
  | error e =>
    refine ⟨Nat.zero_le _, ?_, fun _ => ⟨_, rfl⟩⟩
    intro packages
    exact iff_of_false (fun h => nomatch h) (fun h => nomatch h.1)
  | ok =>
    intro listing
    have hrequests : listing.requests = (readPages decode server maxPages "").asked := by
      change (listPages decode server maxPages [] "").requests = _
      rw [listPages_eq]
      rfl
    refine ⟨?_, ?_, ?_⟩
    · rw [hrequests]
      exact asked_length_le maxPages ""
    · intro packages
      change (listPages decode server maxPages [] "").result = .ok packages ↔ _
      rw [listPages_ok_iff]
      constructor
      · rintro ⟨parsed, hread, rfl⟩
        obtain ⟨hchain, hle⟩ := read_ok_iff.mp hread
        obtain ⟨hpages, hitems⟩ := chain_fetchPage_iff.mp hchain
        refine ⟨rfl, parsed.map Prod.fst, hpages, ?_, packagesOf_ok_iff.mpr ⟨parsed, rfl, hitems, rfl⟩⟩
        rwa [List.length_map]
      · rintro ⟨-, pages, hpages, hle, hpackages⟩
        obtain ⟨parsed, rfl, hitems, rfl⟩ := packagesOf_ok_iff.mp hpackages
        rw [List.length_map] at hle
        exact ⟨parsed, read_ok_iff.mpr ⟨chain_fetchPage_iff.mpr ⟨hpages, hitems⟩, hle⟩, rfl⟩
    · intro hwrong
      cases hresult : listing.result with
      | error e => exact ⟨e, rfl⟩
      | ok packages =>
        exfalso
        obtain ⟨parsed, hread, -⟩ := listPages_ok_iff.mp hresult
        have hchain := (read_ok_iff.mp hread).1
        have hasked : listing.requests = tokens (fun page => page.1.nextToken) "" parsed :=
          hrequests.trans (asked_of_ok hread)
        rcases hwrong with hrepeated | ⟨token, htoken, hfailed⟩
        · exact hrepeated (hasked ▸ hchain.nodup)
        · obtain ⟨page, -, hfetch⟩ := hchain.fetched (hasked ▸ htoken)
          obtain ⟨hpage, hitems⟩ := fetchPage_ok_iff.mp hfetch
          obtain ⟨e, herror⟩ := hfailed page.1 hpage
          cases hitems.symm.trans herror

end Listing

/-! ## An empty page in the middle -/

def pageText (list next : String) : String :=
  "\x7b\"Result\":\x7b\"List\":[" ++ list ++ "],\"NextToken\":\"" ++ next ++ "\"\x7d\x7d"

def itemText (id : String) : String :=
  "\x7b\"InstanceNo\":\"" ++ id ++ "\",\"TotalAmount\":\"1\",\"AvailableAmount\":\"1\"\x7d"

def oneByte (id : String) : Item where
  instanceNo := id
  totalAmount := "1"
  availableAmount := "1"

/-- Three pages, the second of them without items. -/
def emptyMiddle (token : String) : Reply :=
  if token = "" then .response 200 (pageText (itemText "p") "a")
  else if token = "a" then .response 200 (pageText "" "b")
  else .response 200 (pageText (itemText "q") "")

/-- What the JSON library makes of these pages. -/
def decodeMiddle (text : String) : Option Envelope :=
  if text = pageText (itemText "p") "a" then some { result := some ⟨[oneByte "p"], "a"⟩ }
  else if text = pageText "" "b" then some { result := some ⟨[], "b"⟩ }
  else if text = pageText (itemText "q") "" then some { result := some ⟨[oneByte "q"], ""⟩ }
  else none

theorem chain_emptyMiddle :
    Chain (requestPage decodeMiddle emptyMiddle) (fun _ page => page.nextToken.isEmpty)
      Page.nextToken "" [⟨[oneByte "p"], "a"⟩, ⟨[], "b"⟩, ⟨[oneByte "q"], ""⟩] := by
  refine .next (by decide +kernel) (by decide +kernel) ?_
  refine .next (by decide +kernel) (by decide +kernel) ?_
  exact .last (by decide +kernel) (by decide +kernel)

/-- The listing ends well at the empty page, without the package of the page after it. -/
theorem not_complete_emptyMiddle :
    ¬ ∀ (decode : String → Option Envelope) (server : String → Reply) (packages : List Package),
      (listTrafficPackages decode server (.ok ())).result = .ok packages →
        ∃ pages, Chain (requestPage decode server) (fun _ page => page.nextToken.isEmpty)
          Page.nextToken "" pages ∧ packagesOf pages = .ok packages := by
  intro hall
  obtain ⟨pages, hchain, hpackages⟩ := hall decodeMiddle emptyMiddle
    [⟨"p", "", "", 1, 1, "", ""⟩] (by decide +kernel)
  rw [hchain.unique chain_emptyMiddle] at hpackages
  have hboth : packagesOf [⟨[oneByte "p"], "a"⟩, ⟨[], "b"⟩, ⟨[oneByte "q"], ""⟩] =
      .ok [⟨"p", "", "", 1, 1, "", ""⟩, ⟨"q", "", "", 1, 1, "", ""⟩] := by decide +kernel
  cases hboth.symm.trans hpackages

end PortsBox.Volcengine
